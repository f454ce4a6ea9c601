/-
The search for the schema file of a project.

* `Stage`: the stages of the search, `Stage.Holds` what is there for them and `Stage.Gives` what
  they give;
* `detect_priority`: the search never fails and gives the hit of the first stage that holds
  anything, whatever the later ones hold, and a request is answered with that hit;
* `detect_hidden_directory`: the one place where a directory is passed over although it holds a file
  with the suffix: its path has an empty part right behind a point at its start.
-/
import SchemaReader.Analysis
import SchemaReader.Proofs.Detection.Stages

namespace SchemaReader

/-! ### Stages -/

/-- A stage of the search. -/
inductive Stage where
  | modelFiles
  | tableModules
  | suffixedModules
  | scripts
  | migrations
  deriving DecidableEq

/-- The stages in the order in which they are asked. -/
def Stage.inOrder : List Stage :=
  [.modelFiles, .tableModules, .suffixedModules, .scripts, .migrations]

section Stages

variable (tree : FileTree) (places : SearchPlaces) (root : List Char)

/-- There is something for a stage to find. -/
def Stage.Holds : Stage → Prop
  | .modelFiles => ∃ name ∈ places.modelFiles, tree.isFile (joinPath root name.toList) = true
  | .tableModules => ∃ name ∈ places.tableModules, tree.isFile (joinPath root name.toList) = true
  | .suffixedModules => ∃ name ∈ places.tableModuleDirs,
      HoldsModule tree (joinPath root name.toList) places.tableModuleSuffix
  | .scripts => ∃ name ∈ places.scripts, tree.isFile (joinPath root name.toList) = true
  | .migrations => ∃ name ∈ places.migrationDirs, HoldsScript tree (joinPath root name.toList)

/-- The path of what a stage finds. -/
def Stage.GivesPath : Stage → List Char → Prop
  | .modelFiles => FirstFile tree root places.modelFiles
  | .tableModules => FirstFile tree root places.tableModules
  | .suffixedModules => FirstWith
      (fun name => HoldsModule tree (joinPath root name.toList) places.tableModuleSuffix)
      (fun name => LeastModule tree (joinPath root name.toList) places.tableModuleSuffix)
      places.tableModuleDirs
  | .scripts => FirstFile tree root places.scripts
  | .migrations => FirstWith (fun name => HoldsScript tree (joinPath root name.toList))
      (fun name path => ∃ file, path = joinPath (joinPath root name.toList) file ∧
        ChosenScript tree (joinPath root name.toList) file) places.migrationDirs

/-- The kind of what a stage finds. -/
def Stage.source : Stage → Source
  | .modelFiles => .prisma
  | .tableModules => .drizzle
  | .suffixedModules => .drizzle
  | .scripts => .sql
  | .migrations => .sql

/-- What a stage finds. -/
def Stage.Gives (stage : Stage) (hit : Detected) : Prop :=
  hit.source = stage.source ∧ stage.GivesPath tree places root hit.path

/-- The path that a stage comes to. -/
def Stage.path? : Stage → Option (List Char)
  | .modelFiles => firstFile? tree root places.modelFiles
  | .tableModules => firstFile? tree root places.tableModules
  | .suffixedModules => places.tableModuleDirs.findSome? fun name =>
      leastModule? tree places.tableModuleSuffix (joinPath root name.toList)
  | .scripts => firstFile? tree root places.scripts
  | .migrations => migration? tree root places.migrationDirs

/-- The hit that a stage comes to. -/
def Stage.hit? (stage : Stage) : Option Detected :=
  (stage.path? tree places root).map fun path => ⟨path, stage.source⟩

lemma Stage.answer_path? (stage : Stage) :
    Answer (stage.path? tree places root) (stage.Holds tree places root)
      (stage.GivesPath tree places root) := by
  cases stage with
  | modelFiles => exact answer_firstFile? tree root _
  | tableModules => exact answer_firstFile? tree root _
  | suffixedModules => exact answer_suffixedModule tree root _ _
  | scripts => exact answer_firstFile? tree root _
  | migrations => exact answer_migration? tree root _

/-- Each stage comes to what it gives. -/
theorem Stage.answer_hit? (stage : Stage) :
    Answer (stage.hit? tree places root) (stage.Holds tree places root)
      (stage.Gives tree places root) where
  some_iff hit := by
    rw [hit?, Option.map_eq_some_iff]
    constructor
    · rintro ⟨path, hpath, rfl⟩
      exact ⟨rfl, ((stage.answer_path? tree places root).some_iff path).mp hpath⟩
    · rintro ⟨hsource, hpath⟩
      exact ⟨hit.path, ((stage.answer_path? tree places root).some_iff _).mpr hpath,
        by rw [← hsource]⟩
  none_iff := by
    rw [hit?, Option.map_eq_none_iff]
    exact (stage.answer_path? tree places root).none_iff

/-- The suffix of table modules has neither signs of patterns nor slashes. -/
def SearchPlaces.HasPlainSuffix : Prop :=
  ∀ c ∈ places.tableModuleSuffix.toList, ¬ IsGlobSign c ∧ c ≠ '/'

instance : Decidable places.HasPlainSuffix :=
  inferInstanceAs (Decidable (∀ c ∈ places.tableModuleSuffix.toList, _))

end Stages

variable {tree : FileTree} {places : SearchPlaces} {root path : List Char}

/-! ### The search -/

/-- The search asks the stages one after the other. -/
theorem detect_eq (hproper : tree.root.Proper) (hplain : places.HasPlainSuffix) :
    detect tree places root = .ok (Stage.inOrder.findSome? (Stage.hit? tree places root)) := by
  have hsuffixed : suffixedModule tree root places.tableModuleSuffix places.tableModuleDirs = _ :=
    suffixedModule_ok hproper (fun c hc => (hplain c hc).1) fun hslash => (hplain _ hslash).2 rfl
  rw [detect, hsuffixed]
  simp only [Stage.inOrder, List.findSome?_cons, List.findSome?_nil, Stage.hit?, Stage.path?,
    Stage.source]
  cases firstFile? tree root places.modelFiles with
  | some => rfl
  | none => cases firstFile? tree root places.tableModules with
    | some => rfl
    | none =>
        cases places.tableModuleDirs.findSome? fun name =>
          leastModule? tree places.tableModuleSuffix (joinPath root name.toList) with
        | some => rfl
        | none => cases firstFile? tree root places.scripts with
          | some => rfl
          | none => cases migration? tree root places.migrationDirs <;> rfl

/-! ### What is found is a file -/

lemma LeastModule.isFile {directory : List Char} {suffix : String} (hproper : tree.root.Proper)
    (h : LeastModule tree directory suffix path) : tree.isFile path = true := by
  have hfound := ((answer_leastModule? tree suffix directory).some_iff path).mpr h
  obtain ⟨-, name, -, ⟨⟨entries, content, hnode, -⟩, -⟩, -⟩ := h
  rw [leastModule?, ← firstFitting?_suffixPattern hproper
    (FileTree.isDirectory_iff.mpr ⟨entries, hnode⟩), firstFitting?,
    Option.map_eq_some_iff] at hfound
  obtain ⟨found, hfind, rfl⟩ := hfound
  have hfile := List.find?_some hfind
  exact hfile

lemma FirstFile.isFile {names : List String} (h : FirstFile tree root names path) :
    tree.isFile path = true := by
  obtain ⟨-, -, -, -, ⟨-, hfile⟩, -⟩ := h
  exact hfile

lemma ChosenScript.isFile {directory name : List Char} (hproper : tree.root.Proper)
    (h : ChosenScript tree directory name) : tree.isFile (joinPath directory name) = true := by
  have hfile : tree.HasFile directory name := by
    obtain ⟨⟨⟨hfile, -⟩, -⟩, -⟩ | ⟨-, ⟨hfile, -⟩, -⟩ := h <;> exact hfile
  exact hfile.isFile_joinPath hproper

lemma Stage.Gives.isFile {stage : Stage} {hit : Detected} (hproper : tree.root.Proper)
    (h : stage.Gives tree places root hit) : tree.isFile hit.path = true := by
  obtain ⟨-, hpath⟩ := h
  cases stage with
  | modelFiles => exact FirstFile.isFile hpath
  | tableModules => exact FirstFile.isFile hpath
  | suffixedModules =>
      obtain ⟨-, name, -, -, hleast, -⟩ := hpath
      exact hleast.isFile hproper
  | scripts => exact FirstFile.isFile hpath
  | migrations =>
      obtain ⟨-, name, -, -, ⟨file, hfile, hchosen⟩, -⟩ := hpath
      rw [hfile]
      exact hchosen.isFile hproper

/-! ### Answers to requests -/

lemma schema_ofTextNoted (source : Source) (text : List Char) (rawPath : String) :
    (Schema.ofTextNoted source text rawPath).1.source = source ∧
      (Schema.ofTextNoted source text rawPath).1.rawPath = rawPath := by
  cases source <;> exact ⟨rfl, rfl⟩

lemma respond_some {hit : Detected} (hfile : tree.isFile hit.path = true) :
    ∃ response notices, respond tree (some hit) = .ok (response, notices) ∧
      response.error = none ∧ response.schema.source = hit.source ∧
      response.schema.rawPath = String.ofList hit.path := by
  obtain ⟨content, hnode⟩ := FileTree.isFile_iff.mp hfile
  have hread : tree.read hit.path = .ok content := by
    rw [FileTree.node?] at hnode
    rw [FileTree.read]
    cases hreach : tree.node hit.path with
    | error => rw [hreach] at hnode; cases hnode
    | ok node =>
        rw [hreach] at hnode
        cases hnode
        rfl
  rw [respond, analyzeFile, hread]
  exact ⟨_, _, rfl, rfl, schema_ofTextNoted _ _ _⟩

/-! ### Priority -/

/-- Two searches have the same stages up to one of them. -/
def AgreeUpTo (tree tree' : FileTree) (places places' : SearchPlaces) (root : List Char)
    (stages : List Stage) : Prop :=
  ∀ stage ∈ stages, (stage.Holds tree' places' root ↔ stage.Holds tree places root) ∧
    ∀ hit, stage.Gives tree' places' root hit ↔ stage.Gives tree places root hit

lemma answer_stages (tree : FileTree) (places : SearchPlaces) (root : List Char)
    (stages : List Stage) :
    Answer (stages.findSome? (Stage.hit? tree places root))
      (∃ stage ∈ stages, stage.Holds tree places root)
      (FirstWith (Stage.Holds tree places root) (Stage.Gives tree places root) stages) :=
  Answer.findSome? fun stage _ => stage.answer_hit? tree places root

/-- Stages that hold the same and give the same come to the same hit. -/
lemma AgreeUpTo.findSome? {tree' : FileTree} {places' : SearchPlaces} {stages : List Stage}
    (h : AgreeUpTo tree tree' places places' root stages) :
    stages.findSome? (Stage.hit? tree' places' root)
      = stages.findSome? (Stage.hit? tree places root) := by
  have hhit : ∀ stage ∈ stages, stage.hit? tree' places' root = stage.hit? tree places root := by
    intro stage hstage
    apply Option.ext
    intro hit
    rw [(stage.answer_hit? tree' places' root).some_iff,
      (stage.answer_hit? tree places root).some_iff]
    exact (h stage hstage).2 hit
  rw [← List.head?_filterMap, ← List.head?_filterMap, List.filterMap_congr hhit]

/-- Once a stage holds something, the later ones are not asked. -/
lemma findSome?_of_holds {before after : List Stage} {stage : Stage}
    (h : stage.Holds tree places root) :
    (before ++ stage :: after).findSome? (Stage.hit? tree places root)
      = (before ++ [stage]).findSome? (Stage.hit? tree places root) := by
  have hne : stage.hit? tree places root ≠ none := fun hnone =>
    (stage.answer_hit? tree places root).none_iff.mp hnone h
  obtain ⟨hit, hhit⟩ := Option.ne_none_iff_exists'.mp hne
  simp [List.findSome?_append, hhit]

/-- The search never fails.  It gives the hit of the first stage that holds anything, and nothing
just if no stage holds anything; what is found is a file, and the stages behind the one that gives
it do not matter.  The response to a request has an error just if nothing was found, and otherwise
the kind and the path of what was. -/
theorem detect_priority (root : List Char) (hproper : tree.root.Proper)
    (hplain : places.HasPlainSuffix) :
    ∃ result, detect tree places root = .ok result ∧
      (∀ hit, result = some hit ↔
        FirstWith (Stage.Holds tree places root) (Stage.Gives tree places root) Stage.inOrder hit) ∧
      (result = none ↔ ∀ stage : Stage, ¬ stage.Holds tree places root) ∧
      (∀ hit, result = some hit → tree.isFile hit.path = true) ∧
      (∀ before stage after, Stage.inOrder = before ++ stage :: after →
        stage.Holds tree places root → ∀ tree' : FileTree, ∀ places' : SearchPlaces,
          tree'.root.Proper → places'.HasPlainSuffix →
          AgreeUpTo tree tree' places places' root (before ++ [stage]) →
          detect tree' places' root = .ok result) ∧
      ∀ request : Request, request.root = root →
        ∃ response notices, handle tree places request = .ok (response, notices) ∧
          (response.error.isSome = true ↔ result = none) ∧
          ∀ hit, result = some hit → response.schema.source = hit.source ∧
            response.schema.rawPath = String.ofList hit.path := by
  have hanswer := answer_stages tree places root Stage.inOrder
  have hfile : ∀ hit, Stage.inOrder.findSome? (Stage.hit? tree places root) = some hit →
      tree.isFile hit.path = true := by
    intro hit hhit
    obtain ⟨-, stage, -, -, hgives, -⟩ := (hanswer.some_iff hit).mp hhit
    exact hgives.isFile hproper
  refine ⟨_, detect_eq hproper hplain, hanswer.some_iff, ?none, hfile, ?later, ?request⟩
  case none =>
    rw [hanswer.none_iff]
    refine ⟨fun h stage hholds => h ⟨stage, ?_, hholds⟩, fun h ⟨stage, _, hholds⟩ => h stage hholds⟩
    cases stage <;> decide
  case later =>
    intro before stage after horder hholds tree' places' hproper' hplain' hagree
    have hholds' := (hagree stage (by simp)).1.mpr hholds
    rw [detect_eq hproper' hplain', horder, findSome?_of_holds hholds', findSome?_of_holds hholds,
      hagree.findSome?]
  case request =>
    rintro request rfl
    rw [handle, analyze, detect_eq hproper hplain]
    cases hfound : Stage.inOrder.findSome? (Stage.hit? tree places request.root) with
    | none => exact ⟨_, _, rfl, by simp [Response.notFound], by simp⟩
    | some hit =>
        obtain ⟨response, notices, hrespond, herror, hschema⟩ := respond_some (hfile hit hfound)
        dsimp only
        rw [hrespond]
        refine ⟨_, _, rfl, by simp [herror], ?_⟩
        rintro hit' heq
        obtain rfl := Option.some.inj heq
        exact hschema

/-- A project with signs of patterns in the name of a directory, and with a script behind. -/
def sampleProject : FileTree where
  root := .directory [
    ("p".toList, .directory [
      ("a*[1]".toList, .directory [
        ("b.schema.ts".toList, .file []),
        ("a.schema.ts".toList, .file []),
        ("A.schema.ts".toList, .directory [])]),
      ("a11".toList, .directory [("0.schema.ts".toList, .file [])])]),
    ("schema.sql".toList, .file [])]
  current := []

/-- Where its schema is looked for. -/
def samplePlaces : SearchPlaces where
  modelFiles := []
  tableModules := ["a11"]
  tableModuleDirs := ["b", "a*[1]"]
  tableModuleSuffix := ".schema.ts"
  scripts := ["../schema.sql"]
  migrationDirs := []

theorem detect_priority_sampleProject : sampleProject.root.Proper ∧ samplePlaces.HasPlainSuffix ∧
    detect sampleProject samplePlaces "p".toList
      = .ok (some ⟨"p/a*[1]/a.schema.ts".toList, .drizzle⟩) := by
  have hproper : sampleProject.root.Proper := by
    simp only [sampleProject, Node.proper_directory, Node.proper_file, List.forall_mem_cons,
      List.not_mem_nil, false_imp_iff, implies_true]
    decide
  have hplain : samplePlaces.HasPlainSuffix := by decide
  have hnothing : ∀ stage ∈ [Stage.modelFiles, .tableModules],
      ¬ stage.Holds sampleProject samplePlaces "p".toList := by
    refine List.forall_mem_cons.mpr ⟨?_, List.forall_mem_singleton.mpr ?_⟩
    · rintro ⟨name, hname, -⟩
      cases hname
    · rintro ⟨name, hname, hfile⟩
      obtain rfl := List.mem_singleton.mp hname
      exact absurd hfile (by decide)
  have hmissing : ∀ name ∈ ["b"],
      ¬ HoldsModule sampleProject (joinPath "p".toList name.toList) ".schema.ts" := by
    rintro name hname ⟨-, -, ⟨entries, content, hnode, -⟩, -⟩
    obtain rfl := List.mem_singleton.mp hname
    have hnone : sampleProject.node? (joinPath "p".toList "b".toList) = none := rfl
    rw [hnone] at hnode
    cases hnode
  have hleast : LeastModule sampleProject (joinPath "p".toList "a*[1]".toList) ".schema.ts"
      "p/a*[1]/a.schema.ts".toList := by
    refine ⟨by decide, "a.schema.ts".toList, rfl, ⟨⟨_, [], rfl, by simp⟩, by decide⟩, ?_⟩
    rintro other ⟨⟨entries, content, hnode, hmem⟩, -⟩
    have hmodules : sampleProject.node? (joinPath "p".toList "a*[1]".toList) = some (.directory [
      ("b.schema.ts".toList, .file []), ("a.schema.ts".toList, .file []),
      ("A.schema.ts".toList, .directory [])]) := rfl
    rw [hmodules] at hnode
    cases hnode
    simp only [List.mem_cons, Prod.mk.injEq, reduceCtorEq, and_false, List.not_mem_nil,
      or_false] at hmem
    obtain ⟨rfl, -⟩ | ⟨rfl, -⟩ := hmem <;> decide
  obtain ⟨result, hdetect, hsome, -⟩ := detect_priority "p".toList hproper hplain
  have hresult := (hsome ⟨"p/a*[1]/a.schema.ts".toList, .drizzle⟩).mpr
    ⟨_, .suffixedModules, [.scripts, .migrations], rfl,
      ⟨rfl, _, "a*[1]", [], rfl, hleast, hmissing⟩, hnothing⟩
  exact ⟨hproper, hplain, hresult ▸ hdetect⟩

/-- A project with a table module in its root. -/
def bareProject : FileTree where
  root := .directory [("q.schema.ts".toList, .file [])]
  current := []

/-- Table modules are looked for in the root itself, by the empty path. -/
def barePlaces : SearchPlaces where
  modelFiles := []
  tableModules := []
  tableModuleDirs := [""]
  tableModuleSuffix := ".schema.ts"
  scripts := []
  migrationDirs := []

/-- The table module in the root goes unseen: the path of its directory is a point and a slash, and
the search loses the point. -/
theorem detect_hidden_directory : bareProject.root.Proper ∧ barePlaces.HasPlainSuffix ∧
    bareProject.HasFile (joinPath ['.'] "".toList) "q.schema.ts".toList ∧
    barePlaces.tableModuleSuffix.toList <:+ "q.schema.ts".toList ∧
    detect bareProject barePlaces ['.'] = .ok none := by
  refine ⟨?_, by decide, ⟨_, [], rfl, List.mem_cons_self⟩, by decide, rfl⟩
  simp only [bareProject, Node.proper_directory, Node.proper_file, List.forall_mem_cons,
      List.not_mem_nil, false_imp_iff, implies_true]
  decide

end SchemaReader
