/-
The stages of the search for a schema file.

* `FirstWith`: what the first one of a list gives that holds anything at all;
* `Answer`: a search finds just what is described, and nothing just if nothing is there;
* `FirstFile`, `LeastModule`, `ChosenScript`: what the stages look for, said without the way in
  which they look;
* `answer_firstFile?`, `answer_suffixedModule`, `answer_migration?`: the stages find just that.
-/
import Mathlib.Data.List.TakeDrop
import SchemaReader.Proofs.Glob.Directory

namespace SchemaReader

/-! ### The first in a list -/

/-- What the first one of a list gives that holds anything at all. -/
def FirstWith {α β : Type} (holds : α → Prop) (gives : α → β → Prop) (xs : List α) (y : β) : Prop :=
  ∃ before x after, xs = before ++ x :: after ∧ gives x y ∧ ∀ z ∈ before, ¬ holds z

/-- A search finds just what is given, and nothing just if nothing is held. -/
structure Answer {β : Type} (found : Option β) (holds : Prop) (gives : β → Prop) : Prop where
  some_iff : ∀ y, found = some y ↔ gives y
  none_iff : found = none ↔ ¬ holds

/-- Asking one after the other finds what the first one gives that holds anything. -/
theorem Answer.findSome? {α β : Type} {f : α → Option β} {holds : α → Prop} {gives : α → β → Prop}
    {xs : List α} (h : ∀ x ∈ xs, Answer (f x) (holds x) (gives x)) :
    Answer (xs.findSome? f) (∃ x ∈ xs, holds x) (FirstWith holds gives xs) where
  some_iff y := by
    rw [List.findSome?_eq_some_iff]
    refine exists_congr fun before => exists_congr fun x => exists_congr fun after =>
      and_congr_right ?_
    rintro rfl
    have hbefore : ∀ z ∈ before, (f z = none ↔ ¬ holds z) := fun z hz =>
      (h z (by simp [hz])).none_iff
    rw [(h x (by simp)).some_iff y, forall₂_congr hbefore]
  none_iff := by
    rw [List.findSome?_eq_none_iff, forall₂_congr fun x hx => (h x hx).none_iff]
    simp

variable {tree : FileTree} {root directory name path : List Char} {names : List String}

/-! ### Files by their paths -/

/-- The first of the named paths that leads to a file. -/
def FirstFile (tree : FileTree) (root : List Char) (names : List String) (path : List Char) :
    Prop :=
  FirstWith (fun name => tree.isFile (joinPath root name.toList) = true)
    (fun name path => path = joinPath root name.toList ∧ tree.isFile path = true) names path

theorem answer_firstFile? (tree : FileTree) (root : List Char) (names : List String) :
    Answer (firstFile? tree root names) (∃ name ∈ names, tree.isFile (joinPath root name.toList))
      (FirstFile tree root names) := by
  have hfind : firstFile? tree root names
      = names.findSome? fun name => Option.guard (fun path => tree.isFile path)
        (joinPath root name.toList) := by
    rw [firstFile?, candidates, List.find?_eq_findSome?_guard, List.findSome?_map]
    rfl
  rw [hfind]
  refine Answer.findSome? fun name _ => ⟨fun path => ?_, by simp⟩
  rw [Option.guard_eq_some_iff]
  constructor
  · rintro ⟨rfl, hfile⟩
    exact ⟨rfl, hfile⟩
  · rintro ⟨rfl, hfile⟩
    exact ⟨rfl, hfile⟩

/-! ### Table modules by their suffix -/

/-- A directory holds a file with a suffix, and its path does not hide it. -/
def HoldsModule (tree : FileTree) (directory : List Char) (suffix : String) : Prop :=
  ¬ HidesFromSearch directory ∧ ∃ name, tree.HasFile directory name ∧ suffix.toList <:+ name

/-- The file of the least name in a directory among those that end in a suffix, by the path that the
search writes for it, if the directory's path does not hide it. -/
def LeastModule (tree : FileTree) (directory : List Char) (suffix : String) (path : List Char) :
    Prop :=
  ¬ HidesFromSearch directory ∧ ∃ name, path = tidyPath directory name ∧
    IsLeast {name | tree.HasFile directory name ∧ suffix.toList <:+ name} name

/-- What the search for modules finds in a directory. -/
def leastModule? (tree : FileTree) (suffix : String) (directory : List Char) : Option (List Char) :=
  if HidesFromSearch directory then none
  else ((tree.fileNames directory).find? fun name => suffix.toList.isSuffixOf name).map
    (tidyPath directory)

lemma answer_leastModule? (tree : FileTree) (suffix : String) (directory : List Char) :
    Answer (leastModule? tree suffix directory) (HoldsModule tree directory suffix)
      (LeastModule tree directory suffix) := by
  by_cases hhides : HidesFromSearch directory
  · exact ⟨by simp [leastModule?, LeastModule, hhides], by simp [leastModule?, HoldsModule, hhides]⟩
  · refine ⟨fun path => ?_, ?_⟩
    · simp only [leastModule?, LeastModule, hhides, if_false, not_false_eq_true, true_and,
        Option.map_eq_some_iff, find?_eq_some_iff_isLeast (tree.fileNames_sorted directory),
        FileTree.mem_fileNames, List.isSuffixOf_iff_suffix]
      exact exists_congr fun name => ⟨fun h => ⟨h.2.symm, h.1⟩, fun h => ⟨h.2, h.1.symm⟩⟩
    · simp [leastModule?, HoldsModule, hhides, FileTree.mem_fileNames]

/-- Nothing stands in a directory that is not there. -/
lemma leastModule?_of_not_isDirectory {suffix : String} (h : ¬ tree.isDirectory directory = true) :
    leastModule? tree suffix directory = none := by
  rw [(answer_leastModule? tree suffix directory).none_iff]
  rintro ⟨-, name, ⟨entries, content, hnode, -⟩, -⟩
  exact h (FileTree.isDirectory_iff.mpr ⟨entries, hnode⟩)

/-- A suffix without signs of patterns and slashes never makes the search fail. -/
theorem suffixedModule_ok {suffix : String} (hproper : tree.root.Proper)
    (hplain : ∀ c ∈ suffix.toList, ¬ IsGlobSign c) (hslash : '/' ∉ suffix.toList) :
    suffixedModule tree root suffix names
      = .ok (names.findSome? fun name => leastModule? tree suffix (joinPath root name.toList)) := by
  induction names with
  | nil => rfl
  | cons name names ih =>
      rw [suffixedModule, List.findSome?_cons]
      split
      case isTrue hdirectory =>
        obtain ⟨entries, hnode⟩ := FileTree.isDirectory_iff.mp hdirectory
        obtain ⟨place, hplace, -⟩ := FileTree.exists_locate_of_node? hnode
        rw [GlobPattern.ofText_suffixPattern (FileTree.ne_nil_of_locate hplace).1 hplain hslash]
        simp only [bind, Except.bind]
        rw [firstFitting?_suffixPattern hproper hdirectory, ← leastModule?]
        cases leastModule? tree suffix (joinPath root name.toList) with
        | none => exact ih
        | some path => rfl
      case isFalse hdirectory => rw [ih, leastModule?_of_not_isDirectory hdirectory]

/-- The modules that are found are the least ones of the first directory that holds any. -/
theorem answer_suffixedModule (tree : FileTree) (root : List Char) (suffix : String)
    (names : List String) :
    Answer (names.findSome? fun name => leastModule? tree suffix (joinPath root name.toList))
      (∃ name ∈ names, HoldsModule tree (joinPath root name.toList) suffix)
      (FirstWith (fun name => HoldsModule tree (joinPath root name.toList) suffix)
        (fun name => LeastModule tree (joinPath root name.toList) suffix) names) :=
  Answer.findSome? fun name _ => answer_leastModule? tree suffix (joinPath root name.toList)

/-! ### Migrations -/

/-- The name of a script: it ends in a point and the three letters, and has something before. -/
def IsScriptName (name : List Char) : Prop := ∃ stem, stem ≠ [] ∧ name = stem ++ ".sql".toList

/-- A name that says, in letters of any case, that the file holds the whole schema. -/
def NamesWholeSchema (name : List Char) : Prop :=
  "schema".toList <:+: Text.lower name ∨ "init".toList <:+: Text.lower name

/-- A directory holds a script. -/
def HoldsScript (tree : FileTree) (directory : List Char) : Prop :=
  ∃ name, tree.HasFile directory name ∧ IsScriptName name

/-- The script to read in a directory: the one of the least name that says that it holds the whole
schema, or, if no script does, the one of the greatest name. -/
def ChosenScript (tree : FileTree) (directory name : List Char) : Prop :=
  let scripts := {name | tree.HasFile directory name ∧ IsScriptName name}
  IsLeast {name ∈ scripts | NamesWholeSchema name} name ∨
    (∀ name ∈ scripts, ¬ NamesWholeSchema name) ∧ IsGreatest scripts name

lemma hasExtension_iff {extension : List Char} (hne : extension ≠ []) (hpoint : '.' ∉ extension) :
    hasExtension extension name = true ↔ ∃ stem, stem ≠ [] ∧ name = stem ++ '.' :: extension := by
  rw [hasExtension, List.span_eq_takeWhile_dropWhile]
  constructor
  · intro h
    split at h
    case h_2 => cases h
    case h_1 last before heq =>
      obtain ⟨htake, hdrop⟩ := Prod.mk.inj heq
      simp only [Bool.and_eq_true, beq_iff_eq, Bool.not_eq_true', bne_iff_ne] at h
      obtain ⟨⟨hlast, hbefore⟩, -⟩ := h
      refine ⟨before.reverse, by simpa using hbefore, ?_⟩
      have hname : name.reverse = last ++ '.' :: before := by
        rw [← htake, ← hdrop, List.takeWhile_append_dropWhile]
      rw [← List.reverse_reverse name, hname, ← hlast]
      simp
  · rintro ⟨stem, hstem, rfl⟩
    have hall : ∀ c ∈ extension.reverse, (c != '.') = true := by
      intro c hc
      rw [bne_iff_ne]
      rintro rfl
      exact hpoint (List.mem_reverse.mp hc)
    have hreverse : (stem ++ '.' :: extension).reverse
        = extension.reverse ++ '.' :: stem.reverse := by simp
    have hpoints : stem ++ '.' :: extension ≠ ['.', '.'] := by
      intro heq
      have hlength := congrArg List.length heq
      have := List.length_pos_of_ne_nil hstem
      have := List.length_pos_of_ne_nil hne
      simp only [List.length_append, List.length_cons, List.length_nil] at hlength
      omega
    rw [hreverse, List.takeWhile_append_of_pos hall, List.dropWhile_append_of_pos hall]
    simp [hstem, hpoints]

lemma occursIn_iff {part text : List Char} : Text.occursIn part text = true ↔ part <:+: text := by
  induction text with
  | nil => simp [Text.occursIn]
  | cons c text ih =>
      rw [Text.occursIn, Bool.or_eq_true, List.isPrefixOf_iff_prefix, ih, List.infix_cons_iff]

lemma namesWholeSchema_iff : namesWholeSchema name = true ↔ NamesWholeSchema name := by
  rw [namesWholeSchema, Bool.or_eq_true, occursIn_iff, occursIn_iff]
  rfl

lemma migrationScripts_eq (tree : FileTree) (directory : List Char) :
    migrationScripts tree directory
      = (tree.fileNames directory).filter fun name => hasExtension "sql".toList name := by
  rw [migrationScripts, FileTree.fileNames, List.filter_map, List.filter_filter]
  simp only [Function.comp_def, Bool.and_comm]

lemma mem_migrationScripts :
    name ∈ migrationScripts tree directory ↔ tree.HasFile directory name ∧ IsScriptName name := by
  rw [migrationScripts_eq, List.mem_filter, FileTree.mem_fileNames,
    hasExtension_iff (by decide) (by decide)]
  rfl

lemma migrationScripts_sorted (tree : FileTree) (directory : List Char) :
    (migrationScripts tree directory).Pairwise (· ≤ ·) := by
  rw [migrationScripts_eq]
  exact (tree.fileNames_sorted directory).filter _

lemma answer_chosenScript? (tree : FileTree) (directory : List Char) :
    Answer (chosenScript? (migrationScripts tree directory)) (HoldsScript tree directory)
      (ChosenScript tree directory) := by
  have hsorted := migrationScripts_sorted tree directory
  have hscripts : {name | name ∈ migrationScripts tree directory}
      = {name | tree.HasFile directory name ∧ IsScriptName name} :=
    Set.ext fun name => mem_migrationScripts
  refine ⟨fun name => ?_, ?_⟩
  · rw [chosenScript?, Option.or_eq_some_iff, find?_eq_some_iff_isLeast hsorted,
      getLast?_eq_some_iff_isGreatest hsorted, List.find?_eq_none, hscripts]
    simp only [namesWholeSchema_iff, mem_migrationScripts]
    rfl
  · rw [chosenScript?, Option.or_eq_none_iff, List.getLast?_eq_none_iff, HoldsScript,
      List.eq_nil_iff_forall_not_mem]
    simp only [mem_migrationScripts, List.find?_eq_none]
    push Not
    exact ⟨fun h => h.2, fun h => ⟨fun name hname => absurd hname (not_and.mpr (h name)), h⟩⟩

lemma migration?_eq_findSome? (tree : FileTree) (root : List Char) (names : List String) :
    migration? tree root names = names.findSome? fun name =>
      (chosenScript? (migrationScripts tree (joinPath root name.toList))).map
        (joinPath (joinPath root name.toList)) := by
  induction names with
  | nil => rfl
  | cons name names ih =>
      rw [List.findSome?_cons]
      unfold migration?
      dsimp only
      cases chosenScript? (migrationScripts tree (joinPath root name.toList)) with
      | none => exact ih
      | some script => rfl

/-- The migration that is found is the chosen script of the first directory that holds any. -/
theorem answer_migration? (tree : FileTree) (root : List Char) (names : List String) :
    Answer (migration? tree root names)
      (∃ name ∈ names, HoldsScript tree (joinPath root name.toList))
      (FirstWith (fun name => HoldsScript tree (joinPath root name.toList))
        (fun name path => ∃ file, path = joinPath (joinPath root name.toList) file ∧
          ChosenScript tree (joinPath root name.toList) file) names) := by
  rw [migration?_eq_findSome?]
  refine Answer.findSome? fun name _ => ?_
  have hchosen := answer_chosenScript? tree (joinPath root name.toList)
  refine ⟨fun path => ?_, by rw [Option.map_eq_none_iff, hchosen.none_iff]⟩
  simp only [Option.map_eq_some_iff, hchosen.some_iff]
  exact exists_congr fun file => ⟨fun h => ⟨h.2.symm, h.1⟩, fun h => ⟨h.2, h.1.symm⟩⟩

end SchemaReader
