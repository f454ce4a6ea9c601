/-
The schemas of scripts put together.

* `isSome_table?_draft`, `exists_relation_draft`: every created table and every foreign key of one
  is in the draft of the script;
* `within_draft_append`, `joins_draft`: a script behind created tables defines what it defines
  alone, and scripts about different tables define together what each of them defines;
* `Complete`: a script behind which no statement goes on;
* `ofText_surrounded`: a created table with other texts around it;
* `ofText_append_line`: the schema of two texts put together.
-/
import SchemaReader.Proofs.Backing.Script
import SchemaReader.Proofs.Ddl.JoinedScripts
import SchemaReader.Proofs.Schema.Parts

namespace SchemaReader.Ddl

open Text (Stops Mentions)
open Pattern

variable {before text : List Char} {d d₁ d₂ e : Draft} {script script₁ script₂ : Script}
  {statement : CreateTable} {names₁ names₂ : List String} {r : Relation}

/-! ### What a script leaves in its draft -/

/-- A created table adds its edges, then its table, with notices between them. -/
lemma exists_addTo_eq (statement : CreateTable) : ∃ notices notice, ∀ d, statement.addTo d
    = (((d.noteAll notices).addRelations statement.edges).note notice).addTable statement.table :=
  ⟨_, _, fun _ => rfl⟩

lemma grows_addCreated (d : Draft) (created : Option CreateTable) :
    d.Grows (addCreated d created) := by
  cases created with
  | none => exact d.grows_note _
  | some statement =>
      obtain ⟨notices, notice, hadd⟩ := exists_addTo_eq statement
      rw [addCreated, hadd]
      exact (d.grows_noteAll notices).trans ((Draft.grows_addRelations _ _).trans
        ((Draft.grows_note _ notice).trans (Draft.grows_addTable _ _)))

lemma grows_createIndex (d : Draft) (statement : CreateIndex) : d.Grows (statement.addTo d) := by
  rw [statement.addTo_eq]
  exact d.grows_amendTable _ (name_addNamedIndex _ _ _) _ _

lemma grows_addForeignKey (d : Draft) (statement : AddForeignKey) :
    d.Grows (statement.addTo d) := by
  rw [statement.addTo_eq]
  exact d.grows_amendTable _ (name_linkEdges _) _ _

/-- Behind a created table, a script leaves the table of its name and the relations where they
are. -/
lemma grows_draft (h : some statement ∈ script.tables) :
    ∃ d : Draft, (statement.addTo d).Grows script.draft := by
  obtain ⟨earlier, later, htables⟩ := List.append_of_mem h
  refine ⟨earlier.foldl addCreated .empty, ?_⟩
  simp only [Script.draft, htables, List.foldl_append, List.foldl_cons]
  refine (Draft.grows_foldl grows_addCreated later _).trans ?_
  exact (Draft.grows_foldl grows_createIndex _ _).trans (Draft.grows_foldl grows_addForeignKey _ _)

/-- Every created table is in the draft of the script, under its name. -/
theorem isSome_table?_draft (h : some statement ∈ script.tables) :
    (script.draft.table? statement.name).isSome = true := by
  obtain ⟨d, hgrows⟩ := grows_draft h
  obtain ⟨notices, notice, hadd⟩ := exists_addTo_eq statement
  refine isSome_table? (hgrows.names (List.mem_map.mpr ⟨statement.table, ?_, name_table statement⟩))
  rw [hadd]
  exact self_mem_putTable _ _

/-- Every foreign key of a created table has a relation along its edge. -/
theorem exists_relation_draft (h : some statement ∈ script.tables) (hr : r ∈ statement.edges) :
    ∃ s ∈ script.draft.relations, s.sameEdge r = true := by
  obtain ⟨d, hgrows⟩ := grows_draft h
  obtain ⟨notices, notice, hadd⟩ := exists_addTo_eq statement
  obtain ⟨s, hs, hedge⟩ := exists_edge_addRelations (d.noteAll notices) hr
  rw [hadd] at hgrows
  exact ⟨s, hgrows.relations hs, hedge⟩

/-! ### Scripts behind others -/

lemma within_addCreated (created : Option CreateTable) (h : d.Within e) :
    (addCreated d created).Within (addCreated e created) := by
  cases created with
  | none => exact (h.note_left _).note_right _
  | some statement =>
      obtain ⟨notices, notice, hadd⟩ := exists_addTo_eq statement
      rw [addCreated, addCreated, hadd, hadd]
      exact ((((h.noteAll notices).addRelations _).note_left notice).note_right notice).addTable _

lemma within_createIndex (statement : CreateIndex) (h : d.Within e) :
    (statement.addTo d).Within (statement.addTo e) := by
  rw [statement.addTo_eq, statement.addTo_eq]
  exact h.amendTable _ (name_addNamedIndex _ _ _) _ _

lemma within_addForeignKey (statement : AddForeignKey) (h : d.Within e) :
    (statement.addTo d).Within (statement.addTo e) := by
  rw [statement.addTo_eq, statement.addTo_eq]
  exact h.amendTable _ (name_linkEdges _) _ _

/-- Behind created tables, a script defines the tables and edges that it defines alone. -/
theorem within_draft_append (tables : List (Option CreateTable)) (script : Script) :
    script.draft.Within ((Script.mk tables [] []).append script).draft := by
  simp only [Script.draft, Script.append, List.nil_append, List.foldl_append]
  refine List.foldl_rel (List.foldl_rel (List.foldl_rel (Draft.within_empty _) ?_) ?_) ?_
  · exact fun created _ _ _ => within_addCreated created
  · exact fun statement _ _ _ => within_createIndex statement
  · exact fun statement _ _ _ => within_addForeignKey statement

/-! ### Scripts about different tables -/

/-- The names of the tables that a script creates. -/
def Script.created (script : Script) : List String :=
  script.tables.filterMap fun created => created.map CreateTable.name

/-- The names of the tables that the other statements of a script are about. -/
def Script.altered (script : Script) : List String :=
  script.indexes.map CreateIndex.table ++ script.foreignKeys.map AddForeignKey.table

/-- Two scripts create different tables, and none of them is about a table that the other one
creates. -/
structure Apart (script₁ script₂ : Script) : Prop where
  created : ∀ name ∈ script₁.created, name ∉ script₂.created
  left : ∀ name ∈ script₁.altered, name ∉ script₂.created
  right : ∀ name ∈ script₂.altered, name ∉ script₁.created

lemma mem_created (h : some statement ∈ script.tables) : statement.name ∈ script.created :=
  List.mem_filterMap.mpr ⟨_, h, rfl⟩

lemma keepsTo_addCreated {created : Option CreateTable} (h : d.KeepsTo names₁)
    (hname : ∀ statement ∈ created, statement.name ∈ names₁) :
    (addCreated d created).KeepsTo names₁ := by
  cases created with
  | none => exact h.note _
  | some statement =>
      obtain ⟨notices, notice, hadd⟩ := exists_addTo_eq statement
      have hmem := hname statement rfl
      rw [addCreated, hadd]
      refine (((h.noteAll notices).addRelations fun r hr => ?_).note notice).addTable ?_
      · rwa [fromTable_of_mem_createTable_edges hr]
      · rwa [name_table]

lemma joins_addCreated {created : Option CreateTable} (h : Draft.Joins names₁ names₂ d₁ d₂ e)
    (hname : ∀ statement ∈ created, statement.name ∉ names₁ ∧ statement.name ∈ names₂) :
    Draft.Joins names₁ names₂ d₁ (addCreated d₂ created) (addCreated e created) := by
  cases created with
  | none => exact (h.note_right _).note _
  | some statement =>
      obtain ⟨notices, notice, hadd⟩ := exists_addTo_eq statement
      have hnames := hname statement rfl
      rw [addCreated, addCreated, hadd, hadd]
      have hedges : ∀ r ∈ statement.edges, r.fromTable ∉ names₁ ∧ r.fromTable ∈ names₂ :=
        fun r hr => by rwa [fromTable_of_mem_createTable_edges hr]
      have hrelations := (h.noteAll_right notices).addRelations_right hedges
      refine ((hrelations.note_right notice).note notice).addTable_right ?_ ?_
      · rw [name_table]
        exact hnames.1
      · rw [name_table]
        exact hnames.2

lemma joins_createIndex_left {statement : CreateIndex} (h : Draft.Joins names₁ names₂ d₁ d₂ e)
    (hname : statement.table ∉ names₂) :
    Draft.Joins names₁ names₂ (statement.addTo d₁) d₂ (statement.addTo e) := by
  rw [statement.addTo_eq, statement.addTo_eq]
  exact h.amendTable_left hname (name_addNamedIndex _ _ _) (by simp) _

lemma joins_createIndex_right {statement : CreateIndex} (h : Draft.Joins names₁ names₂ d₁ d₂ e)
    (hname : statement.table ∉ names₁) :
    Draft.Joins names₁ names₂ d₁ (statement.addTo d₂) (statement.addTo e) := by
  rw [statement.addTo_eq, statement.addTo_eq]
  exact h.amendTable_right hname (name_addNamedIndex _ _ _) (by simp) _

lemma joins_addForeignKey_left {statement : AddForeignKey} (h : Draft.Joins names₁ names₂ d₁ d₂ e)
    (hname : statement.table ∉ names₂) :
    Draft.Joins names₁ names₂ (statement.addTo d₁) d₂ (statement.addTo e) := by
  rw [statement.addTo_eq, statement.addTo_eq]
  exact h.amendTable_left hname (name_linkEdges _) (fun _ => fromTable_of_mem_edges) _

lemma joins_addForeignKey_right {statement : AddForeignKey} (h : Draft.Joins names₁ names₂ d₁ d₂ e)
    (hname : statement.table ∉ names₁) :
    Draft.Joins names₁ names₂ d₁ (statement.addTo d₂) (statement.addTo e) := by
  rw [statement.addTo_eq, statement.addTo_eq]
  exact h.amendTable_right hname (name_linkEdges _) (fun _ => fromTable_of_mem_edges) _

/-- Scripts that are about different tables define together what each of them defines. -/
theorem joins_draft (h : Apart script₁ script₂) : Draft.Joins script₁.created script₂.created
    script₁.draft script₂.draft (script₁.append script₂).draft := by
  have hleft := List.forall_mem_append.mp h.left
  have hright := List.forall_mem_append.mp h.right
  rw [List.forall_mem_map, List.forall_mem_map] at hleft hright
  have hkeeps : (script₁.tables.foldl addCreated .empty).KeepsTo script₁.created := by
    refine List.foldlRecOn (motive := Draft.KeepsTo script₁.created) script₁.tables _
      (Draft.keepsTo_empty _) fun d hd created hcreated => keepsTo_addCreated hd ?_
    rintro statement rfl
    exact mem_created hcreated
  have hnew : ∀ created ∈ script₂.tables, ∀ statement ∈ created,
      statement.name ∉ script₁.created ∧ statement.name ∈ script₂.created := by
    rintro created hcreated statement rfl
    have hmem := mem_created hcreated
    exact ⟨fun hother => h.created _ hother hmem, hmem⟩
  have htables := (Draft.joins_empty hkeeps).foldl_right addCreated
    fun created hcreated _ _ hd => joins_addCreated hd (hnew created hcreated)
  have hindexes := (htables.foldl_left CreateIndex.addTo fun statement hmem _ _ hd =>
      joins_createIndex_left hd (hleft.1 statement hmem)).foldl_right CreateIndex.addTo
    fun statement hmem _ _ hd => joins_createIndex_right hd (hright.1 statement hmem)
  have hkeys := (hindexes.foldl_left AddForeignKey.addTo fun statement hmem _ _ hd =>
      joins_addForeignKey_left hd (hleft.2 statement hmem)).foldl_right AddForeignKey.addTo
    fun statement hmem _ _ hd => joins_addForeignKey_right hd (hright.2 statement hmem)
  simpa only [Script.draft, Script.append, List.foldl_append] using hkeys

/-! ### Texts put together -/

/-- A script without quoted or bracketed names and without comments, in which a closing parenthesis
follows each opening one and the lists of tables and indexes are closed, and which ends with a
semicolon. -/
structure Complete (text : List Char) : Prop where
  plain : ∀ c ∈ text, opensNamePart c = false
  uncommented : NoCommentSign .script text
  shut : ∀ a b, text = a ++ '(' :: b → ')' ∈ b
  closed : ClosesLists text
  ends : text.getLast? = some ';'

/-- Where there are no other brackets, balanced parentheses are enough. -/
lemma complete_of_balanced (hplain : ∀ c ∈ text, isQuoteOrBracket c = false)
    (hcomment : NoCommentSign .script text) (hbalanced : Balanced .script text)
    (hend : text.getLast? = some ';') : Complete text := by
  have hclosed : ClosesParens text := closesParens_of_balanced hbalanced hplain
  refine ⟨fun c hc => ?_, hcomment, fun a b hab => (hclosed a b hab).1,
    closesLists_of_closesParens hclosed, hend⟩
  have := hplain c hc
  simp_all [isQuoteOrBracket, isQuote, opensNamePart]

/-- No statement goes on behind a complete script. -/
lemma Complete.staysIn (h : Complete text) {q : Pattern} (hq : q ∈ heads) (next : List Char) :
    q.StaysIn text next := by
  obtain ⟨v, rfl⟩ := List.getLast?_eq_some_iff.mp h.ends
  exact (stopsShort_of_mem_heads h.plain h.shut hq).staysIn next

lemma OpensCreate.append (h : OpensCreate text) (more : List Char) :
    OpensCreate (text ++ more) := by
  obtain ⟨t, v, rfl, ht, hv⟩ := h
  exact ⟨t, v ++ more, by simp, ht, fun hstops => hv hstops.of_append⟩

/-- A script that begins with a created table creates this table, if its lists are closed. -/
lemma exists_mem_tables {head : Match} (hhead : createTableHead.matchAt? (.start text) = some head)
    (hclosed : ClosesLists text) : OpensCreate text ∧
      ∃ statement, CreateTable.ofMatch? head = some statement ∧
        some statement ∈ (Script.ofStripped text).tables := by
  obtain hfails | ⟨w, rest, caught, rfl, htakes⟩ := fails_or_takes createTableHead [] text
  · rw [Cursor.start, matchAt?_of_fails hfails] at hhead
    simp at hhead
  have hyield : head.yield = (rest, caught) := by
    rw [Cursor.start, matchAt?_of_takes htakes, Option.some.injEq] at hhead
    rw [← hhead]
    rfl
  have hread : CreateTable.ofMatch? head = CreateTable.ofMatch? (matchOf (rest, caught)) := by
    rw [← hyield]
    rfl
  obtain ⟨⟨list, _⟩, hlist⟩ :=
    Option.isSome_iff_exists.mp (hclosed createTableHead (by simp) [] w rest rfl htakes.reads)
  have hne : w ≠ [] := by
    obtain ⟨w', rfl⟩ := exists_list_createTableHead htakes.reads
    simp
  obtain ⟨found, h⟩ := exists_scanned [] (w ++ rest)
  obtain ⟨later, hlater⟩ := Pattern.exists_finds (nullable_of_mem_heads createTableHead_mem_heads)
    (w.reverse ++ []) rest
  have hscanned : Scanned [] (w ++ rest) ⟨(rest, caught) :: later, _, _⟩ :=
    ⟨.found (u := []) trivial htakes hne hlater, h.indexes, h.foreignKeys⟩
  refine ⟨opensCreate_of_reads htakes.reads, ?_⟩
  rw [hread, hscanned.ofStripped]
  simp [CreateTable.ofMatch?, listAfter?, matchOf, hlist, Findings.script]

/-- A statement that creates a table is read alike with other texts around it: the table is the one
that it creates alone, and there is a relation for each of its foreign keys and for each relation
that it defines alone.  The text before may hold anything but indexes, altered tables, quoted and
bracketed names and comments, such as a table of the same name or one whose list is never closed;
the text behind holds no statement. -/
theorem ofText_surrounded {head : Match} {behind : List Char}
    (hhead : createTableHead.matchAt? (.start text) = some head) (htext : Complete text)
    (hplain : ∀ c ∈ before, opensNamePart c = false) (hbefore : NoCommentSign .script before)
    (hindex : ¬ Mentions "INDEX" before) (halter : ¬ Mentions "ALTER" before)
    (hbehind : NoCommentSign .script behind) (hwords : ∀ K ∈ leadingWords, ¬ Mentions K behind)
    (rawPath : String) : ∃ statement table,
      CreateTable.ofMatch? head = some statement ∧
      (Schema.ofText .sql text rawPath).table? statement.name = some table ∧
      (Schema.ofText .sql (before ++ '\n' :: (text ++ '\n' :: behind)) rawPath).table?
        statement.name = some table ∧
      ∀ r ∈ statement.edges ++ (Schema.ofText .sql text rawPath).relations,
        ∃ s ∈ (Schema.ofText .sql (before ++ '\n' :: (text ++ '\n' :: behind)) rawPath).relations,
          s.sameEdge r = true := by
  obtain ⟨hopens, statement, hstatement, hmem⟩ := exists_mem_tables hhead htext.closed
  have hlineComment : '\n' ∉ Dialect.script.lineComment := by decide
  have hcomments : NoCommentSign .script (before ++ '\n' :: (text ++ '\n' :: behind)) :=
    hbefore.append_lineFeed hlineComment (htext.uncommented.append_lineFeed hlineComment hbehind)
  have hscript : Script.ofStripped (text ++ '\n' :: behind) = Script.ofStripped text :=
    ofStripped_append_behind (fun q hq => htext.staysIn hq _) htext.closed hwords
  obtain ⟨tables, htables⟩ := exists_ofStripped_before (hopens.append _) hplain hindex halter
  rw [hscript] at htables
  have halone : Script.ofText text = Script.ofStripped text := by
    rw [Script.ofText, stripComments_of_noCommentSign htext.uncommented]
  have hwhole : Script.ofText (before ++ '\n' :: (text ++ '\n' :: behind))
      = (Script.mk tables [] []).append (Script.ofStripped text) := by
    rw [Script.ofText, stripComments_of_noCommentSign hcomments, htables]
  have hwithin := within_draft_append tables (Script.ofStripped text)
  obtain ⟨table, htable⟩ := Option.isSome_iff_exists.mp (isSome_table?_draft hmem)
  rw [schema_of_script halone, schema_of_script hwhole]
  refine ⟨statement, table, hstatement, htable, hwithin.tables _ _ htable, ?_⟩
  refine List.forall_mem_append.mpr ⟨fun r hr => exists_relation_draft ?_ hr, hwithin.relations⟩
  simpa [Script.append] using Or.inr hmem

/-- A table of users with a foreign key. -/
def sampleUsers : List Char :=
  "CREATE TABLE users (id INT PRIMARY KEY, boss INT REFERENCES people(id));".toList

lemma complete_sampleUsers : Complete sampleUsers :=
  complete_of_balanced (by decide) (by decide +kernel) (by decide +kernel) (by decide)

/-- Users are read alike behind the beginning of another table of users and before loose
parentheses. -/
theorem ofText_surrounded_sampleUsers : ∃ name table,
    (Schema.ofText .sql sampleUsers "a.sql").table? name = some table ∧
    (Schema.ofText .sql ("CREATE TABLE users (id ((".toList ++ '\n' ::
      (sampleUsers ++ '\n' :: ") garbage (".toList)) "a.sql").table? name = some table ∧
    ∃ s ∈ (Schema.ofText .sql ("CREATE TABLE users (id ((".toList ++ '\n' ::
      (sampleUsers ++ '\n' :: ") garbage (".toList)) "a.sql").relations,
        s.sameEdge ⟨"users", "boss", "people", "id", .oneToMany⟩ = true := by
  obtain ⟨head, hhead⟩ : ∃ head, createTableHead.matchAt? (.start sampleUsers) = some head :=
    Option.isSome_iff_exists.mp (by decide +kernel)
  have hplain : ∀ c ∈ "CREATE TABLE users (id ((".toList, opensNamePart c = false := by decide
  have hbehind : NoCommentSign .script ") garbage (".toList := by decide +kernel
  obtain ⟨statement, table, -, halone, hwhole, hedges⟩ :=
    ofText_surrounded hhead complete_sampleUsers hplain (by decide +kernel) (by decide) (by decide)
      hbehind (by decide) "a.sql"
  exact ⟨_, table, halone, hwhole, hedges _ (List.mem_append_right _ (by decide +kernel))⟩

/-- Two texts with a line feed between them define the tables that they define alone, one after the
other, and their relations in some order, if the first one is complete and they are about different
tables. -/
theorem ofText_append_line {next : List Char} (htext : Complete text)
    (hnext : NoCommentSign .script next) (hapart : Apart (.ofText text) (.ofText next))
    (rawPath : String) :
    (Schema.ofText .sql (text ++ '\n' :: next) rawPath).tables
      = (Schema.ofText .sql text rawPath).tables ++ (Schema.ofText .sql next rawPath).tables ∧
    (Schema.ofText .sql (text ++ '\n' :: next) rawPath).relations.Perm
      ((Schema.ofText .sql text rawPath).relations ++
        (Schema.ofText .sql next rawPath).relations) := by
  have hcomments := htext.uncommented.append_lineFeed (by decide) hnext
  have hscript : Script.ofText (text ++ '\n' :: next)
      = (Script.ofText text).append (Script.ofText next) := by
    rw [Script.ofText, Script.ofText, Script.ofText, stripComments_of_noCommentSign hcomments,
      stripComments_of_noCommentSign htext.uncommented, stripComments_of_noCommentSign hnext]
    exact ofStripped_append_line (fun q hq => htext.staysIn hq _) htext.closed
  have hjoins := joins_draft hapart
  have halone : ∀ t, Schema.ofText .sql t rawPath
      = (Script.ofText t).draft.schema .sql rawPath := fun _ => schema_of_script rfl rawPath
  rw [schema_of_script hscript, halone text, halone next]
  exact ⟨hjoins.tables, hjoins.relations⟩

/-- People and a foreign key that points at them, with a table that is never closed behind. -/
theorem ofText_append_line_sampleUsers :
    (Schema.ofText .sql (sampleUsers ++ '\n' ::
        "CREATE TABLE people (id INT); CREATE TABLE loose (id".toList) "a.sql").tables
      = (Schema.ofText .sql sampleUsers "a.sql").tables ++ (Schema.ofText .sql
          "CREATE TABLE people (id INT); CREATE TABLE loose (id".toList "a.sql").tables ∧
    (Schema.ofText .sql (sampleUsers ++ '\n' ::
        "CREATE TABLE people (id INT); CREATE TABLE loose (id".toList) "a.sql").relations.Perm
      ((Schema.ofText .sql sampleUsers "a.sql").relations ++ (Schema.ofText .sql
          "CREATE TABLE people (id INT); CREATE TABLE loose (id".toList "a.sql").relations) := by
  exact ofText_append_line complete_sampleUsers (by decide +kernel)
    ⟨by decide +kernel, by decide +kernel, by decide +kernel⟩ "a.sql"

end SchemaReader.Ddl
