/-
The columns that the relations of scripts leave.

* `Script.edgesFrom`: the edges that leave a table as a script leaves it in the end;
  `isSome_references_iff`: a column points somewhere if and only if it is the first of its name and
  one of these edges leaves it;
* `Outdated`: a relation belongs to a created table that is created again later in the script, and
  no edge leaves its column any more;
* `points_or_outdated`: a column that a relation leaves points somewhere if and only if it is the
  first of its name and the relation is not outdated;
* `replaced_table_keeps_relation`: there are outdated relations.
-/
import SchemaReader.Extraction
import SchemaReader.Proofs.Ddl.Arrangements

namespace SchemaReader

namespace Ddl

variable {script : Script} {table : Table} {r : Relation} {name : String}

/-! ### Edges in the end -/

/-- The edges of the foreign keys that a script adds to a table. -/
def Script.addedEdges (script : Script) (name : String) : List Relation :=
  (script.foreignKeys.filter fun statement => statement.table == name).flatMap fun statement =>
    statement.key.edges statement.table

/-- The edges that leave a table in the end: those of the last statement that creates it, and those
of the foreign keys that are added to it. -/
def Script.edgesFrom (script : Script) (name : String) : List Relation :=
  ((script.lastCreate? name).map CreateTable.edges).getD [] ++ script.addedEdges name

/-- A statement that no later one of its name follows is the last one. -/
lemma lastCreate?_of_last {before after : List (Option CreateTable)} {statement : CreateTable}
    (hsplit : script.tables = before ++ some statement :: after)
    (hlast : ∀ later, some later ∈ after → later.name ≠ statement.name) :
    script.lastCreate? statement.name = some statement := by
  have hafter : after.reduceOption.reverse.find? (fun s => s.name == statement.name) = none := by
    rw [List.find?_eq_none]
    intro later hlater
    have hmem : some later ∈ after := List.reduceOption_mem_iff.mp (List.mem_reverse.mp hlater)
    simpa using hlast later hmem
  rw [Script.lastCreate?, hsplit, List.reduceOption_append, List.reduceOption_cons_of_some,
    List.reverse_append, List.find?_append, List.reverse_cons, List.find?_append, hafter]
  simp

/-! ### Columns that point somewhere -/

/-- Indexes leave the columns of a table as they are, and added foreign keys link their edges. -/
lemma columns_amend (script : Script) (table : Table) :
    (script.amend table).columns = (linkEdges (script.addedEdges table.name) table).columns := by
  have hindex : ∀ (t : Table) (s : CreateIndex), (s.amend t).columns = t.columns := fun _ _ => rfl
  have hkeys : ∀ (statements : List AddForeignKey) (t : Table),
      statements.foldl AddForeignKey.amend t
        = linkEdges (statements.flatMap fun s => s.key.edges s.table) t := by
    intro statements t
    rw [linkEdges, List.foldl_flatMap]
    rfl
  rw [Script.amend, hkeys, ← Script.addedEdges, columns_linkEdges, columns_linkEdges,
    kept_foldl Table.columns hindex]

lemma linkEdges_append (edges more : List Relation) (table : Table) :
    linkEdges (edges ++ more) table = linkEdges more (linkEdges edges table) :=
  List.foldl_append

/-- The columns of a table of a script are those of its last statement, linked along the edges that
leave the table in the end. -/
lemma exists_columns_of_table? (h : script.draft.table? name = some table) :
    ∃ base : Table, table.columns = (linkEdges (script.edgesFrom name) base).columns ∧
      ∀ c ∈ base.columns, c.references = none := by
  rw [table?_draft, lastNamed?_createdTables, Option.map_map] at h
  obtain ⟨statement, hlast, rfl⟩ := Option.map_eq_some_iff.mp h
  obtain rfl : statement.name = name := by simpa using List.find?_some hlast
  refine ⟨statement.entries.foldl TableEntry.applyTo (Table.empty statement.name), ?_, ?_⟩
  · have hedges : script.edgesFrom statement.name
        = statement.edges ++ script.addedEdges statement.name := by
      rw [Script.edgesFrom, hlast, Option.map_some, Option.getD_some]
    calc (script.amend statement.table).columns
        = (linkEdges (script.addedEdges statement.name) statement.table).columns := by
          rw [columns_amend, name_table]
      _ = (linkEdges (script.edgesFrom statement.name) _).columns := by
          rw [hedges, linkEdges_append, CreateTable.table]
  · intro c hc
    cases href : c.references with
    | none => rfl
    | some ref =>
        obtain ⟨edge, hedge, -⟩ := backedBy_entries statement [] c hc ref href
        cases hedge

/-- A column of a table points somewhere if and only if it is the first of its name and an edge
leaves it in the end. -/
theorem isSome_references_iff (h : script.draft.table? name = some table)
    {before after : List Column} {c : Column} (hcolumns : table.columns = before ++ c :: after) :
    c.references.isSome = true ↔ c.name ∉ before.map Column.name ∧
      ∃ edge ∈ script.edgesFrom name, edge.fromColumn = c.name := by
  obtain ⟨base, hbase, hnone⟩ := exists_columns_of_table? h
  have hlinked : ∀ d : Column, ((script.edgesFrom name).foldl pointAlong d).name = d.name := by
    intro d
    rw [foldl_pointAlong_eq]
  rw [hbase, columns_linkEdges] at hcolumns
  obtain ⟨d, hd, rfl⟩ := exists_of_changeFirst_eq hlinked hcolumns
  rw [List.nil_append]
  by_cases hfirst : d.name ∈ before.map Column.name
  · simp [hfirst, hnone d hd]
  · rw [if_neg hfirst, hlinked, foldl_pointAlong_eq, hnone d hd]
    simp [hfirst]

/-! ### Outdated relations -/

/-- A relation is outdated if a later statement creates its table again, and in the end no edge
leaves its column: neither the last statement that creates the table nor a foreign key that is added
to it gives the column one. -/
structure Outdated (script : Script) (r : Relation) : Prop where
  replaced : ∃ before statement after, script.tables = before ++ some statement :: after ∧
    r ∈ statement.edges ∧ ∃ later, some later ∈ after ∧ later.name = statement.name
  left : ∀ edge ∈ script.edgesFrom r.fromTable, edge.fromColumn ≠ r.fromColumn

/-- Every relation of a draft is an edge of a created table or of an added foreign key of a
script. -/
def OwnEdges (script : Script) (d : Draft) : Prop :=
  ∀ r ∈ d.relations, (∃ statement, some statement ∈ script.tables ∧ r ∈ statement.edges) ∨
    ∃ statement ∈ script.foreignKeys, r ∈ statement.key.edges statement.table

lemma OwnEdges.addCreated {d : Draft} (h : OwnEdges script d) {statement : Option CreateTable}
    (hmem : statement ∈ script.tables) : OwnEdges script (addCreated d statement) := by
  intro r hr
  cases statement with
  | none => exact h r hr
  | some statement =>
      rcases mem_addRelations hr with hr | hr
      · exact h r (by simpa using hr)
      · exact Or.inl ⟨statement, hmem, hr⟩

lemma OwnEdges.createIndex {d : Draft} (h : OwnEdges script d) (statement : CreateIndex) :
    OwnEdges script (statement.addTo d) := by
  rw [CreateIndex.addTo]
  split <;> exact h

lemma OwnEdges.addForeignKey {d : Draft} (h : OwnEdges script d) {statement : AddForeignKey}
    (hmem : statement ∈ script.foreignKeys) : OwnEdges script (statement.addTo d) := by
  rw [AddForeignKey.addTo]
  split
  · intro r hr
    rcases mem_addRelations hr with hr | hr
    · exact h r hr
    · exact Or.inr ⟨statement, hmem, hr⟩
  · exact h

lemma ownEdges_draft (script : Script) : OwnEdges script script.draft := by
  rw [Script.draft]
  refine List.foldlRecOn (motive := OwnEdges script) script.foreignKeys _ ?_
    fun _ h _ hmem => h.addForeignKey hmem
  refine List.foldlRecOn (motive := OwnEdges script) script.indexes _ ?_
    fun _ h statement _ => h.createIndex statement
  exact List.foldlRecOn (motive := OwnEdges script) script.tables _
    (by simp [OwnEdges, Draft.empty])
    fun _ h _ hmem => h.addCreated hmem

/-- In the end an edge leaves the column of a relation, or the relation is outdated. -/
lemma edge_or_outdated (h : r ∈ script.draft.relations) :
    (∃ edge ∈ script.edgesFrom r.fromTable, edge.fromColumn = r.fromColumn) ∨
    Outdated script r := by
  refine or_iff_not_imp_left.mpr fun hleft => ?_
  have hnone : r ∉ script.edgesFrom r.fromTable := fun hr => hleft ⟨r, hr, rfl⟩
  obtain ⟨statement, hmem, hr⟩ | ⟨statement, hmem, hr⟩ := ownEdges_draft script r h
  · obtain ⟨before, after, hsplit⟩ := List.append_of_mem hmem
    refine ⟨⟨before, statement, after, hsplit, hr, ?_⟩,
      fun edge hedge heq => hleft ⟨edge, hedge, heq⟩⟩
    -- were it the last statement, its edge would leave the table in the end
    by_contra hlast
    have hcreated : script.lastCreate? r.fromTable = some statement := by
      rw [fromTable_of_mem_createTable_edges hr]
      exact lastCreate?_of_last hsplit fun later hlater heq => hlast ⟨later, hlater, heq⟩
    exact hnone (List.mem_append_left _ (by simpa [hcreated] using hr))
  · have hadded : r ∈ script.addedEdges r.fromTable := by
      rw [fromTable_of_mem_edges hr]
      exact List.mem_flatMap.mpr ⟨statement, by simpa using hmem, hr⟩
    exact absurd (List.mem_append_right _ hadded) hnone

/-- A column that a relation of the schema of a script leaves points somewhere if and only if it is
the first column of its name and the relation is not outdated. -/
theorem points_or_outdated (text : List Char) (rawPath : String) :
    ∀ r ∈ (Schema.ofText .sql text rawPath).relations,
      ∀ t, (Schema.ofText .sql text rawPath).table? r.fromTable = some t →
        ∀ before c after, t.columns = before ++ c :: after → c.name = r.fromColumn →
          (c.references.isSome = true ↔
            r.fromColumn ∉ before.map Column.name ∧ ¬ Outdated (Script.ofText text) r) := by
  intro r hr t ht before c after hcolumns hname
  have hdraft : (Script.ofText text).draft.table? r.fromTable = some t := ht
  have hrelation : r ∈ (Script.ofText text).draft.relations := hr
  rw [isSome_references_iff hdraft hcolumns, hname]
  refine and_congr_right fun _ => ⟨?_, (edge_or_outdated hrelation).resolve_right⟩
  rintro ⟨edge, hmem, hfrom⟩ houtdated
  exact houtdated.left edge hmem hfrom

/-- A table with a foreign key that is created again without it, and a key that is added to it. -/
def sampleKeys : List Char :=
  ("CREATE TABLE t (a INT REFERENCES u(id), b INT REFERENCES w(id)); " ++
    "CREATE TABLE t (a INT, b INT); ALTER TABLE t ADD FOREIGN KEY (b) REFERENCES v(id);").toList

/-- The table as it is in the end. -/
def sampleTable : Table :=
  ⟨"t", [⟨"a", "INT", true, false, none⟩, ⟨"b", "INT", true, false, some ⟨"v", "id"⟩⟩], []⟩

/-- The key of `b` is stated again, so that the relation of its replaced definition still leaves a
column that points somewhere. -/
theorem points_or_outdated_sampleKeys :
    ⟨"t", "b", "w", "id", .oneToMany⟩ ∈ (Schema.ofText .sql sampleKeys "a.sql").relations ∧
      (Schema.ofText .sql sampleKeys "a.sql").table? "t" = some sampleTable ∧
        ∃ before c after, sampleTable.columns = before ++ c :: after ∧ c.name = "b" ∧
          "b" ∉ before.map Column.name ∧ c.references.isSome = true := by
  have hread : Schema.ofText .sql sampleKeys "a.sql" = ⟨.sql, [sampleTable],
      [⟨"t", "a", "u", "id", .oneToMany⟩, ⟨"t", "b", "w", "id", .oneToMany⟩,
        ⟨"t", "b", "v", "id", .oneToMany⟩], "a.sql"⟩ := by decide +kernel
  have hrelation : ⟨"t", "b", "w", "id", .oneToMany⟩
      ∈ (Schema.ofText .sql sampleKeys "a.sql").relations := by rw [hread]; decide
  have htable : (Schema.ofText .sql sampleKeys "a.sql").table? "t" = some sampleTable := by
    rw [hread]; decide
  have hedge : ⟨"t", "b", "v", "id", .oneToMany⟩ ∈ (Script.ofText sampleKeys).edgesFrom "t" := by
    decide +kernel
  refine ⟨hrelation, htable, [_], _, [], rfl, rfl, by decide, ?_⟩
  refine (points_or_outdated sampleKeys "a.sql" _ hrelation _ htable [_] _ [] rfl rfl).mpr ?_
  exact ⟨by decide, fun houtdated => houtdated.left _ hedge rfl⟩

/-- A table is created with a foreign key and again without it. -/
theorem replaced_table_keeps_relation :
    ∃ r ∈ (Schema.ofText .sql ("CREATE TABLE t (a INT REFERENCES u(id)); " ++
        "CREATE TABLE t (a INT);").toList "a.sql").relations,
      ∃ t ∈ (Schema.ofText .sql ("CREATE TABLE t (a INT REFERENCES u(id)); " ++
          "CREATE TABLE t (a INT);").toList "a.sql").tables,
        t.name = r.fromTable ∧ ∃ c ∈ t.columns, c.name = r.fromColumn ∧ c.references = none := by
  have hread : Schema.ofText .sql ("CREATE TABLE t (a INT REFERENCES u(id)); " ++
      "CREATE TABLE t (a INT);").toList "a.sql"
        = ⟨.sql, [⟨"t", [⟨"a", "INT", true, false, none⟩], []⟩],
            [⟨"t", "a", "u", "id", .oneToMany⟩], "a.sql"⟩ := by decide +kernel
  rw [hread]
  decide

end Ddl

end SchemaReader
