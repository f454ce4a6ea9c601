/-
Scripts decode to what they mean.

* `draft_scriptOf`: the draft of the statements of a well-formed script holds the tables and the
  edges that the script means;
* `ofText_writes`: whatever the letters of the keywords, the white space and the order of the
  statements, a written script decodes to the schema that it means.
-/
import Mathlib.Data.List.Flatten
import SchemaReader.Extraction
import SchemaReader.Proofs.Ddl.Passes
import SchemaReader.Proofs.Ddl.ReadScript

namespace SchemaReader.Ddl

variable {statements : List Statement} {table : TableDef} {text g : List Char}

/-! ### Statements kind by kind -/

lemma created_eq (statements : List Statement) : (scriptOf statements).tables
    = (tablesOf statements).map fun table => some table.created := by
  rw [scriptOf, tablesOf, List.map_filterMap, List.map_filterMap]
  refine List.filterMap_congr fun statement _ => ?_
  cases statement <;> rfl

/-- The indexes that are created on a table. -/
lemma filter_indexes (statements : List Statement) (name : String) :
    ((scriptOf statements).indexes.filter fun index => index.table = name).map
        (fun index => indexOf name index.name index.columns index.unique)
      = statements.filterMap (Statement.indexOn? name) := by
  rw [scriptOf]
  induction statements with
  | nil => rfl
  | cons statement statements ih =>
      cases statement with
      | createIndex unique index target columns =>
          by_cases htarget : target = name
          · simpa [List.filterMap_cons, Statement.index?, Statement.indexOn?, htarget, indexOf]
              using ih
          · simpa [List.filterMap_cons, Statement.index?, Statement.indexOn?, htarget] using ih
      | createTable | addForeignKey =>
          simpa [List.filterMap_cons, Statement.index?, Statement.indexOn?] using ih

/-- The edges of the foreign keys that are added to a table. -/
lemma filter_foreignKeys (statements : List Statement) (name : String) :
    ((scriptOf statements).foreignKeys.filter fun added => added.table = name).flatMap
        (fun added => added.key.edges name)
      = (statements.flatMap (Statement.pairs name)).map (edgeOf name) := by
  rw [scriptOf]
  induction statements with
  | nil => rfl
  | cons statement statements ih =>
      cases statement with
      | addForeignKey target constraint key =>
          by_cases htarget : target = name
          · simpa [List.filterMap_cons, Statement.added?, Statement.pairs, htarget, edges_key]
              using ih
          · simpa [List.filterMap_cons, Statement.added?, Statement.pairs, htarget] using ih
      | createTable | createIndex =>
          simpa [List.filterMap_cons, Statement.added?, Statement.pairs] using ih

/-- The edges that are added. -/
lemma flatMap_foreignKeys (statements : List Statement) :
    (scriptOf statements).foreignKeys.flatMap (fun added => added.key.edges added.table)
      = statements.flatMap Statement.edges := by
  rw [scriptOf, flatMap_filterMap]
  refine List.flatMap_congr fun statement _ => ?_
  cases statement with
  | addForeignKey target constraint key => simp [Statement.added?, Statement.edges, edges_key]
  | createTable | createIndex => rfl

/-! ### Well-formed scripts -/

/-- In a well-formed script no column of a table is in two foreign keys. -/
lemma WellFormed.nodup_pairsOf (h : WellFormed statements) (htable : table ∈ tablesOf statements) :
    ((pairsOf statements table).map Prod.fst).Nodup := by
  have hcreated : (table.pairs.map (edgeOf table.name)).Sublist
      ((tablesOf statements).flatMap fun table => table.pairs.map (edgeOf table.name)) :=
    List.sublist_flatten_of_mem (List.mem_map_of_mem htable)
  have hadded : ((statements.flatMap (Statement.pairs table.name)).map (edgeOf table.name)).Sublist
      (statements.flatMap Statement.edges) := by
    rw [List.map_flatMap]
    refine List.Sublist.flatMap_right statements fun statement _ => ?_
    cases statement with
    | addForeignKey target constraint key =>
        by_cases htarget : target = table.name
        · simp [Statement.pairs, Statement.edges, htarget]
        · simp [Statement.pairs, htarget]
    | createTable | createIndex => exact List.Sublist.refl _
  have hedges := ((hcreated.append hadded).map Relation.leaves).nodup h.keys
  rw [← List.map_append, List.map_map] at hedges
  refine List.Nodup.of_map (fun name => (table.name, name)) ?_
  rw [List.map_map]
  exact hedges

/-- The columns of a table with the constraints and the foreign keys of the script. -/
lemma tableOf_eq (h : WellFormed statements) (htable : table ∈ tablesOf statements) :
    linkKeys (scriptOf statements).foreignKeys
        (addIndexes (scriptOf statements).indexes table.created.table)
      = tableOf statements table := by
  have hcolumns := h.columns table htable
  have hpairs := h.nodup_pairsOf htable
  have hcolumn : ∀ column : ColumnDef, ((statements.flatMap (Statement.pairs table.name)).map
      (edgeOf table.name)).foldl pointAlong ((table.pairs.map (edgeOf table.name)).foldl
        pointAlong (column.plain.markIf (table.clauses.flatMap Clause.primaryKeys)))
          = columnOf statements table column := by
    intro column
    rw [← List.foldl_append, ← List.map_append, ← pairsOf, foldl_pointAlong table.name hpairs]
    simp [columnOf, ColumnDef.plain, Column.markIf, pairsOf]
  have hnames : (table.created.table.columns.map Column.name).Nodup := by
    have hname : ∀ (edges : List Relation) (column : Column),
        (edges.foldl pointAlong column).name = column.name := fun edges column =>
      List.foldlRecOn (motive := fun c : Column => c.name = column.name) edges _ rfl
        fun c hc edge _ => (name_pointAlong c edge).trans hc
    rw [table_created hcolumns, List.map_map]
    simpa [Function.comp_def, hname, name_markIf, ColumnDef.plain] using hcolumns
  rw [linkKeys, linkEdges_of_nodup (by exact hnames)]
  simp only [addIndexes, name_table, name_created, filter_foreignKeys, filter_indexes]
  rw [table_created hcolumns]
  simp [tableOf, hcolumn, Function.comp_def]

/-- The draft of a well-formed script holds the tables and the edges that the script means. -/
theorem draft_scriptOf (h : WellFormed statements) :
    (scriptOf statements).draft.tables = (tablesOf statements).map (tableOf statements) ∧
      (scriptOf statements).draft.relations = edgesOf statements := by
  have hcreated : ((tablesOf statements).flatMap fun table => table.pairs.map
      (edgeOf table.name)).map Relation.leaves |>.Nodup := by
    have hkeys := h.keys
    rw [edgesOf, List.map_append] at hkeys
    exact (List.nodup_append.mp hkeys).1
  obtain ⟨htables, hedges⟩ := foldl_addCreated (tablesOf statements) Draft.empty
    (by simpa [Draft.empty] using h.tables) (by simpa [Draft.empty] using hcreated)
  rw [← created_eq] at htables hedges
  obtain ⟨hindexed, hedges'⟩ := foldl_addIndex (scriptOf statements).indexes _
    (by rw [htables]; simpa [Draft.empty, Function.comp_def] using h.tables)
  rw [htables] at hindexed
  rw [hedges] at hedges'
  have hsame : (((scriptOf statements).indexes.foldl CreateIndex.addTo
      ((scriptOf statements).tables.foldl addCreated Draft.empty)).tables.map Table.name)
        = (tablesOf statements).map TableDef.name := by
    rw [hindexed]
    simp [Draft.empty, Function.comp_def, addIndexes]
  have hknown : ∀ added ∈ (scriptOf statements).foreignKeys,
      added.table ∈ (tablesOf statements).map TableDef.name := by
    intro added hadded
    obtain ⟨statement, hstatement, hread⟩ := List.mem_filterMap.mp hadded
    cases statement with
    | addForeignKey target name key =>
        obtain rfl : AddForeignKey.mk target key.key = added := Option.some.inj hread
        exact h.targets _ hstatement target rfl
    | createTable | createIndex => simp [Statement.added?] at hread
  obtain ⟨hlinked, hall⟩ := foldl_addForeignKey (scriptOf statements).foreignKeys _
    (by rw [hsame]; exact h.tables) (fun added hadded => by rw [hsame]; exact hknown added hadded)
    (by rw [hedges', flatMap_foreignKeys]; exact h.keys)
  rw [hindexed] at hlinked
  rw [hedges', flatMap_foreignKeys] at hall
  refine ⟨hlinked.trans ?_, hall⟩
  simp only [Draft.empty, List.nil_append, List.map_map]
  exact List.map_congr_left fun table htable => tableOf_eq h htable

/-- A written script decodes to the schema that it means. -/
theorem ofText_writes (h : WellFormed statements)
    (htext : Writes (statements.flatMap Statement.pieces) text []) (hg : Text.IsGap g)
    (rawPath : String) :
    Schema.ofText .sql (g ++ text) rawPath = schemaOf statements rawPath := by
  obtain ⟨htables, hrelations⟩ := draft_scriptOf h
  have hread : Script.ofText (g ++ text) = scriptOf statements := ofText_script h.proper htext hg
  simp [Schema.ofText, Schema.ofTextNoted, Source.draft?, hread, Draft.schema, htables, hrelations,
    schemaOf]

/-- In the sample script an index and a foreign key stand before one of the tables. -/
theorem ofText_writes_sampleScript :
    WellFormed sampleScript ∧
      Writes (sampleScript.flatMap Statement.pieces)
        (spaced (sampleScript.flatMap Statement.pieces)) [] ∧ Text.IsGap "\n".toList ∧
      Schema.ofText .sql ("\n".toList ++ spaced (sampleScript.flatMap Statement.pieces)) "a.sql"
        = schemaOf sampleScript "a.sql" := by
  have hproper : WellFormed sampleScript := by decide
  have hgap : Text.IsGap "\n".toList := by decide
  have hwrites : Writes (sampleScript.flatMap Statement.pieces)
      (spaced (sampleScript.flatMap Statement.pieces)) [] := writes_spaced_statements hproper.proper
  exact ⟨hproper, hwrites, hgap, ofText_writes hproper hwrites hgap "a.sql"⟩

end SchemaReader.Ddl
