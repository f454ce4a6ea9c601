/-
What the passes over the statements of a script do to a draft.

* `table_created`: the table that a written table is read as;
* `foldl_addCreated`, `foldl_addIndex`, `foldl_addForeignKey`: the three passes.
-/
import SchemaReader.Proofs.Backing.Script
import SchemaReader.Proofs.Ddl.Meaning

namespace SchemaReader.Ddl

variable {statements : List Statement} {table : TableDef} {t : Table} {d : Draft}

/-! ### Edges -/

lemma edges_key (table : String) (key : KeyDef) :
    key.key.edges table = key.pairs.map (edgeOf table) := by
  simp [ForeignKey.edges, ForeignKey.targetColumns, KeyDef.key, KeyDef.pairs, edgeOf,
    Function.comp_def]

/-- The edges of a created table are those of the foreign keys it is written with. -/
lemma edges_created (table : TableDef) :
    table.created.edges = table.pairs.map (edgeOf table.name) := by
  have hcolumn : ∀ column : ColumnDef, (TableEntry.column column.entry).foreignKey?.toList.flatMap
      (ForeignKey.edges table.name) = column.pairs.map (edgeOf table.name) := by
    intro column
    cases htarget : column.options.findSome? ColumnOption.target? with
    | none => simp [TableEntry.foreignKey?, ColumnDef.entry, ColumnDef.pairs, htarget]
    | some target =>
        simp [TableEntry.foreignKey?, ColumnDef.entry, ColumnDef.pairs, htarget, ForeignKey.edges,
          ForeignKey.targetColumns, edgeOf]
  have hclause : ∀ clause : Clause, clause.entry.foreignKey?.toList.flatMap
      (ForeignKey.edges table.name) = clause.pairs.map (edgeOf table.name) := by
    intro clause
    cases clause with
    | foreignKey name key => simp [Clause.entry, TableEntry.foreignKey?, Clause.pairs, edges_key]
    | primaryKey | unique | index => rfl
  rw [CreateTable.edges, flatMap_filterMap]
  simp [TableDef.created, TableDef.items, TableDef.pairs, List.flatMap_map, List.map_flatMap,
    hcolumn, hclause]

/-! ### Entries -/

/-- What a column is before the constraints of its table are read. -/
def ColumnDef.plain (column : ColumnDef) : Column :=
  ⟨column.name, String.ofList column.type.text, !column.options.contains .notNull,
    column.options.contains .primaryKey, none⟩

lemma foldl_columns (columns : List ColumnDef) (t : Table) :
    (columns.map fun column => TableEntry.column column.entry).foldl TableEntry.applyTo t
      = { t with
          columns := t.columns ++ columns.map ColumnDef.plain
          indexes := t.indexes ++ (columns.filter fun column => column.options.contains .unique).map
            fun column => Index.uniqueColumn t.name column.name } := by
  induction columns generalizing t with
  | nil => simp
  | cons column columns ih =>
      rw [List.map_cons, List.foldl_cons, ih]
      by_cases hunique : ColumnOption.unique ∈ column.options
      · simp [TableEntry.applyTo, ColumnDef.entry, hunique, Table.addColumn, Table.addIndex,
          ColumnDef.plain]
      · simp [TableEntry.applyTo, ColumnDef.entry, hunique, Table.addColumn, ColumnDef.plain]

/-- What the clauses of a table do to a table with its columns. -/
lemma foldl_clauses (clauses : List Clause) (h : (t.columns.map Column.name).Nodup) :
    (clauses.map Clause.entry).foldl TableEntry.applyTo t
      = { t with
          columns := t.columns.map (Column.markIf (clauses.flatMap Clause.primaryKeys))
          indexes := t.indexes ++ clauses.filterMap (Clause.index? t.name) } := by
  have hid : ∀ columns : List Column, columns.map (Column.markIf []) = columns := fun columns =>
    (List.map_congr_left fun c _ => by simp [Column.markIf]).trans (List.map_id _)
  induction clauses generalizing t with
  | nil => simp [hid]
  | cons clause clauses ih =>
      rw [List.map_cons, List.foldl_cons]
      cases clause with
      | primaryKey columns =>
          have hnames : ((t.columns.map (Column.markIf columns)).map Column.name).Nodup := by
            rw [List.map_map]
            exact h
          simp only [Clause.entry, TableEntry.applyTo, markPrimaryKey_of_nodup h]
          rw [ih hnames]
          simp [Clause.primaryKeys, List.filterMap_cons, Clause.index?, Function.comp_def,
            markIf_append]
      | unique name columns =>
          by_cases hcolumns : columns = []
          · simp only [Clause.entry, TableEntry.applyTo, hcolumns, List.isEmpty_nil, ite_true]
            rw [ih h]
            simp [Clause.primaryKeys, Clause.index?]
          · have hempty : columns.isEmpty = false := by simpa using hcolumns
            simp only [Clause.entry, TableEntry.applyTo, hempty, Bool.false_eq_true, ite_false]
            rw [ih (t := addNamedIndex name columns true t) h]
            simp [Clause.primaryKeys, Clause.index?, hcolumns, addNamedIndex, Table.addIndex,
              indexOf]
      | index asKey name columns =>
          simp only [Clause.entry, TableEntry.applyTo]
          rw [ih (t := addNamedIndex name columns false t) h]
          simp [Clause.primaryKeys, Clause.index?, addNamedIndex, Table.addIndex, indexOf]
      | foreignKey name key =>
          simp only [Clause.entry, TableEntry.applyTo]
          rw [ih h]
          simp [Clause.primaryKeys, List.filterMap_cons, Clause.index?]

/-! ### References -/

/-- A column made to point along an edge, if the edge leaves it. -/
def pointAlong (column : Column) (edge : Relation) : Column :=
  if column.name = edge.fromColumn then
    { column with references := some ⟨edge.toTable, edge.toColumn⟩ }
  else column

lemma name_pointAlong (column : Column) (edge : Relation) :
    (pointAlong column edge).name = column.name := by
  rw [pointAlong]
  split <;> rfl

lemma linkEdges_of_nodup (h : (t.columns.map Column.name).Nodup) (edges : List Relation) :
    linkEdges edges t
      = { t with columns := t.columns.map fun column => edges.foldl pointAlong column } := by
  induction edges generalizing t with
  | nil => simp [linkEdges]
  | cons edge edges ih =>
      have hone : t.setReference edge.fromColumn (some ⟨edge.toTable, edge.toColumn⟩)
          = { t with columns := t.columns.map fun column => pointAlong column edge } :=
        updateColumn_of_nodup h _ _
      have hnames : ((t.columns.map fun column => pointAlong column edge).map
          Column.name).Nodup := by
        simpa [Function.comp_def, name_pointAlong] using h
      rw [linkEdges, List.foldl_cons, ← linkEdges, hone, ih hnames]
      simp [Function.comp_def]

/-- Where no column is in two foreign keys, a column points along the one that it is in. -/
lemma foldl_pointAlong (table : String) {pairs : List (String × Reference)}
    (h : (pairs.map Prod.fst).Nodup) (column : Column) :
    (pairs.map (edgeOf table)).foldl pointAlong column
      = { column with references := (pairs.lookup column.name).or column.references } := by
  induction pairs generalizing column with
  | nil => simp
  | cons pair pairs ih =>
      obtain ⟨name, target⟩ := pair
      rw [List.map_cons, List.nodup_cons] at h
      rw [List.map_cons, List.foldl_cons, ih h.2]
      by_cases hname : column.name = name
      · have hnone : pairs.lookup name = none := by
          rw [List.lookup_eq_none_iff]
          intro pair hpair
          have hmem : pair.1 ∈ pairs.map Prod.fst := List.mem_map_of_mem hpair
          rw [bne_iff_ne]
          exact fun heq => h.1 (heq ▸ hmem)
        simp [pointAlong, edgeOf, hname, hnone]
      · have hbeq : (column.name == name) = false := by simpa using hname
        simp [pointAlong, edgeOf, hname, List.lookup_cons, hbeq]

/-! ### Created tables -/

@[simp] lemma name_created (table : TableDef) : table.created.name = table.name := rfl

/-- The table that a written table is read as. -/
lemma table_created (h : (table.columns.map ColumnDef.name).Nodup) :
    table.created.table = {
      name := table.name
      columns := table.columns.map fun column => (table.pairs.map (edgeOf table.name)).foldl
        pointAlong (column.plain.markIf (table.clauses.flatMap Clause.primaryKeys))
      indexes := table.indexes } := by
  have hplain : ((table.columns.map ColumnDef.plain).map Column.name).Nodup := by
    rw [List.map_map]
    exact h
  have hmarked : ∀ names, (((table.columns.map ColumnDef.plain).map (Column.markIf names)).map
      Column.name).Nodup := fun names => by
    rw [List.map_map]
    exact hplain
  have hentries : table.created.entries.foldl TableEntry.applyTo (Table.empty table.name) = {
      name := table.name
      columns := (table.columns.map ColumnDef.plain).map
        (Column.markIf (table.clauses.flatMap Clause.primaryKeys))
      indexes := table.indexes } := by
    have hsplit : table.created.entries = (table.columns.map fun column =>
        TableEntry.column column.entry) ++ table.clauses.map Clause.entry := by
      simp [TableDef.created, TableDef.items, Function.comp_def]
    rw [hsplit, List.foldl_append, foldl_columns]
    exact foldl_clauses (t := ⟨table.name, table.columns.map ColumnDef.plain, _⟩) table.clauses
      hplain
  rw [CreateTable.table, edges_created, name_created, hentries, linkEdges_of_nodup (hmarked _)]
  simp

/-- The first pass: every created table is put behind the others, and its edges are added. -/
lemma foldl_addCreated (tables : List TableDef) (d : Draft)
    (hnames : (d.tables.map Table.name ++ tables.map TableDef.name).Nodup)
    (hedges : ((d.relations ++ tables.flatMap fun table => table.pairs.map
      (edgeOf table.name)).map Relation.leaves).Nodup) :
    ((tables.map fun table => some table.created).foldl addCreated d).tables
        = d.tables ++ tables.map (fun table => table.created.table) ∧
      ((tables.map fun table => some table.created).foldl addCreated d).relations
        = d.relations ++ tables.flatMap fun table => table.pairs.map (edgeOf table.name) := by
  have htables : ∀ (d : Draft) (table : TableDef), (addCreated d (some table.created)).tables
      = putTable table.created.table d.tables := fun d table => by
    simp [addCreated, CreateTable.addTo]
  have hrelations : ∀ (d : Draft) (table : TableDef),
      ((d.relations ++ table.pairs.map (edgeOf table.name)).map Relation.leaves).Nodup →
        (addCreated d (some table.created)).relations
          = d.relations ++ table.pairs.map (edgeOf table.name) := fun d table h => by
    simp only [addCreated, CreateTable.addTo, relations_addTable, relations_note, edges_created]
    rw [relations_addRelations_of_nodup (by simpa using h), relations_noteAll]
  rw [List.foldl_map]
  refine ⟨tables_foldl_of_nodup htables tables d ?_,
    relations_foldl_of_nodup hrelations tables d hedges⟩
  simpa [Function.comp_def, name_table] using hnames

/-! ### Added indexes -/

/-- A table with the indexes that are created on it. -/
def addIndexes (statements : List CreateIndex) (t : Table) : Table :=
  let own := statements.filter fun statement => statement.table = t.name
  { t with indexes := t.indexes ++ own.map fun statement =>
      indexOf t.name statement.name statement.columns statement.unique }

lemma addIndexes_nil : addIndexes [] = id := by
  funext t
  simp [addIndexes]

lemma addIndexes_cons (statement : CreateIndex) (statements : List CreateIndex) (t : Table) :
    addIndexes (statement :: statements) t = addIndexes statements (addIndexes [statement] t) := by
  by_cases hname : statement.table = t.name
  · simp [addIndexes, hname]
  · simp [addIndexes, hname]

/-- An index that is created on a table of the draft is put behind its other indexes; on any other
table it changes none. -/
lemma tables_createIndex (statement : CreateIndex) {d : Draft}
    (hnames : (d.tables.map Table.name).Nodup) :
    (statement.addTo d).tables = d.tables.map (addIndexes [statement]) := by
  by_cases hknown : (d.table? statement.table).isSome = true
  · rw [CreateIndex.addTo, if_pos hknown, tables_updateTable_of_nodup hnames]
    refine List.map_congr_left fun t _ => ?_
    by_cases hname : t.name = statement.table
    · simp [addIndexes, addNamedIndex, Table.addIndex, indexOf, hname]
    · simp [addIndexes, hname, Ne.symm hname]
  · rw [CreateIndex.addTo, if_neg hknown, tables_note]
    refine ((List.map_congr_left fun t ht => ?_).trans (List.map_id _)).symm
    have hne : statement.table ≠ t.name := fun heq =>
      hknown (isSome_table? (heq ▸ List.mem_map_of_mem ht))
    simp [addIndexes, hne]

lemma relations_createIndex (statement : CreateIndex) (d : Draft) :
    (statement.addTo d).relations = d.relations := by
  rw [CreateIndex.addTo]
  split <;> rfl

/-- The second pass: every table gets the indexes that are created on it. -/
lemma foldl_addIndex (statements : List CreateIndex) (d : Draft)
    (hnames : (d.tables.map Table.name).Nodup) :
    (statements.foldl CreateIndex.addTo d).tables = d.tables.map (addIndexes statements) ∧
      (statements.foldl CreateIndex.addTo d).relations = d.relations := by
  induction statements generalizing d with
  | nil => simp [addIndexes_nil]
  | cons statement statements ih =>
      have htables := tables_createIndex statement hnames
      have hnames' : ((statement.addTo d).tables.map Table.name).Nodup := by
        rw [htables, List.map_map]
        exact hnames
      rw [List.foldl_cons]
      obtain ⟨ihtables, ihrelations⟩ := ih _ hnames'
      refine ⟨?_, ihrelations.trans (relations_createIndex statement d)⟩
      rw [ihtables, htables, List.map_map]
      exact List.map_congr_left fun t _ => (addIndexes_cons statement statements t).symm

/-! ### Added foreign keys -/

/-- A table with its columns pointing along the foreign keys that are added to it. -/
def linkKeys (statements : List AddForeignKey) (t : Table) : Table :=
  linkEdges ((statements.filter fun statement => statement.table = t.name).flatMap
    fun statement => statement.key.edges t.name) t

lemma linkKeys_nil : linkKeys [] = id := rfl

lemma linkKeys_cons (statement : AddForeignKey) (statements : List AddForeignKey) (t : Table) :
    linkKeys (statement :: statements) t = linkKeys statements (linkKeys [statement] t) := by
  have hlinked : (linkKeys [statement] t).name = t.name := name_linkEdges _ t
  rw [linkKeys.eq_def statements, hlinked]
  by_cases hname : statement.table = t.name
  · simp [linkKeys, linkEdges, hname]
  · simp [linkKeys, linkEdges, hname]

/-- A foreign key that is added to a table of the draft links the columns of this table. -/
lemma tables_addForeignKey {statement : AddForeignKey} {d : Draft}
    (hnames : (d.tables.map Table.name).Nodup)
    (hknown : statement.table ∈ d.tables.map Table.name) :
    (statement.addTo d).tables = d.tables.map (linkKeys [statement]) := by
  simp only [AddForeignKey.addTo, isSome_table? hknown, ite_true, tables_addRelations,
    tables_updateTable_of_nodup hnames]
  refine List.map_congr_left fun t _ => ?_
  by_cases hname : t.name = statement.table
  · simp [linkKeys, hname]
  · simp [linkKeys, hname, Ne.symm hname, linkEdges]

/-- And its edges become relations. -/
lemma relations_addForeignKey {statement : AddForeignKey} {d : Draft}
    (hknown : statement.table ∈ d.tables.map Table.name)
    (hedges : ((d.relations ++ statement.key.edges statement.table).map Relation.leaves).Nodup) :
    (statement.addTo d).relations = d.relations ++ statement.key.edges statement.table := by
  simp only [AddForeignKey.addTo, isSome_table? hknown, ite_true]
  rw [relations_addRelations_of_nodup (by simpa using hedges), relations_updateTable]

/-- The third pass: the columns of every table point along the foreign keys that are added to it,
and their edges are added. -/
lemma foldl_addForeignKey (statements : List AddForeignKey) (d : Draft)
    (hnames : (d.tables.map Table.name).Nodup)
    (hknown : ∀ statement ∈ statements, statement.table ∈ d.tables.map Table.name)
    (hedges : ((d.relations ++ statements.flatMap fun statement =>
      statement.key.edges statement.table).map Relation.leaves).Nodup) :
    (statements.foldl AddForeignKey.addTo d).tables = d.tables.map (linkKeys statements) ∧
      (statements.foldl AddForeignKey.addTo d).relations
        = d.relations ++ statements.flatMap fun statement =>
            statement.key.edges statement.table := by
  induction statements generalizing d with
  | nil => simp [linkKeys_nil]
  | cons statement statements ih =>
      rw [List.forall_mem_cons] at hknown
      rw [List.flatMap_cons, ← List.append_assoc] at hedges
      have hone : ((d.relations ++ statement.key.edges statement.table).map
          Relation.leaves).Nodup := by
        rw [List.map_append] at hedges
        exact (List.nodup_append.mp hedges).1
      have htables := tables_addForeignKey hnames hknown.1
      have hrelations := relations_addForeignKey hknown.1 hone
      have hsame : (statement.addTo d).tables.map Table.name = d.tables.map Table.name := by
        rw [htables, List.map_map]
        exact List.map_congr_left fun t _ => name_linkEdges _ t
      obtain ⟨ihtables, ihrelations⟩ := ih (statement.addTo d) (by rw [hsame]; exact hnames)
        (fun other hother => by rw [hsame]; exact hknown.2 other hother)
        (by rw [hrelations]; exact hedges)
      rw [List.foldl_cons, List.flatMap_cons]
      constructor
      · rw [ihtables, htables, List.map_map]
        exact List.map_congr_left fun t _ => (linkKeys_cons statement statements t).symm
      · rw [ihrelations, hrelations, List.append_assoc]

end SchemaReader.Ddl
