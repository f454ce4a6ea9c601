/-
Tables that every source can write.

* `CommonTable`: a table of text columns, which may be nullable, part of the primary key or unique;
* `CommonTable.table`: the table that it stands for, under a source's word for the type of its
  columns;
* `foldl_addTo`, `schema_foldl`: such a table is put together column by column, and a schema of them
  table by table.
-/
import SchemaReader.Proofs.Schema.Distinct
import SchemaReader.Proofs.Text.Words

namespace SchemaReader

/-- A column that holds text. -/
structure CommonColumn where
  name : String
  nullable : Bool
  primaryKey : Bool
  unique : Bool
  deriving DecidableEq, Repr

/-- A table whose columns hold text. -/
structure CommonTable where
  name : String
  columns : List CommonColumn
  deriving DecidableEq, Repr

/-- Names are words.  The word `CONSTRAINT` is no column's name, since a statement would go on with
a constraint there. -/
structure CommonTable.Proper (table : CommonTable) : Prop where
  name : Text.IsWord table.name.toList
  columns : ∀ column ∈ table.columns, Text.IsWord column.name.toList ∧
    String.ofList (Text.upper column.name.toList) ≠ "CONSTRAINT"

instance (table : CommonTable) : Decidable table.Proper :=
  decidable_of_iff (Text.IsWord table.name.toList ∧ ∀ column ∈ table.columns,
      Text.IsWord column.name.toList ∧ String.ofList (Text.upper column.name.toList) ≠ "CONSTRAINT")
    ⟨fun h => ⟨h.1, h.2⟩, fun h => ⟨h.1, h.2⟩⟩

/-! ### What the tables stand for -/

/-- The column, under a word for its type. -/
def CommonColumn.column (type : String) (column : CommonColumn) : Column :=
  ⟨column.name, type, column.nullable, column.primaryKey, none⟩

/-- The table, under a word for the type of its columns: one index for each unique column. -/
def CommonTable.table (type : String) (table : CommonTable) : Table where
  name := table.name
  columns := table.columns.map (CommonColumn.column type)
  indexes := (table.columns.filter CommonColumn.unique).map fun column =>
    .uniqueColumn table.name column.name

/-- A table with one more column and its index. -/
def CommonColumn.addTo (type : String) (table : Table) (column : CommonColumn) : Table :=
  let grown := table.addColumn (column.column type)
  if column.unique then grown.addIndex (.uniqueColumn table.name column.name) else grown

variable {type : String}

lemma foldl_addColumns (columns : List CommonColumn) (table : Table) :
    columns.foldl (CommonColumn.addTo type) table
      = { table with
          columns := table.columns ++ columns.map (CommonColumn.column type)
          indexes := table.indexes ++ (columns.filter CommonColumn.unique).map fun column =>
            .uniqueColumn table.name column.name } := by
  induction columns generalizing table with
  | nil => simp
  | cons column columns ih =>
      rw [List.foldl_cons, ih]
      by_cases hunique : column.unique = true
      · simp [CommonColumn.addTo, hunique, Table.addColumn, Table.addIndex]
      · simp [CommonColumn.addTo, hunique, Table.addColumn]

/-- Column by column, the table comes about. -/
theorem foldl_addTo (type : String) (table : CommonTable) :
    table.columns.foldl (CommonColumn.addTo type) (Table.empty table.name) = table.table type := by
  simp [foldl_addColumns, Table.empty, CommonTable.table]

/-! ### Drafts -/

/-- Steps that each put a common table in, and no relation, make a schema of these tables. -/
theorem schema_foldl {step : Draft → CommonTable → Draft} {tables : List CommonTable} {d : Draft}
    (htables : ∀ d table, (step d table).tables = putTable (table.table type) d.tables)
    (hrelations : ∀ d table, (step d table).relations = d.relations)
    (hnames : (tables.map CommonTable.name).Nodup) (hd : d.tables = [] ∧ d.relations = [])
    (source : Source) (rawPath : String) : (tables.foldl step d).schema source rawPath
      = ⟨source, tables.map (CommonTable.table type), [], rawPath⟩ := by
  have hput : (tables.foldl step d).tables = d.tables ++ tables.map (CommonTable.table type) := by
    refine tables_foldl_of_nodup htables tables d ?_
    simpa [hd.1, Function.comp_def, CommonTable.table] using hnames
  have hkept : (tables.foldl step d).relations = d.relations :=
    List.foldlRecOn tables step (motive := fun e => e.relations = d.relations) rfl
      fun e he table _ => (hrelations e table).trans he
  rw [Draft.schema, hput, hkept, hd.1, hd.2, List.nil_append]

end SchemaReader
