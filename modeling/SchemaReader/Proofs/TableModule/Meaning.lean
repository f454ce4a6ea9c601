/-
What a table module means.

* `schemaOf`: the schema of a list of tables and blocks of relations, said directly: the tables in
  the order of their declaration under the names that they are given, each with its columns, the
  indexes of its columns and of its callback, and the relations of all columns and blocks, of which
  one edge has only the first;
* `WellFormed`: the variables and the names of the tables differ, and so do the keys of a table.
-/
import SchemaReader.Proofs.Schema.Runs
import SchemaReader.Proofs.TableModule.Syntax

namespace SchemaReader.TableModule

/-! ### Names -/

/-- The name of the table that is declared with a variable, or the variable if there is none. -/
def nameOf (tables : List TableDef) (binding : String) : String :=
  ((tables.find? fun table => table.binding == binding).map TableDef.name).getD binding

/-! ### Columns -/

/-- What a column points at. -/
def ColumnDef.reference? (tables : List TableDef) (column : ColumnDef) : Option Reference :=
  (column.methods.findSome? Method.target?).map fun target => ⟨nameOf tables target.1, target.2⟩

/-- The columns of a composite key. -/
def CallbackItem.keyColumns : CallbackItem → List String
  | .index _ => []
  | .primaryKey columns => columns

/-- What the callback of a table declares. -/
def TableDef.items (table : TableDef) : List CallbackItem :=
  table.callback.toList.flatMap fun callback => callback.body.items

/-- What a column means. -/
def columnOf (tables : List TableDef) (table : TableDef) (column : ColumnDef) : Column := {
  name := column.key
  type := column.type
  nullable := !column.methods.contains .notNull
  primaryKey := column.methods.contains .primaryKey ||
    (table.items.flatMap CallbackItem.keyColumns).contains column.key
  references := column.reference? tables }

/-! ### Indexes -/

/-- The index of a callback under its given or its default name; one without columns is none. -/
def IndexDef.index? (table : String) (index : IndexDef) : Option Index :=
  let columns := index.columns.map IndexColumn.name
  let unique := index.function != .index
  let given := (index.name.map Prod.snd).filter fun name => !name.isEmpty
  if index.columns = [] then none
  else some ⟨given.getD (Index.defaultName table columns unique), columns, unique⟩

/-- The index that an item of a callback declares. -/
def CallbackItem.index? (table : String) : CallbackItem → Option Index
  | .index made => made.index? table
  | .primaryKey _ => none

/-- The indexes of a table: one for each unique column, then those of the callback. -/
def TableDef.indexes (table : TableDef) : List Index :=
  (table.columns.filter fun column => column.methods.contains .unique).map
      (fun column => Index.uniqueColumn table.name column.key) ++
    table.items.filterMap (CallbackItem.index? table.name)

/-- What a table means. -/
def tableOf (tables : List TableDef) (table : TableDef) : Table :=
  ⟨table.name, table.columns.map (columnOf tables table), table.indexes⟩

/-! ### Relations -/

/-- The relations of the columns of a table. -/
def TableDef.relations (tables : List TableDef) (table : TableDef) : List Relation :=
  table.columns.filterMap fun column => (column.reference? tables).map fun reference =>
    ⟨table.name, column.key, reference.table, reference.column, .oneToMany⟩

/-- The relations of one entry of a block to the rows of another table: to one by the keys of both,
or along pairs of columns, and to many by the column that is named for the table. -/
def TargetDef.relations (tables : List TableDef) (table : String) : TargetDef → List Relation
  | .one binding => [⟨table, "id", nameOf tables binding, "id", .oneToOne⟩]
  | .oneAlong binding fields references => (fields.zip references).map fun pair =>
      ⟨table, pair.1.2, nameOf tables binding, pair.2.2, .oneToOne⟩
  | .many binding => [⟨table, "id", nameOf tables binding, table ++ "Id", .oneToMany⟩]

/-- The relations of a block. -/
def BlockDef.relations (tables : List TableDef) (block : BlockDef) : List Relation :=
  block.entries.flatMap fun entry => entry.2.relations tables (nameOf tables block.binding)

/-! ### Modules -/

/-- The schema that a module means. -/
def schemaOf (items : List Item) (rawPath : String) : Schema := {
  source := .drizzle
  tables := (tablesOf items).map (tableOf (tablesOf items))
  relations := firstBy Relation.edge
    ((tablesOf items).flatMap (TableDef.relations (tablesOf items)) ++
    (blocksOf items).flatMap (BlockDef.relations (tablesOf items)))
  rawPath }

/-- A module whose tables have variables and names of their own, and each table columns with keys of
their own. -/
structure WellFormed (items : List Item) : Prop where
  proper : ∀ item ∈ items, item.Proper
  bindings : ((tablesOf items).map TableDef.binding).Nodup
  names : ((tablesOf items).map TableDef.name).Nodup
  keys : ∀ table ∈ tablesOf items, (table.columns.map ColumnDef.key).Nodup

instance (items : List Item) : Decidable (WellFormed items) :=
  decidable_of_iff ((∀ item ∈ items, item.Proper) ∧ ((tablesOf items).map TableDef.binding).Nodup ∧
      ((tablesOf items).map TableDef.name).Nodup ∧
      ∀ table ∈ tablesOf items, (table.columns.map ColumnDef.key).Nodup)
    ⟨fun h => ⟨h.1, h.2.1, h.2.2.1, h.2.2.2⟩, fun h => ⟨h.1, h.2, h.3, h.4⟩⟩

end SchemaReader.TableModule
