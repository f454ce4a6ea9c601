/-
What a script means.

* `schemaOf`: the schema of a list of statements, said directly: the tables in the order of their
  creation, each with its columns, the indexes of its columns, of its clauses and of its own
  statements, and the relations of all foreign keys;
* `WellFormed`: the tables of a script and the columns of a table have names of their own, no column
  is in two foreign keys, and indexes and foreign keys are added to tables of the script.
-/
import SchemaReader.Proofs.Ddl.Syntax
import SchemaReader.Proofs.Schema.Distinct

namespace SchemaReader.Ddl

/-! ### Foreign keys -/

/-- The foreign key of a column: the column and what it points at. -/
def ColumnDef.pairs (column : ColumnDef) : List (String × Reference) :=
  (column.options.findSome? ColumnOption.target?).toList.map fun target => (column.name, target)

/-- The foreign key of a clause, column by column. -/
def Clause.pairs : Clause → List (String × Reference)
  | .foreignKey _ key => key.pairs
  | _ => []

/-- The foreign keys that a table is created with. -/
def TableDef.pairs (table : TableDef) : List (String × Reference) :=
  table.columns.flatMap ColumnDef.pairs ++ table.clauses.flatMap Clause.pairs

/-- The foreign key that a statement adds to a table. -/
def Statement.pairs (name : String) : Statement → List (String × Reference)
  | .addForeignKey table _ key => if table = name then key.pairs else []
  | _ => []

/-- The edge of a column of a table to what it points at. -/
def edgeOf (table : String) (pair : String × Reference) : Relation :=
  ⟨table, pair.1, pair.2.table, pair.2.column, .oneToMany⟩

/-- The edges that a statement adds. -/
def Statement.edges : Statement → List Relation
  | .addForeignKey table _ key => key.pairs.map (edgeOf table)
  | _ => []

/-! ### Indexes -/

/-- An index of a table, under its given or its default name. -/
def indexOf (table : String) (name : Option String) (columns : List String) (unique : Bool) :
    Index := ⟨name.getD (Index.defaultName table columns unique), columns, unique⟩

/-- The index of a clause, if it makes one. -/
def Clause.index? (table : String) : Clause → Option Index
  | .unique name columns => if columns = [] then none else some (indexOf table name columns true)
  | .index _ name columns => some (indexOf table name columns false)
  | _ => none

/-- The index that a statement adds to a table. -/
def Statement.indexOn? (table : String) : Statement → Option Index
  | .createIndex unique name target columns =>
      if target = table then some ⟨name, columns, unique⟩ else none
  | _ => none

/-! ### Tables -/

/-- The columns of a primary key that is a clause. -/
def Clause.primaryKeys : Clause → List String
  | .primaryKey columns => columns
  | _ => []

/-- The table that a statement creates, as it is written. -/
def Statement.table? : Statement → Option TableDef
  | .createTable table => some table
  | _ => none

/-- The tables of a script in the order of their creation. -/
def tablesOf (statements : List Statement) : List TableDef := statements.filterMap Statement.table?

/-- The foreign keys of a table: those it is created with and those that are added. -/
def pairsOf (statements : List Statement) (table : TableDef) : List (String × Reference) :=
  table.pairs ++ statements.flatMap (Statement.pairs table.name)

/-- What a column means. -/
def columnOf (statements : List Statement) (table : TableDef) (column : ColumnDef) : Column := {
  name := column.name
  type := String.ofList column.type.text
  nullable := !column.options.contains .notNull
  primaryKey := column.options.contains .primaryKey ||
    (table.clauses.flatMap Clause.primaryKeys).contains column.name
  references := (pairsOf statements table).lookup column.name }

/-- The indexes that a table is created with: one for each unique column, then those of its
clauses. -/
def TableDef.indexes (table : TableDef) : List Index :=
  (table.columns.filter fun column => column.options.contains .unique).map
      (fun column => Index.uniqueColumn table.name column.name) ++
    table.clauses.filterMap (Clause.index? table.name)

/-- What a table means. -/
def tableOf (statements : List Statement) (table : TableDef) : Table := {
  name := table.name
  columns := table.columns.map (columnOf statements table)
  indexes := table.indexes ++ statements.filterMap (Statement.indexOn? table.name) }

/-- The edges of a script: those that its tables are created with, then those that are added. -/
def edgesOf (statements : List Statement) : List Relation :=
  (tablesOf statements).flatMap (fun table => table.pairs.map (edgeOf table.name)) ++
    statements.flatMap Statement.edges

/-- The schema that a script means. -/
def schemaOf (statements : List Statement) (rawPath : String) : Schema :=
  ⟨.sql, (tablesOf statements).map (tableOf statements), edgesOf statements, rawPath⟩

/-! ### Well-formed scripts -/

/-- The table that a statement adds something to. -/
def Statement.target? : Statement → Option String
  | .createTable _ => none
  | .createIndex _ _ target _ => some target
  | .addForeignKey target _ _ => some target

/-- A script whose tables, and the columns of each, have names of their own, in which no column is
in two foreign keys, and which adds indexes and foreign keys to tables of its own only. -/
structure WellFormed (statements : List Statement) : Prop where
  proper : ∀ statement ∈ statements, statement.Proper
  tables : ((tablesOf statements).map TableDef.name).Nodup
  columns : ∀ table ∈ tablesOf statements, (table.columns.map ColumnDef.name).Nodup
  keys : ((edgesOf statements).map Relation.leaves).Nodup
  targets : ∀ statement ∈ statements, ∀ target ∈ statement.target?,
    target ∈ (tablesOf statements).map TableDef.name

instance (statements : List Statement) : Decidable (WellFormed statements) :=
  decidable_of_iff ((∀ statement ∈ statements, statement.Proper) ∧
      ((tablesOf statements).map TableDef.name).Nodup ∧
      (∀ table ∈ tablesOf statements, (table.columns.map ColumnDef.name).Nodup) ∧
      ((edgesOf statements).map Relation.leaves).Nodup ∧
      ∀ statement ∈ statements, ∀ target ∈ statement.target?,
        target ∈ (tablesOf statements).map TableDef.name)
    ⟨fun h => ⟨h.1, h.2.1, h.2.2.1, h.2.2.2.1, h.2.2.2.2⟩, fun h => ⟨h.1, h.2, h.3, h.4, h.5⟩⟩

/-- A script in which a table is created before, and an index and a foreign key after, what they
belong to. -/
def sampleScript : List Statement :=
  [.createTable ⟨"orders", [⟨"id", ⟨"BIGINT".toList, none⟩, [.primaryKey]⟩,
      ⟨"code", ⟨"varchar".toList, some ([], "12".toList)⟩, [.unique, .notNull]⟩,
      ⟨"user_id", ⟨"INT".toList, none⟩, [.references "users" "id"]⟩,
      ⟨"shop_id", ⟨"INT".toList, none⟩, []⟩],
      [.index true none ["code", "user_id"]]⟩,
    .addForeignKey "orders" (some "fk_shop") ⟨["shop_id"], "users", ["id"]⟩,
    .createIndex true "by_name" "users" ["first", "last"],
    .createTable ⟨"users", [⟨"id", ⟨"INT".toList, none⟩, []⟩, ⟨"first", ⟨"TEXT".toList, none⟩, []⟩,
      ⟨"last", ⟨"TEXT".toList, none⟩, []⟩], [.primaryKey ["id"]]⟩]

end SchemaReader.Ddl
