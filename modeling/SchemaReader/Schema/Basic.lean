/-
The schema of a database, whatever it was read from.

* `Source`: what kind of file a schema was read from;
* `Column`, `Index`, `Table`: the tables, with `Table.column?`, `Table.addColumn`,
  `Table.addIndex`, `Table.updateColumn` and `Table.markPrimaryKey`;
* `Relation`, `Cardinality`: the edges between tables, with `Relation.sameEdge`;
* `Schema`: tables and relations with their source and path.
-/

namespace SchemaReader

/-! ### Sources -/

/-- What kind of file a schema was read from: a Prisma model file, a Drizzle table module or a
script of SQL statements. -/
inductive Source where
  | prisma
  | drizzle
  | sql
  /-- No file was found, or none of the three kinds. -/
  | unknown
  deriving DecidableEq, Repr

/-- The name of a source. -/
def Source.name : Source → String
  | .prisma => "prisma"
  | .drizzle => "drizzle"
  | .sql => "sql"
  | .unknown => "unknown"

/-- The source of a name, in small letters only. -/
def Source.ofName? : String → Option Source
  | "prisma" => some .prisma
  | "drizzle" => some .drizzle
  | "sql" => some .sql
  | "unknown" => some .unknown
  | _ => none

/-! ### Columns -/

/-- The column of another table that a foreign key points at. -/
structure Reference where
  table : String
  column : String
  deriving DecidableEq, Repr

/-- A column of a table. -/
structure Column where
  name : String
  /-- The type as the source writes it. -/
  type : String
  nullable : Bool
  primaryKey : Bool
  /-- What the column points at, if it is a foreign key. -/
  references : Option Reference
  deriving DecidableEq, Repr

/-! ### Indexes -/

/-- An index or a uniqueness constraint. -/
structure Index where
  name : String
  /-- The columns; their order matters. -/
  columns : List String
  unique : Bool
  deriving DecidableEq, Repr

/-- The name of an index that the source leaves unnamed: the table, the columns, and `unique` or
`idx`, joined by underscores. -/
def Index.defaultName (table : String) (columns : List String) (unique : Bool) : String :=
  table ++ "_" ++ "_".intercalate columns ++ "_" ++ (if unique then "unique" else "idx")

/-- The uniqueness constraint of a single column, under its default name. -/
def Index.uniqueColumn (table column : String) : Index :=
  ⟨table ++ "_" ++ column ++ "_unique", [column], true⟩

/-! ### Tables -/

/-- A table: its columns in the order of the source, and its indexes. -/
structure Table where
  name : String
  columns : List Column
  indexes : List Index
  deriving DecidableEq, Repr

/-- A table without columns and indexes. -/
def Table.empty (name : String) : Table := ⟨name, [], []⟩

/-- A table with one more column at the end. -/
def Table.addColumn (table : Table) (column : Column) : Table :=
  { table with columns := table.columns ++ [column] }

/-- A table with one more index at the end. -/
def Table.addIndex (table : Table) (index : Index) : Table :=
  { table with indexes := table.indexes ++ [index] }

/-- The first column of a name. -/
def Table.column? (table : Table) (name : String) : Option Column :=
  table.columns.find? fun column => column.name == name

/-- A list of columns with a change made to the first one of a name. -/
def updateFirstColumn (name : String) (change : Column → Column) : List Column → List Column
  | [] => []
  | column :: rest =>
    if column.name == name then change column :: rest
    else column :: updateFirstColumn name change rest

/-- A table with a change made to the first column of a name, if there is one. -/
def Table.updateColumn (table : Table) (name : String) (change : Column → Column) : Table :=
  { table with columns := updateFirstColumn name change table.columns }

/-- A table with the named columns made part of the primary key.  Names of no column are passed
over. -/
def Table.markPrimaryKey (table : Table) (names : List String) : Table :=
  names.foldl (fun t name => t.updateColumn name fun c => { c with primaryKey := true }) table

/-- A table with the foreign key of a column set or taken away. -/
def Table.setReference (table : Table) (name : String) (reference : Option Reference) : Table :=
  table.updateColumn name fun c => { c with references := reference }

/-! ### Relations -/

/-- How many rows stand on the two sides of a relation. -/
inductive Cardinality where
  | oneToOne
  | oneToMany
  | manyToMany
  deriving DecidableEq, Repr

/-- The name of a cardinality. -/
def Cardinality.name : Cardinality → String
  | .oneToOne => "one-to-one"
  | .oneToMany => "one-to-many"
  | .manyToMany => "many-to-many"

/-- The cardinality of a name. -/
def Cardinality.ofName? : String → Option Cardinality
  | "one-to-one" => some .oneToOne
  | "one-to-many" => some .oneToMany
  | "many-to-many" => some .manyToMany
  | _ => none

/-- An edge from a column of one table to a column of another. -/
structure Relation where
  fromTable : String
  fromColumn : String
  toTable : String
  toColumn : String
  cardinality : Cardinality
  deriving DecidableEq, Repr

/-- Two relations run along the same edge when they leave the same column of the same table for
the same table; the column they arrive at does not matter. -/
def Relation.sameEdge (r s : Relation) : Bool :=
  r.fromTable == s.fromTable && r.fromColumn == s.fromColumn && r.toTable == s.toTable

/-! ### Schemas -/

/-- A schema: tables and relations, with the source they come from. -/
structure Schema where
  source : Source
  tables : List Table
  relations : List Relation
  /-- The path of the file as it was given or found. -/
  rawPath : String
  deriving DecidableEq, Repr

/-- The schema of no source. -/
def Schema.unknown (rawPath : String) : Schema := ⟨.unknown, [], [], rawPath⟩

/-- The first table of a name. -/
def Schema.table? (schema : Schema) (name : String) : Option Table :=
  schema.tables.find? fun table => table.name == name

end SchemaReader
