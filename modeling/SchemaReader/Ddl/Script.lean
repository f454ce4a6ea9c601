/-
Data definition scripts.

* `CreateTable`, `CreateIndex`, `AddForeignKey`: the statements that matter;
* `Script`: the statements of a text, kind by kind, with `Script.ofText`;
* `Script.draft`: the schema that a script defines.
-/
import SchemaReader.Ddl.TableEntry
import SchemaReader.Lexical.Comments
import SchemaReader.Schema.Draft

namespace SchemaReader.Ddl

/-! ### Statements -/

/-- A statement that creates a table. -/
structure CreateTable where
  name : String
  entries : List TableEntry
  deriving DecidableEq, Repr

/-- A statement that creates an index. -/
structure CreateIndex where
  table : String
  name : Option String
  columns : List String
  unique : Bool
  deriving DecidableEq, Repr

/-- A statement that adds a foreign key to a table. -/
structure AddForeignKey where
  table : String
  key : ForeignKey
  deriving DecidableEq, Repr

/-- The statements of a script, kind by kind, each kind in the order of the text. -/
structure Script where
  /-- The created tables; a table whose list of entries is never closed is `none`. -/
  tables : List (Option CreateTable)
  indexes : List CreateIndex
  foreignKeys : List AddForeignKey
  deriving DecidableEq, Repr

/-! ### Reading scripts -/

/-- The list in parentheses that a match ends with the opening of. -/
def listAfter? (found : Match) : Option (List Char) :=
  (enclosed? .script found.stop.after).map (·.1)

/-- The statement of a match of `createTableHead`. -/
def CreateTable.ofMatch? (found : Match) : Option CreateTable :=
  (listAfter? found).map fun list =>
    ⟨nameOf (found.group 1), (splitTopLevel .script ',' list).map .ofText⟩

/-- A column of an index: an expression as it stands, or else the name it begins with. -/
def indexedColumn (text : List Char) : List Char :=
  if text.contains '(' then text else leadingIdentifier text

/-- The statement of a match of `createIndexHead`. -/
def CreateIndex.ofMatch? (found : Match) : Option CreateIndex :=
  (listAfter? found).map fun list => {
    table := nameOf (found.group 3)
    name := (found.group? 2).map nameOf
    columns := (((splitTopLevel .script ',' list).map indexedColumn).filter
      fun column => !column.isEmpty).map String.ofList
    unique := (found.group? 1).isSome }

/-- The statement of a match of `addForeignKeyForm`. -/
def AddForeignKey.ofMatch (found : Match) : AddForeignKey :=
  ⟨nameOf (found.group 1), .ofMatch (namesOf (found.group 2)) 3 found⟩

/-- The statements of a text without comments. -/
def Script.ofStripped (text : List Char) : Script := {
  tables := (createTableHead.findAll text).map CreateTable.ofMatch?
  indexes := (createIndexHead.findAll text).filterMap CreateIndex.ofMatch?
  foreignKeys := (addForeignKeyForm.findAll text).map AddForeignKey.ofMatch }

/-- The statements of a text. -/
def Script.ofText (text : List Char) : Script :=
  .ofStripped (stripComments .script text)

/-! ### Tables of statements -/

/-- A table with an index under its given or its default name. -/
def addNamedIndex (name : Option String) (columns : List String) (unique : Bool)
    (table : Table) : Table :=
  table.addIndex ⟨name.getD (Index.defaultName table.name columns unique), columns, unique⟩

/-- A table after one more entry.  A primary key marks the columns that are there already, and a
uniqueness constraint without columns is none. -/
def TableEntry.applyTo (table : Table) : TableEntry → Table
  | .column entry =>
    let grown := table.addColumn ⟨entry.name, entry.type, entry.nullable, entry.primaryKey, none⟩
    if entry.unique then grown.addIndex (.uniqueColumn table.name entry.name) else grown
  | .primaryKey columns => table.markPrimaryKey columns
  | .unique name columns =>
    if columns.isEmpty then table else addNamedIndex name columns true table
  | .index name columns => addNamedIndex name columns false table
  | .foreignKey _ | .otherConstraint | .unrecognized => table

/-- The foreign key of an entry, if it has one. -/
def TableEntry.foreignKey? : TableEntry → Option ForeignKey
  | .column entry => entry.references
  | .foreignKey key => some key
  | _ => none

/-- A table with the columns that edges leave made to point along them. -/
def linkEdges (edges : List Relation) (table : Table) : Table :=
  edges.foldl (fun t edge =>
    t.setReference edge.fromColumn (some ⟨edge.toTable, edge.toColumn⟩)) table

/-- The edges that leave a created table. -/
def CreateTable.edges (statement : CreateTable) : List Relation :=
  (statement.entries.filterMap TableEntry.foreignKey?).flatMap (ForeignKey.edges statement.name)

/-- The table that a statement creates. -/
def CreateTable.table (statement : CreateTable) : Table :=
  linkEdges statement.edges
    (statement.entries.foldl TableEntry.applyTo (Table.empty statement.name))

/-! ### The schema of a script -/

/-- A draft with a created table and its edges. -/
def CreateTable.addTo (draft : Draft) (statement : CreateTable) : Draft :=
  let unrecognized := statement.entries.filter (· == .unrecognized)
  let noted := draft.noteAll (unrecognized.map fun _ => .unrecognizedTableEntry)
  ((noted.addRelations statement.edges).note .createdTableRead).addTable statement.table

/-- A draft after a statement that creates a table, if it ends. -/
def addCreated (draft : Draft) : Option CreateTable → Draft
  | some statement => statement.addTo draft
  | none => draft.note .unterminatedCreateTable

/-- A draft with a created index, if its table is there. -/
def CreateIndex.addTo (draft : Draft) (statement : CreateIndex) : Draft :=
  if (draft.table? statement.table).isSome then
    draft.updateTable statement.table
      (addNamedIndex statement.name statement.columns statement.unique)
  else draft.note .indexOnUnknownTable

/-- A draft with an added foreign key, if its table is there. -/
def AddForeignKey.addTo (draft : Draft) (statement : AddForeignKey) : Draft :=
  let edges := statement.key.edges statement.table
  if (draft.table? statement.table).isSome then
    (draft.updateTable statement.table (linkEdges edges)).addRelations edges
  else draft.note .foreignKeyOnUnknownTable

/-- The schema that a script defines: first all tables, then all indexes, then all foreign
keys that are added. -/
def Script.draft (script : Script) : Draft :=
  let tables := script.tables.foldl addCreated .empty
  let indexes := script.indexes.foldl CreateIndex.addTo tables
  script.foreignKeys.foldl AddForeignKey.addTo indexes

end SchemaReader.Ddl
