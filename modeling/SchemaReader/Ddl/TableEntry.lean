/-
The entries of a created table.

* `ForeignKey`: columns that point at another table, with the `ForeignKey.edges` they make;
* `ColumnEntry`: a column with its options;
* `TableEntry`: a column or a constraint, with `TableEntry.ofText`, which reads one.
-/
import SchemaReader.Ddl.Forms
import SchemaReader.Lexical.Identifier
import SchemaReader.Schema.Basic

namespace SchemaReader.Ddl

/-! ### Names and lists -/

/-- The bare name of a written identifier. -/
def nameOf (text : List Char) : String :=
  String.ofList (cleanIdentifier text)

/-- The bare names of a written list. -/
def namesOf (text : List Char) : List String :=
  (identifierList .script text).map String.ofList

/-! ### Foreign keys -/

/-- Columns that point at columns of another table. -/
structure ForeignKey where
  /-- The columns that point. -/
  columns : List String
  /-- The table they point at. -/
  table : String
  /-- The columns they point at, if the statement lists them. -/
  targets : Option (List String)
  deriving DecidableEq, Repr

/-- The columns that a foreign key points at.  Where none are listed, every column points at a
column `id`. -/
def ForeignKey.targetColumns (key : ForeignKey) : List String :=
  key.targets.getD (List.replicate key.columns.length "id")

/-- The relations that a foreign key of a table makes, column by column as far as both lists
go. -/
def ForeignKey.edges (table : String) (key : ForeignKey) : List Relation :=
  (key.columns.zip key.targetColumns).map fun pair =>
    ⟨table, pair.1, key.table, pair.2, .oneToMany⟩

/-- The foreign key of a match whose group `n` is the table and whose group `n + 1` lists the
columns pointed at. -/
def ForeignKey.ofMatch (columns : List String) (n : Nat) (found : Match) : ForeignKey :=
  ⟨columns, nameOf (found.group n), (found.group? (n + 1)).map namesOf⟩

/-! ### Entries -/

/-- A column with its options. -/
structure ColumnEntry where
  name : String
  /-- The type as written. -/
  type : String
  nullable : Bool
  primaryKey : Bool
  unique : Bool
  /-- The foreign key among the options. -/
  references : Option ForeignKey
  deriving DecidableEq, Repr

/-- One entry of a created table. -/
inductive TableEntry where
  | column (entry : ColumnEntry)
  | primaryKey (columns : List String)
  | unique (name : Option String) (columns : List String)
  | index (name : Option String) (columns : List String)
  | foreignKey (key : ForeignKey)
  /-- A constraint that leaves no mark on the schema. -/
  | otherConstraint
  /-- Neither a constraint nor a column. -/
  | unrecognized
  deriving DecidableEq, Repr

/-! ### Reading columns -/

/-- The foreign key among the options of a column.  It is sought where the options show at the
top level, `masked`, and read from the options themselves, at the same byte. -/
def inlineForeignKey? (name : String) (options masked : List Char) : Option ForeignKey := do
  let shown ← inlineReferencesForm.find? masked
  let fromThere ← Text.dropBytes? (Text.byteLength shown.start.before) options
  let found ← inlineReferencesForm.find? fromThere
  return .ofMatch [name] 1 found

/-- Reads a column.  Its options are those that show at the top level after the type. -/
def ColumnEntry.ofText? (text : List Char) : Option ColumnEntry := do
  let found ← columnForm.find? text
  let name := nameOf (found.group 1)
  let options := found.stop.after
  let masked := maskNested .script options
  return {
    name
    type := String.ofList (Text.trim (found.group 2))
    nullable := !notNullForm.occursIn masked
    primaryKey := inlinePrimaryKeyForm.occursIn masked
    unique := inlineUniqueForm.occursIn masked
    references := inlineForeignKey? name options masked }

/-- Reads a column, or nothing that is known. -/
def TableEntry.ofColumnText (text : List Char) : TableEntry :=
  match ColumnEntry.ofText? text with
  | some entry => .column entry
  | none => .unrecognized

/-! ### Reading constraints -/

/-- The first words of constraints. -/
def constraintWords : List String :=
  ["PRIMARY", "UNIQUE", "CHECK", "CONSTRAINT", "INDEX", "KEY", "FOREIGN", "FULLTEXT", "SPATIAL",
   "EXCLUDE"]

/-- The types that show an entry to be a column although its name is the first word of a
constraint. -/
def typeNames : List String :=
  ["BIGINT", "BIGSERIAL", "BINARY", "BIT", "BLOB", "BOOL", "BOOLEAN", "BYTEA", "CHAR",
   "CHARACTER", "CITEXT", "DATE", "DATETIME", "DEC", "DECIMAL", "DOUBLE", "ENUM", "FLOAT",
   "INET", "INT", "INTEGER", "INTERVAL", "JSON", "JSONB", "LONGTEXT", "MEDIUMINT", "MEDIUMTEXT",
   "MONEY", "NCHAR", "NUMERIC", "NVARCHAR", "REAL", "SERIAL", "SMALLINT", "SMALLSERIAL", "TEXT",
   "TIME", "TIMESTAMP", "TIMESTAMPTZ", "TINYINT", "TINYTEXT", "UUID", "VARBINARY", "VARCHAR",
   "YEAR"]

/-- The first word of an entry, in capitals. -/
def firstWord (text : List Char) : String :=
  String.ofList (Text.upper (Text.firstSegment endsFirstWord text))

/-- Whether the second word of an entry is a type. -/
def secondWordIsType (text : List Char) : Bool :=
  (secondWordForm.find? text).any fun found =>
    typeNames.contains (String.ofList (Text.upper (found.group 1)))

/-- Whether an entry is to be read as a constraint first: it begins like one, and its second word
is no type.  After `CONSTRAINT` a type is a name. -/
def looksLikeConstraint (text : List Char) : Bool :=
  constraintWords.contains (firstWord text) &&
    (firstWord text == "CONSTRAINT" || !secondWordIsType text)

/-- Reads a constraint.  An entry in none of the four known forms is another constraint, unless
its first word can well be the name of a column. -/
def constraint? (text : List Char) : Option TableEntry :=
  if let some found := foreignKeyForm.find? text then
    some (.foreignKey (.ofMatch (namesOf (found.group 1)) 2 found))
  else if let some found := primaryKeyForm.find? text then
    some (.primaryKey (namesOf (found.group 1)))
  else if let some found := uniqueForm.find? text then
    some (.unique (((found.group? 2).or (found.group? 1)).map nameOf) (namesOf (found.group 3)))
  else if let some found := indexForm.find? text then
    some (.index ((found.group? 1).map nameOf) (namesOf (found.group 2)))
  else if ["KEY", "INDEX", "UNIQUE"].contains (firstWord text) then none
  else some .otherConstraint

/-- Reads an entry of a created table. -/
def TableEntry.ofText (text : List Char) : TableEntry :=
  if looksLikeConstraint text then (constraint? text).getD (.ofColumnText text)
  else .ofColumnText text

end SchemaReader.Ddl
