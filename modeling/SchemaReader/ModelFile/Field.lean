/-
The lines of a model.

* `Field`: a field with its type, its modifiers and its attributes; `Field.ofLine?` reads one;
* `Field.relationLists?`: the two lists of an explicit relation;
* `BlockAttribute`: a key or an index of the whole model; `BlockAttribute.ofLine?` reads one;
* `Line`: what a line of a model is.
-/
import SchemaReader.Lexical.Identifier
import SchemaReader.Pattern.Words

namespace SchemaReader.ModelFile

open SchemaReader.Pattern (blanks someBlanks word lit inSquares opt char)

/-- The bare names of a written list. -/
def namesOf (text : List Char) : List String :=
  (identifierList .code text).map String.ofList

/-! ### Fields -/

/-- A field of a model. -/
structure Field where
  name : String
  type : String
  /-- Whether the modifiers hold a pair of square brackets. -/
  isList : Bool
  /-- Whether the modifiers hold a question mark. -/
  optional : Bool
  /-- The rest of the line. -/
  attributes : List Char
  deriving DecidableEq, Repr

/-- A field: its name, its type, the type's argument up to the first closing parenthesis, the
modifiers and the rest of the line. -/
def fieldForm : Pattern :=
  .textStart ++ .group 1 word ++ someBlanks ++ .group 2 word ++
    opt (char '(' ++ .many (· != ')') ++ char ')') ++
    .group 4 (.star (lit "[]" ||| char '?')) ++ .group 5 (.many (· != '\n')) ++ .textEnd

/-- Reads a field from a trimmed line. -/
def Field.ofLine? (line : List Char) : Option Field :=
  (fieldForm.find? line).map fun found =>
    let modifiers := found.group 4
    { name := String.ofList (found.group 1)
      type := String.ofList (found.group 2)
      isList := modifiers.contains '['
      optional := modifiers.contains '?'
      attributes := found.group 5 }

/-! ### Attributes of a field -/

/-- An attribute as a whole word. -/
def attributeWord (name : String) : Pattern := lit name ++ .wordEdge

/-- The attribute of an explicit relation with its arguments, group 1. -/
def relationForm : Pattern :=
  lit "@relation" ++ blanks ++ char '(' ++ .group 1 (.many (· != ')')) ++ char ')'

/-- A named argument that is a list, group 1. -/
def listArgument (name : String) : Pattern :=
  .wordEdge ++ lit name ++ blanks ++ char ':' ++ blanks ++ inSquares 1

/-- The names in a named argument that is a list, if it is there. -/
def listedIn (name : String) (arguments : List Char) : List String :=
  match (listArgument name).find? arguments with
  | some found => namesOf (found.group 1)
  | none => []

/-- The columns of an explicit relation, and the columns they point at. -/
def Field.relationLists? (field : Field) : Option (List String × List String) :=
  (relationForm.find? field.attributes).map fun found =>
    (listedIn "fields" (found.group 1), listedIn "references" (found.group 1))

/-- The pairs of columns of an explicit relation, as far as both lists go. -/
def Field.relationPairs? (field : Field) : Option (List (String × String)) :=
  field.relationLists?.map fun lists => lists.1.zip lists.2

/-- Whether a field has the attribute of a relation. -/
def Field.hasRelationAttribute (field : Field) : Bool :=
  (attributeWord "@relation").occursIn field.attributes

/-- Whether a field is the key of its model. -/
def Field.isId (field : Field) : Bool :=
  (attributeWord "@id").occursIn field.attributes

/-- Whether a field is unique in its model. -/
def Field.isUnique (field : Field) : Bool :=
  (attributeWord "@unique").occursIn field.attributes

/-! ### Attributes of a model -/

/-- What an attribute of a model declares. -/
inductive BlockAttribute where
  /-- A key of several columns. -/
  | id (columns : List String)
  /-- An index or a uniqueness constraint. -/
  | index (name : Option String) (columns : List String) (unique : Bool)
  /-- Columns are wanted, but there is no list of them. -/
  | withoutColumns
  deriving DecidableEq, Repr

/-- A block attribute that lists columns: its kind, group 1, and its arguments, group 2. -/
def blockAttributeForm : Pattern :=
  .textStart ++ lit "@@" ++ .group 1 (lit "index" ||| lit "unique" ||| lit "id") ++ blanks ++
    char '(' ++ .group 2 (.many (· != '\n')) ++ char ')' ++ blanks ++ .textEnd

/-- The name given to an index, group 1. -/
def nameArgument : Pattern :=
  .wordEdge ++ (lit "name" ||| lit "map") ++ blanks ++ char ':' ++ blanks ++ char '"' ++
    .group 1 (.many (· != '"')) ++ char '"'

/-- The columns that arguments list: those in the first square brackets. -/
def columnsOf? (arguments : List Char) : Option (List String) :=
  (bracketBody? .code (arguments.dropWhile (· != '['))).map namesOf

/-- Reads an attribute of a model.  Attributes of other kinds, and lists without a column,
declare nothing. -/
def BlockAttribute.ofLine? (line : List Char) : Option BlockAttribute :=
  match blockAttributeForm.find? line with
  | none => none
  | some found =>
    let arguments := found.group 2
    match columnsOf? arguments with
    | none => some .withoutColumns
    | some [] => none
    | some columns =>
      let kind := String.ofList (found.group 1)
      if kind == "id" then some (.id columns)
      else
        let name := (nameArgument.find? arguments).map fun n => String.ofList (n.group 1)
        some (.index name columns (kind == "unique"))

/-! ### Lines -/

/-- What a line of a model is. -/
inductive Line where
  | blank
  | field (field : Field)
  /-- A line that begins like an attribute of the model, with what it declares. -/
  | blockAttribute (declared : Option BlockAttribute)
  | unrecognized
  deriving DecidableEq, Repr

/-- Reads a line of a model. -/
def Line.ofText (text : List Char) : Line :=
  let line := Text.trim text
  if line.isEmpty then .blank
  else if ['@', '@'].isPrefixOf line then .blockAttribute (BlockAttribute.ofLine? line)
  else match Field.ofLine? line with
    | some f => .field f
    | none => .unrecognized

end SchemaReader.ModelFile
