/-
Model files.

* `Model`: a model with its lines, and the `Model.fields` and `Model.attributes` among them;
* `Contents`: the models of a text and the types that it declares beside them, with
  `Contents.ofText`;
* `Contents.draft`: the schema that a model file defines.
-/
import SchemaReader.Lexical.Comments
import SchemaReader.ModelFile.Field
import SchemaReader.Schema.Draft

namespace SchemaReader.ModelFile

open SchemaReader.Pattern (blanks someBlanks word lit char)

/-! ### Models -/

/-- A model. -/
structure Model where
  name : String
  lines : List Line
  deriving DecidableEq, Repr

/-- The fields of a model in the order of its lines. -/
def Model.fields (model : Model) : List Field :=
  model.lines.filterMap fun
    | .field field => some field
    | _ => none

/-- The attributes of a model in the order of its lines. -/
def Model.attributes (model : Model) : List BlockAttribute :=
  model.lines.filterMap fun
    | .blockAttribute declared => declared
    | _ => none

/-- The content of a model file. -/
structure Contents where
  /-- The models; a model that is never closed is `none`. -/
  models : List (Option Model)
  /-- The names of the enumerations and composite types. -/
  declared : List String
  deriving DecidableEq, Repr

/-! ### Reading model files -/

/-- Spaces and tabulators at the beginning of a line. -/
def indentation : Pattern := .lineStart ++ .many fun c => c == ' ' || c == '\t'

/-- The name of a block, group 1, and the bracket that opens it. -/
def blockName : Pattern := someBlanks ++ .group 1 word ++ blanks ++ char '\x7b'

/-- A model up to its opening bracket; group 1 is its name. -/
def modelHead : Pattern := indentation ++ lit "model" ++ blockName

/-- An enumeration or a composite type up to its opening bracket; group 1 is its name. -/
def declarationHead : Pattern := indentation ++ (lit "enum" ||| lit "type") ++ blockName

/-- The model of a match of `modelHead`. -/
def Model.ofMatch? (found : Match) : Option Model :=
  (enclosed? .code found.stop.after).map fun inner =>
    ⟨String.ofList (found.group 1), (Text.lines inner.1).map .ofText⟩

/-- The content of a text without comments. -/
def Contents.ofStripped (text : List Char) : Contents := {
  models := (modelHead.findAll text).map Model.ofMatch?
  declared := (declarationHead.findAll text).map fun found => String.ofList (found.group 1) }

/-- The content of a text. -/
def Contents.ofText (text : List Char) : Contents :=
  .ofStripped (stripComments .code text)

/-! ### Columns and relations -/

/-- The types of columns that need no declaration. -/
def scalarTypes : List String :=
  ["String", "Int", "Float", "Boolean", "DateTime", "Json", "Bytes", "BigInt", "Decimal"]

/-- Whether a type is another model: it begins with an ASCII capital and is neither scalar, nor
declared beside the models, nor unsupported. -/
def namesModel (declared : List String) (type : String) : Bool :=
  type.toList.head?.any (fun c => 'A' ≤ c && c ≤ 'Z') && !scalarTypes.contains type &&
    !declared.contains type && type != "Unsupported"

/-- Whether a field is a relation to another model. -/
def Field.isRelation (declared : List String) (field : Field) : Bool :=
  namesModel declared field.type

/-- The columns that the explicit relations among fields make foreign keys, each with what it
points at, in the order of the fields. -/
def foreignKeys (declared : List String) (fields : List Field) : List (String × Reference) :=
  (fields.filter (Field.isRelation declared)).flatMap fun field =>
    (field.relationPairs?.getD []).map fun pair => (pair.1, ⟨field.type, pair.2⟩)

/-- The column of a scalar field.  The first relation that uses the column says what it points
at. -/
def Field.column (keys : List (String × Reference)) (field : Field) : Column :=
  ⟨field.name, field.type, field.optional, field.isId, keys.lookup field.name⟩

/-- The relations of a relation field: the pairs of an explicit one; for one without any relation
attribute that is no list, the column of the field's name with `Id` and the column `id`. -/
def Field.relations (model : String) (field : Field) : List Relation :=
  match field.relationPairs? with
  | some pairs => pairs.map fun pair =>
    ⟨model, pair.1, field.type, pair.2, if field.isList then .oneToMany else .oneToOne⟩
  | none =>
    if field.isList || field.hasRelationAttribute then []
    else [⟨model, field.name ++ "Id", field.type, "id", .oneToOne⟩]

/-! ### Tables -/

/-- A table after one more field; relation fields leave it as it is. -/
def addField (declared : List String) (keys : List (String × Reference)) (table : Table)
    (field : Field) : Table :=
  if field.isRelation declared then table
  else
    let grown := table.addColumn (field.column keys)
    if field.isUnique then grown.addIndex (.uniqueColumn table.name field.name) else grown

/-- A table after an attribute of its model. -/
def BlockAttribute.applyTo (table : Table) : BlockAttribute → Table
  | .id columns => table.markPrimaryKey columns
  | .index name columns unique =>
    table.addIndex ⟨name.getD (Index.defaultName table.name columns unique), columns, unique⟩
  | .withoutColumns => table

/-- The table of a model. -/
def Model.table (declared : List String) (model : Model) : Table :=
  let keys := foreignKeys declared model.fields
  let columns := model.fields.foldl (addField declared keys) (Table.empty model.name)
  model.attributes.foldl BlockAttribute.applyTo columns

/-- The relations of a model. -/
def Model.relations (declared : List String) (model : Model) : List Relation :=
  (model.fields.filter (Field.isRelation declared)).flatMap (Field.relations model.name)

/-! ### The schema of a model file -/

/-- What is passed over in the fields of a model. -/
def Model.fieldNotices (model : Model) : List Notice :=
  (model.lines.filter (· == .unrecognized)).map fun _ => .unrecognizedFieldLine

/-- What is passed over in the attributes of a model. -/
def Model.attributeNotices (model : Model) : List Notice :=
  (model.attributes.filter (· == .withoutColumns)).map fun _ => .blockAttributeWithoutColumns

/-- A draft with the table and the relations of a model. -/
def Model.addTo (declared : List String) (draft : Draft) (model : Model) : Draft :=
  let related := (draft.noteAll model.fieldNotices).addRelations (model.relations declared)
  ((related.noteAll model.attributeNotices).note .modelRead).addTable (model.table declared)

/-- A draft after a model, if it ends. -/
def addModel (declared : List String) (draft : Draft) : Option Model → Draft
  | some model => model.addTo declared draft
  | none => draft.note .unterminatedModel

/-- The schema that a model file defines. -/
def Contents.draft (contents : Contents) : Draft :=
  contents.models.foldl (addModel contents.declared) .empty

end SchemaReader.ModelFile
