/-
Requests and responses from JSON.

* `fieldValues?`: the known members of an object, or the items of an array in their place;
* `Response.ofText?`: the response of a text;
* `Request.ofText?`: the request of a text.
-/
import SchemaReader.Json.Reader
import SchemaReader.Response.Basic

namespace SchemaReader

/-! ### Members -/

/-- All values that an object has under a key. -/
def valuesOf (key : String) (members : List (QuotedText × Json)) : List Json :=
  (members.filter fun m => m.1 == some key.toList).map (·.2)

/-- The value of a key that may be missing; `none` if it comes twice. -/
def optionalMember? (members : List (QuotedText × Json)) (key : String) : Option (Option Json) :=
  match valuesOf key members with
  | [] => some none
  | [value] => some (some value)
  | _ => none

/-- The values of a record's keys in the order of the keys.  An array is read as the values
themselves, and must not have more of them than there are keys. -/
def fieldValues? (keys : List String) : Json → Option (List (Option Json))
  | .object members => keys.mapM (optionalMember? members)
  | .array items =>
    if items.length ≤ keys.length then
      some (items.map some ++ List.replicate (keys.length - items.length) none)
    else none
  | _ => none

/-! ### Values -/

/-- The string of a value. -/
def Json.string? : Json → Option String
  | .string (some text) => some (String.ofList text)
  | _ => none

/-- The truth value of a value. -/
def Json.bool? : Json → Option Bool
  | .bool b => some b
  | _ => none

/-- The items of an array, each read in the same way. -/
def Json.list? {α : Type} (item : Json → Option α) : Json → Option (List α)
  | .array items => items.mapM item
  | _ => none

/-- A value that may be missing or null. -/
def nullable? {α : Type} (item : Json → Option α) : Option Json → Option (Option α)
  | none => some none
  | some .null => some none
  | some value => (item value).map some

/-- The name of a case without content: the name itself, or an object with the name as its only
key and nothing under it. -/
def Json.caseName? : Json → Option String
  | .string (some text) => some (String.ofList text)
  | .object [(some text, .null)] => some (String.ofList text)
  | .object [(some text, .object [])] => some (String.ofList text)
  | _ => none

/-! ### Schemas -/

/-- Reads a reference. -/
def Reference.ofJson? (value : Json) : Option Reference := do
  match (← fieldValues? ["table", "column"] value) with
  | [some table, some column] => return ⟨← table.string?, ← column.string?⟩
  | _ => none

/-- Reads a column. -/
def Column.ofJson? (value : Json) : Option Column := do
  match (← fieldValues? ["name", "type", "nullable", "primary_key", "references"] value) with
  | [some name, some type, some nullable, some primaryKey, references] =>
    return ⟨← name.string?, ← type.string?, ← nullable.bool?, ← primaryKey.bool?,
      ← nullable? Reference.ofJson? references⟩
  | _ => none

/-- Reads an index. -/
def Index.ofJson? (value : Json) : Option Index := do
  match (← fieldValues? ["name", "columns", "unique"] value) with
  | [some name, some columns, some unique] =>
    return ⟨← name.string?, ← columns.list? Json.string?, ← unique.bool?⟩
  | _ => none

/-- Reads a table. -/
def Table.ofJson? (value : Json) : Option Table := do
  match (← fieldValues? ["name", "columns", "indexes"] value) with
  | [some name, some columns, some indexes] =>
    return ⟨← name.string?, ← columns.list? Column.ofJson?, ← indexes.list? Index.ofJson?⟩
  | _ => none

/-- Reads a relation. -/
def Relation.ofJson? (value : Json) : Option Relation := do
  match (← fieldValues? ["from_table", "from_column", "to_table", "to_column", "type"] value) with
  | [some fromTable, some fromColumn, some toTable, some toColumn, some type] =>
    return ⟨← fromTable.string?, ← fromColumn.string?, ← toTable.string?, ← toColumn.string?,
      ← Cardinality.ofName? (← type.caseName?)⟩
  | _ => none

/-- The keys of a response. -/
def responseKeys : List String := ["source", "tables", "relations", "raw_path", "error"]

/-- Reads a response. -/
def Response.ofJson? : Json → Option Response
  | .object members => do
    match (← responseKeys.mapM (optionalMember? members)) with
    | [some source, some tables, some relations, some rawPath, error] =>
      let schema : Schema := ⟨← Source.ofName? (← source.caseName?),
        ← tables.list? Table.ofJson?, ← relations.list? Relation.ofJson?, ← rawPath.string?⟩
      return ⟨schema, ← nullable? Json.string? error⟩
    | _ => none
  | _ => none

/-- How deeply the arrays and objects of a response may nest. -/
def maximalHeight : Nat := 127

/-- The response of a text.  Every part of the text has to be readable, the parts that a response
does not know included. -/
def Response.ofText? (text : List Char) : Option Response := do
  let value ← Json.ofText? text
  if value.isReadable && value.height ≤ maximalHeight then Response.ofJson? value else none

/-! ### Requests -/

/-- Reads a request.  Members that a request does not know may hold anything. -/
def Request.ofJson? (value : Json) : Option Request := do
  let keysReadable := match value with
    | .object members => members.all fun m => m.1.isSome
    | _ => true
  if keysReadable then
    match (← fieldValues? ["path"] value) with
    | [path] => return ⟨← nullable? Json.string? path⟩
    | _ => none
  else none

/-- The request of a text. -/
def Request.ofText? (text : List Char) : Option Request :=
  (Json.ofText? text).bind Request.ofJson?

end SchemaReader
