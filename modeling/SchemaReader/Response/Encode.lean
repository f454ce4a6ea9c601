/-
Responses as JSON.

* `Response.toJson`: the members of a response in their order;
* `Response.toText`: the text of a response.
-/
import SchemaReader.Json.Printer
import SchemaReader.Response.Basic

namespace SchemaReader

/-- An object with the given members. -/
def jsonObject (members : List (String × Json)) : Json :=
  .object (members.map fun m => (some m.1.toList, m.2))

/-- A reference as JSON. -/
def Reference.toJson (reference : Reference) : Json :=
  jsonObject [("table", .ofString reference.table), ("column", .ofString reference.column)]

/-- A column as JSON; a column that is no foreign key has no member for it. -/
def Column.toJson (column : Column) : Json :=
  jsonObject <|
    [("name", .ofString column.name), ("type", .ofString column.type),
     ("nullable", .bool column.nullable), ("primary_key", .bool column.primaryKey)] ++
    (column.references.map fun r => ("references", r.toJson)).toList

/-- An index as JSON. -/
def Index.toJson (index : Index) : Json :=
  jsonObject
    [("name", .ofString index.name), ("columns", .array (index.columns.map Json.ofString)),
     ("unique", .bool index.unique)]

/-- A table as JSON. -/
def Table.toJson (table : Table) : Json :=
  jsonObject
    [("name", .ofString table.name), ("columns", .array (table.columns.map Column.toJson)),
     ("indexes", .array (table.indexes.map Index.toJson))]

/-- A relation as JSON. -/
def Relation.toJson (relation : Relation) : Json :=
  jsonObject
    [("from_table", .ofString relation.fromTable), ("from_column", .ofString relation.fromColumn),
     ("to_table", .ofString relation.toTable), ("to_column", .ofString relation.toColumn),
     ("type", .ofString relation.cardinality.name)]

/-- A response as JSON: the members of its schema, and the error if there is one. -/
def Response.toJson (response : Response) : Json :=
  jsonObject <|
    [("source", .ofString response.schema.source.name),
     ("tables", .array (response.schema.tables.map Table.toJson)),
     ("relations", .array (response.schema.relations.map Relation.toJson)),
     ("raw_path", .ofString response.schema.rawPath)] ++
    (response.error.map fun e => ("error", Json.ofString e)).toList

/-- The layout of a response. -/
def Layout.ofPretty (pretty : Bool) : Layout :=
  if pretty then .indented else .compact

/-- The text of a response. -/
def Response.toText (response : Response) (pretty : Bool) : String :=
  String.ofList (response.toJson.toText (.ofPretty pretty))

end SchemaReader
