/-
A schema in the making.

* `Draft`: the tables and relations found so far, and the notices on the way;
* `Draft.addTable`: a table of a name already taken replaces the earlier one where it stands;
* `Draft.addRelation`: of the relations along one edge only the first is kept;
* `Draft.updateTable`: a change to the table of a name;
* `Draft.schema`: the finished schema.
-/
import SchemaReader.Notice
import SchemaReader.Schema.Basic

namespace SchemaReader

/-- The tables and relations found so far. -/
structure Draft where
  /-- The tables, in the order in which their names first came up. -/
  tables : List Table
  /-- The relations in the order found. -/
  relations : List Relation
  /-- The notices, newest first. -/
  notices : List Notice
  deriving DecidableEq, Repr

/-- Nothing found yet. -/
def Draft.empty : Draft := ⟨[], [], []⟩

/-- A draft with one more notice. -/
def Draft.note (draft : Draft) (notice : Notice) : Draft :=
  { draft with notices := notice :: draft.notices }

/-- A draft with further notices, the last of the list being the newest. -/
def Draft.noteAll (draft : Draft) (notices : List Notice) : Draft :=
  notices.foldl Draft.note draft

/-- A list of tables with a table put in the place of the one of its name, or at the end. -/
def putTable (table : Table) : List Table → List Table
  | [] => [table]
  | t :: rest => if t.name == table.name then table :: rest else t :: putTable table rest

/-- A draft with a table, which takes the place of an earlier one of its name. -/
def Draft.addTable (draft : Draft) (table : Table) : Draft :=
  { draft with tables := putTable table draft.tables }

/-- Whether a relation along the same edge is recorded. -/
def Draft.hasEdge (draft : Draft) (relation : Relation) : Bool :=
  draft.relations.any fun r => r.sameEdge relation

/-- A draft with a relation at the end, unless its edge is recorded already; and whether it was
added. -/
def Draft.addRelation (draft : Draft) (relation : Relation) : Draft × Bool :=
  if draft.hasEdge relation then (draft.note .duplicateRelation, false)
  else ({ draft with relations := draft.relations ++ [relation] }, true)

/-- A draft with several relations, added one after the other. -/
def Draft.addRelations (draft : Draft) (relations : List Relation) : Draft :=
  relations.foldl (fun d relation => (d.addRelation relation).1) draft

/-- The table of a name. -/
def Draft.table? (draft : Draft) (name : String) : Option Table :=
  draft.tables.find? fun table => table.name == name

/-- A list of tables with a change made to the first one of a name. -/
def updateFirstTable (name : String) (change : Table → Table) : List Table → List Table
  | [] => []
  | table :: rest =>
    if table.name == name then change table :: rest
    else table :: updateFirstTable name change rest

/-- A draft with a change made to the table of a name, if there is one. -/
def Draft.updateTable (draft : Draft) (name : String) (change : Table → Table) : Draft :=
  { draft with tables := updateFirstTable name change draft.tables }

/-- The finished schema, under its source and path. -/
def Draft.schema (draft : Draft) (source : Source) (rawPath : String) : Schema :=
  ⟨source, draft.tables, draft.relations, rawPath⟩

end SchemaReader
