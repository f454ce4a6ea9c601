/-
Table modules.

* `Contents`: the table calls and relation blocks of a text, with `Contents.ofText`;
* `Contents.tableOf`: the table that a variable stands for;
* `Contents.draft`: the schema that a table module defines.
-/
import SchemaReader.Lexical.Comments
import SchemaReader.Schema.Draft
import SchemaReader.TableModule.Relations

namespace SchemaReader.TableModule

/-- The content of a table module. -/
structure Contents where
  /-- The table calls; one that declares no table is kept as its fault. -/
  calls : List (Except TableCallFault TableCall)
  blocks : List RelationBlock

/-- The content of a text without comments. -/
def Contents.ofStripped (text : List Char) : Contents :=
  ⟨(tableHead.findAll text).map TableCall.ofMatch, relationBlocks text⟩

/-- The content of a text. -/
def Contents.ofText (text : List Char) : Contents :=
  .ofStripped (stripComments .code text)

/-- The declared tables. -/
def Contents.tables (contents : Contents) : List TableCall :=
  contents.calls.filterMap Except.toOption

/-- The table that a variable stands for: the last one declared under it, or one named like the
variable if there is none. -/
def Contents.tableOf (contents : Contents) (binding : String) : String :=
  match contents.tables.reverse.find? fun call => call.binding == binding with
  | some call => call.name
  | none => binding

/-- The table that a written variable stands for. -/
def Contents.tableOfText (contents : Contents) (binding : List Char) : String :=
  contents.tableOf (String.ofList (Text.trim binding))

/-! ### Tables -/

/-- A table after one more entry of its column object. -/
def Entry.applyTo (contents : Contents) (table : Table) : Entry → Table
  | .column entry =>
    let reference := entry.references.map fun r => (⟨contents.tableOf r.1, r.2⟩ : Reference)
    let grown := table.addColumn
      ⟨entry.name, entry.type, entry.nullable, entry.primaryKey, reference⟩
    if entry.unique then grown.addIndex (.uniqueColumn table.name entry.name) else grown
  | .unterminated | .unrecognized => table

/-- The relation of a column that points at another. -/
def Entry.relation? (contents : Contents) (table : String) : Entry → Option Relation
  | .column entry => entry.references.map fun r =>
    ⟨table, entry.name, contents.tableOf r.1, r.2, .oneToMany⟩
  | .unterminated | .unrecognized => none

/-- A table with an index under its given or its default name. -/
def addIndexCall (table : Table) (call : IndexCall) : Table :=
  table.addIndex
    ⟨call.name.getD (Index.defaultName table.name call.columns call.unique), call.columns,
      call.unique⟩

/-- A table after one callback: first its indexes, then its keys. -/
def Callback.applyTo (table : Table) (callback : Callback) : Table :=
  callback.keys.foldl Table.markPrimaryKey (callback.indexes.foldl addIndexCall table)

/-- The table that a call declares. -/
def TableCall.table (contents : Contents) (call : TableCall) : Table :=
  call.callbacks.foldl Callback.applyTo
    (call.entries.foldl (Entry.applyTo contents) (Table.empty call.name))

/-! ### Relations -/

/-- The relations of one entry of a block.  Many rows are found by a column of theirs that is
named for the table with `Id`. -/
def Target.relations (contents : Contents) (table : String) : Target → List Relation
  | .many binding => [⟨table, "id", contents.tableOfText binding, table ++ "Id", .oneToMany⟩]
  | .one binding => [⟨table, "id", contents.tableOfText binding, "id", .oneToOne⟩]
  | .oneAlong binding pairs => pairs.map fun pair =>
    ⟨table, pair.1, contents.tableOfText binding, pair.2, .oneToOne⟩

/-- The relations of a block. -/
def RelationBlock.relations (contents : Contents) (block : RelationBlock) : List Relation :=
  block.targets.flatMap (Target.relations contents (contents.tableOfText block.binding))

/-! ### The schema of a table module -/

/-- What a faulty table call is noted as. -/
def TableCallFault.notice : TableCallFault → Notice
  | .unterminated => .unterminatedTableCall
  | .unnamed => .unnamedTableCall
  | .withoutColumns => .tableCallWithoutColumns

/-- The notices of all faulty table calls. -/
def Contents.faults (contents : Contents) : List Notice :=
  contents.calls.filterMap fun
    | .error fault => some fault.notice
    | .ok _ => none

/-- A draft after one entry of a column object: its relation, or the notice that it is none. -/
def Entry.addTo (contents : Contents) (table : String) (draft : Draft) (entry : Entry) : Draft :=
  match entry with
  | .unrecognized => draft.note .unrecognizedColumnEntry
  | _ => draft.addRelations (entry.relation? contents table).toList

/-- A draft with the table of a call and its columns' relations. -/
def TableCall.addTo (contents : Contents) (draft : Draft) (call : TableCall) : Draft :=
  let related := call.entries.foldl (Entry.addTo contents call.name) draft
  (related.note .tableCallRead).addTable (call.table contents)

/-- The schema that a table module defines: first all tables, then the relation blocks. -/
def Contents.draft (contents : Contents) : Draft :=
  let tables := contents.tables.foldl (TableCall.addTo contents)
    (Draft.empty.noteAll contents.faults)
  tables.addRelations (contents.blocks.flatMap (RelationBlock.relations contents))

end SchemaReader.TableModule
