/-
Unique columns in the three sources.

* `SameUniqueness`: two texts of a source that differ only in where they say that single columns are
  unique;
* `ofText_sameUniqueness`: they define the same schema up to the order of the indexes of each table.
-/
import SchemaReader.Proofs.Ddl.UniqueColumns
import SchemaReader.Proofs.ModelFile.UniqueColumns
import SchemaReader.Proofs.TableModule.UniqueColumns

namespace SchemaReader

/-- Two texts of a source that mark the same columns as unique, and that are the same without these
marks. A model file marks a column by `@unique` among the attributes of its field or by
`@@unique([c])`, a table module by `.unique()` in its chain or by `unique().on(t.c)` in the
callback, and a script by `UNIQUE` among the options of its definition or by the clause `UNIQUE
(c)`. -/
inductive SameUniqueness : Source → List Char → List Char → Prop
  | models {blocks blocks' : List ModelFile.FileBlock} {text text' : List Char} :
      ModelFile.IsFile blocks text → ModelFile.IsFile blocks' text' →
      List.Forall₂ (ModelFile.FileBlock.UniqueAlike (ModelFile.fileContents blocks).declared)
        blocks blocks' →
      SameUniqueness .prisma text text'
  | calls {items items' : List TableModule.Item} {text text' : List Char} :
      TableModule.IsModule items text → TableModule.IsModule items' text' →
      List.Forall₂ TableModule.Item.UniqueAlike items items' → SameUniqueness .drizzle text text'
  | statements {statements statements' : List Ddl.Statement} {text text' : List Char} :
      Ddl.IsScript statements text → Ddl.IsScript statements' text' →
      List.Forall₂ Ddl.Statement.UniqueAlike statements statements' → SameUniqueness .sql text text'

/-- **Uniqueness is the same in every place.**  Whether a text says of each unique column in the
definition of the column or in a declaration of its own that it is unique, and in whatever mixture
for whatever columns of whatever tables, the texts define tables of the same names with the same
columns, the same indexes in some order and the same relations. -/
theorem ofText_sameUniqueness {source : Source} {text text' : List Char}
    (h : SameUniqueness source text text') (rawPath : String) :
    (Schema.ofText source text rawPath).Alike (Schema.ofText source text' rawPath) := by
  cases h with
  | models h h' halike => exact ModelFile.ofText_uniqueAlike h h' halike rawPath
  | calls h h' halike => exact TableModule.ofText_uniqueAlike h h' halike rawPath
  | statements h h' halike => exact Ddl.ofText_uniqueAlike h h' halike rawPath

/-! ### A table in the three sources -/

/-- `@name` or `@name(argument)` behind a space. -/
def sampleAttribute (name : String) (argument : Option String) : ModelFile.WrittenAttribute :=
  ⟨[' '], name.toList, argument.map String.toList⟩

/-- `name type` and attributes. -/
def sampleField (name type : String) (attributes : List ModelFile.WrittenAttribute) :
    ModelFile.BodyLine :=
  .field [] ⟨name.toList, [' '], type.toList, none, [], attributes⟩

/-- Each user has one note, and each note a name of its own. -/
def sampleLines : List ModelFile.BodyLine :=
  [sampleField "id" "Int" [sampleAttribute "id" none],
    sampleField "by" "Int" [sampleAttribute "unique" none, sampleAttribute "map" (some "\"user\"")],
    sampleField "user" "User" [sampleAttribute "relation" (some "fields: [by], references: [id]")],
    .other [],
    .unique [' '] "slug".toList,
    sampleField "slug" "String" []]

/-- The model `Note` with some lines. -/
def sampleBlocks (lines : List ModelFile.BodyLine) : List ModelFile.FileBlock :=
  [.model ⟨[], [' '], "Note".toList, [' '], lines, []⟩]

def sampleFile (lines : List ModelFile.BodyLine) : List Char :=
  ModelFile.textOf ((sampleBlocks lines).map ModelFile.FileBlock.written)

/-- The same with a call, of which the callback makes `slug` unique. -/
def sampleCall : TableModule.TableDef where
  declared := ⟨true, true⟩
  binding := "notes"
  function := .pgTable
  quote := '\''
  name := "notes"
  columns := [⟨"id", "serial", [], [.primaryKey]⟩,
    ⟨"userId", "integer", [], [.notNull, .unique, .references "users" "id" none none]⟩,
    ⟨"slug", "text", [], []⟩]
  callback := some ⟨"t", .object [("bySlug", .index ⟨.unique, none, [⟨"slug", []⟩]⟩),
    ("byUser", .index ⟨.index, none, [⟨"userId", ["desc"]⟩]⟩)]⟩

def sampleModuleText (table : TableModule.TableDef) : List Char :=
  spaced (([TableModule.Item.table table].flatMap TableModule.Item.tokens).map fun t =>
    .verbatim t.text)

/-- The same with a statement, of which a clause makes `slug` unique. -/
def sampleStatement : Ddl.TableDef where
  name := "notes"
  columns := [⟨"id", ⟨"INT".toList, none⟩, [.primaryKey]⟩,
    ⟨"user_id", ⟨"INT".toList, none⟩, [.unique, .references "users" "id"]⟩,
    ⟨"slug", ⟨"TEXT".toList, none⟩, []⟩]
  clauses := [.unique none ["slug"], .index true none ["slug", "user_id"]]

def sampleScriptText (table : Ddl.TableDef) : List Char :=
  spaced ([Ddl.Statement.createTable table].flatMap Ddl.Statement.pieces)

/-- In the sample the marks are moved to declarations of their own. -/
theorem ofText_sameUniqueness_samples :
    (SameUniqueness .prisma (sampleFile sampleLines)
      (sampleFile (ModelFile.marksInAttributes [] sampleLines)) ∧
      SameUniqueness .drizzle (sampleModuleText sampleCall)
        (sampleModuleText sampleCall.marksInCallback) ∧
      SameUniqueness .sql (sampleScriptText sampleStatement)
        (sampleScriptText sampleStatement.marksInClauses)) ∧
    (Schema.ofText .prisma (sampleFile sampleLines) "a").Alike
      (Schema.ofText .prisma (sampleFile (ModelFile.marksInAttributes [] sampleLines)) "a") ∧
    (Schema.ofText .drizzle (sampleModuleText sampleCall) "a").Alike
      (Schema.ofText .drizzle (sampleModuleText sampleCall.marksInCallback) "a") ∧
    (Schema.ofText .sql (sampleScriptText sampleStatement) "a").Alike
      (Schema.ofText .sql (sampleScriptText sampleStatement.marksInClauses) "a") := by
  have hmodels : SameUniqueness .prisma (sampleFile sampleLines)
      (sampleFile (ModelFile.marksInAttributes [] sampleLines)) := by
    have hfile : ModelFile.IsFile (sampleBlocks sampleLines) (sampleFile sampleLines) :=
      ⟨by decide +kernel, rfl⟩
    exact .models hfile ⟨by decide +kernel, rfl⟩
      (.cons (.model rfl (ModelFile.linesAlike_marksInAttributes [] sampleLines)) .nil)
  have hcalls : SameUniqueness .drizzle (sampleModuleText sampleCall)
      (sampleModuleText sampleCall.marksInCallback) := by
    have hwritten : ∀ table : TableModule.TableDef, TableModule.Written
        ([TableModule.Item.table table].flatMap TableModule.Item.tokens)
          (sampleModuleText table) [] :=
      fun table => writes_spaced (fun K hK => by simp at hK) []
    exact .calls ⟨by decide +kernel, [], _, rfl, Text.isGap_nil, hwritten _⟩
      ⟨by decide +kernel, [], _, rfl, Text.isGap_nil, hwritten _⟩
      (.cons (.table (TableModule.uniqueAlike_marksInCallback sampleCall)) .nil)
  have hstatements : SameUniqueness .sql (sampleScriptText sampleStatement)
      (sampleScriptText sampleStatement.marksInClauses) := by
    have hproper : ∀ statement ∈ [Ddl.Statement.createTable sampleStatement],
        statement.Proper := by decide +kernel
    have hproper' : ∀ statement ∈ [Ddl.Statement.createTable sampleStatement.marksInClauses],
        statement.Proper := by decide +kernel
    exact .statements ⟨hproper, [], _, rfl, Text.isGap_nil, Ddl.writes_spaced_statements hproper⟩
      ⟨hproper', [], _, rfl, Text.isGap_nil, Ddl.writes_spaced_statements hproper'⟩
      (.cons (.createTable (Ddl.uniqueAlike_marksInClauses sampleStatement)) .nil)
  exact ⟨⟨hmodels, hcalls, hstatements⟩, ofText_sameUniqueness hmodels "a",
    ofText_sameUniqueness hcalls "a", ofText_sameUniqueness hstatements "a"⟩

end SchemaReader
