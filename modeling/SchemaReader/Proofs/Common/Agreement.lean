/-
The three sources agree on common tables.

* `Table.typed`: a table under one word for the types of all its columns;
* `common_sources_agree`: models, table calls and statements define the same common tables, which
  differ in the types of their columns alone, and no relations.
-/
import SchemaReader.Proofs.Common.ModelFile
import SchemaReader.Proofs.Common.Script
import SchemaReader.Proofs.Common.TableModule

namespace SchemaReader

/-- A table under one word for the types of all its columns. -/
def Table.typed (type : String) (table : Table) : Table :=
  { table with columns := table.columns.map fun column => { column with type } }

lemma CommonTable.typed_table (table : CommonTable) (type word : String) :
    (table.table word).typed type = table.table type := by
  simp [CommonTable.table, Table.typed, CommonColumn.column, Function.comp_def]

/-- Whether common tables are written as models, as table calls or as statements, they are read as
the same tables up to the word for the type of their columns: in their order, with their columns,
what may be null in them, their primary keys and one index for each unique column, without
references and without relations. -/
theorem common_sources_agree {tables : List CommonTable} {binding : CommonTable → String}
    (h : ∀ table ∈ tables, table.Proper)
    (hbinding : ∀ table ∈ tables, Text.IsWord (binding table).toList)
    (hnames : (tables.map CommonTable.name).Nodup) (rawPath : String) :
    let models := Schema.ofText .prisma (commonModels tables) rawPath
    let calls := Schema.ofText .drizzle (commonModule binding tables) rawPath
    let statements := Schema.ofText .sql (commonScript tables) rawPath
    (models = ⟨.prisma, tables.map (CommonTable.table "String"), [], rawPath⟩ ∧
      calls = ⟨.drizzle, tables.map (CommonTable.table "text"), [], rawPath⟩ ∧
        statements = ⟨.sql, tables.map (CommonTable.table "TEXT"), [], rawPath⟩) ∧
      ∀ type, models.tables.map (Table.typed type) = calls.tables.map (Table.typed type) ∧
        calls.tables.map (Table.typed type) = statements.tables.map (Table.typed type) := by
  have hmodels := schema_commonModels h hnames rawPath
  have hcalls := schema_commonModule h hbinding hnames rawPath
  have hstatements := schema_commonScript h hnames rawPath
  refine ⟨⟨hmodels, hcalls, hstatements⟩, fun type => ?_⟩
  have htyped : ∀ word, (tables.map (CommonTable.table word)).map (Table.typed type)
      = tables.map (CommonTable.table type) := by
    intro word
    rw [List.map_map]
    exact List.map_congr_left fun table _ => table.typed_table type word
  rw [hmodels, hcalls, hstatements, htyped, htyped, htyped]
  exact ⟨rfl, rfl⟩

/-- A table with a column for each way to mark it, a table without columns, and one whose names are
words of the three sources. -/
def sampleCommonTables : List CommonTable :=
  [⟨"users", [⟨"id", false, true, false⟩, ⟨"email", false, false, true⟩,
    ⟨"bio", true, false, false⟩]⟩,
    ⟨"tags", []⟩, ⟨"model", [⟨"text", true, true, true⟩, ⟨"relations", false, false, false⟩]⟩]

/-- Every table of the sample is called after itself. -/
theorem common_sources_agree_sampleTables :
    ((∀ table ∈ sampleCommonTables, table.Proper) ∧
      (∀ table ∈ sampleCommonTables, Text.IsWord table.name.toList) ∧
        (sampleCommonTables.map CommonTable.name).Nodup) ∧
      (Schema.ofText .prisma (commonModels sampleCommonTables) "a").tables.map (Table.typed "text")
        = (Schema.ofText .sql (commonScript sampleCommonTables) "a").tables.map
          (Table.typed "text") := by
  have hproper : ∀ table ∈ sampleCommonTables, table.Proper := by decide
  have hbinding : ∀ table ∈ sampleCommonTables, Text.IsWord table.name.toList := by decide
  have hnames : (sampleCommonTables.map CommonTable.name).Nodup := by decide
  refine ⟨⟨hproper, hbinding, hnames⟩, ?_⟩
  have hagree := (common_sources_agree hproper hbinding hnames "a").2 "text"
  exact hagree.1.trans hagree.2

end SchemaReader
