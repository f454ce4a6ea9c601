/-
The order of the blocks of a model file.

* `isRelation_congr`, `Model.table_congr`, `Model.relations_congr`: a model depends on the declared
  types only through what is among them;
* `ofText_perm`: blocks in another order define the same tables, in the order of their models, and
  the same relations in some order, and a type that is declared anywhere makes its fields columns.
-/
import Mathlib.Data.List.Perm.Basic
import SchemaReader.Proofs.ModelFile.WrittenBlocks

namespace SchemaReader.ModelFile

variable {declared declared' : List String} {blocks blocks' : List WrittenBlock}

/-! ### Declared types -/

lemma isRelation_congr (h : ∀ type, type ∈ declared ↔ type ∈ declared') :
    Field.isRelation declared = Field.isRelation declared' := by
  have hcontains : ∀ type, declared.contains type = declared'.contains type := fun type => by
    rw [Bool.eq_iff_iff, List.contains_iff_mem, List.contains_iff_mem]
    exact h type
  funext field
  rw [Field.isRelation, Field.isRelation, namesModel, namesModel, hcontains]

lemma Model.table_congr (h : ∀ type, type ∈ declared ↔ type ∈ declared') (model : Model) :
    model.table declared = model.table declared' := by
  have hfield : addField declared = addField declared' := by
    funext keys table field
    rw [addField, addField, isRelation_congr h]
  rw [Model.table, Model.table, foreignKeys, foreignKeys, isRelation_congr h, hfield]

lemma Model.relations_congr (h : ∀ type, type ∈ declared ↔ type ∈ declared') (model : Model) :
    model.relations declared = model.relations declared' := by
  rw [Model.relations, Model.relations, isRelation_congr h]

/-- A field whose type is declared beside the models is no relation. -/
lemma isRelation_of_mem {field : Field} (h : field.type ∈ declared) :
    field.isRelation declared = false := by
  simp [Field.isRelation, namesModel, h]

/-! ### The contents of blocks -/

lemma models_contentsOf (blocks : List WrittenBlock) : (contentsOf blocks).models.reduceOption
    = (blocks.filter WrittenBlock.isModel).map WrittenBlock.model := by
  rw [contentsOf]
  induction blocks.filter WrittenBlock.isModel with
  | nil => rfl
  | cons block blocks ih => rw [List.map_cons, List.reduceOption_cons_of_some, ih, List.map_cons]

lemma nodup_contentsOf
    (h : ((blocks.filter WrittenBlock.isModel).map WrittenBlock.name).Nodup) :
    ((contentsOf blocks).models.reduceOption.map Model.name).Nodup := by
  have hstrings := h.map fun _ _ heq => String.ofList_inj.mp heq
  rw [models_contentsOf]
  simpa [List.map_map, Function.comp_def, WrittenBlock.model, Model.ofBody] using hstrings

/-- In another order the same types are declared. -/
lemma mem_declared_perm (hperm : blocks.Perm blocks') (type : String) :
    type ∈ (contentsOf blocks).declared ↔ type ∈ (contentsOf blocks').declared :=
  ((hperm.filter _).map _).mem_iff

/-! ### Tables and relations -/

/-- The tables of blocks with models of different names. -/
lemma tables_ofText_blocks (h : ∀ block ∈ blocks, block.Proper)
    (hnames : ((blocks.filter WrittenBlock.isModel).map WrittenBlock.name).Nodup)
    (rawPath : String) : (Schema.ofText .prisma (textOf blocks) rawPath).tables
      = (blocks.filter WrittenBlock.isModel).map fun block =>
          block.model.table (contentsOf blocks).declared := by
  have hread : (Schema.ofText .prisma (textOf blocks) rawPath).tables
      = (Contents.ofText (textOf blocks)).draft.tables := rfl
  rw [hread, ofText_blocks h, tables_draft_of_nodup (nodup_contentsOf hnames), Contents.tables,
    models_contentsOf, List.map_map]
  rfl

/-- The relations of such blocks are for each model the first of its own. -/
lemma mem_relations_ofText_blocks (h : ∀ block ∈ blocks, block.Proper)
    (hnames : ((blocks.filter WrittenBlock.isModel).map WrittenBlock.name).Nodup)
    (rawPath : String) (r : Relation) :
    r ∈ (Schema.ofText .prisma (textOf blocks) rawPath).relations
      ↔ ∃ block ∈ blocks.filter WrittenBlock.isModel,
          r ∈ firstBy Relation.edge (block.model.relations (contentsOf blocks).declared) := by
  have hread : (Schema.ofText .prisma (textOf blocks) rawPath).relations
      = (Contents.ofText (textOf blocks)).draft.relations := rfl
  rw [hread, ofText_blocks h, mem_relations_draft_of_nodup (nodup_contentsOf hnames),
    models_contentsOf]
  simp only [List.mem_map, exists_exists_and_eq_and]

/-- The relations of a text come once each. -/
lemma nodup_relations_ofText (source : Source) (text : List Char) (rawPath : String) :
    (Schema.ofText source text rawPath).relations.Nodup :=
  (nodup_ofText source text rawPath).2.of_map _

/-- **The order of blocks does not matter.**  Blocks whose models have different names define the
same tables in any order: each table has the same content, and the tables stand in the order of
their models. They define the same relations.  A field is a column if a block declares its type,
wherever the block stands. -/
theorem ofText_perm (hperm : blocks.Perm blocks') (h : ∀ block ∈ blocks, block.Proper)
    (hnames : ((blocks.filter WrittenBlock.isModel).map WrittenBlock.name).Nodup)
    (rawPath : String) : ∃ tableOf : WrittenBlock → Table,
      (∀ block, (tableOf block).name = String.ofList block.name) ∧
      (Schema.ofText .prisma (textOf blocks) rawPath).tables
        = (blocks.filter WrittenBlock.isModel).map tableOf ∧
      (Schema.ofText .prisma (textOf blocks') rawPath).tables
        = (blocks'.filter WrittenBlock.isModel).map tableOf ∧
      (Schema.ofText .prisma (textOf blocks') rawPath).relations.Perm
        (Schema.ofText .prisma (textOf blocks) rawPath).relations ∧
      ∀ block ∈ blocks, ∀ other ∈ blocks, ¬ other.isModel → ∀ field ∈ fieldsOf block.body,
        field.type = String.ofList other.name →
          ∃ column ∈ (tableOf block).columns, column.name = field.name ∧
          column.type = field.type := by
  have h' : ∀ block ∈ blocks', block.Proper := fun block hb => h block (hperm.mem_iff.mpr hb)
  have hnames' : ((blocks'.filter WrittenBlock.isModel).map WrittenBlock.name).Nodup :=
    ((hperm.filter _).map _).nodup_iff.mp hnames
  have hdeclared := mem_declared_perm hperm
  refine ⟨fun block => block.model.table (contentsOf blocks).declared, fun block => name_table _ _,
    tables_ofText_blocks h hnames rawPath, ?_, ?_, ?_⟩
  · rw [tables_ofText_blocks h' hnames' rawPath]
    exact List.map_congr_left fun block _ => (block.model.table_congr hdeclared).symm
  · refine (List.perm_ext_iff_of_nodup (nodup_relations_ofText _ _ _)
      (nodup_relations_ofText _ _ _)).mpr fun r => ?_
    rw [mem_relations_ofText_blocks h' hnames', mem_relations_ofText_blocks h hnames]
    refine exists_congr fun block => and_congr (hperm.filter _).mem_iff.symm ?_
    rw [block.model.relations_congr hdeclared]
  · intro block hb other hother hkind field hfield htype
    have hmem : field.type ∈ (contentsOf blocks).declared := by
      rw [htype]
      exact List.mem_map.mpr ⟨other, List.mem_filter.mpr ⟨hother, by simpa using hkind⟩, rfl⟩
    have hscalar : field ∈ block.model.fields.filter fun field =>
        !field.isRelation (contentsOf blocks).declared :=
      List.mem_filter.mpr ⟨hfield, by simp [isRelation_of_mem hmem]⟩
    have hcolumn := List.mem_map_of_mem hscalar (f := fun field : Field =>
      ((field.name, field.type, field.optional),
        (foreignKeys (contentsOf blocks).declared block.model.fields).lookup field.name))
    rw [← described_table] at hcolumn
    obtain ⟨column, hcolumn, heq⟩ := List.mem_map.mp hcolumn
    simp only [described, Prod.mk.injEq] at heq
    exact ⟨column, hcolumn, heq.1.1, heq.1.2.1⟩

/-- Users with a role whose type is declared behind them, and their posts. -/
def sampleBlocks : List WrittenBlock := [
  ⟨.model, [], [' '], "User".toList, [' '],
    "\n  id Int @id\n  role Role @default(\"\x7b // \")\n  posts Post[]\n".toList, []⟩,
  ⟨.enum, ['\t'], ['\n'], "Role".toList, [], "\n  USER\n  ADMIN\n".toList, "  \n\n".toList⟩,
  ⟨.model, [], [' '], "Post".toList, [' '],
    ("\n  id Int @id\n  userId Int\n  user User" ++
      " @relation(fields: [userId], references: [id])\n").toList, []⟩]

theorem ofText_perm_sampleBlocks : ∃ tableOf : WrittenBlock → Table,
    (∀ block, (tableOf block).name = String.ofList block.name) ∧
    (Schema.ofText .prisma (textOf sampleBlocks) "a.prisma").tables
      = (sampleBlocks.filter WrittenBlock.isModel).map tableOf ∧
    (Schema.ofText .prisma (textOf sampleBlocks.reverse) "a.prisma").tables
      = (sampleBlocks.reverse.filter WrittenBlock.isModel).map tableOf ∧
    (Schema.ofText .prisma (textOf sampleBlocks.reverse) "a.prisma").relations.Perm
      (Schema.ofText .prisma (textOf sampleBlocks) "a.prisma").relations ∧
    ∀ block ∈ sampleBlocks, ∀ other ∈ sampleBlocks, ¬ other.isModel →
      ∀ field ∈ fieldsOf block.body, field.type = String.ofList other.name →
        ∃ column ∈ (tableOf block).columns, column.name = field.name ∧
        column.type = field.type := by
  have hproper : ∀ block ∈ sampleBlocks, block.Proper := by decide +kernel
  exact ofText_perm (List.reverse_perm sampleBlocks).symm hproper (by decide +kernel) "a.prisma"

example : (Schema.ofText .prisma (textOf sampleBlocks) "a.prisma").relations
    = [⟨"Post", "userId", "User", "id", .oneToOne⟩] := by decide +kernel

end SchemaReader.ModelFile
