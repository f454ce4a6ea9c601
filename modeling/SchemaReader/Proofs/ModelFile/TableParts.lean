/-
The parts of the table of a model.

* `Model.scalars`, `Model.uniques`, `Model.keyNames`, `BlockAttribute.index?`: what of a model makes
  columns, primary keys and indexes;
* `table_eq`: the table is put together from these, with `column?_table` and `count_uniques`.
-/
import Mathlib.Data.List.Count
import SchemaReader.ModelFile.Model
import SchemaReader.Proofs.Schema.FirstColumns

namespace SchemaReader.ModelFile

variable {declared : List String}

/-! ### Parts -/

/-- The fields that are columns. -/
def Model.scalars (declared : List String) (model : Model) : List Field :=
  model.fields.filter fun field => !field.isRelation declared

/-- The indexes of the unique ones among the columns. -/
def Model.uniques (declared : List String) (model : Model) : List Index :=
  ((model.scalars declared).filter Field.isUnique).map fun field =>
    .uniqueColumn model.name field.name

/-- The columns that an attribute of a model makes a primary key. -/
def BlockAttribute.keyNames : BlockAttribute → List String
  | .id columns => columns
  | .index .. | .withoutColumns => []

/-- The columns that the attributes of a model make a primary key. -/
def Model.keyNames (model : Model) : List String := model.attributes.flatMap BlockAttribute.keyNames

/-- The index that an attribute of a model makes. -/
def BlockAttribute.index? (table : String) : BlockAttribute → Option Index
  | .index name columns unique =>
    some ⟨name.getD (Index.defaultName table columns unique), columns, unique⟩
  | .id _ | .withoutColumns => none

/-! ### The table -/

/-- A table after further fields. -/
lemma foldl_addField (keys : List (String × Reference)) (fields : List Field) (table : Table) :
    fields.foldl (addField declared keys) table
      = let scalars := fields.filter fun field => !field.isRelation declared
        { table with
          columns := table.columns ++ scalars.map (Field.column keys)
          indexes := table.indexes ++ (scalars.filter Field.isUnique).map fun field =>
            .uniqueColumn table.name field.name } := by
  induction fields generalizing table with
  | nil => simp
  | cons field fields ih =>
      rw [List.foldl_cons, ih, addField]
      by_cases hrelation : field.isRelation declared = true
      · simp [hrelation]
      · by_cases hunique : field.isUnique = true <;>
          simp [hrelation, hunique, Table.addColumn, Table.addIndex]

/-- A table after further attributes. -/
lemma foldl_applyTo (parts : List BlockAttribute) (table : Table) :
    parts.foldl BlockAttribute.applyTo table
      = { table with
          columns := changeFirst (Column.markIf (parts.flatMap BlockAttribute.keyNames))
            [] table.columns
          indexes := table.indexes ++ parts.filterMap (BlockAttribute.index? table.name) } := by
  induction parts generalizing table with
  | nil => simp [changeFirst_markIf_nil]
  | cons part parts ih =>
      rw [List.foldl_cons, ih]
      cases part with
      | id columns =>
          simp [BlockAttribute.applyTo, BlockAttribute.keyNames, BlockAttribute.index?,
            markPrimaryKey_eq, List.filterMap_cons, changeFirst_markIf_markIf]
      | index name columns unique =>
          simp [BlockAttribute.applyTo, BlockAttribute.keyNames, BlockAttribute.index?,
            Table.addIndex]
      | withoutColumns =>
          simp [BlockAttribute.applyTo, BlockAttribute.keyNames, BlockAttribute.index?,
            List.filterMap_cons]

/-- The table of a model is put together from its columns, the marks of its keys and its indexes. -/
theorem table_eq (declared : List String) (model : Model) : model.table declared =
    { name := model.name
      columns := changeFirst (Column.markIf model.keyNames) []
        ((model.scalars declared).map (Field.column (foreignKeys declared model.fields)))
      indexes := model.uniques declared ++ model.attributes.filterMap
        (BlockAttribute.index? model.name) } := by
  rw [Model.table]
  simp only [foldl_addField, foldl_applyTo]
  rfl

/-- The column of a name is the one of the first field of the name, with the mark of a key. -/
theorem column?_table (declared : List String) (model : Model) (name : String) :
    (model.table declared).column? name
      = ((model.scalars declared).find? fun field => field.name == name).map fun field =>
          (field.column (foreignKeys declared model.fields)).markIf model.keyNames := by
  rw [table_eq, Table.column?, find?_changeFirst (fun c => name_markIf _ c) (by simp),
    List.find?_map, Option.map_map]
  rfl

/-- A field is unique once, if the columns have different names. -/
theorem count_uniques {model : Model} (h : ((model.scalars declared).map Field.name).Nodup)
    {field : Field}
    (hfield : field ∈ model.scalars declared) :
    (model.uniques declared).count (.uniqueColumn model.name field.name)
      = if field.isUnique then 1 else 0 := by
  have hinjective : Function.Injective (Index.uniqueColumn model.name) := fun c c' heq => by
    simpa [Index.uniqueColumn] using congrArg Index.columns heq
  have hnames : (((model.scalars declared).filter Field.isUnique).map Field.name).Nodup :=
    h.sublist (List.filter_sublist.map Field.name)
  have hcount : (model.uniques declared).count (.uniqueColumn model.name field.name)
      = (((model.scalars declared).filter Field.isUnique).map Field.name).count field.name := by
    rw [Model.uniques, ← List.count_map_of_injective _ _ hinjective, List.map_map]
    rfl
  rw [hcount, hnames.count]
  refine if_congr ⟨fun hmem => ?_, fun hunique => ?_⟩ rfl rfl
  · obtain ⟨other, hother, hname⟩ := List.mem_map.mp hmem
    obtain ⟨hscalar, hunique⟩ := List.mem_filter.mp hother
    rwa [List.inj_on_of_nodup_map h hscalar hfield hname] at hunique
  · exact List.mem_map_of_mem (List.mem_filter.mpr ⟨hfield, hunique⟩)

end SchemaReader.ModelFile
