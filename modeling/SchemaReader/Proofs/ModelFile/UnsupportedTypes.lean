/-
Fields of unsupported types.

* `column_of_line`: the column and the indexes that the line of a field gives in a model;
* `UnsupportedField`: a field of the type `Unsupported` with a text as the argument of the type;
* `column_of_unsupported`: the modifiers and the attributes of such a field are what stands behind
  the first closing parenthesis.
-/
import SchemaReader.Proofs.ModelFile.Meaning
import SchemaReader.Proofs.ModelFile.TableParts
import SchemaReader.Proofs.ModelFile.WrittenFields

namespace SchemaReader.ModelFile

open Text (IsWord IsGap Stops isBlank isWordChar)

variable {file body line : List Char} {name : String} {field : Field}

/-! ### Lines of models -/

lemma fields_ofBody (name : String) (body : List Char) :
    (Model.ofBody name body).fields = fieldsOf body := rfl

/-- In a model whose columns have different names, the line of a field that is no relation gives a
column with what the field says, and an index if the field is unique.  The attributes of the model
may make it part of the primary key and may repeat the index. -/
theorem column_of_line (hnames : ((Contents.ofText file).models.reduceOption.map Model.name).Nodup)
    (hmodel : HasModel file name body) (hline : line ∈ Text.lines body)
    (hread : Line.ofText line = .field field)
    (hscalar : field.isRelation (Contents.ofText file).declared = false)
    (hcolumns : (((Model.ofBody name body).scalars (Contents.ofText file).declared).map
      Field.name).Nodup)
    (rawPath : String) :
    ∃ table, (Schema.ofText .prisma file rawPath).table? name = some table ∧
      table.column? field.name = some {
        name := field.name
        type := field.type
        nullable := field.optional
        primaryKey := field.isId || (Model.ofBody name body).keyNames.contains field.name
        references := (foreignKeys (Contents.ofText file).declared (fieldsOf body)).lookup
          field.name } ∧
      table.indexes.count (.uniqueColumn name field.name) = (if field.isUnique then 1 else 0) +
        ((Model.ofBody name body).attributes.filterMap (BlockAttribute.index? name)).count
          (.uniqueColumn name field.name) := by
  have hmem : field ∈ (Model.ofBody name body).scalars (Contents.ofText file).declared := by
    refine List.mem_filter.mpr ⟨?_, by simpa using hscalar⟩
    rw [fields_ofBody]
    exact List.mem_filterMap.mpr ⟨.field field, hread ▸ List.mem_map_of_mem hline, rfl⟩
  have hfind := (TableModule.find?_eq_some_iff_of_nodup hcolumns field.name).mpr ⟨hmem, rfl⟩
  refine ⟨_, table?_of_hasModel hnames hmodel rawPath, ?_, ?_⟩
  · rw [column?_table, hfind]
    rfl
  · rw [table_eq, List.count_append]
    exact congrArg (· + _) (count_uniques hcolumns hmem)

/-! ### Unsupported types -/

/-- A field of an unsupported type, with a text between double quotes as the argument of the
type. -/
structure UnsupportedField where
  name : List Char
  gap : List Char
  content : List Char
  modifiers : List Modifier
  attributes : List Char

namespace UnsupportedField

/-- `f Unsupported("u")` with modifiers and attributes behind it. -/
def text (written : UnsupportedField) : List Char :=
  written.name ++ (written.gap ++ ("Unsupported(\"".toList ++ (written.content ++ ("\")".toList ++
    (modifiersText written.modifiers ++ written.attributes)))))

/-- The field stands in one line and its attributes begin with no modifier. -/
structure Proper (written : UnsupportedField) : Prop where
  name : IsWord written.name
  gap : IsGap written.gap ∧ written.gap ≠ []
  content : '\n' ∉ written.content
  unmodified : Unmodified written.attributes
  line : '\n' ∉ written.attributes

instance (written : UnsupportedField) : Decidable written.Proper :=
  decidable_of_iff (IsWord written.name ∧ (IsGap written.gap ∧ written.gap ≠ []) ∧
      '\n' ∉ written.content ∧ Unmodified written.attributes ∧ '\n' ∉ written.attributes)
    ⟨fun ⟨name, gap, content, unmodified, line⟩ => ⟨name, gap, content, unmodified, line⟩,
    fun h => ⟨h.name, h.gap, h.content, h.unmodified, h.line⟩⟩

/-- A field whose type has an argument up to a closing parenthesis, with certain modifiers and
attributes. -/
def readAs (written : UnsupportedField) (argument : List Char) (modifiers : List Modifier)
    (attributes : List Char) : WrittenField :=
  ⟨written.name, written.gap, "Unsupported".toList, some argument, modifiers, attributes⟩

variable {written : UnsupportedField} {argument attributes : List Char} {modifiers : List Modifier}

lemma Proper.readAs (h : written.Proper) (hargument : ')' ∉ argument)
    (hunmodified : Unmodified attributes)
    (hline : '\n' ∉ attributes) : (written.readAs argument modifiers attributes).Proper where
  name := h.name
  gap := h.gap
  type := show IsWord "Unsupported".toList by decide
  argument _ hmem := Option.mem_some_iff.mp hmem ▸ hargument
  bare hnone := by simp [UnsupportedField.readAs] at hnone
  unmodified := hunmodified
  line := hline

end UnsupportedField

/-- A table has the column of a field of an unsupported type, nullable if the modifiers say so, with
the key and the index that the attributes ask for, apart from those that the model declares. -/
structure HasUnsupported (table : Table) (model : Model) (name : String) (modifiers : List Modifier)
    (attributes : List Char) : Prop where
  column : ∃ references, table.column? name = some {
    name, type := "Unsupported"
    nullable := modifiers.contains .optional
    primaryKey := (attributeWord "@id").occursIn attributes || model.keyNames.contains name
    references }
  indexes : table.indexes.count (.uniqueColumn model.name name)
    = (if (attributeWord "@unique").occursIn attributes then 1 else 0) +
      (model.attributes.filterMap (BlockAttribute.index? model.name)).count
        (.uniqueColumn model.name name)

/-- **Modifiers behind the argument of a type.**  In a model whose columns have different names, a
line `f Unsupported("u")` with modifiers and attributes behind it gives a column of that type.  If
`u` has no closing parenthesis, the column is nullable if and only if there is a question mark among
the modifiers, and its key and its index are what the attributes ask for.  Otherwise the argument of
the type ends with the first closing parenthesis in `u`: the modifiers are those that stand right
behind it, and all the rest of the line counts as attributes. -/
theorem column_of_unsupported {written : UnsupportedField} (h : written.Proper)
    (hnames : ((Contents.ofText file).models.reduceOption.map Model.name).Nodup)
    (hmodel : HasModel file name body) (hline : line ∈ Text.lines body)
    (htrim : Text.trim line = written.text)
    (hcolumns : (((Model.ofBody name body).scalars (Contents.ofText file).declared).map
      Field.name).Nodup)
    (rawPath : String) :
    ∃ table, (Schema.ofText .prisma file rawPath).table? name = some table ∧
      (')' ∉ written.content → HasUnsupported table (.ofBody name body) (String.ofList written.name)
        written.modifiers written.attributes) ∧
      ∀ u v, written.content = u ++ ')' :: v → ')' ∉ u → ∃ modifiers attributes,
        v ++ ("\")".toList ++ (modifiersText written.modifiers ++ written.attributes))
          = modifiersText modifiers ++ attributes ∧ Unmodified attributes ∧
        HasUnsupported table (.ofBody name body)
          (String.ofList written.name) modifiers attributes := by
  have hread : ∀ {argument modifiers attributes},
      (written.readAs argument modifiers attributes).Proper →
      written.text = (written.readAs argument modifiers attributes).text →
      HasUnsupported ((Model.ofBody name body).table (Contents.ofText file).declared)
        (.ofBody name body)
        (String.ofList written.name) modifiers attributes := by
    intro argument modifiers attributes hproper htext
    have hscalar : (written.readAs argument modifiers attributes).field.isRelation
        (Contents.ofText file).declared = false := by
      simp [Field.isRelation, namesModel, WrittenField.field, UnsupportedField.readAs]
    obtain ⟨table, htable, hcolumn, hindexes⟩ := column_of_line hnames hmodel hline
      (hproper.ofText_line (htrim.trans htext)) hscalar hcolumns rawPath
    obtain rfl := Option.some.inj ((table?_of_hasModel hnames hmodel rawPath).symm.trans htable)
    exact ⟨⟨_, hcolumn⟩, hindexes⟩
  refine ⟨_, table?_of_hasModel hnames hmodel rawPath, fun hcontent => ?_, fun u v huv hu => ?_⟩
  · have hargument : ')' ∉ '"' :: (written.content ++ ['"']) := by simp [hcontent]
    refine hread (h.readAs hargument h.unmodified h.line) ?_
    simp [UnsupportedField.text, UnsupportedField.readAs, WrittenField.text, WrittenField.behind,
      WrittenField.argumentText]
  · obtain ⟨modifiers, attributes, hrest, hunmodified⟩ := exists_modifiers
      (v ++ ("\")".toList ++ (modifiersText written.modifiers ++ written.attributes)))
    have hargument : ')' ∉ '"' :: u := by simp [hu]
    have hv : '\n' ∉ v := fun hmem => h.content (by simp [huv, hmem])
    have hbehind : '\n' ∉ v ++
        ("\")".toList ++ (modifiersText written.modifiers ++ written.attributes)) := by
      simp [hv, h.line, not_lineFeed_mem_modifiersText]
    have hattributes : '\n' ∉ attributes :=
      fun hmem => hbehind (hrest ▸ List.mem_append_right _ hmem)
    refine ⟨modifiers, attributes, hrest, hunmodified,
      hread (h.readAs hargument hunmodified hattributes) ?_⟩
    simp [UnsupportedField.text, UnsupportedField.readAs, WrittenField.text, WrittenField.behind,
      WrittenField.argumentText, huv, ← hrest]

/-- `spot Unsupported("circle")? @unique` -/
def sampleSpot : UnsupportedField :=
  ⟨"spot".toList, " ".toList, "circle".toList, [.optional], " @unique".toList⟩

/-- The lines of a model with the field, and a file with the model. -/
def placeBody : List Char := "\n  id Int @id\n  ".toList ++ (sampleSpot.text ++ "\n".toList)

def placeFile : List Char := "model Place \x7b".toList ++ (placeBody ++ "\x7d\n".toList)

theorem column_of_unsupported_sampleSpot :
    sampleSpot.Proper ∧ HasModel placeFile "Place" placeBody ∧
    ∃ table, (Schema.ofText .prisma placeFile "a.prisma").table? "Place" = some table ∧
      (')' ∉ sampleSpot.content → HasUnsupported table (.ofBody "Place" placeBody)
        (String.ofList sampleSpot.name) sampleSpot.modifiers sampleSpot.attributes) ∧
      ∀ u v, sampleSpot.content = u ++ ')' :: v → ')' ∉ u → ∃ modifiers attributes,
        v ++ ("\")".toList ++ (modifiersText sampleSpot.modifiers ++ sampleSpot.attributes))
          = modifiersText modifiers ++ attributes ∧ Unmodified attributes ∧
        HasUnsupported table (.ofBody "Place" placeBody) (String.ofList sampleSpot.name) modifiers
          attributes := by
  have hproper : sampleSpot.Proper := by decide
  have hmodel : HasModel placeFile "Place" placeBody := by decide +kernel
  have hline : "  ".toList ++ sampleSpot.text ∈ Text.lines placeBody := by decide
  exact ⟨hproper, hmodel, column_of_unsupported hproper (by decide +kernel) hmodel hline (by decide)
    (by decide +kernel) "a.prisma"⟩

/-- A closing parenthesis in the text of the type ends the argument, and the question mark behind it
counts as an attribute. -/
theorem argument_ends_early :
    Schema.ofText .prisma "model t \x7b\n  f Unsupported(\"geometry(Point, 4326)\")?\n\x7d".toList
      "inline"
      = ⟨.prisma, [⟨"t", [⟨"f", "Unsupported", false, false, none⟩], []⟩], [], "inline"⟩ ∧
    Schema.ofText .prisma "model t \x7b\n  f Unsupported(\"geometry\")?\n\x7d".toList "inline"
      = ⟨.prisma, [⟨"t", [⟨"f", "Unsupported", true, false, none⟩], []⟩], [], "inline"⟩ := by
  decide +kernel

end SchemaReader.ModelFile
