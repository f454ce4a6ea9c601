/-
Model files read by byte offsets.

* `line`, `model`, `contents`: the readings of `SchemaReader.ModelFile`, with the slices and the
  groups that they take;
* `draft`: the schema of a model file, for which the lists of explicit relations are read;
* `line_goesWell`, `model_goesWell`, `contents_goesWell`, `draft_goesWell`: nothing but a depth of
  brackets goes wrong in any of them;
* `brackets_attributes_le`: the attributes of a field have no more brackets than the text.
-/
import Mathlib.Data.List.TakeWhile
import SchemaReader.ModelFile.Model
import SchemaReader.Proofs.ByOffset.Matches

namespace SchemaReader.ByOffset.ModelFile

open SchemaReader.ModelFile

/-! ### Lines -/

/-- The bare names of a written list. -/
def namesOf (text : List Char) : Checked (List String) := do
  let names ← identifierList .code text
  return names.map String.ofList

/-- The names in a named argument that is a list, if it is there. -/
def listedIn (name : String) (arguments : List Char) : Checked (List String) := do
  let some found := (listArgument name).find? arguments | pure []
  namesOf (found.group 1)

/-- The columns that arguments list.  The list is sought from the offset of the first square bracket
on. -/
def columnsOf (arguments : List Char) : Checked (Option (List String)) := do
  if arguments.contains '[' then
    let opening := Text.byteLength (arguments.takeWhile (· != '['))
    let some list ← bracketBody .code arguments opening | pure none
    let columns ← namesOf list
    return some columns
  else return none

/-- The name given to an index. -/
def givenName (arguments : List Char) : Checked (Option String) := do
  let some found := nameArgument.find? arguments | pure none
  let name ← groupOf found 1
  return some (String.ofList name)

/-- Reads an attribute of a model. -/
def blockAttribute (line : List Char) : Checked (Option BlockAttribute) := do
  let some found := blockAttributeForm.find? line | pure none
  let kind ← groupOf found 1
  let arguments ← groupOf found 2
  match ← columnsOf arguments with
  | none => return some .withoutColumns
  | some [] => return none
  | some columns =>
    if String.ofList kind == "id" then return some (.id columns)
    let name ← givenName arguments
    return some (.index name columns (String.ofList kind == "unique"))

/-- Reads a line of a model. -/
def line (text : List Char) : Checked Line :=
  let line := Text.trim text
  if line.isEmpty then pure .blank
  else if ['@', '@'].isPrefixOf line then do
    let declared ← blockAttribute line
    return .blockAttribute declared
  else match Field.ofLine? line with
    | some field => pure (.field field)
    | none => pure .unrecognized

/-! ### Models -/

/-- The model of a match of `modelHead` in a text. -/
def model (text : List Char) (found : Match) : Checked (Option Model) := do
  let some body ← bodyBehind .code text found | pure none
  let lines ← (Text.lines body).mapM line
  return some ⟨String.ofList (found.group 1), lines⟩

/-- The content of a text. -/
def contents (text : List Char) : Checked Contents := do
  let stripped ← stripComments .code text
  let models ← (modelHead.findAll stripped).mapM (model stripped)
  return ⟨models, (declarationHead.findAll stripped).map fun found => String.ofList (found.group 1)⟩

/-! ### The schema of a model file -/

/-- The pairs of columns of an explicit relation. -/
def relationPairs (field : Field) : Checked (Option (List (String × String))) := do
  let some found := relationForm.find? field.attributes | pure none
  let fields ← listedIn "fields" (found.group 1)
  let references ← listedIn "references" (found.group 1)
  return some (fields.zip references)

/-- The columns that the explicit relations among fields make foreign keys. -/
def foreignKeys (declared : List String) (fields : List Field) :
    Checked (List (String × Reference)) := do
  let keys ← (fields.filter (Field.isRelation declared)).mapM fun field => do
    let pairs ← relationPairs field
    return (pairs.getD []).map fun pair => (pair.1, (⟨field.type, pair.2⟩ : Reference))
  return keys.flatten

/-- The relations of a relation field. -/
def fieldRelations (model : String) (field : Field) : Checked (List Relation) := do
  match ← relationPairs field with
  | some pairs => return pairs.map fun pair =>
    ⟨model, pair.1, field.type, pair.2, if field.isList then .oneToMany else .oneToOne⟩
  | none =>
    if field.isList || field.hasRelationAttribute then return []
    else return [⟨model, field.name ++ "Id", field.type, "id", .oneToOne⟩]

/-- The table of a model. -/
def modelTable (declared : List String) (model : Model) : Checked Table := do
  let keys ← foreignKeys declared model.fields
  let columns := model.fields.foldl (addField declared keys) (Table.empty model.name)
  return model.attributes.foldl BlockAttribute.applyTo columns

/-- The relations of a model. -/
def modelRelations (declared : List String) (model : Model) : Checked (List Relation) := do
  let relations ← (model.fields.filter (Field.isRelation declared)).mapM (fieldRelations model.name)
  return relations.flatten

/-- A draft after a model, if it ends. -/
def addModel (declared : List String) (draft : Draft) : Option Model → Checked Draft
  | none => pure (draft.note .unterminatedModel)
  | some model => do
    let relations ← modelRelations declared model
    let table ← modelTable declared model
    let related := (draft.noteAll model.fieldNotices).addRelations relations
    return ((related.noteAll model.attributeNotices).note .modelRead).addTable table

/-- The schema that a text defines. -/
def draft (text : List Char) : Checked Draft := do
  let contents ← contents text
  contents.models.foldlM (addModel contents.declared) .empty

variable {text : List Char} {found : Match} {n : Nat}

/-! ### Nothing but the depth goes wrong -/

lemma namesOf_goesWell (h : brackets text ≤ n) :
    GoesWell n (namesOf text) (SchemaReader.ModelFile.namesOf text) :=
  (identifierList_goesWell h).bind .ok

lemma nullable_listArgument (name : String) : (listArgument name).nullable = false := by
  simp [listArgument, Pattern.inSquares, Pattern.nullable, Pattern.char]

lemma listedIn_goesWell (name : String) {arguments : List Char} (h : brackets arguments ≤ n) :
    GoesWell n (listedIn name arguments) (SchemaReader.ModelFile.listedIn name arguments) := by
  rw [listedIn, SchemaReader.ModelFile.listedIn]
  cases hfound : (listArgument name).find? arguments with
  | none => exact .ok
  | some found =>
      exact namesOf_goesWell (brackets_group_of_find?_le hfound (nullable_listArgument name) h)

/-- The first square bracket stands where the text before it ends. -/
lemma columnsOf_goesWell {arguments : List Char} (h : brackets arguments ≤ n) :
    GoesWell n (columnsOf arguments) (columnsOf? arguments) := by
  rw [columnsOf, columnsOf?]
  split
  · have hdrop : Text.dropBytes? (Text.byteLength (arguments.takeWhile (· != '['))) arguments
        = some (arguments.dropWhile (· != '[')) :=
      Text.dropBytes?_eq_some_iff.mpr ⟨_, List.takeWhile_append_dropWhile.symm, rfl⟩
    simp only [bracketBody_eq, bracketBodyAt?, hdrop, ok_bind, Option.bind_some]
    cases hlist : bracketBody? .code (arguments.dropWhile (· != '[')) with
    | none => exact .ok
    | some list =>
        have hroom := brackets_bracketBody?_le hlist
          (brackets_le (List.dropWhile_sublist _) h)
        exact (namesOf_goesWell hroom).bind .ok
  · next hnone =>
      have hdrop : arguments.dropWhile (· != '[') = [] := by
        refine List.dropWhile_eq_nil_iff.mpr fun c hc => ?_
        have hne : c ≠ '[' := by
          rintro rfl
          exact hnone (List.contains_iff_mem.mpr hc)
        simpa using hne
      rw [hdrop]
      exact .ok

lemma givenName_eq (arguments : List Char) : givenName arguments
    = .ok ((nameArgument.find? arguments).map fun found => String.ofList (found.group 1)) := by
  rw [givenName]
  cases hfound : nameArgument.find? arguments with
  | none => rfl
  | some found =>
      simp only [groupOf_of_find? hfound (n := 1) (by decide) (by decide)]
      rfl

lemma blockAttribute_goesWell {line : List Char} (h : brackets line ≤ n) :
    GoesWell n (blockAttribute line) (BlockAttribute.ofLine? line) := by
  rw [blockAttribute, BlockAttribute.ofLine?]
  cases hfound : blockAttributeForm.find? line with
  | none => exact .ok
  | some found =>
      have hkind := groupOf_of_find? hfound (n := 1) (by decide) (by decide)
      have harguments := groupOf_of_find? hfound (n := 2) (by decide) (by decide)
      have hroom := brackets_group_of_find?_le hfound (m := 2) (by decide) h
      simp only [hkind, harguments, ok_bind, givenName_eq]
      refine (columnsOf_goesWell hroom).bind ?_
      obtain _ | ⟨_ | ⟨column, columns⟩⟩ := columnsOf? (found.group 2)
      · exact .ok
      · exact .ok
      · simp only
        split <;> exact .ok

theorem line_goesWell (h : brackets text ≤ n) : GoesWell n (line text) (.ofText text) := by
  rw [line, Line.ofText]
  split
  · exact .ok
  · split
    · exact (blockAttribute_goesWell (brackets_le (Text.trim_sublist text) h)).bind .ok
    · cases Field.ofLine? (Text.trim text) <;> exact .ok

/-- The attributes of a field are a piece of its line. -/
lemma brackets_attributes_le {field : Field} (h : Line.ofText text = .field field)
    (hn : brackets text ≤ n) : brackets field.attributes ≤ n := by
  rw [Line.ofText] at h
  split at h
  · simp at h
  · split at h
    · simp at h
    · cases hline : Field.ofLine? (Text.trim text) with
      | none => simp [hline] at h
      | some other =>
          obtain rfl : other = field := by simpa [hline] using h
          obtain ⟨found, hfound, rfl⟩ := Option.map_eq_some_iff.mp hline
          exact brackets_group_of_find?_le hfound (by decide)
            (brackets_le (Text.trim_sublist text) hn)

lemma endsWith_modelHead : modelHead.EndsWith '\x7b' :=
  (Pattern.endsWith_append_char _ '\x7b').append _

/-- The lines of a model are pieces of the text. -/
lemma brackets_lines_le {inner : List Char × List Char} (h : found ∈ modelHead.findAll text)
    (hinner : enclosed? .code found.stop.after = some inner) (hn : brackets text ≤ n) :
    ∀ line ∈ Text.lines inner.1, brackets line ≤ n := fun _ hline =>
  brackets_le (Text.sublist_of_mem_segments hline)
    (brackets_enclosed?_le hinner (brackets_after_le (Pattern.stands_of_mem_findAll h) hn)).1

theorem model_goesWell (h : found ∈ modelHead.findAll text) (hn : brackets text ≤ n) :
    GoesWell n (model text found) (Model.ofMatch? found) := by
  rw [model, bodyBehind_eq (Pattern.stands_of_mem_findAll h) endsWith_modelHead rfl, ok_bind,
    Model.ofMatch?]
  cases hinner : enclosed? .code found.stop.after with
  | none => exact .ok
  | some inner =>
      have hlines := brackets_lines_le h hinner hn
      exact (GoesWell.mapM fun line hline => line_goesWell (hlines line hline)).bind .ok

/-- The attributes of the fields of a model are pieces of the text. -/
lemma brackets_fields_le {model : Model} (h : found ∈ modelHead.findAll text)
    (hmodel : Model.ofMatch? found = some model) (hn : brackets text ≤ n) :
    ∀ field ∈ model.fields, brackets field.attributes ≤ n := by
  intro field hfield
  obtain ⟨inner, hinner, rfl⟩ := Option.map_eq_some_iff.mp hmodel
  obtain ⟨line, hline, hread⟩ := List.mem_filterMap.mp hfield
  obtain ⟨written, hwritten, rfl⟩ := List.mem_map.mp hline
  split at hread
  · next other hkind =>
      obtain rfl := Option.some.inj hread
      exact brackets_attributes_le hkind (brackets_lines_le h hinner hn written hwritten)
  · simp at hread

/-- Nothing but a depth of brackets goes wrong in reading a model file. -/
theorem contents_goesWell (text : List Char) :
    GoesWell (brackets text) (contents text) (.ofText text) := by
  have hn := brackets_stripComments_le .code text
  rw [contents, stripComments_eq, ok_bind]
  exact (GoesWell.mapM fun _ h => model_goesWell h hn).bind .ok

lemma relationPairs_goesWell {field : Field} (h : brackets field.attributes ≤ n) :
    GoesWell n (relationPairs field) field.relationPairs? := by
  rw [relationPairs, Field.relationPairs?, Field.relationLists?]
  cases hfound : relationForm.find? field.attributes with
  | none => exact .ok
  | some found =>
      have hroom := brackets_group_of_find?_le hfound (m := 1) (by decide) h
      exact (listedIn_goesWell "fields" hroom).bind
        ((listedIn_goesWell "references" hroom).bind .ok)

section Fields

variable {fields : List Field} {model : Model}

lemma foreignKeys_goesWell (declared : List String)
    (h : ∀ field ∈ fields, brackets field.attributes ≤ n) :
    GoesWell n (foreignKeys declared fields)
      (SchemaReader.ModelFile.foreignKeys declared fields) := by
  rw [foreignKeys, SchemaReader.ModelFile.foreignKeys, List.flatMap_def]
  refine (GoesWell.mapM fun field hfield => ?_).bind .ok
  exact (relationPairs_goesWell (h field (List.mem_of_mem_filter hfield))).bind .ok

lemma fieldRelations_goesWell (name : String) {field : Field}
    (h : brackets field.attributes ≤ n) :
    GoesWell n (fieldRelations name field) (field.relations name) := by
  refine (relationPairs_goesWell h).bind ?_
  rw [Field.relations]
  cases field.relationPairs? with
  | some pairs => exact .ok
  | none =>
      simp only
      split <;> exact .ok

lemma modelTable_goesWell (declared : List String)
    (h : ∀ field ∈ model.fields, brackets field.attributes ≤ n) :
    GoesWell n (modelTable declared model) (model.table declared) :=
  (foreignKeys_goesWell declared h).bind .ok

lemma modelRelations_goesWell (declared : List String)
    (h : ∀ field ∈ model.fields, brackets field.attributes ≤ n) :
    GoesWell n (modelRelations declared model) (model.relations declared) := by
  rw [modelRelations, Model.relations, List.flatMap_def]
  refine (GoesWell.mapM fun field hfield => ?_).bind .ok
  exact fieldRelations_goesWell model.name (h field (List.mem_of_mem_filter hfield))

end Fields

lemma addModel_goesWell (declared : List String) (draft : Draft) {model : Option Model}
    (h : ∀ m ∈ model, ∀ field ∈ m.fields, brackets field.attributes ≤ n) :
    GoesWell n (addModel declared draft model)
      (SchemaReader.ModelFile.addModel declared draft model) := by
  cases model with
  | none => exact .ok
  | some model =>
      have hfields := h model rfl
      exact (modelRelations_goesWell declared hfields).bind
        ((modelTable_goesWell declared hfields).bind .ok)

/-- Nothing but a depth of brackets goes wrong in making the schema of a model file. -/
theorem draft_goesWell (text : List Char) :
    GoesWell (brackets text) (draft text) (Contents.ofText text).draft := by
  have hn := brackets_stripComments_le .code text
  refine (contents_goesWell text).bind (GoesWell.foldlM (fun draft model hmodel => ?_) Draft.empty)
  obtain ⟨found, hfound, rfl⟩ := List.mem_map.mp hmodel
  exact addModel_goesWell _ draft fun model hread => brackets_fields_le hfound hread hn

end SchemaReader.ByOffset.ModelFile
