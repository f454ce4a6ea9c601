/-
Models that differ only in what no reader looks for.

* `Field.SameButUnique`, `Field.Alike`: two fields with the same name, type and modifiers, in whose
  attributes the same is found, but for their uniqueness or with it;
* `Line.Alike`, `Model.Alike`, `Contents.Alike`: so for lines, models and files, line by line;
* `draft_of_alike`: files that are alike define the same schema.
-/
import Mathlib.Tactic.Lemma
import Mathlib.Data.List.Forall2
import SchemaReader.ModelFile.Model

namespace SchemaReader.ModelFile

variable {field field' : Field} {xs ys : List Field} {model model' : Model}
    {contents contents' : Contents}

/-! ### Fields -/

/-- Two fields with the same name, type and modifiers, in whose attributes the same is found, but
for their uniqueness. -/
structure Field.SameButUnique (field field' : Field) : Prop where
  name : field.name = field'.name
  type : field.type = field'.type
  isList : field.isList = field'.isList
  optional : field.optional = field'.optional
  isId : field.isId = field'.isId
  hasRelationAttribute : field.hasRelationAttribute = field'.hasRelationAttribute
  relationLists? : field.relationLists? = field'.relationLists?

/-- Two fields with the same name, type and modifiers, in whose attributes the same is found. -/
structure Field.Alike (field field' : Field) : Prop extends Field.SameButUnique field field' where
  isUnique : field.isUnique = field'.isUnique

namespace Field.SameButUnique

lemma isRelation (h : field.SameButUnique field') (declared : List String) :
    field.isRelation declared = field'.isRelation declared := by
  rw [Field.isRelation, Field.isRelation, h.type]

lemma relationPairs? (h : field.SameButUnique field') :
    field.relationPairs? = field'.relationPairs? := by
  rw [Field.relationPairs?, Field.relationPairs?, h.relationLists?]

lemma column (h : field.SameButUnique field') (keys : List (String × Reference)) :
    field.column keys = field'.column keys := by
  rw [Field.column, Field.column, h.name, h.type, h.optional, h.isId]

lemma relations (h : field.SameButUnique field') (model : String) :
    field.relations model = field'.relations model := by
  rw [Field.relations, Field.relations, h.relationPairs?, h.type, h.isList,
    h.hasRelationAttribute, h.name]

end Field.SameButUnique

namespace Field.Alike

lemma refl (field : Field) : field.Alike field := ⟨⟨rfl, rfl, rfl, rfl, rfl, rfl, rfl⟩, rfl⟩

lemma addField (h : field.Alike field') (declared : List String) (keys : List (String × Reference))
    (table : Table) : addField declared keys table field = addField declared keys table field' := by
  rw [ModelFile.addField, ModelFile.addField, h.isRelation, h.column, h.isUnique, h.name]

end Field.Alike

/-- The relation fields among such fields. -/
lemma forall₂_filter_isRelation (h : List.Forall₂ Field.SameButUnique xs ys)
    (declared : List String) :
    List.Forall₂ Field.SameButUnique (xs.filter (Field.isRelation declared))
      (ys.filter (Field.isRelation declared)) := by
  induction h with
  | nil => exact .nil
  | cons hfield _ ih =>
      rw [List.filter_cons, List.filter_cons, hfield.isRelation]
      split
      · exact .cons hfield ih
      · exact ih

/-- What is the same of such fields is the same of all of them. -/
lemma flatMap_of_alike {α : Type} {f : Field → List α}
    (hf : ∀ {x x' : Field}, x.SameButUnique x' → f x = f x')
    (h : List.Forall₂ Field.SameButUnique xs ys) :
    xs.flatMap f = ys.flatMap f := by
  induction h with
  | nil => rfl
  | cons hfield _ ih => rw [List.flatMap_cons, List.flatMap_cons, hf hfield, ih]

lemma foreignKeys_of_alike (h : List.Forall₂ Field.SameButUnique xs ys) (declared : List String) :
    foreignKeys declared xs = foreignKeys declared ys :=
  flatMap_of_alike (fun h => by rw [h.relationPairs?, h.type])
    (forall₂_filter_isRelation h declared)

lemma relations_of_alike (h : List.Forall₂ Field.SameButUnique model.fields model'.fields)
    (hname : model.name = model'.name) (declared : List String) :
    model.relations declared = model'.relations declared := by
  rw [Model.relations, Model.relations, hname]
  exact flatMap_of_alike (fun hfield => hfield.relations _) (forall₂_filter_isRelation h declared)

/-! ### Lines and models -/

/-- Two lines that are the same, or two fields that are alike. -/
inductive Line.Alike : Line → Line → Prop
  | same (line : Line) : Line.Alike line line
  | field {field field' : Field} : field.Alike field' → Line.Alike (.field field) (.field field')

/-- Two models of one name with lines that are alike. -/
structure Model.Alike (model model' : Model) : Prop where
  name : model.name = model'.name
  lines : List.Forall₂ Line.Alike model.lines model'.lines

namespace Model.Alike

lemma refl (model : Model) : model.Alike model :=
  ⟨rfl, List.forall₂_same.mpr fun line _ => .same line⟩

lemma forall₂_fields (h : model.Alike model') :
    List.Forall₂ Field.Alike model.fields model'.fields := by
  have hlines := h.lines
  rw [Model.fields, Model.fields]
  generalize model.lines = lines, model'.lines = lines' at hlines
  induction hlines with
  | nil => exact .nil
  | @cons line _ _ _ hline _ ih =>
      cases hline with
      | field hfield => exact .cons hfield ih
      | same =>
          cases line with
          | field field => exact .cons (.refl field) ih
          | _ => exact ih

lemma sameButUnique (h : model.Alike model') :
    List.Forall₂ Field.SameButUnique model.fields model'.fields :=
  h.forall₂_fields.imp fun _ _ hfield => hfield.toSameButUnique

/-- What is made of the other lines is the same. -/
lemma filterMap_lines {α : Type} (h : model.Alike model') {f : Line → Option α}
    (hf : ∀ field, f (.field field) = none) :
    model.lines.filterMap f = model'.lines.filterMap f := by
  have hlines := h.lines
  generalize model.lines = lines, model'.lines = lines' at hlines
  induction hlines with
  | nil => rfl
  | cons hline _ ih =>
      cases hline with
      | same => rw [List.filterMap_cons, List.filterMap_cons, ih]
      | field _ => rw [List.filterMap_cons_none (hf _), List.filterMap_cons_none (hf _), ih]

lemma attributes (h : model.Alike model') : model.attributes = model'.attributes :=
  h.filterMap_lines fun _ => rfl

lemma fieldNotices (h : model.Alike model') : model.fieldNotices = model'.fieldNotices := by
  have hother := h.filterMap_lines
    (f := fun line => if line == .unrecognized then some line else none) fun _ => rfl
  simp only [← Option.guard_def, List.filterMap_eq_filter] at hother
  rw [Model.fieldNotices, Model.fieldNotices, hother]

lemma table (h : model.Alike model') (declared : List String) :
    model.table declared = model'.table declared := by
  have hfields : ∀ {xs ys : List Field} {keys : List (String × Reference)} {table : Table},
      List.Forall₂ Field.Alike xs ys →
        xs.foldl (addField declared keys) table = ys.foldl (addField declared keys) table := by
    intro xs ys keys table hfields
    induction hfields generalizing table with
    | nil => rfl
    | cons hfield _ ih => rw [List.foldl_cons, List.foldl_cons, hfield.addField, ih]
  rw [Model.table, Model.table, foreignKeys_of_alike h.sameButUnique,
    hfields h.forall₂_fields, h.name, h.attributes]

lemma addTo (h : model.Alike model') (declared : List String) (draft : Draft) :
    model.addTo declared draft = model'.addTo declared draft := by
  rw [Model.addTo, Model.addTo, h.fieldNotices, relations_of_alike h.sameButUnique h.name, h.table,
    Model.attributeNotices, Model.attributeNotices, h.attributes]

end Model.Alike

/-! ### Files -/

/-- Two files that declare the same beside their models, with models that are alike. -/
structure Contents.Alike (contents contents' : Contents) : Prop where
  models : List.Forall₂ (Option.Rel Model.Alike) contents.models contents'.models
  declared : contents.declared = contents'.declared

/-- Files that are alike define the same schema, with the same notices. -/
theorem draft_of_alike (h : contents.Alike contents') : contents.draft = contents'.draft := by
  have hmodels : ∀ {models models' : List (Option Model)} {d : Draft},
      List.Forall₂ (Option.Rel Model.Alike) models models' →
        models.foldl (addModel contents.declared) d
          = models'.foldl (addModel contents.declared) d := by
    intro models models' d hmodels
    induction hmodels generalizing d with
    | nil => rfl
    | cons hmodel _ ih =>
        rw [List.foldl_cons, List.foldl_cons]
        cases hmodel with
        | none => exact ih
        | some hmodel => rw [addModel, addModel, hmodel.addTo, ih]
  rw [Contents.draft, Contents.draft, ← h.declared, hmodels h.models]

end SchemaReader.ModelFile
