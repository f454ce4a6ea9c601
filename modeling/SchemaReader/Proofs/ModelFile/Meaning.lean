/-
What the fields of a model mean.

* `HasModel`: a closed model of a text, with what stands between its brackets;
* `PairsAt`, `RelatesAt`: the places in a model where a relation field names a pair of columns, and
  those where it implies one;
* `ModelLaw`: the columns of a table are the other fields of its model in order, a column points
  where the first pair that names it says, and the relations that leave the table are those of the
  places that are the first along their edge;
* `modelLaw_of_hasModel`: every closed model of a model file follows the law, where the names of the
  models differ.
-/
import SchemaReader.Proofs.ModelFile.Draft
import SchemaReader.Proofs.Schema.ColumnNames

namespace SchemaReader.ModelFile

variable {declared : List String} {fields : List Field} {name : String} {place : Nat × Nat}

/-! ### Closed models -/

/-- The fields among the lines of a text. -/
def fieldsOf (body : List Char) : List Field :=
  ((Text.lines body).map Line.ofText).filterMap fun
    | .field field => some field
    | _ => none

/-- Outside of comments, a text has a model of a name that ends, with a body between its
brackets. -/
def HasModel (text : List Char) (name : String) (body : List Char) : Prop :=
  ∃ found ∈ modelHead.findAll (stripComments .code text), String.ofList (found.group 1) = name ∧
    (enclosed? .code found.stop.after).map Prod.fst = some body

instance (text : List Char) (name : String) (body : List Char) :
    Decidable (HasModel text name body) :=
  inferInstanceAs (Decidable (∃ found ∈ modelHead.findAll (stripComments .code text), _ ∧ _))

/-- The model of a name with a body. -/
def Model.ofBody (name : String) (body : List Char) : Model :=
  ⟨name, (Text.lines body).map .ofText⟩

lemma HasModel.mem_models {text body : List Char} (h : HasModel text name body) :
    Model.ofBody name body ∈ (Contents.ofText text).models.reduceOption := by
  obtain ⟨found, hfound, hname, hbody⟩ := h
  refine List.reduceOption_mem_iff.mpr (List.mem_map.mpr ⟨found, hfound, ?_⟩)
  obtain ⟨inner, hinner, rfl⟩ := Option.map_eq_some_iff.mp hbody
  rw [Model.ofMatch?, hinner, Option.map_some, hname, Model.ofBody]

/-! ### Places -/

/-- At a place, the number of a field and a position in its lists, a relation field names a column
of its model and the column of the model of its type that it points at. -/
structure PairsAt (declared : List String) (fields : List Field) (place : Nat × Nat) (field : Field)
    (column target : String) : Prop where
  mem : fields[place.1]? = some field
  isRelation : field.isRelation declared = true
  listed : ∃ columns targets, field.relationLists? = some (columns, targets) ∧
    columns[place.2]? = some column ∧ targets[place.2]? = some target

/-- At a place, a relation field that is no list and has no relation attribute implies a column of
its model, of its name with `Id`, and the column `id` of the model of its type. -/
structure ImpliesAt (declared : List String) (fields : List Field) (place : Nat × Nat)
    (field : Field)
    (column target : String) : Prop where
  mem : fields[place.1]? = some field
  isRelation : field.isRelation declared = true
  bare : field.relationLists? = none ∧ field.isList = false ∧ field.hasRelationAttribute = false
  only : place.2 = 0
  column_eq : column = field.name ++ "Id"
  target_eq : target = "id"

/-- At a place, a relation field names or implies a pair of columns. -/
def RelatesAt (declared : List String) (fields : List Field) (place : Nat × Nat) (field : Field)
    (column target : String) : Prop :=
  PairsAt declared fields place field column target ∨
    ImpliesAt declared fields place field column target

/-- The relation of a field from a column to another one: a field that is a list stands for many
rows. -/
def Field.relation (model : String) (field : Field) (column target : String) : Relation :=
  ⟨model, column, field.type, target, if field.isList then .oneToMany else .oneToOne⟩

/-- What relation fields give, and the other fields nothing. -/
def Field.ifRelation {α : Type} (declared : List String) (given : Field → List α) (field : Field) :
    List α :=
  if field.isRelation declared then given field else []

lemma flatMap_filter_isRelation {α : Type} (given : Field → List α) (fields : List Field) :
    (fields.filter (Field.isRelation declared)).flatMap given
      = fields.flatMap (Field.ifRelation declared given) := by
  induction fields with
  | nil => rfl
  | cons field fields ih =>
      by_cases hrelation : field.isRelation declared = true
      · rw [List.filter_cons_of_pos hrelation, List.flatMap_cons, List.flatMap_cons, ih,
          Field.ifRelation, if_pos hrelation]
      · rw [List.filter_cons_of_neg hrelation, List.flatMap_cons, ih, Field.ifRelation,
          if_neg hrelation, List.nil_append]

lemma givenAt_ifRelation {α : Type} {given : Field → List α} {a : α} :
    GivenAt (Field.ifRelation declared given) fields place a
      ↔ ∃ field, fields[place.1]? = some field ∧ field.isRelation declared = true ∧
          (given field)[place.2]? = some a := by
  refine exists_congr fun field => and_congr_right fun _ => ?_
  rw [Field.ifRelation]
  split
  · next h => simp [h]
  · next h => simp [h]

/-! ### Foreign keys -/

/-- What a field makes foreign keys, if it is a relation. -/
def Field.keys (field : Field) : List (String × Reference) :=
  (field.relationPairs?.getD []).map fun pair => (pair.1, ⟨field.type, pair.2⟩)

lemma getElem?_keys {field : Field} {column : String} {reference : Reference} {j : Nat} :
    field.keys[j]? = some (column, reference) ↔ reference.table = field.type ∧
      ∃ columns targets, field.relationLists? = some (columns, targets) ∧
        columns[j]? = some column ∧ targets[j]? = some reference.column := by
  obtain ⟨table, target⟩ := reference
  rw [Field.keys, Field.relationPairs?]
  cases hlists : field.relationLists? with
  | none => simp
  | some lists =>
      obtain ⟨columns, targets⟩ := lists
      have hzip : ∀ pair, (columns.zip targets)[j]? = some pair
          ↔ columns[j]? = some pair.1 ∧ targets[j]? = some pair.2 :=
        fun pair => List.getElem?_zip_eq_some
      simp only [Option.map_some, Option.getD_some, List.getElem?_map, Option.map_eq_some_iff, hzip,
        Prod.exists, Prod.mk.injEq, Reference.mk.injEq, Option.some.injEq]
      constructor
      · rintro ⟨_, _, ⟨hcolumn, htarget⟩, rfl, rfl, rfl⟩
        exact ⟨rfl, columns, targets, ⟨rfl, rfl⟩, hcolumn, htarget⟩
      · rintro ⟨rfl, _, _, ⟨rfl, rfl⟩, hcolumn, htarget⟩
        exact ⟨column, target, ⟨hcolumn, htarget⟩, rfl, rfl, rfl⟩

lemma givenAt_keys {column : String} {reference : Reference} :
    GivenAt (Field.ifRelation declared Field.keys) fields place (column, reference)
      ↔ ∃ field, PairsAt declared fields place field column reference.column ∧
          reference.table = field.type := by
  rw [givenAt_ifRelation]
  refine exists_congr fun field => ?_
  rw [getElem?_keys]
  exact ⟨fun ⟨hmem, hrelation, htype, hlisted⟩ => ⟨⟨hmem, hrelation, hlisted⟩, htype⟩,
    fun ⟨⟨hmem, hrelation, hlisted⟩, htype⟩ => ⟨hmem, hrelation, htype, hlisted⟩⟩

lemma foreignKeys_eq (declared : List String) (fields : List Field) : foreignKeys declared fields
    = fields.flatMap (Field.ifRelation declared Field.keys) :=
  flatMap_filter_isRelation Field.keys fields

/-- A column points where the first pair that names it says. -/
lemma lookup_foreignKeys {column : String} {reference : Reference} :
    (foreignKeys declared fields).lookup column = some reference
      ↔ ∃ place field, PairsAt declared fields place field column reference.column ∧
          reference.table = field.type ∧
          ∀ earlier, Earlier earlier place → ∀ other target,
            ¬ PairsAt declared fields earlier other column target := by
  rw [lookup_eq_some_iff_find?, foreignKeys_eq, find?_flatMap_iff]
  refine exists_congr fun place => ⟨fun h => ?_, ?_⟩
  · obtain ⟨field, hpairs, htype⟩ := givenAt_keys.mp h.given
    refine ⟨field, hpairs, htype, fun earlier hearlier other target hother => ?_⟩
    have hgiven : GivenAt (Field.ifRelation declared Field.keys) fields earlier
        (column, ⟨other.type, target⟩) := givenAt_keys.mpr ⟨other, hother, rfl⟩
    exact h.first earlier hearlier _ hgiven (by simp)
  · rintro ⟨field, hpairs, htype, hfirst⟩
    refine ⟨givenAt_keys.mpr ⟨field, hpairs, htype⟩, by simp,
      fun earlier hearlier key hkey hcolumn => ?_⟩
    obtain ⟨_, other⟩ := key
    obtain rfl := beq_iff_eq.mp hcolumn
    obtain ⟨field', hother, -⟩ := givenAt_keys.mp hkey
    exact hfirst earlier hearlier field' _ hother

/-- A column is a foreign key if and only if a pair names it. -/
lemma isSome_lookup_foreignKeys {column : String} :
    ((foreignKeys declared fields).lookup column).isSome
      ↔ ∃ place field target, PairsAt declared fields place field column target := by
  constructor
  · intro h
    obtain ⟨reference, hlookup⟩ := Option.isSome_iff_exists.mp h
    obtain ⟨place, field, hpairs, -⟩ := lookup_foreignKeys.mp hlookup
    exact ⟨place, field, _, hpairs⟩
  · rintro ⟨place, field, target, hpairs⟩
    have hmem : (column, ⟨field.type, target⟩) ∈ foreignKeys declared fields := by
      rw [foreignKeys_eq]
      exact mem_flatMap_of_givenAt (givenAt_keys.mpr ⟨field, hpairs, rfl⟩)
    rw [Option.isSome_iff_ne_none, Ne, List.lookup_eq_none_iff]
    exact fun hnone => by simpa using hnone _ hmem

/-! ### Columns -/

/-- What a column says, apart from whether it belongs to the primary key. -/
def described (column : Column) : (String × String × Bool) × Option Reference :=
  ((column.name, column.type, column.nullable), column.references)

lemma described_addField (keys : List (String × Reference)) (table : Table) (field : Field) :
    (addField declared keys table field).columns.map described = table.columns.map described ++
      if field.isRelation declared then []
      else [((field.name, field.type, field.optional), keys.lookup field.name)] := by
  rw [addField]
  split
  · simp
  · dsimp only
    split <;> simp [Table.addColumn, Table.addIndex, Field.column, described]

lemma described_applyTo (table : Table) (declared : BlockAttribute) :
    (declared.applyTo table).columns.map described = table.columns.map described := by
  cases declared with
  | id columns => exact Table.map_columns_markPrimaryKey described (fun _ => rfl) table columns
  | index index columns unique => rfl
  | withoutColumns => rfl

/-- The columns of a model are those of the fields that are no relations, in order. -/
lemma described_table (declared : List String) (model : Model) :
    (model.table declared).columns.map described
    = (model.fields.filter fun field => !field.isRelation declared).map fun field =>
        ((field.name, field.type, field.optional),
          (foreignKeys declared model.fields).lookup field.name) := by
  rw [Model.table, kept_foldl (fun t : Table => t.columns.map described) described_applyTo,
    listed_foldl (fun t : Table => t.columns.map described)
      (fun _ field => if field.isRelation declared then []
        else [((field.name, field.type, field.optional),
          (foreignKeys declared model.fields).lookup field.name)])
      (name_addField _) (described_addField _)]
  generalize foreignKeys declared model.fields = keys
  rw [Table.empty, List.map_nil, List.nil_append]
  induction model.fields with
  | nil => rfl
  | cons field rest ih =>
      rw [List.flatMap_cons, ih]
      by_cases hrelation : field.isRelation declared = true <;> simp [hrelation]

/-! ### Relations -/

lemma relation_of_not_isList {model : String} {field : Field} (h : field.isList = false)
    (column target : String) :
    field.relation model column target = ⟨model, column, field.type, target, .oneToOne⟩ := by
  simp [Field.relation, h]

lemma getElem?_relations {model : String} {field : Field} {r : Relation} {j : Nat} :
    (field.relations model)[j]? = some r ↔ r = field.relation model r.fromColumn r.toColumn ∧
      ((∃ columns targets, field.relationLists? = some (columns, targets) ∧
          columns[j]? = some r.fromColumn ∧ targets[j]? = some r.toColumn) ∨
        (field.relationLists? = none ∧ field.isList = false ∧ field.hasRelationAttribute = false) ∧
          j = 0 ∧ r.fromColumn = field.name ++ "Id" ∧ r.toColumn = "id") := by
  rw [Field.relations, Field.relationPairs?]
  cases hlists : field.relationLists? with
  | some lists =>
      obtain ⟨columns, targets⟩ := lists
      have hpair : ((columns.zip targets).map fun pair =>
          field.relation model pair.1 pair.2)[j]? = some r
          ↔ r = field.relation model r.fromColumn r.toColumn ∧
            columns[j]? = some r.fromColumn ∧ targets[j]? = some r.toColumn := by
        simp only [List.getElem?_map, Option.map_eq_some_iff, List.getElem?_zip_eq_some]
        constructor
        · rintro ⟨pair, hpair, rfl⟩
          exact ⟨rfl, hpair⟩
        · rintro ⟨hr, hpair⟩
          exact ⟨(r.fromColumn, r.toColumn), hpair, hr.symm⟩
      simpa [Field.relation] using hpair
  | none =>
      by_cases hbare : field.isList = false ∧ field.hasRelationAttribute = false
      · have hone : [field.relation model (field.name ++ "Id") "id"][j]? = some r
            ↔ r = field.relation model r.fromColumn r.toColumn ∧
              j = 0 ∧ r.fromColumn = field.name ++ "Id" ∧ r.toColumn = "id" := by
          rw [List.getElem?_singleton]
          constructor
          · intro h
            obtain ⟨rfl, rfl⟩ : j = 0 ∧ field.relation model (field.name ++ "Id") "id" = r := by
              simpa using h
            exact ⟨rfl, rfl, rfl, rfl⟩
          · rintro ⟨hr, rfl, hcolumn, htarget⟩
            rw [hcolumn, htarget] at hr
            simp [hr]
        simpa [hbare, relation_of_not_isList hbare.1] using hone
      · have hflags : field.isList = true ∨ field.hasRelationAttribute = true := by
          simpa [imp_iff_or_not, or_comm] using hbare
        have hneither : ¬ (field.isList = false ∧ field.hasRelationAttribute = false) := hbare
        simp [hflags, hneither]

lemma givenAt_relations {model : String} {r : Relation} :
    GivenAt (Field.ifRelation declared (Field.relations model)) fields place r
      ↔ ∃ field, RelatesAt declared fields place field r.fromColumn r.toColumn ∧
          r = field.relation model r.fromColumn r.toColumn := by
  rw [givenAt_ifRelation]
  refine exists_congr fun field => ?_
  rw [getElem?_relations]
  constructor
  · rintro ⟨hmem, hrelation, hr, hlisted | ⟨hbare, honly, hcolumn, htarget⟩⟩
    · exact ⟨Or.inl ⟨hmem, hrelation, hlisted⟩, hr⟩
    · exact ⟨Or.inr ⟨hmem, hrelation, hbare, honly, hcolumn, htarget⟩, hr⟩
  · rintro ⟨h | h, hr⟩
    · exact ⟨h.mem, h.isRelation, hr, Or.inl h.listed⟩
    · exact ⟨h.mem, h.isRelation, hr, Or.inr ⟨h.bare, h.only, h.column_eq, h.target_eq⟩⟩

lemma Model.relations_eq (model : Model) : model.relations declared
    = model.fields.flatMap (Field.ifRelation declared (Field.relations model.name)) :=
  flatMap_filter_isRelation _ model.fields

/-- The relations of a model are those of the places that are the first along their edge. -/
lemma mem_firstBy_relations {model : Model} {r : Relation} :
    r ∈ firstBy Relation.edge (model.relations declared)
      ↔ ∃ place field, RelatesAt declared model.fields place field r.fromColumn r.toColumn ∧
          r = field.relation model.name r.fromColumn r.toColumn ∧
          ∀ earlier, Earlier earlier place → ∀ other target,
            RelatesAt declared model.fields earlier other r.fromColumn target →
              other.type ≠ field.type := by
  rw [mem_firstBy_iff, model.relations_eq, find?_flatMap_iff]
  refine exists_congr fun place => ⟨fun h => ?_, ?_⟩
  · obtain ⟨field, hrelates, hr⟩ := givenAt_relations.mp h.given
    refine ⟨field, hrelates, hr, fun earlier hearlier other target hother htype => ?_⟩
    have hgiven : GivenAt (Field.ifRelation declared (Field.relations model.name)) model.fields
        earlier (other.relation model.name r.fromColumn target) :=
      givenAt_relations.mpr ⟨other, hother, rfl⟩
    have hedge : (other.relation model.name r.fromColumn target).edge = r.edge := by
      rw [hr]
      simp [Field.relation, Relation.edge, htype]
    exact h.first earlier hearlier _ hgiven (by simpa using hedge)
  · rintro ⟨field, hrelates, hr, hfirst⟩
    refine ⟨givenAt_relations.mpr ⟨field, hrelates, hr⟩, by simp,
      fun earlier hearlier s hs hedge => ?_⟩
    obtain ⟨other, hother, hs⟩ := givenAt_relations.mp hs
    obtain ⟨-, hcolumn, htype⟩ : s.fromTable = r.fromTable ∧ s.fromColumn = r.fromColumn ∧
        s.toTable = r.toTable := by simpa [Relation.edge] using hedge
    refine hfirst earlier hearlier other s.toColumn (hcolumn ▸ hother) ?_
    have hstype : s.toTable = other.type := by rw [hs, Field.relation]
    have hrtype : r.toTable = field.type := by rw [hr, Field.relation]
    rw [← hstype, htype, hrtype]

/-- Where the names of models differ, the relations that leave the table of a model are those of the
model. -/
lemma mem_relations_draft_of_from {contents : Contents} {model : Model} {r : Relation}
    (h : (contents.models.reduceOption.map Model.name).Nodup)
    (hmodel : model ∈ contents.models.reduceOption) (hr : r.fromTable = model.name) :
    r ∈ contents.draft.relations ↔
      r ∈ firstBy Relation.edge (model.relations contents.declared) := by
  rw [mem_relations_draft_of_nodup h]
  refine ⟨?_, fun hmem => ⟨model, hmodel, hmem⟩⟩
  rintro ⟨other, hother, hmem⟩
  have hfrom : r.fromTable = other.name :=
    fromTable_of_mem_relations (List.mem_of_find?_eq_some (mem_firstBy_iff.mp hmem))
  obtain rfl : other = model := List.inj_on_of_nodup_map h hother hmodel (hfrom.symm.trans hr)
  exact hmem

/-! ### The law of a model -/

/-- What a table and the relations have to do with the fields of the model of the table. -/
structure ModelLaw (declared : List String) (name : String) (fields : List Field) (table : Table)
    (relations : List Relation) : Prop where
  /-- The columns are the fields that are no relations, one each, in order. -/
  columns : table.columns.map (fun column => (column.name, column.type, column.nullable))
    = (fields.filter fun field => !field.isRelation declared).map fun field =>
        (field.name, field.type, field.optional)
  /-- A column points somewhere if a pair names it. -/
  points : ∀ column ∈ table.columns, column.references.isSome
    ↔ ∃ place field target, PairsAt declared fields place field column.name target
  /-- A column points where the first pair that names it says. -/
  references : ∀ column ∈ table.columns, ∀ reference, column.references = some reference
    ↔ ∃ place field, PairsAt declared fields place field column.name reference.column ∧
        reference.table = field.type ∧
        ∀ earlier, Earlier earlier place → ∀ other target,
          ¬ PairsAt declared fields earlier other column.name target
  /-- Along the edge of every pair there is a relation. -/
  edges : ∀ place field column target, PairsAt declared fields place field column target →
    ∃ r ∈ relations, r.edge = (name, column, field.type)
  /-- The relation along the edge of a place is the one of the place, if no earlier place has it. -/
  first : ∀ place field column target, RelatesAt declared fields place field column target →
    (∀ earlier, Earlier earlier place → ∀ other target,
      RelatesAt declared fields earlier other column target → other.type ≠ field.type) →
    ∀ r, r ∈ relations ∧ r.edge = (name, column, field.type)
      ↔ r = ⟨name, column, field.type, target, if field.isList then .oneToMany else .oneToOne⟩
  /-- Every relation that leaves the table comes from a place. -/
  only : ∀ r ∈ relations, r.fromTable = name → ∃ place field,
    RelatesAt declared fields place field r.fromColumn r.toColumn ∧ r.toTable = field.type

lemma modelLaw_of_mem {contents : Contents} {model : Model}
    (h : (contents.models.reduceOption.map Model.name).Nodup)
    (hmodel : model ∈ contents.models.reduceOption) :
    ModelLaw contents.declared model.name model.fields (model.table contents.declared)
      contents.draft.relations := by
  have htable := described_table contents.declared model
  have hreferences : ∀ column ∈ (model.table contents.declared).columns,
      column.references = (foreignKeys contents.declared model.fields).lookup column.name := by
    intro column hcolumn
    have hmem := htable ▸ List.mem_map_of_mem (f := described) hcolumn
    obtain ⟨field, -, hdescribed⟩ := List.mem_map.mp hmem
    simp only [described, Prod.mk.injEq] at hdescribed
    rw [← hdescribed.2, hdescribed.1.1]
  refine ⟨?_, ?_, ?_, ?_, ?_, ?_⟩
  · have hfirst := congrArg (List.map Prod.fst) htable
    simpa [List.map_map, Function.comp_def, described] using hfirst
  · intro column hcolumn
    rw [hreferences column hcolumn, isSome_lookup_foreignKeys]
  · intro column hcolumn reference
    rw [hreferences column hcolumn, lookup_foreignKeys]
  · intro place field column target hpairs
    have hmem : (field.relation model.name column target).edge
        ∈ (firstBy Relation.edge (model.relations contents.declared)).map Relation.edge := by
      rw [mem_keys_firstBy, model.relations_eq]
      exact List.mem_map_of_mem
        (mem_flatMap_of_givenAt (givenAt_relations.mpr ⟨field, Or.inl hpairs, rfl⟩))
    obtain ⟨r, hr, hedge⟩ := List.mem_map.mp hmem
    exact ⟨r, (mem_relations_draft_of_from h hmodel (congrArg Prod.fst hedge)).mpr hr, hedge⟩
  · intro place field column target hrelates hfirst r
    have hmem : field.relation model.name column target ∈ contents.draft.relations := by
      rw [mem_relations_draft_of_from h hmodel rfl, mem_firstBy_relations]
      exact ⟨place, field, hrelates, rfl, hfirst⟩
    constructor
    · rintro ⟨hr, hedge⟩
      exact List.inj_on_of_nodup_map (draft_distinct contents).relations hr hmem hedge
    · rintro rfl
      exact ⟨hmem, rfl⟩
  · intro r hr hfrom
    rw [mem_relations_draft_of_from h hmodel hfrom, mem_firstBy_relations] at hr
    obtain ⟨place, field, hrelates, hr, -⟩ := hr
    exact ⟨place, field, hrelates, by rw [hr, Field.relation]⟩

/-- Where the models have different names, the table of a closed model is the one under its name. -/
lemma table?_of_hasModel {text body : List Char}
    (hnames : ((Contents.ofText text).models.reduceOption.map Model.name).Nodup)
    (hmodel : HasModel text name body) (rawPath : String) :
    (Schema.ofText .prisma text rawPath).table? name
      = some ((Model.ofBody name body).table (Contents.ofText text).declared) := by
  have htable : (Model.ofBody name body).table (Contents.ofText text).declared
      ∈ (Schema.ofText .prisma text rawPath).tables := by
    have htables : (Schema.ofText .prisma text rawPath).tables = (Contents.ofText text).tables :=
      tables_draft_of_nodup hnames
    rw [htables]
    exact List.mem_map_of_mem hmodel.mem_models
  rw [mem_tables_ofText, name_table] at htable
  exact htable

/-- The lines of a model in which two relations name the same columns, with lists that are not
equally long, a third one names none, and one type is declared elsewhere. -/
def sampleBody : List Char :=
  "\n no Int @id\n day Int?\n class Class\n".toList ++
    (" flight Flight @relation(fields: [day, no], references: [day])\n".toList ++
      (" seats Seat[] @relation(fields: [no, day], references: [no, day, class])\n".toList ++
        " owner Person\n".toList))

/-- A file with the model, and with the declaration of the type behind it. -/
def sampleFile : List Char :=
  "model Seat \x7b".toList ++ sampleBody ++ "\x7d\nenum Class \x7b\n first\n\x7d\n".toList

example : ((Schema.ofText .prisma sampleFile "schema.prisma").tables.map fun table =>
      table.columns.map fun column => (column.name, column.type, column.references))
    = [[("no", "Int", some ⟨"Seat", "no"⟩), ("day", "Int", some ⟨"Flight", "day"⟩),
        ("class", "Class", none)]] := by
  decide +kernel

end SchemaReader.ModelFile
