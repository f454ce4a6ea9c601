/-
The foreign keys and the relations of model files.

* `exists_relation_of_mem_foreignKeys`: a column is a foreign key only by an explicit relation of
  its model, which is among the relations of the model;
* `addModel_backed_rooted`: one more model keeps a draft backed and rooted, also where it replaces
  an earlier one;
* `draft_backed_rooted`: the draft of a model file is both.
-/
import SchemaReader.ModelFile.Model
import SchemaReader.Proofs.Backing.Table

namespace SchemaReader

namespace ModelFile

variable {declared : List String} {rs : List Relation}

lemma mem_of_lookup {keys : List (String × Reference)} {name : String} {ref : Reference}
    (h : keys.lookup name = some ref) : (name, ref) ∈ keys := by
  obtain ⟨before, after, hkeys, -⟩ := List.lookup_eq_some_iff.mp h
  simp [hkeys]

/-- What the explicit relations of a model make a foreign key is a relation of the model. -/
lemma exists_relation_of_mem_foreignKeys {model : Model} {name : String} {ref : Reference}
    (h : (name, ref) ∈ foreignKeys declared model.fields) :
    ∃ r ∈ model.relations declared,
      r.fromTable = model.name ∧ r.fromColumn = name ∧ r.toTable = ref.table := by
  obtain ⟨field, hfield, hpair⟩ := List.mem_flatMap.mp h
  obtain ⟨pair, hmem, heq⟩ := List.mem_map.mp hpair
  obtain ⟨rfl, rfl⟩ := Prod.mk.inj heq
  cases hpairs : field.relationPairs? with
  | none => simp [hpairs] at hmem
  | some pairs =>
      rw [hpairs, Option.getD_some] at hmem
      have hr : ⟨model.name, pair.1, field.type, pair.2,
          if field.isList then .oneToMany else .oneToOne⟩ ∈ field.relations model.name := by
        rw [Field.relations, hpairs]
        exact List.mem_map.mpr ⟨pair, hmem, rfl⟩
      exact ⟨_, List.mem_flatMap.mpr ⟨field, hfield, hr⟩, rfl, rfl, rfl⟩

lemma fromTable_of_mem_relations {model : Model} {r : Relation}
    (h : r ∈ model.relations declared) : r.fromTable = model.name := by
  obtain ⟨field, -, hr⟩ := List.mem_flatMap.mp h
  rw [Field.relations] at hr
  split at hr
  · obtain ⟨pair, -, rfl⟩ := List.mem_map.mp hr
    rfl
  · split at hr
    · simp at hr
    · obtain rfl := List.mem_singleton.mp hr
      rfl

@[simp] lemma name_addField (keys : List (String × Reference)) (table : Table) (field : Field) :
    (addField declared keys table field).name = table.name := by
  rw [addField]
  split
  · rfl
  · dsimp only
    split <;> rfl

lemma backedBy_addField {keys : List (String × Reference)} {table : Table} (field : Field)
    (hkeys : ∀ name ref, keys.lookup name = some ref → HasEdge rs table.name name ref.table)
    (h : table.BackedBy rs) : (addField declared keys table field).BackedBy rs := by
  have hgrown : (table.addColumn (field.column keys)).BackedBy rs :=
    h.addColumn _ fun ref href => hkeys field.name ref href
  rw [addField]
  split
  · exact h
  · dsimp only
    split
    · exact hgrown.addIndex _
    · exact hgrown

@[simp] lemma name_applyTo (table : Table) (a : BlockAttribute) :
    (a.applyTo table).name = table.name := by
  cases a with
  | id columns => exact Table.name_markPrimaryKey columns
  | index name columns unique => rfl
  | withoutColumns => rfl

@[simp]
lemma name_table (declared : List String) (model : Model) :
    (model.table declared).name = model.name := by
  rw [Model.table]
  refine List.foldlRecOn (motive := fun t : Table => t.name = model.name) model.attributes _ ?_
    fun t h a _ => (name_applyTo t a).trans h
  exact List.foldlRecOn (motive := fun t : Table => t.name = model.name) model.fields _ rfl
    fun t h field _ => (name_addField _ t field).trans h

lemma backedBy_applyTo {table : Table} (h : table.BackedBy rs) (a : BlockAttribute) :
    (a.applyTo table).BackedBy rs := by
  cases a with
  | id columns => exact h.markPrimaryKey columns
  | index name columns unique => exact h.addIndex _
  | withoutColumns => exact h

/-- The name of a model's table, and its foreign keys along relations that hold those of the
model. -/
lemma table_backedBy (declared : List String) (model : Model)
    (h : ∀ r ∈ model.relations declared, HasEdge rs r.fromTable r.fromColumn r.toTable) :
    (model.table declared).name = model.name ∧ (model.table declared).BackedBy rs := by
  have hkeys : ∀ name ref, (foreignKeys declared model.fields).lookup name = some ref →
      HasEdge rs model.name name ref.table := by
    intro name ref hlookup
    obtain ⟨r, hr, hfrom, hcolumn, hto⟩ :=
      exists_relation_of_mem_foreignKeys (mem_of_lookup hlookup)
    exact hfrom ▸ hcolumn ▸ hto ▸ h r hr
  rw [Model.table]
  refine List.foldlRecOn (motive := fun t : Table => t.name = model.name ∧ t.BackedBy rs)
    model.attributes _ ?_ fun t ht a _ => ⟨(name_applyTo t a).trans ht.1, backedBy_applyTo ht.2 a⟩
  refine List.foldlRecOn (motive := fun t : Table => t.name = model.name ∧ t.BackedBy rs)
    model.fields _ ⟨rfl, Table.backedBy_empty _ _⟩ fun t ht field _ =>
      ⟨(name_addField _ t field).trans ht.1, ?_⟩
  exact backedBy_addField field (ht.1 ▸ hkeys) ht.2

/-- One more model, or one that is never closed, keeps a draft backed and rooted. -/
lemma addModel_backed_rooted {d : Draft} (h : d.Backed ∧ d.Rooted) (model : Option Model) :
    (addModel declared d model).Backed ∧ (addModel declared d model).Rooted := by
  cases model with
  | none => exact h
  | some model =>
      have hbase : (d.noteAll model.fieldNotices).Backed := fun t ht => by
        simpa using h.1 t (by simpa using ht)
      have htable := table_backedBy declared model
        fun r hr => hasEdge_addRelations (d.noteAll model.fieldNotices) hr
      refine ⟨fun t ht => ?_, h.2.of_putTable (model.table declared) ?_ fun r hr => ?_⟩
      · simp only [addModel, Model.addTo, tables_addTable, tables_note, tables_noteAll] at ht
        simp only [addModel, Model.addTo, relations_addTable, relations_note, relations_noteAll]
        rcases mem_putTable ht with rfl | ht
        · exact htable.2
        · exact hbase.addRelations _ t ht
      · simp [addModel, Model.addTo]
      · simp only [addModel, Model.addTo, relations_addTable, relations_note,
          relations_noteAll] at hr
        rw [htable.1]
        rcases mem_addRelations hr with hr | hr
        · exact Or.inl (by simpa using hr)
        · exact Or.inr (fromTable_of_mem_relations hr)

lemma draft_backed_rooted (contents : Contents) :
    contents.draft.Backed ∧ contents.draft.Rooted :=
  List.foldlRecOn (motive := fun d : Draft => d.Backed ∧ d.Rooted) contents.models _
    ⟨Draft.backed_empty, Draft.rooted_empty⟩ fun _ h model _ => addModel_backed_rooted h model

end ModelFile

end SchemaReader
