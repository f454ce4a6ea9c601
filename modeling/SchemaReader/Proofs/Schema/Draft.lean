/-
What the steps that build a draft do to its tables and relations.

* `mem_putTable`, `exists_mem_putTable`: a table that is put in replaces at most the one of its
  name, and no name is lost;
* `forall₂_putTable`, `forall₂_foldl_putTable`: tables that agree are put in the same places;
* `mem_updateFirstTable`: a change reaches one table at most;
* `mem_addRelation`, `relations_subset_addRelation`, `exists_edge_addRelation`: a relation comes in
  at most once, none goes, and its edge is there afterwards;
* the same three for a list of relations added one after the other;
* `Draft.amendTable`: a change of a table that brings relations.
-/
import Mathlib.Data.List.Forall2
import Mathlib.Tactic.Lemma
import SchemaReader.Schema.Draft

namespace SchemaReader

/-! ### Tables -/

lemma mem_putTable {table t : Table} {tables : List Table} (h : t ∈ putTable table tables) :
    t = table ∨ t ∈ tables := by
  induction tables with
  | nil => simpa [putTable] using h
  | cons u rest ih =>
      rw [putTable] at h
      split at h
      · rcases List.mem_cons.mp h with rfl | h
        · exact Or.inl rfl
        · exact Or.inr (List.mem_cons_of_mem _ h)
      · rcases List.mem_cons.mp h with rfl | h
        · exact Or.inr List.mem_cons_self
        · exact (ih h).imp_right (List.mem_cons_of_mem _)

lemma self_mem_putTable (table : Table) (tables : List Table) : table ∈ putTable table tables := by
  induction tables with
  | nil => simp [putTable]
  | cons u rest ih =>
      rw [putTable]
      split
      · exact List.mem_cons_self
      · exact List.mem_cons_of_mem _ ih

/-- The name of a table survives when another table is put in: the table is still there, or the
new one has taken its place under the same name. -/
lemma exists_mem_putTable (table : Table) {t : Table} {tables : List Table} (h : t ∈ tables) :
    ∃ u ∈ putTable table tables, u.name = t.name := by
  induction tables with
  | nil => simp at h
  | cons u rest ih =>
      rw [putTable]
      split
      · next hname =>
          rcases List.mem_cons.mp h with rfl | h
          · exact ⟨table, List.mem_cons_self, (by simpa using hname : t.name = table.name).symm⟩
          · exact ⟨t, List.mem_cons_of_mem _ h, rfl⟩
      · rcases List.mem_cons.mp h with rfl | h
        · exact ⟨t, List.mem_cons_self, rfl⟩
        · obtain ⟨v, hv, hname⟩ := ih h
          exact ⟨v, List.mem_cons_of_mem _ hv, hname⟩

section Agreement

variable {R : Table → Table → Prop} {table table' : Table} {tables tables' : List Table}

/-- Tables that agree, under the same names, are put in the same places. -/
lemma forall₂_putTable (hname : ∀ {t t' : Table}, R t t' → t.name = t'.name)
    (htable : R table table')
    (htables : List.Forall₂ R tables tables') :
    List.Forall₂ R (putTable table tables) (putTable table' tables') := by
  induction htables with
  | nil => exact .cons htable .nil
  | cons ht hrest ih =>
      rw [putTable, putTable, hname ht, hname htable]
      split
      · exact .cons htable hrest
      · exact .cons ht ih

lemma forall₂_foldl_putTable (hname : ∀ {t t' : Table}, R t t' → t.name = t'.name)
    {added added' : List Table} (hadded : List.Forall₂ R added added')
    (htables : List.Forall₂ R tables tables') :
    List.Forall₂ R (added.foldl (fun ts t => putTable t ts) tables)
      (added'.foldl (fun ts t => putTable t ts) tables') := by
  induction hadded generalizing tables tables' with
  | nil => exact htables
  | cons htable _ ih => exact ih (forall₂_putTable hname htable htables)

/-- A change that keeps their agreement is made to the same ones. -/
lemma forall₂_updateFirstTable (hname : ∀ {t t' : Table}, R t t' → t.name = t'.name) (name : String)
    {change : Table → Table} (hchange : ∀ {t t' : Table}, R t t' → R (change t) (change t'))
    (htables : List.Forall₂ R tables tables') :
    List.Forall₂ R (updateFirstTable name change tables)
    (updateFirstTable name change tables') := by
  induction htables with
  | nil => exact .nil
  | cons ht hrest ih =>
      rw [updateFirstTable, updateFirstTable, hname ht]
      split
      · exact .cons (hchange ht) hrest
      · exact .cons ht ih

end Agreement

lemma mem_updateFirstTable {name : String} {change : Table → Table} {t : Table}
    {tables : List Table} (h : t ∈ updateFirstTable name change tables) :
    t ∈ tables ∨ ∃ u ∈ tables, u.name = name ∧ t = change u := by
  induction tables with
  | nil => simp [updateFirstTable] at h
  | cons u rest ih =>
      rw [updateFirstTable] at h
      split at h
      · next hname =>
          rcases List.mem_cons.mp h with rfl | h
          · exact Or.inr ⟨u, List.mem_cons_self, by simpa using hname, rfl⟩
          · exact Or.inl (List.mem_cons_of_mem _ h)
      · rcases List.mem_cons.mp h with rfl | h
        · exact Or.inl List.mem_cons_self
        · rcases ih h with h | ⟨v, hv, hname, rfl⟩
          · exact Or.inl (List.mem_cons_of_mem _ h)
          · exact Or.inr ⟨v, List.mem_cons_of_mem _ hv, hname, rfl⟩

/-- A change that keeps names keeps the names of all tables. -/
lemma exists_mem_updateFirstTable (name : String) {change : Table → Table}
    (hchange : ∀ t, (change t).name = t.name) {t : Table} {tables : List Table} (h : t ∈ tables) :
    ∃ u ∈ updateFirstTable name change tables, u.name = t.name := by
  induction tables with
  | nil => simp at h
  | cons u rest ih =>
      rw [updateFirstTable]
      split
      · rcases List.mem_cons.mp h with rfl | h
        · exact ⟨change t, List.mem_cons_self, hchange t⟩
        · exact ⟨t, List.mem_cons_of_mem _ h, rfl⟩
      · rcases List.mem_cons.mp h with rfl | h
        · exact ⟨t, List.mem_cons_self, rfl⟩
        · obtain ⟨v, hv, hname⟩ := ih h
          exact ⟨v, List.mem_cons_of_mem _ hv, hname⟩

/-! ### Notices -/

@[simp] lemma tables_note (d : Draft) (n : Notice) : (d.note n).tables = d.tables := rfl

@[simp] lemma relations_note (d : Draft) (n : Notice) : (d.note n).relations = d.relations := rfl

@[simp] lemma tables_noteAll (d : Draft) (ns : List Notice) :
    (d.noteAll ns).tables = d.tables := by
  induction ns generalizing d with
  | nil => rfl
  | cons n ns ih => exact ih (d.note n)

@[simp] lemma relations_noteAll (d : Draft) (ns : List Notice) :
    (d.noteAll ns).relations = d.relations := by
  induction ns generalizing d with
  | nil => rfl
  | cons n ns ih => exact ih (d.note n)

@[simp] lemma tables_addTable (d : Draft) (t : Table) :
    (d.addTable t).tables = putTable t d.tables := rfl

@[simp] lemma relations_addTable (d : Draft) (t : Table) :
    (d.addTable t).relations = d.relations := rfl

@[simp] lemma tables_updateTable (d : Draft) (name : String) (change : Table → Table) :
    (d.updateTable name change).tables = updateFirstTable name change d.tables := rfl

@[simp] lemma relations_updateTable (d : Draft) (name : String) (change : Table → Table) :
    (d.updateTable name change).relations = d.relations := rfl

/-! ### Relations -/

@[simp] lemma tables_addRelation (d : Draft) (r : Relation) :
    (d.addRelation r).1.tables = d.tables := by
  rw [Draft.addRelation]
  split <;> rfl

lemma relations_subset_addRelation (d : Draft) (r : Relation) :
    d.relations ⊆ (d.addRelation r).1.relations := by
  rw [Draft.addRelation]
  split
  · exact List.Subset.refl _
  · exact List.subset_append_left _ _

lemma mem_addRelation {d : Draft} {r s : Relation} (h : s ∈ (d.addRelation r).1.relations) :
    s ∈ d.relations ∨ s = r := by
  rw [Draft.addRelation] at h
  split at h
  · exact Or.inl h
  · simpa using h

/-- Whether it was added or not, a relation along the edge is there afterwards. -/
lemma exists_edge_addRelation (d : Draft) (r : Relation) :
    ∃ s ∈ (d.addRelation r).1.relations, s.sameEdge r := by
  rw [Draft.addRelation]
  split
  · next h => simpa [Draft.hasEdge] using h
  · exact ⟨r, by simp, by simp [Relation.sameEdge]⟩

@[simp] lemma tables_addRelations (d : Draft) (rs : List Relation) :
    (d.addRelations rs).tables = d.tables := by
  induction rs generalizing d with
  | nil => rfl
  | cons r rs ih => exact (ih _).trans (tables_addRelation d r)

lemma relations_subset_addRelations (d : Draft) (rs : List Relation) :
    d.relations ⊆ (d.addRelations rs).relations := by
  induction rs generalizing d with
  | nil => exact List.Subset.refl _
  | cons r rs ih => exact List.Subset.trans (relations_subset_addRelation d r) (ih _)

lemma mem_addRelations {d : Draft} {rs : List Relation} {s : Relation}
    (h : s ∈ (d.addRelations rs).relations) : s ∈ d.relations ∨ s ∈ rs := by
  induction rs generalizing d with
  | nil => exact Or.inl h
  | cons r rs ih =>
      rcases ih h with h | h
      · exact (mem_addRelation h).imp_right fun hs => by simp [hs]
      · exact Or.inr (List.mem_cons_of_mem _ h)

lemma exists_edge_addRelations (d : Draft) {rs : List Relation} {r : Relation} (h : r ∈ rs) :
    ∃ s ∈ (d.addRelations rs).relations, s.sameEdge r := by
  induction rs generalizing d with
  | nil => simp at h
  | cons q rs ih =>
      rcases List.mem_cons.mp h with rfl | h
      · obtain ⟨s, hs, hedge⟩ := exists_edge_addRelation d r
        exact ⟨s, relations_subset_addRelations _ rs hs, hedge⟩
      · exact ih _ h

/-! ### Changes with relations -/

/-- A draft in which a table is changed and gets relations, or one with a notice, if this table is
missing. -/
def Draft.amendTable (d : Draft) (target : String) (change : Table → Table) (rs : List Relation)
    (notice : Notice) : Draft :=
  if (d.table? target).isSome then (d.updateTable target change).addRelations rs
  else d.note notice

end SchemaReader
