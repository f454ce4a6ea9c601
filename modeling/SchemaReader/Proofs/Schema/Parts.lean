/-
Drafts that grow, drafts within others, and drafts that consist of two.

* `Draft.Grows`: what a draft has of tables and relations stays there, as with each step that builds
  a draft;
* `Draft.Within`: the tables of a draft are those of another one under their names, and its edges
  are edges there; each step that builds a draft keeps this up;
* `Draft.KeepsTo`: the tables of a draft have names of a list, and its relations leave such tables;
* `Draft.Joins`: a draft consists of two that keep to different names; steps that build one of the
  two keep this up.
-/
import SchemaReader.Proofs.Schema.Runs

namespace SchemaReader

variable {name : String} {change : Table → Table} {table : Table} {tables : List Table}

namespace Draft

variable {d d₁ d₂ e : Draft} {names names₁ names₂ : List String} {r : Relation} {rs : List Relation}

@[simp]
lemma table?_noteAll (d : Draft) (notices : List Notice) :
    (d.noteAll notices).table? name = d.table? name := by
  rw [table?, tables_noteAll, table?]

@[simp]
lemma table?_addRelations (d : Draft) (rs : List Relation) :
    (d.addRelations rs).table? name = d.table? name := by
  rw [table?, tables_addRelations, table?]

lemma mem_names_of_isSome (h : (d.table? name).isSome = true) : name ∈ d.tables.map Table.name := by
  rw [table?, List.find?_isSome] at h
  obtain ⟨t, ht, hname⟩ := h
  exact List.mem_map.mpr ⟨t, ht, by simpa using hname⟩

/-! ### Drafts that grow -/

/-- A draft has tables of the names of another one, and its relations. -/
structure Grows (d e : Draft) : Prop where
  names : d.tables.map Table.name ⊆ e.tables.map Table.name
  relations : d.relations ⊆ e.relations

lemma grows_refl (d : Draft) : d.Grows d := ⟨List.Subset.refl _, List.Subset.refl _⟩

lemma Grows.trans {d' : Draft} (h : d.Grows d') (h' : d'.Grows e) : d.Grows e :=
  ⟨List.Subset.trans h.names h'.names, List.Subset.trans h.relations h'.relations⟩

lemma grows_note (d : Draft) (notice : Notice) : d.Grows (d.note notice) :=
  ⟨List.Subset.refl _, List.Subset.refl _⟩

lemma grows_noteAll (d : Draft) (notices : List Notice) : d.Grows (d.noteAll notices) :=
  ⟨by simp, by simp⟩

lemma grows_addTable (d : Draft) (table : Table) : d.Grows (d.addTable table) := by
  refine ⟨?_, List.Subset.refl _⟩
  rw [tables_addTable, names_putTable]
  exact List.subset_append_left _ _

lemma grows_updateTable (d : Draft) (name : String) (hchange : ∀ t, (change t).name = t.name) :
    d.Grows (d.updateTable name change) := by
  refine ⟨?_, List.Subset.refl _⟩
  rw [tables_updateTable, names_updateFirstTable name hchange]
  exact List.Subset.refl _

lemma grows_addRelations (d : Draft) (rs : List Relation) : d.Grows (d.addRelations rs) :=
  ⟨by simp, relations_subset_addRelations d rs⟩

lemma grows_amendTable (d : Draft) (target : String) (hchange : ∀ t, (change t).name = t.name)
    (rs : List Relation) (notice : Notice) : d.Grows (d.amendTable target change rs notice) := by
  rw [amendTable]
  split
  · exact (d.grows_updateTable target hchange).trans (grows_addRelations _ _)
  · exact d.grows_note notice

/-- Steps that let drafts grow do so one after the other. -/
lemma grows_foldl {α : Type} {step : Draft → α → Draft}
    (hstep : ∀ (d : Draft) x, d.Grows (step d x)) (xs : List α) (d : Draft) :
    d.Grows (xs.foldl step d) :=
  List.foldlRecOn (motive := d.Grows) xs _ (grows_refl d) fun e h x _ => h.trans (hstep e x)

/-! ### Drafts within others -/

/-- The tables of a draft are those of another one under their names, and its edges are edges
there. -/
structure Within (d e : Draft) : Prop where
  tables : ∀ name t, d.table? name = some t → e.table? name = some t
  relations : ∀ r ∈ d.relations, ∃ s ∈ e.relations, s.sameEdge r = true

lemma within_empty (e : Draft) : empty.Within e :=
  ⟨fun _ _ h => by simp [table?, empty] at h, fun _ h => by simp [empty] at h⟩

namespace Within

lemma note_left (h : d.Within e) (notice : Notice) : (d.note notice).Within e :=
  ⟨h.tables, h.relations⟩

lemma note_right (h : d.Within e) (notice : Notice) : d.Within (e.note notice) :=
  ⟨h.tables, h.relations⟩

lemma noteAll (h : d.Within e) (notices : List Notice) :
    (d.noteAll notices).Within (e.noteAll notices) :=
  ⟨fun name t => by simpa using h.tables name t, by simpa using h.relations⟩

lemma isSome (h : d.Within e) (hname : (d.table? name).isSome = true) :
    (e.table? name).isSome = true := by
  obtain ⟨t, ht⟩ := Option.isSome_iff_exists.mp hname
  exact Option.isSome_iff_exists.mpr ⟨t, h.tables name t ht⟩

lemma addTable (h : d.Within e) (table : Table) : (d.addTable table).Within (e.addTable table) := by
  refine ⟨fun name t ht => ?_, h.relations⟩
  rw [table?_addTable] at ht ⊢
  split at ht
  · next hname => rw [if_pos hname, ht]
  · next hname => rw [if_neg hname, h.tables name t ht]

lemma updateTable (h : d.Within e) (name : String) (hchange : ∀ t, (change t).name = t.name) :
    (d.updateTable name change).Within (e.updateTable name change) := by
  refine ⟨fun other t ht => ?_, h.relations⟩
  rw [table?_updateTable _ _ _ hchange] at ht ⊢
  split at ht
  · next hname =>
      obtain ⟨u, hu, rfl⟩ := Option.map_eq_some_iff.mp ht
      rw [if_pos hname, h.tables other u hu, Option.map_some]
  · next hname => rw [if_neg hname, h.tables other t ht]

/-- A table that the smaller draft does not have may change in the larger one. -/
lemma updateTable_right (h : d.Within e) (hchange : ∀ t, (change t).name = t.name)
    (hname : (d.table? name).isSome = false) : d.Within (e.updateTable name change) := by
  refine ⟨fun other t ht => ?_, h.relations⟩
  have hne : name ≠ other := by
    rintro rfl
    simp [ht] at hname
  rw [table?_updateTable _ _ _ hchange, if_neg hne, h.tables other t ht]

lemma addRelations (h : d.Within e) (rs : List Relation) :
    (d.addRelations rs).Within (e.addRelations rs) := by
  refine ⟨fun name t => by simpa using h.tables name t, fun r hr => ?_⟩
  rcases mem_addRelations hr with hr | hr
  · obtain ⟨s, hs, hedge⟩ := h.relations r hr
    exact ⟨s, relations_subset_addRelations e rs hs, hedge⟩
  · exact exists_edge_addRelations e hr

lemma addRelations_right (h : d.Within e) (rs : List Relation) : d.Within (e.addRelations rs) := by
  refine ⟨fun name t => by simpa using h.tables name t, fun r hr => ?_⟩
  obtain ⟨s, hs, hedge⟩ := h.relations r hr
  exact ⟨s, relations_subset_addRelations e rs hs, hedge⟩

/-- The table that is changed may be missing in both drafts or in the smaller one. -/
lemma amendTable (h : d.Within e) (target : String) (hchange : ∀ t, (change t).name = t.name)
    (rs : List Relation) (notice : Notice) :
    (d.amendTable target change rs notice).Within (e.amendTable target change rs notice) := by
  rw [Draft.amendTable, Draft.amendTable]
  by_cases hd : (d.table? target).isSome = true
  · rw [if_pos hd, if_pos (h.isSome hd)]
    exact (h.updateTable target hchange).addRelations rs
  · rw [if_neg hd]
    split
    · exact ((h.updateTable_right hchange (by simpa using hd)).addRelations_right rs).note_left _
    · exact (h.note_left _).note_right _

end Within

/-! ### Drafts that consist of two -/

/-- The tables of a draft have names of a list, and its relations leave tables of such names. -/
structure KeepsTo (names : List String) (d : Draft) : Prop where
  tables : ∀ t ∈ d.tables, t.name ∈ names
  relations : ∀ r ∈ d.relations, r.fromTable ∈ names

lemma keepsTo_empty (names : List String) : empty.KeepsTo names :=
  ⟨by simp [empty], by simp [empty]⟩

namespace KeepsTo

lemma note (h : d.KeepsTo names) (notice : Notice) : (d.note notice).KeepsTo names :=
  ⟨h.tables, h.relations⟩

lemma noteAll (h : d.KeepsTo names) (notices : List Notice) : (d.noteAll notices).KeepsTo names :=
  ⟨by simpa using h.tables, by simpa using h.relations⟩

lemma addTable (h : d.KeepsTo names) (htable : table.name ∈ names) :
    (d.addTable table).KeepsTo names := by
  refine ⟨fun t ht => ?_, h.relations⟩
  rcases mem_putTable ht with rfl | ht
  · exact htable
  · exact h.tables t ht

lemma updateTable (h : d.KeepsTo names) (name : String) (hchange : ∀ t, (change t).name = t.name) :
    (d.updateTable name change).KeepsTo names := by
  refine ⟨fun t ht => ?_, h.relations⟩
  rcases mem_updateFirstTable ht with ht | ⟨u, hu, -, rfl⟩
  · exact h.tables t ht
  · rw [hchange]
    exact h.tables u hu

lemma addRelations (h : d.KeepsTo names) (hrs : ∀ r ∈ rs, r.fromTable ∈ names) :
    (d.addRelations rs).KeepsTo names := by
  refine ⟨by simpa using h.tables, fun r hr => ?_⟩
  rcases mem_addRelations hr with hr | hr
  · exact h.relations r hr
  · exact hrs r hr

lemma mem (h : d.KeepsTo names) (hname : (d.table? name).isSome = true) : name ∈ names := by
  obtain ⟨t, ht, rfl⟩ := List.mem_map.mp (mem_names_of_isSome hname)
  exact h.tables t ht

lemma ne_of_not_mem (h : d.KeepsTo names) (hname : name ∉ names) :
    ∀ t ∈ d.tables, t.name ≠ name := by
  rintro t ht rfl
  exact hname (h.tables t ht)

lemma table?_eq_none (h : d.KeepsTo names) (hname : name ∉ names) : d.table? name = none := by
  by_contra hnone
  exact hname (h.mem (Option.isSome_iff_ne_none.mpr hnone))

end KeepsTo

/-- A draft consists of two others, which keep to different names: of the tables of one and then of
the other, and of the relations of both in some order. -/
structure Joins (names₁ names₂ : List String) (d₁ d₂ e : Draft) : Prop where
  tables : e.tables = d₁.tables ++ d₂.tables
  relations : e.relations.Perm (d₁.relations ++ d₂.relations)
  left : d₁.KeepsTo names₁
  right : d₂.KeepsTo names₂

lemma joins_empty (h : d.KeepsTo names₁) : Joins names₁ names₂ d empty d :=
  ⟨by simp [empty], by simp [empty], h, keepsTo_empty _⟩

end Draft

/-! ### Tables of two lists -/

lemma putTable_append (h : ∀ t ∈ tables, t.name ≠ table.name) (rest : List Table) :
    putTable table (tables ++ rest) = tables ++ putTable table rest := by
  induction tables with
  | nil => rfl
  | cons t tables ih =>
      rw [List.forall_mem_cons] at h
      simp [putTable, h.1, ih h.2]

lemma updateFirstTable_append_right (h : ∀ t ∈ tables, t.name ≠ name) (rest : List Table) :
    updateFirstTable name change (tables ++ rest)
      = tables ++ updateFirstTable name change rest := by
  induction tables with
  | nil => rfl
  | cons t tables ih =>
      rw [List.forall_mem_cons] at h
      simp [updateFirstTable, h.1, ih h.2]

lemma updateFirstTable_eq_self (h : ∀ t ∈ tables, t.name ≠ name) :
    updateFirstTable name change tables = tables := by
  have happend : updateFirstTable name change (tables ++ [])
      = tables ++ updateFirstTable name change [] := updateFirstTable_append_right h []
  simpa [updateFirstTable] using happend

lemma updateFirstTable_append_left {rest : List Table} (h : ∀ t ∈ rest, t.name ≠ name) :
    updateFirstTable name change (tables ++ rest)
      = updateFirstTable name change tables ++ rest := by
  induction tables with
  | nil => exact updateFirstTable_eq_self h
  | cons t tables ih =>
      simp only [List.cons_append, updateFirstTable, ih]
      split <;> rfl

namespace Draft.Joins

variable {d₁ d₂ e : Draft} {names₁ names₂ : List String} {r : Relation} {rs : List Relation}
  {notices : List Notice}

lemma note (h : Joins names₁ names₂ d₁ d₂ e) (notice : Notice) :
    Joins names₁ names₂ d₁ d₂ (e.note notice) := ⟨h.tables, h.relations, h.left, h.right⟩

lemma note_left (h : Joins names₁ names₂ d₁ d₂ e) (notice : Notice) :
    Joins names₁ names₂ (d₁.note notice) d₂ e :=
  ⟨h.tables, h.relations, h.left.note notice, h.right⟩

lemma note_right (h : Joins names₁ names₂ d₁ d₂ e) (notice : Notice) :
    Joins names₁ names₂ d₁ (d₂.note notice) e :=
  ⟨h.tables, h.relations, h.left, h.right.note notice⟩

lemma noteAll_right (h : Joins names₁ names₂ d₁ d₂ e) (notices : List Notice) :
    Joins names₁ names₂ d₁ (d₂.noteAll notices) (e.noteAll notices) :=
  ⟨by simpa using h.tables, by simpa using h.relations, h.left, h.right.noteAll notices⟩

/-- A table of a name that the first part does not have is looked up in the second one. -/
lemma table?_right (h : Joins names₁ names₂ d₁ d₂ e) {name : String} (hname : name ∉ names₁) :
    e.table? name = d₂.table? name := by
  have hnone : d₁.tables.find? (fun t => t.name == name) = none := h.left.table?_eq_none hname
  rw [table?, h.tables, List.find?_append, hnone, Option.none_or, table?]

lemma table?_left (h : Joins names₁ names₂ d₁ d₂ e) {name : String} (hname : name ∉ names₂) :
    e.table? name = d₁.table? name := by
  have hnone : d₂.tables.find? (fun t => t.name == name) = none := h.right.table?_eq_none hname
  rw [table?, h.tables, List.find?_append, hnone, Option.or_none, table?]

lemma addTable_right (h : Joins names₁ names₂ d₁ d₂ e) (hnew : table.name ∉ names₁)
    (htable : table.name ∈ names₂) :
    Joins names₁ names₂ d₁ (d₂.addTable table) (e.addTable table) := by
  refine ⟨?_, h.relations, h.left, h.right.addTable htable⟩
  rw [tables_addTable, h.tables, putTable_append (h.left.ne_of_not_mem hnew), tables_addTable]

lemma updateTable_left (h : Joins names₁ names₂ d₁ d₂ e) (hname : name ∉ names₂)
    (hchange : ∀ t, (change t).name = t.name) :
    Joins names₁ names₂ (d₁.updateTable name change) d₂ (e.updateTable name change) := by
  refine ⟨?_, h.relations, h.left.updateTable name hchange, h.right⟩
  rw [tables_updateTable, h.tables, updateFirstTable_append_left (h.right.ne_of_not_mem hname),
    tables_updateTable]

lemma updateTable_right (h : Joins names₁ names₂ d₁ d₂ e) (hname : name ∉ names₁)
    (hchange : ∀ t, (change t).name = t.name) :
    Joins names₁ names₂ d₁ (d₂.updateTable name change) (e.updateTable name change) := by
  refine ⟨?_, h.relations, h.left, h.right.updateTable name hchange⟩
  rw [tables_updateTable, h.tables, updateFirstTable_append_right (h.left.ne_of_not_mem hname),
    tables_updateTable]

/-- Whether an edge is known does not depend on the relations that leave other tables. -/
lemma mem_edges (h : Joins names₁ names₂ d₁ d₂ e) : r.edge ∈ e.relations.map Relation.edge ↔
    r.edge ∈ d₁.relations.map Relation.edge ∨ r.edge ∈ d₂.relations.map Relation.edge := by
  rw [(h.relations.map Relation.edge).mem_iff, List.map_append, List.mem_append]

lemma addRelations_left (h : Joins names₁ names₂ d₁ d₂ e)
    (hrs : ∀ r ∈ rs, r.fromTable ∈ names₁ ∧ r.fromTable ∉ names₂) :
    Joins names₁ names₂ (d₁.addRelations rs) d₂ (e.addRelations rs) := by
  induction rs generalizing d₁ e with
  | nil => exact h
  | cons r rs ih =>
      rw [List.forall_mem_cons] at hrs
      have hfrom : ∀ s ∈ [r], s.fromTable ∈ names₁ := by simpa using hrs.1.1
      refine ih ⟨by simpa using h.tables, ?_, h.left.addRelations hfrom, h.right⟩ hrs.2
      · have hother : r.edge ∉ d₂.relations.map Relation.edge := by
          intro hmem
          obtain ⟨s, hs, hedge⟩ := List.mem_map.mp hmem
          refine hrs.1.2 ?_
          rw [← (Prod.mk.inj hedge).1]
          exact h.right.relations s hs
        rw [relations_addRelation, relations_addRelation]
        simp only [h.mem_edges, hother, or_false]
        split
        · simpa using h.relations
        · refine (h.relations.append_right [r]).trans ?_
          rw [List.append_assoc, List.append_assoc]
          exact List.perm_append_comm.append_left d₁.relations

lemma addRelations_right (h : Joins names₁ names₂ d₁ d₂ e)
    (hrs : ∀ r ∈ rs, r.fromTable ∉ names₁ ∧ r.fromTable ∈ names₂) :
    Joins names₁ names₂ d₁ (d₂.addRelations rs) (e.addRelations rs) := by
  induction rs generalizing d₂ e with
  | nil => exact h
  | cons r rs ih =>
      rw [List.forall_mem_cons] at hrs
      have hfrom : ∀ s ∈ [r], s.fromTable ∈ names₂ := by simpa using hrs.1.2
      refine ih ⟨by simpa using h.tables, ?_, h.left, h.right.addRelations hfrom⟩ hrs.2
      · have hother : r.edge ∉ d₁.relations.map Relation.edge := by
          intro hmem
          obtain ⟨s, hs, hedge⟩ := List.mem_map.mp hmem
          refine hrs.1.1 ?_
          rw [← (Prod.mk.inj hedge).1]
          exact h.left.relations s hs
        rw [relations_addRelation, relations_addRelation]
        simp only [h.mem_edges, hother, false_or]
        split
        · simpa using h.relations
        · simpa using h.relations.append_right [r]

/-- A change of a table of the first part that brings relations leaving this table. -/
lemma amendTable_left (h : Joins names₁ names₂ d₁ d₂ e) (hname : name ∉ names₂)
    (hchange : ∀ t, (change t).name = t.name) (hrs : ∀ r ∈ rs, r.fromTable = name)
    (notice : Notice) :
    Joins names₁ names₂ (d₁.amendTable name change rs notice) d₂
      (e.amendTable name change rs notice) := by
  rw [Draft.amendTable, Draft.amendTable, h.table?_left hname]
  split
  · next hknown =>
      refine (h.updateTable_left hname hchange).addRelations_left fun r hr => ?_
      rw [hrs r hr]
      exact ⟨h.left.mem hknown, hname⟩
  · exact (h.note_left _).note _

lemma amendTable_right (h : Joins names₁ names₂ d₁ d₂ e) (hname : name ∉ names₁)
    (hchange : ∀ t, (change t).name = t.name) (hrs : ∀ r ∈ rs, r.fromTable = name)
    (notice : Notice) :
    Joins names₁ names₂ d₁ (d₂.amendTable name change rs notice)
      (e.amendTable name change rs notice) := by
  rw [Draft.amendTable, Draft.amendTable, h.table?_right hname]
  split
  · next hknown =>
      refine (h.updateTable_right hname hchange).addRelations_right fun r hr => ?_
      rw [hrs r hr]
      exact ⟨hname, h.right.mem hknown⟩
  · exact (h.note_right _).note _

/-- Steps that build the first part, one after the other. -/
lemma foldl_left {α : Type} {xs : List α} (step : Draft → α → Draft)
    (h : Joins names₁ names₂ d₁ d₂ e) (hstep : ∀ x ∈ xs, ∀ d e, Joins names₁ names₂ d d₂ e →
      Joins names₁ names₂ (step d x) d₂ (step e x)) :
    Joins names₁ names₂ (xs.foldl step d₁) d₂ (xs.foldl step e) :=
  List.foldl_rel (r := fun d e => Joins names₁ names₂ d d₂ e) h hstep

/-- The same for the second part. -/
lemma foldl_right {α : Type} {xs : List α} (step : Draft → α → Draft)
    (h : Joins names₁ names₂ d₁ d₂ e) (hstep : ∀ x ∈ xs, ∀ d e, Joins names₁ names₂ d₁ d e →
      Joins names₁ names₂ d₁ (step d x) (step e x)) :
    Joins names₁ names₂ d₁ (xs.foldl step d₂) (xs.foldl step e) :=
  List.foldl_rel (r := fun d e => Joins names₁ names₂ d₁ d e) h hstep

end Draft.Joins

end SchemaReader
