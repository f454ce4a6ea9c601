/-
Foreign keys on columns, and the relations they run along.

* `HasEdge`: a relation leaves a column of a table for another table;
* `Table.BackedBy`: every column that points somewhere does so along such a relation.  The empty
  table is backed, every step that builds a table keeps it so, and so do further relations;
* `Draft.Backed`: the same for all tables of a draft;
* `Draft.Rooted`: every relation of a draft leaves a table of the draft.
-/
import SchemaReader.Proofs.Schema.Draft

namespace SchemaReader

/-! ### Tables backed by relations -/

/-- Some relation leaves a column of a table for a target. -/
def HasEdge (relations : List Relation) (table column target : String) : Prop :=
  ∃ r ∈ relations, r.fromTable = table ∧ r.fromColumn = column ∧ r.toTable = target

/-- Every foreign key on a column of a table runs along a relation. -/
def Table.BackedBy (table : Table) (relations : List Relation) : Prop :=
  ∀ c ∈ table.columns, ∀ ref, c.references = some ref →
    HasEdge relations table.name c.name ref.table

lemma HasEdge.mono {rs ss : List Relation} {table column target : String} (hrs : rs ⊆ ss)
    (h : HasEdge rs table column target) : HasEdge ss table column target := by
  obtain ⟨r, hr, hedge⟩ := h
  exact ⟨r, hrs hr, hedge⟩

lemma hasEdge_of_sameEdge {rs : List Relation} {r : Relation} (h : ∃ s ∈ rs, s.sameEdge r) :
    HasEdge rs r.fromTable r.fromColumn r.toTable := by
  obtain ⟨s, hs, hedge⟩ := h
  simp only [Relation.sameEdge, Bool.and_eq_true, beq_iff_eq] at hedge
  exact ⟨s, hs, hedge.1.1, hedge.1.2, hedge.2⟩

lemma hasEdge_addRelations (d : Draft) {rs : List Relation} {r : Relation} (h : r ∈ rs) :
    HasEdge (d.addRelations rs).relations r.fromTable r.fromColumn r.toTable :=
  hasEdge_of_sameEdge (exists_edge_addRelations d h)

namespace Table

variable {table : Table} {rs ss : List Relation}

lemma backedBy_empty (name : String) (rs : List Relation) : (Table.empty name).BackedBy rs := by
  simp [BackedBy, Table.empty]

lemma BackedBy.mono (hrs : rs ⊆ ss) (h : table.BackedBy rs) : table.BackedBy ss :=
  fun c hc ref href => (h c hc ref href).mono hrs

lemma BackedBy.addIndex (h : table.BackedBy rs) (index : Index) :
    (table.addIndex index).BackedBy rs := h

lemma BackedBy.addColumn (h : table.BackedBy rs) (column : Column)
    (hcolumn : ∀ ref, column.references = some ref →
      HasEdge rs table.name column.name ref.table) :
    (table.addColumn column).BackedBy rs := by
  intro c hc ref href
  rcases List.mem_append.mp hc with hc | hc
  · exact h c hc ref href
  · obtain rfl := List.mem_singleton.mp hc
    exact hcolumn ref href

lemma mem_updateFirstColumn {name : String} {change : Column → Column} {c : Column}
    {columns : List Column} (h : c ∈ updateFirstColumn name change columns) :
    c ∈ columns ∨ ∃ d ∈ columns, d.name = name ∧ c = change d := by
  induction columns with
  | nil => simp [updateFirstColumn] at h
  | cons d rest ih =>
      rw [updateFirstColumn] at h
      split at h
      · next hname =>
          rcases List.mem_cons.mp h with rfl | h
          · exact Or.inr ⟨d, List.mem_cons_self, by simpa using hname, rfl⟩
          · exact Or.inl (List.mem_cons_of_mem _ h)
      · rcases List.mem_cons.mp h with rfl | h
        · exact Or.inl List.mem_cons_self
        · rcases ih h with h | ⟨e, he, hname, rfl⟩
          · exact Or.inl (List.mem_cons_of_mem _ h)
          · exact Or.inr ⟨e, List.mem_cons_of_mem _ he, hname, rfl⟩

/-- A change of a column keeps a table backed if the changed column is. -/
lemma BackedBy.updateColumn {name : String} {change : Column → Column} (h : table.BackedBy rs)
    (hname : ∀ c, (change c).name = c.name)
    (hchange : ∀ c ∈ table.columns, c.name = name → ∀ ref, (change c).references = some ref →
      HasEdge rs table.name c.name ref.table) :
    (table.updateColumn name change).BackedBy rs := by
  intro c hc ref href
  rcases mem_updateFirstColumn hc with hc | ⟨d, hd, hdname, rfl⟩
  · exact h c hc ref href
  · rw [hname]
    exact hchange d hd hdname ref href

@[simp] lemma name_markPrimaryKey (names : List String) :
    (table.markPrimaryKey names).name = table.name := by
  rw [markPrimaryKey]
  exact List.foldlRecOn (motive := fun t : Table => t.name = table.name) names _ rfl
    fun t ht name _ => ht

lemma BackedBy.markPrimaryKey (h : table.BackedBy rs) (names : List String) :
    (table.markPrimaryKey names).BackedBy rs := by
  rw [Table.markPrimaryKey]
  refine List.foldlRecOn (motive := fun t : Table => t.BackedBy rs) names _ h fun t ht name _ => ?_
  exact ht.updateColumn (fun _ => rfl) fun c hc _ ref href => ht c hc ref href

lemma BackedBy.setReference {name : String} {reference : Reference} (h : table.BackedBy rs)
    (hedge : HasEdge rs table.name name reference.table) :
    (table.setReference name (some reference)).BackedBy rs := by
  refine h.updateColumn (fun _ => rfl) fun c _ hname ref href => ?_
  obtain rfl : reference = ref := by simpa using href
  exact hname ▸ hedge

end Table

/-! ### Drafts -/

namespace Draft

/-- Every foreign key on a column of a draft runs along a relation of the draft. -/
def Backed (d : Draft) : Prop := ∀ t ∈ d.tables, t.BackedBy d.relations

/-- Every relation of a draft leaves a table of the draft. -/
def Rooted (d : Draft) : Prop := ∀ r ∈ d.relations, ∃ t ∈ d.tables, t.name = r.fromTable

variable {d : Draft}

lemma backed_empty : Draft.empty.Backed := by simp [Backed, Draft.empty]

lemma rooted_empty : Draft.empty.Rooted := by simp [Rooted, Draft.empty]

lemma Backed.addRelations (h : d.Backed) (rs : List Relation) : (d.addRelations rs).Backed := by
  intro t ht
  rw [tables_addRelations] at ht
  exact (h t ht).mono (relations_subset_addRelations d rs)

lemma Backed.addTable (h : d.Backed) {table : Table} (htable : table.BackedBy d.relations) :
    (d.addTable table).Backed := by
  intro t ht
  rcases mem_putTable ht with rfl | ht
  · exact htable
  · exact h t ht

/-- Relations that leave a table come in together with it. -/
lemma Rooted.of_putTable {e : Draft} (h : d.Rooted) (table : Table)
    (htables : e.tables = putTable table d.tables)
    (hrelations : ∀ r ∈ e.relations, r ∈ d.relations ∨ r.fromTable = table.name) : e.Rooted := by
  intro r hr
  rw [htables]
  rcases hrelations r hr with hr | hname
  · obtain ⟨t, ht, htname⟩ := h r hr
    obtain ⟨u, hu, huname⟩ := exists_mem_putTable table ht
    exact ⟨u, hu, huname.trans htname⟩
  · exact ⟨table, self_mem_putTable table _, hname.symm⟩

end Draft

end SchemaReader
