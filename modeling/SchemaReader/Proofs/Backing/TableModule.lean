/-
The foreign keys and the relations of table modules.

* `relations_entries`: the relation of every column that points somewhere is there after the
  entries of its table;
* `addTo_backed`: one more table keeps a draft backed;
* `draft_backed`: the draft of a table module is backed.  It need not be rooted: a relation block
  may name a variable that is no table.
-/
import SchemaReader.TableModule.Module
import SchemaReader.Proofs.Backing.Table

namespace SchemaReader

namespace TableModule

variable {contents : Contents} {rs : List Relation}

@[simp] lemma name_applyTo (table : Table) (entry : Entry) :
    (entry.applyTo contents table).name = table.name := by
  cases entry with
  | column entry =>
      simp only [Entry.applyTo]
      split <;> rfl
  | unterminated => rfl
  | unrecognized => rfl

lemma backedBy_applyTo {table : Table} (h : table.BackedBy rs) {entry : Entry}
    (hentry : ∀ r ∈ entry.relation? contents table.name,
      HasEdge rs r.fromTable r.fromColumn r.toTable) :
    (entry.applyTo contents table).BackedBy rs := by
  cases entry with
  | column entry =>
      have hgrown := h.addColumn ⟨entry.name, entry.type, entry.nullable, entry.primaryKey,
          entry.references.map fun r => ⟨contents.tableOf r.1, r.2⟩⟩ <| by
        intro ref href
        obtain ⟨pair, hpair, rfl⟩ := Option.map_eq_some_iff.mp href
        exact hentry ⟨table.name, entry.name, contents.tableOf pair.1, pair.2, .oneToMany⟩
          (by simp [Entry.relation?, hpair])
      simp only [Entry.applyTo]
      split
      · exact hgrown.addIndex _
      · exact hgrown
  | unterminated => exact h
  | unrecognized => exact h

lemma backedBy_callback {table : Table} (h : table.BackedBy rs) (callback : Callback) :
    (callback.applyTo table).BackedBy rs := by
  rw [Callback.applyTo]
  refine List.foldlRecOn (motive := fun t : Table => t.BackedBy rs) callback.keys _ ?_
    fun t ht names _ => ht.markPrimaryKey names
  exact List.foldlRecOn (motive := fun t : Table => t.BackedBy rs) callback.indexes _ h
    fun t ht call _ => ht.addIndex _

@[simp]
lemma name_table (contents : Contents) (call : TableCall) :
    (call.table contents).name = call.name := by
  rw [TableCall.table]
  refine List.foldlRecOn (motive := fun t : Table => t.name = call.name) call.callbacks _ ?_
    fun t ht callback _ => ?_
  · exact List.foldlRecOn (motive := fun t : Table => t.name = call.name) call.entries _ rfl
      fun t ht entry _ => (name_applyTo t entry).trans ht
  · rw [Callback.applyTo]
    refine List.foldlRecOn (motive := fun t : Table => t.name = call.name) callback.keys _ ?_
      fun t ht names _ => (Table.name_markPrimaryKey names).trans ht
    exact List.foldlRecOn (motive := fun t : Table => t.name = call.name) callback.indexes _ ht
      fun t ht index _ => ht

lemma table_backedBy {call : TableCall}
    (h : ∀ entry ∈ call.entries, ∀ r ∈ entry.relation? contents call.name,
      HasEdge rs r.fromTable r.fromColumn r.toTable) :
    (call.table contents).BackedBy rs := by
  rw [TableCall.table]
  refine List.foldlRecOn (motive := fun t : Table => t.BackedBy rs) call.callbacks _ ?_
    fun t ht callback _ => backedBy_callback ht callback
  refine (List.foldlRecOn (motive := fun t : Table => t.name = call.name ∧ t.BackedBy rs)
    call.entries _ ⟨rfl, Table.backedBy_empty _ _⟩ fun t ht entry hentry =>
      ⟨(name_applyTo t entry).trans ht.1, ?_⟩).2
  exact backedBy_applyTo ht.2 (ht.1.symm ▸ h entry hentry)

/-- The relations that entries bring are there after them, whatever was there before. -/
lemma relations_entries (contents : Contents) (table : String) (entries : List Entry) (d : Draft) :
    (entries.foldl (Entry.addTo contents table) d).tables = d.tables ∧
      d.relations ⊆ (entries.foldl (Entry.addTo contents table) d).relations ∧
      ∀ entry ∈ entries, ∀ r ∈ entry.relation? contents table,
        HasEdge (entries.foldl (Entry.addTo contents table) d).relations
          r.fromTable r.fromColumn r.toTable := by
  induction entries generalizing d with
  | nil => exact ⟨rfl, List.Subset.refl _, by simp⟩
  | cons entry rest ih =>
      have hstep : (entry.addTo contents table d).tables = d.tables ∧
          d.relations ⊆ (entry.addTo contents table d).relations ∧
          ∀ r ∈ entry.relation? contents table,
            HasEdge (entry.addTo contents table d).relations r.fromTable r.fromColumn
              r.toTable := by
        cases entry with
        | column entry =>
            exact ⟨tables_addRelations _ _, relations_subset_addRelations _ _,
              fun r hr => hasEdge_addRelations _ (by simpa using hr)⟩
        | unterminated => exact ⟨rfl, List.Subset.refl _, by simp [Entry.relation?]⟩
        | unrecognized => exact ⟨rfl, List.Subset.refl _, by simp [Entry.relation?]⟩
      obtain ⟨htables, hsubset, hedges⟩ := ih (entry.addTo contents table d)
      refine ⟨htables.trans hstep.1, List.Subset.trans hstep.2.1 hsubset, fun e he r hr => ?_⟩
      rcases List.mem_cons.mp he with rfl | he
      · exact (hstep.2.2 r hr).mono hsubset
      · exact hedges e he r hr

lemma addTo_backed {d : Draft} (h : d.Backed) (call : TableCall) :
    (call.addTo contents d).Backed := by
  obtain ⟨htables, hsubset, hedges⟩ := relations_entries contents call.name call.entries d
  intro t ht
  rcases mem_putTable ht with rfl | ht
  · exact table_backedBy hedges
  · exact (h t (htables ▸ ht)).mono hsubset

lemma draft_backed (contents : Contents) : contents.draft.Backed := by
  rw [Contents.draft]
  refine Draft.Backed.addRelations ?_ _
  refine List.foldlRecOn (motive := fun d : Draft => d.Backed) contents.tables _ ?_
    fun d h call _ => addTo_backed h call
  intro t ht
  simp [Draft.empty] at ht

end TableModule

end SchemaReader
