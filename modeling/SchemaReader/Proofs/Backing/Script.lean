/-
The foreign keys and the relations of scripts.

* `backedBy_linkEdges`: columns that point along edges are backed by them;
* `addCreated_backed_rooted`, `createIndex_backed_rooted`, `addForeignKey_backed_rooted`: one more
  statement of any kind keeps a draft backed and rooted;
* `draft_backed_rooted`: the draft of a script is both.
-/
import SchemaReader.Ddl.Script
import SchemaReader.Proofs.Backing.Table

namespace SchemaReader

namespace Ddl

variable {rs : List Relation}

lemma fromTable_of_mem_edges {table : String} {key : ForeignKey} {r : Relation}
    (h : r ∈ key.edges table) : r.fromTable = table := by
  obtain ⟨pair, -, rfl⟩ := List.mem_map.mp h
  rfl

lemma fromTable_of_mem_createTable_edges {statement : CreateTable} {r : Relation}
    (h : r ∈ statement.edges) : r.fromTable = statement.name := by
  obtain ⟨key, -, hr⟩ := List.mem_flatMap.mp h
  exact fromTable_of_mem_edges hr

lemma backedBy_applyTo {table : Table} (h : table.BackedBy rs) (entry : TableEntry) :
    (entry.applyTo table).BackedBy rs := by
  cases entry with
  | column entry =>
      have hgrown := h.addColumn ⟨entry.name, entry.type, entry.nullable, entry.primaryKey, none⟩
        (by simp)
      simp only [TableEntry.applyTo]
      split
      · exact hgrown.addIndex _
      · exact hgrown
  | primaryKey columns => exact h.markPrimaryKey columns
  | unique name columns =>
      simp only [TableEntry.applyTo]
      split
      · exact h
      · exact h.addIndex _
  | index name columns => exact h.addIndex _
  | foreignKey key => exact h
  | otherConstraint => exact h
  | unrecognized => exact h

@[simp] lemma name_applyTo (table : Table) (entry : TableEntry) :
    (entry.applyTo table).name = table.name := by
  cases entry with
  | column entry =>
      simp only [TableEntry.applyTo]
      split <;> rfl
  | primaryKey columns => exact Table.name_markPrimaryKey columns
  | unique name columns =>
      simp only [TableEntry.applyTo]
      split <;> rfl
  | index name columns => rfl
  | foreignKey key => rfl
  | otherConstraint => rfl
  | unrecognized => rfl

@[simp] lemma name_linkEdges (edges : List Relation) (table : Table) :
    (linkEdges edges table).name = table.name :=
  List.foldlRecOn (motive := fun t : Table => t.name = table.name) edges _ rfl fun _ h _ _ => h

lemma name_addNamedIndex (name : Option String) (columns : List String) (unique : Bool)
    (table : Table) : (addNamedIndex name columns unique table).name = table.name := rfl

lemma CreateIndex.addTo_eq (statement : CreateIndex) (d : Draft) :
    statement.addTo d = d.amendTable statement.table
      (addNamedIndex statement.name statement.columns statement.unique) [] .indexOnUnknownTable :=
  rfl

lemma AddForeignKey.addTo_eq (statement : AddForeignKey) (d : Draft) :
    statement.addTo d = d.amendTable statement.table
      (linkEdges (statement.key.edges statement.table)) (statement.key.edges statement.table)
      .foreignKeyOnUnknownTable := rfl

/-- Columns that point along edges are backed if the edges are relations of their table. -/
lemma backedBy_linkEdges {edges : List Relation} {table : Table} (h : table.BackedBy rs)
    (hedges : ∀ e ∈ edges, HasEdge rs table.name e.fromColumn e.toTable) :
    (linkEdges edges table).BackedBy rs := by
  have key : (linkEdges edges table).name = table.name ∧ (linkEdges edges table).BackedBy rs := by
    rw [linkEdges]
    refine List.foldlRecOn (motive := fun t : Table => t.name = table.name ∧ t.BackedBy rs) edges _
      ⟨rfl, h⟩ fun t ht e he => ⟨ht.1, ?_⟩
    exact ht.2.setReference (ht.1 ▸ hedges e he)
  exact key.2

@[simp] lemma name_table (statement : CreateTable) : statement.table.name = statement.name := by
  rw [CreateTable.table, name_linkEdges]
  exact List.foldlRecOn (motive := fun t : Table => t.name = statement.name) statement.entries _ rfl
    fun t h entry _ => (name_applyTo t entry).trans h

/-- No column points anywhere before the edges are linked. -/
lemma backedBy_entries (statement : CreateTable) (rs : List Relation) :
    (statement.entries.foldl TableEntry.applyTo (Table.empty statement.name)).BackedBy rs :=
  List.foldlRecOn (motive := fun t : Table => t.BackedBy rs) statement.entries _
    (Table.backedBy_empty _ _) fun _ ht entry _ => backedBy_applyTo ht entry

lemma table_backedBy (statement : CreateTable)
    (h : ∀ e ∈ statement.edges, HasEdge rs e.fromTable e.fromColumn e.toTable) :
    statement.table.BackedBy rs := by
  refine backedBy_linkEdges (backedBy_entries statement rs) fun e he => ?_
  have hname := name_table statement
  rw [CreateTable.table, name_linkEdges] at hname
  rw [hname, ← fromTable_of_mem_createTable_edges he]
  exact h e he

/-- One more created table, or one that is never closed, keeps a draft backed and rooted. -/
lemma addCreated_backed_rooted {d : Draft} (h : d.Backed ∧ d.Rooted)
    (statement : Option CreateTable) :
    (addCreated d statement).Backed ∧ (addCreated d statement).Rooted := by
  cases statement with
  | none => exact h
  | some statement =>
      simp only [addCreated, CreateTable.addTo]
      generalize (statement.entries.filter (· == .unrecognized)).map
        (fun _ => Notice.unrecognizedTableEntry) = notices
      have hbase : (d.noteAll notices).Backed := fun t ht => by
        simpa using h.1 t (by simpa using ht)
      have htable := table_backedBy statement
        fun e he => hasEdge_addRelations (d.noteAll notices) he
      refine ⟨(hbase.addRelations statement.edges).addTable htable,
        h.2.of_putTable statement.table (by simp) fun r hr => ?_⟩
      rcases mem_addRelations hr with hr | hr
      · exact Or.inl (by simpa using hr)
      · exact Or.inr ((fromTable_of_mem_createTable_edges hr).trans (name_table statement).symm)

/-- An index changes no column and no name. -/
lemma createIndex_backed_rooted {d : Draft} (h : d.Backed ∧ d.Rooted) (statement : CreateIndex) :
    (statement.addTo d).Backed ∧ (statement.addTo d).Rooted := by
  rw [CreateIndex.addTo]
  split
  · refine ⟨fun t ht => ?_, fun r hr => ?_⟩
    · rcases mem_updateFirstTable ht with ht | ⟨u, hu, -, rfl⟩
      · exact h.1 t ht
      · exact (h.1 u hu).addIndex _
    · obtain ⟨t, ht, hname⟩ := h.2 r hr
      obtain ⟨u, hu, huname⟩ := exists_mem_updateFirstTable statement.table
        (fun t => (rfl : (addNamedIndex statement.name statement.columns
          statement.unique t).name = t.name)) ht
      exact ⟨u, hu, huname.trans hname⟩
  · exact h

/-- An added foreign key sets columns of its table and brings the relations for them. -/
lemma addForeignKey_backed_rooted {d : Draft} (h : d.Backed ∧ d.Rooted)
    (statement : AddForeignKey) : (statement.addTo d).Backed ∧ (statement.addTo d).Rooted := by
  rw [AddForeignKey.addTo]
  split
  · next htable =>
      refine ⟨fun t ht => ?_, fun r hr => ?_⟩
      · rw [tables_addRelations] at ht
        rcases mem_updateFirstTable ht with ht | ⟨u, hu, huname, rfl⟩
        · exact (h.1 t ht).mono (relations_subset_addRelations _ _)
        · refine backedBy_linkEdges ((h.1 u hu).mono (relations_subset_addRelations _ _))
            fun e he => ?_
          have hedge := hasEdge_addRelations
            (d.updateTable statement.table (linkEdges (statement.key.edges statement.table))) he
          rw [fromTable_of_mem_edges he] at hedge
          exact huname.symm ▸ hedge
      · have hroot : ∃ t ∈ d.tables, t.name = r.fromTable := by
          rcases mem_addRelations hr with hr | hr
          · exact h.2 r hr
          · obtain ⟨t, ht⟩ := Option.isSome_iff_exists.mp htable
            refine ⟨t, List.mem_of_find?_eq_some ht, ?_⟩
            rw [fromTable_of_mem_edges hr]
            simpa using List.find?_some ht
        obtain ⟨t, ht, hname⟩ := hroot
        obtain ⟨u, hu, huname⟩ := exists_mem_updateFirstTable statement.table
          (name_linkEdges (statement.key.edges statement.table)) ht
        exact ⟨u, by simpa using hu, huname.trans hname⟩
  · exact h

lemma draft_backed_rooted (script : Script) : script.draft.Backed ∧ script.draft.Rooted := by
  rw [Script.draft]
  refine List.foldlRecOn (motive := fun d : Draft => d.Backed ∧ d.Rooted) script.foreignKeys _ ?_
    fun d h statement _ => addForeignKey_backed_rooted h statement
  refine List.foldlRecOn (motive := fun d : Draft => d.Backed ∧ d.Rooted) script.indexes _ ?_
    fun d h statement _ => createIndex_backed_rooted h statement
  exact List.foldlRecOn (motive := fun d : Draft => d.Backed ∧ d.Rooted) script.tables _
    ⟨Draft.backed_empty, Draft.rooted_empty⟩ fun d h statement _ =>
      addCreated_backed_rooted h statement

end Ddl

end SchemaReader
