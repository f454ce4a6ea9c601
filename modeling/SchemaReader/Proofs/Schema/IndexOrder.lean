/-
Schemas up to the order of their indexes.

* `Table.Alike`, `Draft.Alike`, `Schema.Alike`: the same but for the order of the indexes of each
  table;
* `Draft.Alike.addTable`, `Draft.Alike.updateTable` and the like: the steps that build a draft keep
  two drafts alike;
* `Table.Marked`: a table with one more index for each of some unique columns, which every change of
  the columns keeps;
* `Table.Marked.alike`: the order in which the columns are marked does not matter.
-/
import Mathlib.Data.List.Perm.Basic
import SchemaReader.Proofs.Schema.Runs

namespace SchemaReader

variable {base base' table table' : Table} {names names' : List String} {d d' : Draft}

/-! ### Left out -/

lemma contains_filter_ne {α : Type} [DecidableEq α] {x y : α} (h : x ≠ y) (xs : List α) :
    (xs.filter (· ≠ y)).contains x = xs.contains x := by
  simp [List.contains_eq_mem, List.mem_filter, h]

/-! ### Alike -/

/-- Two tables of one name with the same columns and, in some order, the same indexes. -/
structure Table.Alike (table table' : Table) : Prop where
  name : table.name = table'.name
  columns : table.columns = table'.columns
  indexes : table.indexes.Perm table'.indexes

/-- Two drafts with the same relations and, one by one, the same tables up to the order of
indexes. -/
structure Draft.Alike (d d' : Draft) : Prop where
  tables : List.Forall₂ Table.Alike d.tables d'.tables
  relations : d.relations = d'.relations

/-- Two schemas of one source with the same relations and, one by one, the same tables up to the
order of indexes. -/
structure Schema.Alike (schema schema' : Schema) : Prop where
  source : schema.source = schema'.source
  tables : List.Forall₂ Table.Alike schema.tables schema'.tables
  relations : schema.relations = schema'.relations

lemma Table.Alike.refl (table : Table) : table.Alike table := ⟨rfl, rfl, .refl _⟩

lemma Table.Alike.addIndex (h : table.Alike table') (index : Index) :
    (table.addIndex index).Alike (table'.addIndex index) :=
  ⟨h.name, h.columns, h.indexes.append_right [index]⟩

/-- A change of the columns keeps tables alike. -/
lemma Table.Alike.updateColumn (h : table.Alike table') (name : String) (change : Column → Column) :
    (table.updateColumn name change).Alike (table'.updateColumn name change) :=
  ⟨h.name, congrArg (updateFirstColumn name change) h.columns, h.indexes⟩

namespace Draft.Alike

lemma refl (d : Draft) : d.Alike d := ⟨List.forall₂_same.mpr fun table _ => .refl table, rfl⟩

lemma schema (h : d.Alike d') (source : Source) (rawPath rawPath' : String) :
    (d.schema source rawPath).Alike (d'.schema source rawPath') := ⟨rfl, h.tables, h.relations⟩

lemma noteAll (h : d.Alike d') (notices notices' : List Notice) :
    (d.noteAll notices).Alike (d'.noteAll notices') := by
  refine ⟨?_, ?_⟩
  · rw [tables_noteAll, tables_noteAll]
    exact h.tables
  · rw [relations_noteAll, relations_noteAll]
    exact h.relations

lemma note (h : d.Alike d') (notice notice' : Notice) : (d.note notice).Alike (d'.note notice') :=
  ⟨h.tables, h.relations⟩

lemma addTable (h : d.Alike d') (htable : table.Alike table') :
    (d.addTable table).Alike (d'.addTable table') :=
  ⟨forall₂_putTable Table.Alike.name htable h.tables, h.relations⟩

lemma updateTable (h : d.Alike d') (name : String) {change : Table → Table}
    (hchange : ∀ {t t' : Table}, t.Alike t' → (change t).Alike (change t')) :
    (d.updateTable name change).Alike (d'.updateTable name change) :=
  ⟨forall₂_updateFirstTable Table.Alike.name name hchange h.tables, h.relations⟩

lemma addRelations (h : d.Alike d') (rs : List Relation) :
    (d.addRelations rs).Alike (d'.addRelations rs) := by
  induction rs generalizing d d' with
  | nil => exact h
  | cons r rs ih =>
      refine ih ⟨?_, ?_⟩
      · rw [tables_addRelation, tables_addRelation]
        exact h.tables
      · rw [relations_addRelation, relations_addRelation, h.relations]

/-- The same names have tables. -/
lemma isSome_table? (h : d.Alike d') (name : String) :
    (d.table? name).isSome = (d'.table? name).isSome := by
  have htables := h.tables
  rw [Draft.table?, Draft.table?]
  generalize d.tables = tables, d'.tables = tables' at htables
  induction htables with
  | nil => rfl
  | cons ht _ ih =>
      rw [List.find?_cons, List.find?_cons, ht.name]
      split
      · rfl
      · exact ih

lemma amendTable (h : d.Alike d') (target : String) {change : Table → Table}
    (hchange : ∀ {t t' : Table}, t.Alike t' → (change t).Alike (change t')) (rs : List Relation)
    (notice : Notice) :
    (d.amendTable target change rs notice).Alike (d'.amendTable target change rs notice) := by
  rw [Draft.amendTable, Draft.amendTable, h.isSome_table?]
  split
  · exact (h.updateTable target hchange).addRelations rs
  · exact h.note _ _

/-- Steps that each keep two drafts alike keep them so one after the other. -/
lemma foldl {α : Type} {R : α → α → Prop} (step : Draft → α → Draft)
    (hstep : ∀ {e e' : Draft} {x y : α}, R x y → e.Alike e' → (step e x).Alike (step e' y))
    {xs ys : List α}
    (hxs : List.Forall₂ R xs ys) (h : d.Alike d') : (xs.foldl step d).Alike (ys.foldl step d') := by
  induction hxs generalizing d d' with
  | nil => exact h
  | cons hx _ ih => exact ih (hstep hx h)

lemma foldl_same {α : Type} (step : Draft → α → Draft)
    (hstep : ∀ {e e' : Draft}, e.Alike e' → ∀ x, (step e x).Alike (step e' x)) (xs : List α)
    (h : d.Alike d') :
    (xs.foldl step d).Alike (xs.foldl step d') := by
  refine h.foldl step (R := Eq) ?_ (List.forall₂_same.mpr fun _ _ => rfl)
  rintro e e' x _ rfl he
  exact hstep he x

end Draft.Alike

/-! ### Marked columns -/

/-- The default name of the index of one column. -/
lemma Index.defaultName_singleton (table column : String) :
    (⟨Index.defaultName table [column] true, [column], true⟩ : Index)
      = .uniqueColumn table column := by
  simp [Index.defaultName, Index.uniqueColumn, String.append_assoc]

/-- A table with one more index for each of some unique columns. -/
structure Table.Marked (names : List String) (base table : Table) : Prop where
  name : table.name = base.name
  columns : table.columns = base.columns
  indexes : table.indexes.Perm (base.indexes ++ names.map (Index.uniqueColumn base.name))

namespace Table.Marked

lemma refl (table : Table) : table.Marked [] table := ⟨rfl, rfl, by simp⟩

lemma addColumn (h : base.Marked names table) (column : Column) :
    (base.addColumn column).Marked names (table.addColumn column) :=
  ⟨h.name, congrArg (· ++ [column]) h.columns, h.indexes⟩

/-- One more column is marked. -/
lemma mark (h : base.Marked names table) (column : String) :
    base.Marked (names ++ [column]) (table.addIndex (.uniqueColumn table.name column)) := by
  refine ⟨h.name, h.columns, ?_⟩
  rw [List.map_append, List.map_singleton, ← List.append_assoc, h.name]
  exact h.indexes.append_right _

/-- Both tables have one more index of another kind. -/
lemma addIndex (h : base.Marked names table) (index : Index) :
    (base.addIndex index).Marked names (table.addIndex index) := by
  refine ⟨h.name, h.columns, (h.indexes.append_right [index]).trans ?_⟩
  rw [Table.addIndex, List.append_assoc, List.append_assoc]
  exact List.perm_append_comm.append_left base.indexes

lemma updateColumn (h : base.Marked names table) (name : String) (change : Column → Column) :
    (base.updateColumn name change).Marked names (table.updateColumn name change) :=
  ⟨h.name, congrArg (updateFirstColumn name change) h.columns, h.indexes⟩

/-- Steps that each mark at most one column mark all of them one after the other. -/
lemma foldl {α : Type} {step step' : Table → α → Table} (xs : List α) (mark? : α → Option String)
    (hstep : ∀ x ∈ xs, ∀ {names t t'}, Table.Marked names t t' →
      Table.Marked (names ++ (mark? x).toList) (step t x) (step' t' x))
    (h : base.Marked names table) :
    (xs.foldl step base).Marked (names ++ xs.filterMap mark?) (xs.foldl step' table) := by
  induction xs generalizing names base table with
  | nil => simpa using h
  | cons x xs ih =>
      rw [List.forall_mem_cons] at hstep
      have hmore := ih hstep.2 (hstep.1 h)
      rw [List.append_assoc] at hmore
      cases hx : mark? x <;> simpa [List.filterMap_cons, hx] using hmore

/-- Steps that mark none keep the marks. -/
lemma foldl_same {α : Type} (step : Table → α → Table)
    (hstep : ∀ {names t t'} x, Table.Marked names t t' → Table.Marked names (step t x) (step t' x))
    (xs : List α) (h : base.Marked names table) :
    (xs.foldl step base).Marked names (xs.foldl step table) := by
  have hnone := h.foldl xs (fun _ => none) fun x _ _ _ _ ht => by simpa using hstep x ht
  simpa using hnone

lemma markPrimaryKey (h : base.Marked names table) (columns : List String) :
    (base.markPrimaryKey columns).Marked names (table.markPrimaryKey columns) :=
  h.foldl_same _ (fun name ht => ht.updateColumn name _) columns

/-- In whatever order the same columns are marked, the tables are alike. -/
theorem alike (h : base.Marked names table) (h' : base.Marked names' table')
    (hnames : names.Perm names') :
    table.Alike table' where
  name := h.name.trans h'.name.symm
  columns := h.columns.trans h'.columns.symm
  indexes := h.indexes.trans (((hnames.map _).append_left _).trans h'.indexes.symm)

end Table.Marked

end SchemaReader
