/-
Tables, columns and relations that are told apart by their names.

* `putTable_of_fresh`, `tables_foldl_of_nodup`, `tables_updateTable_of_nodup`: a table of a new name
  goes to the end, and a change reaches exactly the table of its name;
* `updateColumn_of_nodup`, `markPrimaryKey_of_nodup`: the same for the columns of a table;
* `relations_addRelations_of_nodup`, `relations_foldl_of_nodup`: relations that leave different
  columns are all kept.
-/
import Mathlib.Data.List.Nodup
import SchemaReader.Proofs.Schema.Draft

namespace SchemaReader

variable {d : Draft} {table : Table} {tables : List Table} {name : String}

/-! ### Tables -/

lemma putTable_of_fresh (h : ∀ t ∈ tables, t.name ≠ table.name) :
    putTable table tables = tables ++ [table] := by
  induction tables with
  | nil => rfl
  | cons t rest ih =>
      rw [List.forall_mem_cons] at h
      rw [putTable, if_neg (by simpa using h.1), ih h.2, List.cons_append]

/-- Steps that each put a table of a new name in collect these tables. -/
lemma tables_foldl_of_nodup {α : Type} {step : Draft → α → Draft} {made : α → Table}
    (htables : ∀ d x, (step d x).tables = putTable (made x) d.tables) (xs : List α) (d : Draft)
    (h : (d.tables.map Table.name ++ (xs.map made).map Table.name).Nodup) :
    (xs.foldl step d).tables = d.tables ++ xs.map made := by
  induction xs generalizing d with
  | nil => simp
  | cons x xs ih =>
      have hfresh : (step d x).tables = d.tables ++ [made x] := by
        rw [htables]
        refine putTable_of_fresh fun t ht => ?_
        exact (List.nodup_append.mp h).2.2 _ (List.mem_map_of_mem ht) _ (by simp)
      rw [List.foldl_cons, ih (step d x) (by simpa [hfresh] using h), hfresh]
      simp

/-- Where no two tables have the same name, a change to the first table of a name is a change to
all of them. -/
lemma updateFirstTable_of_nodup (h : (tables.map Table.name).Nodup) (name : String)
    (change : Table → Table) : updateFirstTable name change tables
      = tables.map fun t => if t.name = name then change t else t := by
  induction tables with
  | nil => rfl
  | cons t rest ih =>
      rw [List.map_cons, List.nodup_cons] at h
      rw [updateFirstTable, List.map_cons]
      by_cases hname : t.name = name
      · have hrest : rest.map (fun t => if t.name = name then change t else t) = rest := by
          refine (List.map_congr_left fun u hu => if_neg ?_).trans (List.map_id rest)
          rintro rfl
          exact h.1 (hname ▸ List.mem_map_of_mem hu)
        simp [hname, hrest]
      · simp [hname, ih h.2]

lemma tables_updateTable_of_nodup (h : (d.tables.map Table.name).Nodup) (name : String)
    (change : Table → Table) : (d.updateTable name change).tables
      = d.tables.map fun t => if t.name = name then change t else t :=
  updateFirstTable_of_nodup h name change

/-- A table of a known name is found. -/
lemma isSome_table? (h : name ∈ d.tables.map Table.name) : (d.table? name).isSome = true := by
  obtain ⟨t, ht, rfl⟩ := List.mem_map.mp h
  rw [Draft.table?, List.find?_isSome]
  exact ⟨t, ht, by simp⟩

/-! ### Columns -/

lemma updateFirstColumn_of_nodup {columns : List Column} (h : (columns.map Column.name).Nodup)
    (name : String) (change : Column → Column) : updateFirstColumn name change columns
      = columns.map fun c => if c.name = name then change c else c := by
  induction columns with
  | nil => rfl
  | cons c rest ih =>
      rw [List.map_cons, List.nodup_cons] at h
      rw [updateFirstColumn, List.map_cons]
      by_cases hname : c.name = name
      · have hrest : rest.map (fun c => if c.name = name then change c else c) = rest := by
          refine (List.map_congr_left fun u hu => if_neg ?_).trans (List.map_id rest)
          rintro rfl
          exact h.1 (hname ▸ List.mem_map_of_mem hu)
        simp [hname, hrest]
      · simp [hname, ih h.2]

lemma updateColumn_of_nodup (h : (table.columns.map Column.name).Nodup) (name : String)
    (change : Column → Column) : table.updateColumn name change
      = { table with
          columns := table.columns.map fun c => if c.name = name then change c else c } := by
  rw [Table.updateColumn, updateFirstColumn_of_nodup h]

/-- A column with a mark if it is among the columns of a primary key. -/
def Column.markIf (names : List String) (column : Column) : Column :=
  { column with primaryKey := column.primaryKey || names.contains column.name }

lemma name_markIf (names : List String) (column : Column) :
    (column.markIf names).name = column.name :=
  rfl

lemma markIf_append (names more : List String) (column : Column) :
    (column.markIf names).markIf more = column.markIf (names ++ more) := by
  simp [Column.markIf, Bool.or_assoc]

lemma markPrimaryKey_of_nodup (h : (table.columns.map Column.name).Nodup) (names : List String) :
    table.markPrimaryKey names
      = { table with columns := table.columns.map (Column.markIf names) } := by
  induction names generalizing table with
  | nil =>
      have hid : table.columns.map (Column.markIf []) = table.columns :=
        (List.map_congr_left fun c _ => by simp [Column.markIf]).trans (List.map_id _)
      rw [hid]
      rfl
  | cons name names ih =>
      have hone : table.updateColumn name (fun c => { c with primaryKey := true })
          = { table with columns := table.columns.map (Column.markIf [name]) } := by
        rw [updateColumn_of_nodup h]
        refine congrArg (fun columns => { table with columns := columns }) ?_
        refine List.map_congr_left fun c _ => ?_
        by_cases hname : c.name = name
        · simp [Column.markIf, hname]
        · simp [Column.markIf, hname]
      have hnames : ((table.columns.map (Column.markIf [name])).map Column.name).Nodup := by
        rw [List.map_map]
        exact h
      rw [Table.markPrimaryKey, List.foldl_cons, ← Table.markPrimaryKey, hone, ih hnames]
      simp only [List.map_map]
      refine congrArg (fun columns => { table with columns := columns }) ?_
      exact List.map_congr_left fun c _ => markIf_append [name] names c

/-! ### Relations -/

/-- The column that a relation leaves, with its table. -/
def Relation.leaves (r : Relation) : String × String := (r.fromTable, r.fromColumn)

lemma relations_addRelation_of_fresh {r : Relation}
    (h : r.leaves ∉ d.relations.map Relation.leaves) :
    (d.addRelation r).1.relations = d.relations ++ [r] := by
  have hedge : d.hasEdge r = false := by
    rw [Draft.hasEdge, List.any_eq_false]
    intro s hs hsame
    refine h (List.mem_map.mpr ⟨s, hs, ?_⟩)
    simp only [Relation.sameEdge, Bool.and_eq_true, beq_iff_eq] at hsame
    simp [Relation.leaves, hsame]
  simp [Draft.addRelation, hedge]

/-- Relations that leave different columns are all added. -/
lemma relations_addRelations_of_nodup {rs : List Relation}
    (h : ((d.relations ++ rs).map Relation.leaves).Nodup) :
    (d.addRelations rs).relations = d.relations ++ rs := by
  induction rs generalizing d with
  | nil => simp [Draft.addRelations]
  | cons r rs ih =>
      have hfresh : r.leaves ∉ d.relations.map Relation.leaves := by
        intro hmem
        rw [List.map_append, List.nodup_append] at h
        exact h.2.2 _ hmem r.leaves (by simp) rfl
      have hone := relations_addRelation_of_fresh hfresh
      rw [Draft.addRelations, List.foldl_cons, ← Draft.addRelations, ih (by simpa [hone] using h),
        hone, List.append_assoc, List.singleton_append]

/-- Steps that each keep relations if these leave other columns collect all of them. -/
lemma relations_foldl_of_nodup {α : Type} {step : Draft → α → Draft} {added : α → List Relation}
    (hrelations : ∀ d x, ((d.relations ++ added x).map Relation.leaves).Nodup →
      (step d x).relations = d.relations ++ added x) (xs : List α) (d : Draft)
    (h : ((d.relations ++ xs.flatMap added).map Relation.leaves).Nodup) :
    (xs.foldl step d).relations = d.relations ++ xs.flatMap added := by
  induction xs generalizing d with
  | nil => simp
  | cons x xs ih =>
      rw [List.flatMap_cons, ← List.append_assoc] at h ⊢
      have hone : (step d x).relations = d.relations ++ added x := by
        refine hrelations d x ?_
        rw [List.map_append] at h
        exact (List.nodup_append.mp h).1
      rw [List.foldl_cons, ih (step d x) (by rw [hone]; exact h), hone]

end SchemaReader
