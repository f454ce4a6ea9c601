/-
Tables whose columns have the same flags.

* `Table.SameFlags`: tables that agree in all but the types of columns and what these point at,
  which every change of a table keeps.
-/
import SchemaReader.Proofs.Schema.ColumnNames

namespace SchemaReader

variable {table table' table'' : Table}

/-! ### Tables -/

/-- The name and the flags of a column. -/
def Column.flags (column : Column) : String × Bool × Bool :=
  (column.name, column.nullable, column.primaryKey)

/-- Two tables with the same indexes and with columns of the same names and flags. -/
structure Table.SameFlags (table table' : Table) : Prop where
  name : table.name = table'.name
  columns : table.columns.map Column.flags = table'.columns.map Column.flags
  indexes : table.indexes = table'.indexes

lemma map_flags_updateFirstColumn {columns columns' : List Column} (name : String)
    {change : Column → Column} (h : columns.map Column.flags = columns'.map Column.flags)
    (hchange : ∀ c c' : Column, c.flags = c'.flags → (change c).flags = (change c').flags) :
    (updateFirstColumn name change columns).map Column.flags
      = (updateFirstColumn name change columns').map Column.flags := by
  induction columns generalizing columns' with
  | nil =>
      obtain rfl := List.map_eq_nil_iff.mp h.symm
      rfl
  | cons column columns ih =>
      cases columns' with
      | nil => simp at h
      | cons column' columns' =>
          rw [List.map_cons, List.map_cons, List.cons.injEq] at h
          have hname : column.name = column'.name := congrArg Prod.fst h.1
          rw [updateFirstColumn, updateFirstColumn, hname]
          split
          · rw [List.map_cons, List.map_cons, hchange _ _ h.1, h.2]
          · rw [List.map_cons, List.map_cons, h.1, ih h.2]

namespace Table.SameFlags

lemma refl (table : Table) : table.SameFlags table := ⟨rfl, rfl, rfl⟩

lemma symm (h : table.SameFlags table') : table'.SameFlags table :=
  ⟨h.name.symm, h.columns.symm, h.indexes.symm⟩

lemma trans (h : table.SameFlags table') (h' : table'.SameFlags table'') :
    table.SameFlags table'' :=
  ⟨h.name.trans h'.name, h.columns.trans h'.columns, h.indexes.trans h'.indexes⟩

lemma addColumn {column column' : Column} (h : table.SameFlags table')
    (hcolumn : column.flags = column'.flags) :
    (table.addColumn column).SameFlags (table'.addColumn column') :=
  ⟨h.name, by simp [Table.addColumn, h.columns, hcolumn], h.indexes⟩

lemma addIndex (h : table.SameFlags table') (index : Index) :
    (table.addIndex index).SameFlags (table'.addIndex index) :=
  ⟨h.name, h.columns, by simp [Table.addIndex, h.indexes]⟩

lemma markPrimaryKey (h : table.SameFlags table') (names : List String) :
    (table.markPrimaryKey names).SameFlags (table'.markPrimaryKey names) := by
  induction names generalizing table table' with
  | nil => exact h
  | cons name names ih =>
      refine ih ⟨h.name, map_flags_updateFirstColumn name h.columns fun c c' hflags =>
        ?_, h.indexes⟩
      simp only [Column.flags, Prod.mk.injEq] at hflags ⊢
      exact ⟨hflags.1, hflags.2.1, trivial⟩

/-- Steps that each keep two tables alike keep them so one after the other. -/
lemma foldl {α : Type} (step : Table → α → Table)
    (hstep : ∀ {t t' : Table} x, t.SameFlags t' → (step t x).SameFlags (step t' x)) (xs : List α)
    (h : table.SameFlags table') : (xs.foldl step table).SameFlags (xs.foldl step table') := by
  induction xs generalizing table table' with
  | nil => exact h
  | cons x xs ih => exact ih (hstep x h)

end Table.SameFlags

end SchemaReader
