/-
Columns that are the first of their names.

* `changeFirst`: a list of columns with a change made to those that are the first of their names,
  with `exists_of_changeFirst_eq`: what stands at a place of such a list;
* `columns_markPrimaryKey`: marks of a primary key are such a change, whether or not a name comes
  twice;
* `firstBy_filter`: the first along their edges of some relations, where these are all along the
  edges.
-/
import Mathlib.Data.List.Forall2
import SchemaReader.Proofs.Schema.ColumnNames

namespace SchemaReader

variable {change change' : Column → Column} {seen : List String} {columns : List Column}

/-! ### Changes of first columns -/

/-- A list of columns with a change made to those whose name neither is among those seen before nor
comes earlier in the list. -/
def changeFirst (change : Column → Column) : (seen : List String) → List Column → List Column
  | _, [] => []
  | seen, c :: rest =>
    (if c.name ∈ seen then c else change c) :: changeFirst change (seen ++ [c.name]) rest

lemma changeFirst_append (change : Column → Column) (seen : List String)
    (columns more : List Column) :
    changeFirst change seen (columns ++ more)
      = changeFirst change seen columns ++
          changeFirst change (seen ++ columns.map Column.name) more := by
  induction columns generalizing seen with
  | nil => simp [changeFirst]
  | cons c rest ih => simp [changeFirst, ih]

lemma changeFirst_self (h : ∀ c, change c = c) (seen : List String) (columns : List Column) :
    changeFirst change seen columns = columns := by
  induction columns generalizing seen with
  | nil => rfl
  | cons c rest ih => rw [changeFirst, ih, h, ite_self]

lemma map_changeFirst {β : Type} (kept : Column → β) (h : ∀ c, kept (change c) = kept c)
    (seen : List String) (columns : List Column) :
    (changeFirst change seen columns).map kept = columns.map kept := by
  induction columns generalizing seen with
  | nil => rfl
  | cons c rest ih =>
      rw [changeFirst, List.map_cons, List.map_cons, ih]
      split
      · rfl
      · rw [h]

/-- What stands at a place after a change of first columns: a column of the list, changed if none of
its name is ahead of it. -/
lemma exists_of_changeFirst_eq (hname : ∀ c, (change c).name = c.name) {before after : List Column}
    {c : Column} (h : changeFirst change seen columns = before ++ c :: after) :
    ∃ d ∈ columns, c = if d.name ∈ seen ++ before.map Column.name then d else change d := by
  induction columns generalizing seen before with
  | nil => simp [changeFirst] at h
  | cons d rest ih =>
      cases before with
      | nil => exact ⟨d, List.mem_cons_self, by simpa using (List.cons.inj h).1.symm⟩
      | cons e before =>
          obtain ⟨he, hrest⟩ := List.cons.inj h
          obtain ⟨x, hx, hc⟩ := ih hrest
          have hkept : e.name = d.name := by
            rw [← he]
            split
            · rfl
            · exact hname d
          exact ⟨x, List.mem_cons_of_mem _ hx, by simpa [hkept] using hc⟩

/-- The first column of a name is changed. -/
lemma find?_changeFirst (hname : ∀ c, (change c).name = c.name) {name : String} (h : name ∉ seen)
    (columns : List Column) : (changeFirst change seen columns).find? (fun c => c.name == name)
      = (columns.find? fun c => c.name == name).map change := by
  induction columns generalizing seen with
  | nil => rfl
  | cons c rest ih =>
      rw [changeFirst]
      by_cases hc : c.name = name
      · subst hc
        simp [h, hname]
      · have hmore : name ∉ seen ++ [c.name] := by simp [h, Ne.symm hc]
        have hkept : (if c.name ∈ seen then c else change c).name = c.name := by
          split
          · rfl
          · exact hname c
        rw [List.find?_cons_of_neg (by simpa [hkept] using hc), ih hmore,
          List.find?_cons_of_neg (by simpa using hc)]

/-- One change after another is the change by both, as long as the first one keeps the names. -/
lemma changeFirst_changeFirst (hname : ∀ c, (change c).name = c.name) (seen : List String)
    (columns : List Column) : changeFirst change' seen (changeFirst change seen columns)
      = changeFirst (fun c => change' (change c)) seen columns := by
  induction columns generalizing seen with
  | nil => rfl
  | cons c rest ih =>
      by_cases hc : c.name ∈ seen
      · simp [changeFirst, hc, ih]
      · simp [changeFirst, hc, hname, ih]

/-- A change of the columns of one name changes the first one of it. -/
lemma changeFirst_ite (name : String) (change : Column → Column) (seen : List String)
    (columns : List Column) :
    changeFirst (fun c => if c.name = name then change c else c) seen columns
      = if name ∈ seen then columns else updateFirstColumn name change columns := by
  induction columns generalizing seen with
  | nil => simp [changeFirst, updateFirstColumn]
  | cons c rest ih =>
      rw [changeFirst, ih, updateFirstColumn]
      by_cases hc : c.name = name
      · subst hc
        by_cases hseen : c.name ∈ seen <;> simp [hseen]
      · have hne : name ≠ c.name := fun heq => hc heq.symm
        by_cases hseen : name ∈ seen <;> simp [hc, hne, hseen]

lemma updateFirstColumn_eq (name : String) (change : Column → Column) (columns : List Column) :
    updateFirstColumn name change columns
      = changeFirst (fun c => if c.name = name then change c else c) [] columns := by
  rw [changeFirst_ite, if_neg (by simp)]

/-- Without names there are no marks. -/
lemma changeFirst_markIf_nil (seen : List String) (columns : List Column) :
    changeFirst (Column.markIf []) seen columns = columns :=
  changeFirst_self (fun c => by simp [Column.markIf]) seen columns

/-- Marks with some names and then with more are marks with all of them. -/
lemma changeFirst_markIf_markIf (names more : List String) (seen : List String)
    (columns : List Column) :
    changeFirst (Column.markIf more) seen (changeFirst (Column.markIf names) seen columns)
      = changeFirst (Column.markIf (names ++ more)) seen columns := by
  rw [changeFirst_changeFirst fun c => name_markIf names c, funext (markIf_append names more)]

/-- Marks of a primary key are made to the first columns of their names. -/
theorem columns_markPrimaryKey (table : Table) (names : List String) :
    (table.markPrimaryKey names).columns = changeFirst (Column.markIf names) [] table.columns := by
  induction names generalizing table with
  | nil => exact (changeFirst_markIf_nil [] table.columns).symm
  | cons name names ih =>
      have hone : (fun c : Column => if c.name = name then { c with primaryKey := true } else c)
          = Column.markIf [name] := by
        funext c
        by_cases hname : c.name = name <;> simp [Column.markIf, hname]
      rw [Table.markPrimaryKey, List.foldl_cons, ← Table.markPrimaryKey, ih, Table.updateColumn,
        updateFirstColumn_eq, hone, changeFirst_markIf_markIf, List.singleton_append]

/-- They leave the rest of the table as it is. -/
lemma markPrimaryKey_eq (table : Table) (names : List String) : table.markPrimaryKey names
    = { table with columns := changeFirst (Column.markIf names) [] table.columns } := by
  have hindexes : (table.markPrimaryKey names).indexes = table.indexes :=
    List.foldlRecOn (motive := fun t : Table => t.indexes = table.indexes) names _ rfl
      fun t ht name _ => ht
  rw [← columns_markPrimaryKey, ← hindexes, ← Table.name_markPrimaryKey names]

/-- What holds of two columns with the same name at each place, and of these when both are changed,
holds at each place after changes of first columns. -/
lemma forall₂_changeFirst {R S : Column → Column → Prop} {columns columns' : List Column}
    (h : List.Forall₂ R columns columns') (hname : ∀ c c', R c c' → c.name = c'.name)
    (hkeep : ∀ c c', R c c' → S c c') (hchange : ∀ c c', R c c' → S (change c) (change' c'))
    (seen : List String) :
    List.Forall₂ S (changeFirst change seen columns) (changeFirst change' seen columns') := by
  induction h generalizing seen with
  | nil => exact .nil
  | @cons c c' _ _ hc _ ih =>
      rw [changeFirst, changeFirst, hname c c' hc]
      refine .cons ?_ (ih _)
      split
      · exact hkeep c c' hc
      · exact hchange c c' hc

/-! ### First relations -/

/-- Whether a relation stays goes by the relations along its edge. -/
lemma firstBy_filter {α κ : Type} [DecidableEq κ] {key : α → κ} {p : α → Bool}
    (hp : ∀ x y, key x = key y → p x = p y) (xs : List α) :
    (firstBy key xs).filter p = firstBy key (xs.filter p) := by
  induction xs using List.reverseRecOn with
  | nil => rfl
  | append_singleton xs x ih =>
      rw [firstBy_concat, List.filter_append, List.filter_append, ih]
      cases hx : p x with
      | false => by_cases hkey : key x ∈ xs.map key <;> simp [hx, hkey]
      | true =>
          have hmem : key x ∈ (xs.filter p).map key ↔ key x ∈ xs.map key := by
            simp only [List.mem_map, List.mem_filter]
            constructor
            · rintro ⟨y, hy, heq⟩
              exact ⟨y, hy.1, heq⟩
            · rintro ⟨y, hy, heq⟩
              exact ⟨y, ⟨hy, (hp y x heq).trans hx⟩, heq⟩
          have hone : [x].filter p = [x] := List.filter_eq_self.mpr (by simpa using hx)
          rw [hone, firstBy_concat]
          by_cases hkey : key x ∈ xs.map key <;> simp [hmem, hkey, hx]

end SchemaReader
