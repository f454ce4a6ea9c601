/-
Entries of a table in another arrangement.

* `Arranged`: two lists of entries with the same clauses in the same order, and with the same
  columns in the same order;
* `KeyBehind`: no primary key ahead of a column lists it;
* `keysFrom`, `LeavesTwice`: the foreign keys that leave a column, and a column that points
  elsewhere both among its own options and in a clause;
* `forall₂_added`: the columns of a table are marked as if all its primary keys stood behind them,
  but for those that stand ahead of a column that they list;
* `Agrees`: what two statements with their entries in two arrangements have in common;
* `ofText_arranged`: what clauses in other places leave as it is. What they change is which primary
  keys find their columns, in what order the relations come and, for a column that is left twice,
  which of its foreign keys is the last one.
-/
import SchemaReader.Proofs.Ddl.TypedColumns
import SchemaReader.Proofs.Pattern.Joining
import SchemaReader.Proofs.Schema.FirstColumns

namespace SchemaReader.Ddl

open Text (IsWord)

variable {entries entries' front behind : List TableEntry} {entry : TableEntry} {name : String}
  {c c' : Column}

/-! ### Entries -/

/-- Whether an entry adds a column. -/
def TableEntry.isColumn (entry : TableEntry) : Bool := entry.column?.isSome

/-- Whether an entry is a primary or a foreign key in a clause. -/
def TableEntry.isKey : TableEntry → Bool
  | .primaryKey _ | .foreignKey _ => true
  | _ => false

/-- The columns that an entry lists as a primary key. -/
def TableEntry.keyNames : TableEntry → List String
  | .primaryKey names => names
  | _ => []

/-- The names of the columns among entries. -/
def columnNames (entries : List TableEntry) : List String :=
  entries.filterMap TableEntry.columnName?

/-- The names that primary keys list among entries. -/
def keyNames (entries : List TableEntry) : List String := entries.flatMap TableEntry.keyNames

/-- A foreign key of an entry leaves a column. -/
def TableEntry.Leaves (entry : TableEntry) (name : String) : Prop :=
  ∃ key ∈ entry.foreignKey?, name ∈ key.columns

instance : Decidable (entry.Leaves name) := inferInstanceAs (Decidable (∃ _ ∈ _, _))

/-- The foreign keys that leave a column, among its own options and in clauses. -/
def keysFrom (entries : List TableEntry) (name : String) : List ForeignKey :=
  (entries.filterMap TableEntry.foreignKey?).filter fun key => name ∈ key.columns

/-- No primary key ahead of the first column of a name lists it, if there is such a column. -/
def KeyBehind (entries : List TableEntry) (name : String) : Prop :=
  name ∈ columnNames entries →
  name ∉ keyNames (entries.takeWhile fun e => e.columnName? != some name)

instance : Decidable (KeyBehind entries name) := inferInstanceAs (Decidable (_ → _))

/-- A column points elsewhere both by itself and by a clause. -/
def LeavesTwice (entries : List TableEntry) (name : String) : Prop :=
  (∃ e ∈ entries, e.isColumn = true ∧ e.Leaves name) ∧ ∃ e ∈ entries, e.isKey = true ∧ e.Leaves name

instance : Decidable (LeavesTwice entries name) := inferInstanceAs (Decidable (_ ∧ _))

lemma columnNames_append (front behind : List TableEntry) :
    columnNames (front ++ behind) = columnNames front ++ columnNames behind := List.filterMap_append

lemma keyNames_append (front behind : List TableEntry) :
    keyNames (front ++ behind) = keyNames front ++ keyNames behind := List.flatMap_append

lemma keyNames_cons (entry : TableEntry) (rest : List TableEntry) :
    keyNames (entry :: rest) = entry.keyNames ++ keyNames rest := List.flatMap_cons

lemma columnNames_cons_of_some (h : entry.columnName? = some name) (rest : List TableEntry) :
    columnNames (entry :: rest) = name :: columnNames rest := List.filterMap_cons_some h

/-! ### Columns with their marks -/

/-- The columns that entries add, behind columns of the names `seen`, each one with the marks that
follow it. -/
def added : (seen : List String) → List TableEntry → List Column
  | _, [] => []
  | seen, entry :: rest => match entry.column? with
    | some c =>
        (if c.name ∈ seen then c else c.markIf (keyNames rest)) :: added (seen ++ [c.name]) rest
    | none => added seen rest

lemma columns_applyTo (table : Table) (entry : TableEntry) : (entry.applyTo table).columns
    = changeFirst (Column.markIf entry.keyNames) [] table.columns ++ entry.column?.toList := by
  cases entry with
  | column entry =>
      simp only [TableEntry.applyTo, TableEntry.keyNames, TableEntry.column?,
        changeFirst_markIf_nil]
      split <;> simp [Table.addColumn, Table.addIndex]
  | primaryKey names =>
      simp [TableEntry.applyTo, columns_markPrimaryKey, TableEntry.keyNames, TableEntry.column?]
  | unique name columns =>
      simp only [TableEntry.applyTo, TableEntry.keyNames, TableEntry.column?,
        changeFirst_markIf_nil]
      split <;> simp [addNamedIndex, Table.addIndex]
  | index name columns =>
      simp [TableEntry.applyTo, TableEntry.keyNames, TableEntry.column?, changeFirst_markIf_nil,
        addNamedIndex, Table.addIndex]
  | foreignKey | otherConstraint | unrecognized =>
      simp [TableEntry.applyTo, TableEntry.keyNames, TableEntry.column?, changeFirst_markIf_nil]

/-- The columns of a table after entries: those it had, with the marks of all of them, and those
that are added. -/
theorem columns_foldl_applyTo (entries : List TableEntry) (table : Table) :
    (entries.foldl TableEntry.applyTo table).columns
      = changeFirst (Column.markIf (keyNames entries)) [] table.columns ++
          added (table.columns.map Column.name) entries := by
  induction entries generalizing table with
  | nil => simp [keyNames, added, changeFirst_markIf_nil]
  | cons entry rest ih =>
      rw [List.foldl_cons, ih, columns_applyTo, changeFirst_append, changeFirst_markIf_markIf,
        keyNames_cons, List.map_append, map_changeFirst Column.name (name_markIf _),
        List.nil_append, added]
      cases entry.column? with
      | none => simp [changeFirst]
      | some c => simp [changeFirst]

/-! ### Marks and where they stand -/

/-- The first column of a name is marked by the primary keys behind it, which are all that list it,
if none of those ahead does. -/
lemma mem_keyNames_of_keyBehind (h : KeyBehind (front ++ entry :: behind) name)
    (hentry : entry.columnName? = some name) (hfirst : name ∉ columnNames front) :
    name ∈ keyNames behind ↔ name ∈ keyNames (front ++ entry :: behind) := by
  have hother : ∀ e ∈ front, (e.columnName? != some name) = true := fun e he =>
    bne_iff_ne.mpr fun hname => hfirst (List.mem_filterMap.mpr ⟨e, he, hname⟩)
  have hahead : (front ++ entry :: behind).takeWhile (fun e => e.columnName? != some name)
      = front := by
    rw [List.takeWhile_append_of_pos hother, List.takeWhile_cons_of_neg (by simp [hentry]),
      List.append_nil]
  have hnone : name ∉ keyNames front := by
    rw [KeyBehind, hahead, columnNames_append, columnNames_cons_of_some hentry] at h
    exact h (by simp)
  have hself : entry.keyNames = [] := by
    cases entry with
    | primaryKey => simp [TableEntry.columnName?] at hentry
    | _ => rfl
  rw [keyNames_append, keyNames_cons, hself, List.nil_append, List.mem_append]
  exact (or_iff_right hnone).symm

/-- What is said of a column among entries: its name, its type and whether it can be null are those
of another column, and so is its mark, if no primary key ahead of it lists it. -/
structure MarkedAs (entries : List TableEntry) (c c' : Column) : Prop where
  name : c.name = c'.name
  type : c.type = c'.type
  nullable : c.nullable = c'.nullable
  references : c.references = c'.references
  primaryKey : KeyBehind entries c.name → c.primaryKey = c'.primaryKey

/-- The columns that entries add are marked as if all the primary keys stood behind all the
columns. -/
lemma forall₂_added (front behind : List TableEntry) :
    List.Forall₂ (MarkedAs (front ++ behind)) (added (columnNames front) behind)
      (changeFirst (Column.markIf (keyNames (front ++ behind))) (columnNames front)
        (behind.filterMap TableEntry.column?)) := by
  induction behind generalizing front with
  | nil => exact .nil
  | cons entry rest ih =>
      have hshift : front ++ entry :: rest = (front ++ [entry]) ++ rest := by simp
      have hnext := ih (front ++ [entry])
      rw [← hshift, columnNames_append] at hnext
      have hname := columnName?_eq entry
      rw [added, List.filterMap_cons]
      cases hcolumn : entry.column? with
      | none =>
          have hnone : columnNames [entry] = [] := by simp [columnNames, hname, hcolumn]
          simpa [hnone] using hnext
      | some c =>
          have hone : columnNames [entry] = [c.name] := by simp [columnNames, hname, hcolumn]
          rw [hone] at hnext
          refine .cons ?_ hnext
          split
          · exact ⟨rfl, rfl, rfl, rfl, fun _ => rfl⟩
          · next hfirst =>
              refine ⟨rfl, rfl, rfl, rfl, fun hbehind => ?_⟩
              have hentry : entry.columnName? = some c.name := by rw [hname, hcolumn]; rfl
              have hmem : c.name ∈ keyNames rest ↔ c.name ∈ keyNames (front ++ entry :: rest) :=
                mem_keyNames_of_keyBehind hbehind hentry hfirst
              simp [Column.markIf, hmem]

/-! ### What columns point at -/

/-- Edges make the first columns of their names point along them. -/
lemma columns_linkEdges (edges : List Relation) (table : Table) :
    (linkEdges edges table).columns
      = changeFirst (fun c => edges.foldl pointAlong c) [] table.columns := by
  induction edges generalizing table with
  | nil => exact (changeFirst_self (fun _ => rfl) [] table.columns).symm
  | cons edge edges ih =>
      have hone : (fun c : Column => if c.name = edge.fromColumn then
          { c with references := some ⟨edge.toTable, edge.toColumn⟩ } else c)
            = (pointAlong · edge) := rfl
      rw [linkEdges, List.foldl_cons, ← linkEdges, ih, Table.setReference, Table.updateColumn,
        updateFirstColumn_eq, hone, changeFirst_changeFirst fun c => name_pointAlong c edge]
      rfl

/-- A column points along the last edge that leaves it. -/
lemma foldl_pointAlong_eq (edges : List Relation) (c : Column) : edges.foldl pointAlong c
    = { c with references := ((edges.filter fun e => e.fromColumn == c.name).getLast?.map
          fun e => (⟨e.toTable, e.toColumn⟩ : Reference)).or c.references } := by
  induction edges using List.reverseRecOn with
  | nil => simp
  | append_singleton edges edge ih =>
      rw [List.foldl_append, ih, List.foldl_cons, List.foldl_nil, pointAlong]
      by_cases hname : c.name = edge.fromColumn
      · simp [hname]
      · have hbeq : (edge.fromColumn == c.name) = false := beq_false_of_ne (Ne.symm hname)
        simp [hname, hbeq]

/-- The edges that leave a column are those of the foreign keys that leave it. -/
lemma filter_edges (table : String) (entries : List TableEntry) (name : String) :
    (CreateTable.edges ⟨table, entries⟩).filter (fun e => e.fromColumn == name)
      = (keysFrom entries name).flatMap fun key => (key.edges table).filter fun e =>
        e.fromColumn == name := by
  rw [CreateTable.edges, List.filter_flatMap, keysFrom]
  refine Pattern.flatMap_eq_flatMap_filter (fun _ _ _ => rfl) fun key _ hkey => ?_
  rw [List.filter_eq_nil_iff]
  intro e he hfrom
  obtain ⟨pair, hpair, rfl⟩ := List.mem_map.mp he
  obtain rfl : pair.1 = name := by simpa using hfrom
  simp [(List.of_mem_zip hpair).1] at hkey

/-! ### Arrangements -/

/-- Two lists of entries with the same columns in the same order, and with the same keys in the same
order. -/
structure Rearranged (entries entries' : List TableEntry) : Prop where
  columns : entries.filter TableEntry.isColumn = entries'.filter TableEntry.isColumn
  keys : entries.filter TableEntry.isKey = entries'.filter TableEntry.isKey

/-- What is made of some elements, if nothing is made of the others, goes by their order. -/
lemma flatMap_eq_of_filter_eq {α β : Type} {p : α → Bool} {xs ys : List α} {make : α → List β}
    (h : xs.filter p = ys.filter p) (hnone : ∀ x ∈ xs, p x = false → make x = [])
    (hnone' : ∀ y ∈ ys, p y = false → make y = []) : xs.flatMap make = ys.flatMap make := by
  rw [Pattern.flatMap_eq_flatMap_filter (fun _ _ _ => rfl) hnone, h,
    ← Pattern.flatMap_eq_flatMap_filter (fun _ _ _ => rfl) hnone']

lemma mem_of_filter_eq {α : Type} {p : α → Bool} {xs ys : List α}
    (h : xs.filter p = ys.filter p) {x : α}
    (hx : x ∈ ys) (hp : p x = true) : x ∈ xs :=
  List.mem_of_mem_filter (h ▸ List.mem_filter.mpr ⟨hx, hp⟩)

namespace Rearranged

variable (h : Rearranged entries entries')
include h

lemma filterMap_column?_eq :
    entries.filterMap TableEntry.column? = entries'.filterMap TableEntry.column? := by
  rw [List.filterMap_eq_flatMap_toList, List.filterMap_eq_flatMap_toList]
  have hnone : ∀ e : TableEntry, e.isColumn = false → e.column?.toList = [] := fun e he => by
    simpa [TableEntry.isColumn] using he
  exact flatMap_eq_of_filter_eq h.columns (fun e _ => hnone e) fun e _ => hnone e

lemma keyNames_eq : keyNames entries = keyNames entries' := by
  have hnone : ∀ e : TableEntry, e.isKey = false → e.keyNames = [] := fun e he => by
    cases e with
    | primaryKey => simp [TableEntry.isKey] at he
    | _ => rfl
  exact flatMap_eq_of_filter_eq h.keys (fun e _ => hnone e) fun e _ => hnone e

/-- The foreign keys that leave a column do not depend on the arrangement, if it is left by columns
alone or by clauses alone. -/
lemma keysFrom_eq (hname : ¬ LeavesTwice entries name) :
    keysFrom entries name = keysFrom entries' name := by
  have hmake : ∀ l : List TableEntry, keysFrom l name
      = l.flatMap fun e => e.foreignKey?.toList.filter fun key => name ∈ key.columns := fun l => by
    rw [keysFrom, List.filterMap_eq_flatMap_toList, List.filter_flatMap]
  have hnone : ∀ e : TableEntry, ¬ e.Leaves name →
      (e.foreignKey?.toList.filter fun key => name ∈ key.columns) = [] := fun e he =>
    List.filter_eq_nil_iff.mpr fun key hkey hmem =>
      he ⟨key, Option.mem_toList.mp hkey, of_decide_eq_true hmem⟩
  have hsilent : ∀ e : TableEntry, e.isColumn = false → e.isKey = false → ¬ e.Leaves name := by
    rintro e hcolumn hkey ⟨key, hleaves, -⟩
    cases e <;> simp_all [TableEntry.isColumn, TableEntry.column?, TableEntry.isKey,
      TableEntry.foreignKey?]
  rw [LeavesTwice, not_and_or] at hname
  push Not at hname
  rw [hmake, hmake]
  rcases hname with hcolumns | hkeys
  · have hcolumns' : ∀ e ∈ entries', e.isColumn = true → ¬ e.Leaves name := fun e he hcolumn =>
      hcolumns e (mem_of_filter_eq h.columns he hcolumn) hcolumn
    have hone : ∀ {l : List TableEntry}, (∀ e ∈ l, e.isColumn = true → ¬ e.Leaves name) →
        ∀ e ∈ l, e.isKey = false → _ = [] := fun hl e he hkey => hnone e fun hleaves => by
      cases hcolumn : e.isColumn with
      | true => exact hl e he hcolumn hleaves
      | false => exact hsilent e hcolumn hkey hleaves
    exact flatMap_eq_of_filter_eq h.keys (hone hcolumns) (hone hcolumns')
  · have hkeys' : ∀ e ∈ entries', e.isKey = true → ¬ e.Leaves name := fun e he hkey =>
      hkeys e (mem_of_filter_eq h.keys he hkey) hkey
    have hone : ∀ {l : List TableEntry}, (∀ e ∈ l, e.isKey = true → ¬ e.Leaves name) →
        ∀ e ∈ l, e.isColumn = false → _ = [] := fun hl e he hcolumn => hnone e fun hleaves => by
      cases hkey : e.isKey with
      | true => exact hl e he hkey hleaves
      | false => exact hsilent e hcolumn hkey hleaves
    exact flatMap_eq_of_filter_eq h.columns (hone hkeys) (hone hkeys')

end Rearranged

/-! ### Tables -/

/-- What a column is in two arrangements of entries: the same, but for its mark, unless no primary
key ahead of it lists it in either, and but for what it points at, unless the foreign keys that
leave it come in the same order. -/
structure AgreesIn (entries entries' : List TableEntry) (c c' : Column) : Prop where
  name : c.name = c'.name
  type : c.type = c'.type
  nullable : c.nullable = c'.nullable
  primaryKey : KeyBehind entries c.name → KeyBehind entries' c.name → c.primaryKey = c'.primaryKey
  references : keysFrom entries c.name = keysFrom entries' c.name → c.references = c'.references

lemma forall₂_of_common {α : Type} {R S T : α → α → Prop} {l l' m : List α} (h : List.Forall₂ R l m)
    (h' : List.Forall₂ S l' m) (hT : ∀ a b c, R a c → S b c → T a b) : List.Forall₂ T l l' := by
  induction h generalizing l' with
  | nil =>
      obtain rfl := List.forall₂_nil_right_iff.mp h'
      exact .nil
  | cons hhead _ ih =>
      obtain ⟨b, tail', hb, htail, rfl⟩ := List.forall₂_cons_right_iff.mp h'
      exact .cons (hT _ _ _ hhead hb) (ih htail)

/-- The columns of a table in two arrangements of its entries. -/
theorem Rearranged.forall₂_columns (h : Rearranged entries entries') (table : String) :
    List.Forall₂ (AgreesIn entries entries') (CreateTable.table ⟨table, entries⟩).columns
      (CreateTable.table ⟨table, entries'⟩).columns := by
  have hmarked := forall₂_added [] entries
  have hmarked' := forall₂_added [] entries'
  rw [List.nil_append] at hmarked hmarked'
  rw [← h.keyNames_eq, ← h.filterMap_column?_eq] at hmarked'
  have hadded : List.Forall₂ (fun c c' => AgreesIn entries entries' c c' ∧
      c.references = c'.references)
      (added [] entries) (added [] entries') := by
    refine forall₂_of_common hmarked hmarked' fun c c' m hc hc' => ?_
    have hname := hc.name.trans hc'.name.symm
    have hreferences := hc.references.trans hc'.references.symm
    exact ⟨⟨hname, hc.type.trans hc'.type.symm, hc.nullable.trans hc'.nullable.symm,
      fun hkeys hkeys' => (hc.primaryKey hkeys).trans (hc'.primaryKey (hname ▸ hkeys')).symm,
      fun _ => hreferences⟩, hreferences⟩
  rw [CreateTable.table, CreateTable.table, columns_linkEdges, columns_linkEdges,
    columns_foldl_applyTo, columns_foldl_applyTo]
  refine forall₂_changeFirst hadded (fun c c' hc => hc.1.name) (fun c c' hc => hc.1)
    (fun c c' hc => ?_) []
  rw [foldl_pointAlong_eq, foldl_pointAlong_eq]
  refine ⟨hc.1.name, hc.1.type, hc.1.nullable, hc.1.primaryKey, fun hkeys => ?_⟩
  simp only at hkeys ⊢
  rw [filter_edges, hkeys, ← filter_edges, hc.2, hc.1.name]

/-- The relations that a statement defines: the first ones along their edges. -/
def CreateTable.relations (statement : CreateTable) : List Relation :=
  firstBy Relation.edge statement.edges

/-- The relations from a column, if the foreign keys that leave it come in the same order. -/
lemma filter_relations_eq (hkeys : keysFrom entries name = keysFrom entries' name)
    (table : String) :
    (CreateTable.relations ⟨table, entries⟩).filter (fun e => e.fromColumn == name)
      = (CreateTable.relations ⟨table, entries'⟩).filter fun e => e.fromColumn == name := by
  have hedge : ∀ r s : Relation, r.edge = s.edge →
      (r.fromColumn == name) = (s.fromColumn == name) := fun r s heq => by
    simp only [Relation.edge, Prod.mk.injEq] at heq
    rw [heq.2.1]
  rw [CreateTable.relations, CreateTable.relations, firstBy_filter hedge,
    firstBy_filter hedge, filter_edges, hkeys, ← filter_edges]

/-- Two lists of relations with the same ones from each column differ in their order alone. -/
lemma perm_of_filter_eq {relations relations' : List Relation}
    (h : ∀ name, relations.filter (fun e => e.fromColumn == name)
      = relations'.filter fun e => e.fromColumn == name) : relations.Perm relations' := by
  refine List.perm_iff_count.mpr fun r => ?_
  have hcount : ∀ l : List Relation,
      (l.filter fun e => e.fromColumn == r.fromColumn).count r = l.count r := fun l =>
    List.count_filter (by simp)
  rw [← hcount relations, ← hcount relations', h]

/-- What two statements have in common that list their entries in two arrangements.  A column that
is not left twice is left by the same foreign keys in the same order; from each column for which
these are the same go the same relations, if it is so for all of them the relations differ in their
order alone, and with all the foreign keys in the same order they are the same. -/
structure Agrees (statement statement' : CreateTable) : Prop where
  columns : List.Forall₂ (AgreesIn statement.entries statement'.entries) statement.table.columns
    statement'.table.columns
  keys : ∀ name, ¬ LeavesTwice statement.entries name →
    keysFrom statement.entries name = keysFrom statement'.entries name
  relationsFrom : ∀ name, keysFrom statement.entries name = keysFrom statement'.entries name →
    statement.relations.filter (fun e => e.fromColumn == name)
      = statement'.relations.filter fun e => e.fromColumn == name
  perm : (∀ name, keysFrom statement.entries name = keysFrom statement'.entries name) →
    statement.relations.Perm statement'.relations
  relations : statement.entries.filterMap TableEntry.foreignKey?
      = statement'.entries.filterMap TableEntry.foreignKey? →
    statement.relations = statement'.relations

theorem Rearranged.agrees (h : Rearranged entries entries') (name : String) :
    Agrees ⟨name, entries⟩ ⟨name, entries'⟩ where
  columns := h.forall₂_columns name
  keys _ := h.keysFrom_eq
  relationsFrom _ hkeys := filter_relations_eq hkeys name
  perm hkeys := perm_of_filter_eq fun column => filter_relations_eq (hkeys column) name
  relations hkeys := by
    simp only at hkeys
    rw [CreateTable.relations, CreateTable.relations, CreateTable.edges, CreateTable.edges, hkeys]

/-- Where no primary key stands ahead of a column that it lists, none does that lists any other. -/
lemma keyBehind_of_forall (h : ∀ name ∈ keyNames entries, KeyBehind entries name) (name : String) :
    KeyBehind entries name := by
  intro hcomes hmem
  obtain ⟨e, he, hname⟩ := List.mem_flatMap.mp hmem
  exact h name (List.mem_flatMap.mpr ⟨e, List.takeWhile_subset _ he, hname⟩) hcomes hmem

/-- Where no column that a foreign key leaves is left twice, none is. -/
lemma not_leavesTwice_of_forall
    (h : ∀ key ∈ entries.filterMap TableEntry.foreignKey?, ∀ name ∈ key.columns,
      ¬ LeavesTwice entries name)
    (name : String) : ¬ LeavesTwice entries name := by
  intro htwice
  obtain ⟨⟨e, he, -, key, hkey, hmem⟩, -⟩ := id htwice
  exact h key (List.mem_filterMap.mpr ⟨e, he, hkey⟩) name hmem htwice

/-- Where neither matters, the columns are the same. -/
lemma AgreesIn.eq (h : AgreesIn entries entries' c c') (hbehind : KeyBehind entries c.name)
    (hbehind' : KeyBehind entries' c.name)
    (hkeys : keysFrom entries c.name = keysFrom entries' c.name) :
    c = c' := by
  obtain ⟨name, type, nullable, primaryKey, references⟩ := c
  obtain ⟨name', type', nullable', primaryKey', references'⟩ := c'
  obtain rfl : name = name' := h.name
  obtain rfl : type = type' := h.type
  obtain rfl : nullable = nullable' := h.nullable
  obtain rfl : primaryKey = primaryKey' := h.primaryKey hbehind hbehind'
  obtain rfl : references = references' := h.references hkeys
  rfl

/-! ### Statements -/

/-- Whether an entry of a statement is a clause: it looks like a constraint and can be read as
one. -/
def isClause (text : List Char) : Bool := looksLikeConstraint text && (constraint? text).isSome

/-- Two lists of texts with the same clauses in the same order, and with the same other entries,
which are the columns, in the same order. -/
structure Arranged (texts texts' : List (List Char)) : Prop where
  clauses : texts.filter isClause = texts'.filter isClause
  columns : (texts.filter fun t => !isClause t) = texts'.filter fun t => !isClause t

lemma filter_eq_of_imp {α : Type} {p q : α → Bool} {xs ys : List α} (h : xs.filter p = ys.filter p)
    (himp : ∀ x, q x = true → p x = true) : xs.filter q = ys.filter q := by
  have htwice : ∀ l : List α, l.filter q = (l.filter p).filter q := fun l => by
    rw [List.filter_filter]
    refine List.filter_congr fun x _ => ?_
    cases hx : q x with
    | true => simp [himp x hx]
    | false => rfl
  rw [htwice, h, ← htwice]

/-- A clause adds no column. -/
lemma isColumn_ofText_of_isClause {text : List Char} (h : isClause text = true) :
    (TableEntry.ofText text).isColumn = false := by
  have hclause : ∀ entry ∈ constraint? text, entry.isColumn = false := by
    rw [constraint?]
    repeat' split
    all_goals simp [TableEntry.isColumn, TableEntry.column?]
  rw [isClause, Bool.and_eq_true] at h
  obtain ⟨entry, hentry⟩ := Option.isSome_iff_exists.mp h.2
  rw [TableEntry.ofText, if_pos h.1, hentry, Option.getD_some]
  exact hclause entry hentry

/-- What is no clause is read as a column or not at all. -/
lemma ofText_of_not_isClause {text : List Char} (h : isClause text = false) :
    TableEntry.ofText text = .ofColumnText text := by
  rw [TableEntry.ofText]
  rw [isClause, Bool.and_eq_false_iff, Option.isSome_eq_false_iff, Option.isNone_iff_eq_none] at h
  rcases h with hlooks | hnone
  · rw [hlooks, if_neg Bool.false_ne_true]
  · rw [hnone, Option.getD_none, ite_self]

/-- So it is no key. -/
lemma isKey_ofText_of_not_isClause {text : List Char} (h : isClause text = false) :
    (TableEntry.ofText text).isKey = false := by
  rw [ofText_of_not_isClause h, TableEntry.ofColumnText]
  split <;> rfl

namespace Arranged

variable {texts texts' : List (List Char)} (h : Arranged texts texts')
include h

lemma mem_of_mem {t : List Char} (ht : t ∈ texts') : t ∈ texts := by
  cases hclause : isClause t with
  | true => exact mem_of_filter_eq h.clauses ht hclause
  | false => exact mem_of_filter_eq h.columns ht (by simpa using hclause)

lemma rearranged : Rearranged (texts.map .ofText) (texts'.map .ofText) where
  columns := by
    rw [List.filter_map, List.filter_map]
    refine congrArg _ (filter_eq_of_imp h.columns fun t ht => ?_)
    cases hclause : isClause t with
    | true => simp [isColumn_ofText_of_isClause hclause] at ht
    | false => rfl
  keys := by
    rw [List.filter_map, List.filter_map]
    refine congrArg _ (filter_eq_of_imp h.clauses fun t ht => ?_)
    cases hclause : isClause t with
    | true => rfl
    | false => simp [isKey_ofText_of_not_isClause hclause] at ht

end Arranged

/-- A line of an order, with its keys and its conditions behind its columns. -/
def sampleLine : List (List Char) :=
  ["order_id INT".toList, "line INT NOT NULL".toList, "product INT REFERENCES products(id)".toList,
    "CHECK (line > 0)".toList, "FOREIGN KEY (order_id) REFERENCES orders (id)".toList,
    "UNIQUE (product)".toList, "PRIMARY KEY (order_id, line)".toList]

/-- The same line with its clauses in other places, the primary key still behind its columns. -/
def sampleLineArranged : List (List Char) :=
  ["CHECK (line > 0)".toList, "order_id INT".toList,
    "FOREIGN KEY (order_id) REFERENCES orders (id)".toList, "UNIQUE (product)".toList,
    "line INT NOT NULL".toList, "PRIMARY KEY (order_id, line)".toList,
    "product INT REFERENCES products(id)".toList]

lemma isItem_sampleLine : ∀ t ∈ sampleLine, IsItem t := by
  have hclause : ∀ (clause : SpelledClause) {text : List Char}, clause.Proper → clause.text = text →
      IsItem text := fun _ _ hproper htext => htext ▸ isItem_clause hproper
  let plain : String → SpelledName := fun name => ⟨.plain, name.toList⟩
  have hwords : ∀ u : List Char, IsPlainText u → ∀ r, Calm u ('(' :: r) := fun _ hu _ =>
    hu.calm (Or.inr (by simp; decide))
  have hlist : ∀ {t}, IsItem t → ∀ r, Calm ('(' :: (listed [t] ++ [')'])) r := fun ht _ =>
    calm_parenthesized (List.forall_mem_singleton.mpr ht)
  have hid : IsPlainItem "id".toList := by decide
  have hpositive : IsPlainItem "line > 0".toList := by decide
  simp only [sampleLine, List.forall_mem_cons]
  refine ⟨?_, ?_, ?_, ?_, ?_, ?_, ?_, by simp⟩
  · exact IsPlainItem.isItem (by decide)
  · exact IsPlainItem.isItem (by decide)
  · refine isItem_of_calm (by decide) ⟨by decide, by decide⟩ fun r _ => ?_
    exact (hwords "product INT REFERENCES products".toList (by decide) _).append
      (hlist hid.isItem r)
  · refine isItem_of_calm (by decide) ⟨by decide, by decide⟩ fun r _ => ?_
    exact (hwords "CHECK ".toList (by decide) _).append (hlist hpositive.isItem r)
  · exact hclause (.foreignKey [plain "order_id"] "orders".toList [plain "id"])
      (by decide) (by decide)
  · exact hclause (.unique [plain "product"]) (by decide) (by decide)
  · exact hclause (.primaryKey [plain "order_id", plain "line"]) (by decide) (by decide)

end SchemaReader.Ddl
