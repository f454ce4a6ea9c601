/-
Runs of steps that build a draft.

* `TableEdit`, `DraftStep`: a change of one table where it stands, and a step that builds a draft;
  `runSteps` takes one step after the other from nothing on;
* `firstBy`: the members of a list that are the first of their key;
* `names_runSteps`, `table?_runSteps`: the names come in the order in which they were first added,
  and a table holds what was last added under its name, with the edits since then;
* `Draft.Records`: the relations of a draft are the first of those that were added, edge by edge;
* `relations_runSteps`, `addRelation_runSteps`: of the relations along one edge the first is kept;
* `Draft.Distinct`: no two tables of one name and no two relations along one edge, which every step
  that builds a draft preserves.
-/
import Mathlib.Data.List.Induction
import SchemaReader.Proofs.Backing.Table
import SchemaReader.Proofs.Schema.Distinct

namespace SchemaReader

/-! ### Steps -/

/-- A change of a table where it stands. -/
inductive TableEdit where
  | addColumn (column : Column)
  | addIndex (index : Index)
  | markPrimaryKey (names : List String)
  /-- What a column points at is set or taken away. -/
  | setReference (column : String) (reference : Option Reference)
  deriving DecidableEq, Repr

/-- A table after a change. -/
def TableEdit.applyTo (table : Table) : TableEdit → Table
  | .addColumn column => table.addColumn column
  | .addIndex index => table.addIndex index
  | .markPrimaryKey names => table.markPrimaryKey names
  | .setReference column reference => table.setReference column reference

/-- A step that builds a draft. -/
inductive DraftStep where
  | addTable (table : Table)
  | addRelation (relation : Relation)
  /-- A change of the table of a name, if there is one. -/
  | edit (table : String) (change : TableEdit)
  deriving DecidableEq, Repr

/-- A draft after one more step. -/
def DraftStep.applyTo (draft : Draft) : DraftStep → Draft
  | .addTable table => draft.addTable table
  | .addRelation relation => (draft.addRelation relation).1
  | .edit table change => draft.updateTable table fun t => change.applyTo t

/-- The draft that steps build from nothing. -/
def runSteps (steps : List DraftStep) : Draft := steps.foldl DraftStep.applyTo .empty

/-- The table that a step adds. -/
def DraftStep.added? : DraftStep → Option Table
  | .addTable table => some table
  | _ => none

/-- The relation that a step tries to add. -/
def DraftStep.relation? : DraftStep → Option Relation
  | .addRelation relation => some relation
  | _ => none

/-- What a step changes about the table of a name. -/
def DraftStep.editOf? (name : String) : DraftStep → Option TableEdit
  | .edit table change => if table = name then some change else none
  | _ => none

@[simp]
lemma runSteps_concat (steps : List DraftStep) (step : DraftStep) :
    runSteps (steps ++ [step]) = step.applyTo (runSteps steps) := by
  simp [runSteps]

@[simp]
lemma name_applyTo (table : Table) (edit : TableEdit) : (edit.applyTo table).name = table.name := by
  cases edit with
  | markPrimaryKey names => exact Table.name_markPrimaryKey names
  | addColumn | addIndex | setReference => rfl

/-! ### First ones -/

section FirstBy

variable {α κ : Type} [DecidableEq κ]

/-- The members of a list that are the first of their key, in order: a member stays unless an
earlier one has its key. -/
def firstBy (key : α → κ) (xs : List α) : List α :=
  xs.zipIdx.filterMap fun p => if key p.1 ∈ (xs.take p.2).map key then none else some p.1

variable {key : α → κ} {xs : List α} {x : α}

lemma firstBy_concat (key : α → κ) (xs : List α) (x : α) :
    firstBy key (xs ++ [x]) = firstBy key xs ++ if key x ∈ xs.map key then [] else [x] := by
  have hbefore : ∀ p ∈ xs.zipIdx, (xs ++ [x]).take p.2 = xs.take p.2 := by
    intro p hp
    have hlt : p.2 < xs.length := by simpa using List.snd_lt_of_mem_zipIdx hp
    exact List.take_append_of_le_length (Nat.le_of_lt hlt)
  rw [firstBy, List.zipIdx_append, List.filterMap_append, firstBy]
  congr 1
  · exact List.filterMap_congr fun p hp => by rw [hbefore p hp]
  · by_cases hx : key x ∈ xs.map key
    · simp [hx]
    · simp [hx]

lemma mem_keys_firstBy {k : κ} : k ∈ (firstBy key xs).map key ↔ k ∈ xs.map key := by
  induction xs using List.reverseRecOn with
  | nil => simp [firstBy]
  | append_singleton xs x ih =>
      rw [firstBy_concat, List.map_append, List.mem_append, ih, List.map_append, List.mem_append]
      by_cases hx : key x ∈ xs.map key
      · have hk : k ∈ [x].map key → k ∈ xs.map key := by
          intro hk
          obtain rfl : k = key x := by simpa using hk
          exact hx
        simpa [hx] using hk
      · simp [hx]

lemma nodup_keys_firstBy (key : α → κ) (xs : List α) : ((firstBy key xs).map key).Nodup := by
  induction xs using List.reverseRecOn with
  | nil => simp [firstBy]
  | append_singleton xs x ih =>
      rw [firstBy_concat]
      by_cases hx : key x ∈ xs.map key
      · simpa [hx] using ih
      · rw [if_neg hx, List.map_append, List.nodup_append]
        refine ⟨ih, by simp, fun k hk l hl => ?_⟩
        obtain rfl : l = key x := by simpa using hl
        rintro rfl
        exact hx (mem_keys_firstBy.mp hk)

/-- Where no key comes twice, all members are the first of theirs. -/
lemma firstBy_of_nodup (h : (xs.map key).Nodup) : firstBy key xs = xs := by
  induction xs using List.reverseRecOn with
  | nil => rfl
  | append_singleton xs x ih =>
      rw [List.map_append, List.nodup_append] at h
      rw [firstBy_concat, ih h.1, if_neg fun hx => h.2.2 _ hx (key x) (by simp) rfl]

end FirstBy

/-! ### Names of tables -/

variable {d : Draft} {steps before after : List DraftStep} {table : Table} {tables : List Table}
  {name : String}

lemma names_putTable (table : Table) (tables : List Table) :
    (putTable table tables).map Table.name
      = tables.map Table.name ++ if table.name ∈ tables.map Table.name then []
        else [table.name] := by
  induction tables with
  | nil => rfl
  | cons t rest ih =>
      rw [putTable]
      by_cases hname : t.name = table.name
      · simp [hname]
      · have hname' : table.name ≠ t.name := fun h => hname h.symm
        simp [hname, hname', ih]

lemma names_updateFirstTable (name : String) {change : Table → Table}
    (hchange : ∀ t, (change t).name = t.name) (tables : List Table) :
    (updateFirstTable name change tables).map Table.name = tables.map Table.name := by
  induction tables with
  | nil => rfl
  | cons t rest ih =>
      rw [updateFirstTable]
      split
      · simp [hchange]
      · simp [ih]

/-- The names of the tables are in the order in which they were first added. -/
lemma names_runSteps (steps : List DraftStep) : (runSteps steps).tables.map Table.name
    = (firstBy Table.name (steps.filterMap DraftStep.added?)).map Table.name := by
  induction steps using List.reverseRecOn with
  | nil => rfl
  | append_singleton steps step ih =>
      rw [runSteps_concat, List.filterMap_append]
      cases step with
      | addTable table =>
          simp only [DraftStep.applyTo, tables_addTable, names_putTable, ih, List.filterMap_cons,
            DraftStep.added?, List.filterMap_nil, firstBy_concat, List.map_append, mem_keys_firstBy]
          split <;> rfl
      | addRelation relation =>
          simpa [DraftStep.applyTo, List.filterMap_cons, DraftStep.added?] using ih
      | edit target change =>
          rw [DraftStep.applyTo, tables_updateTable,
            names_updateFirstTable _ (fun t => name_applyTo t change), ih]
          simp [List.filterMap_cons, DraftStep.added?]

lemma nodup_names_runSteps (steps : List DraftStep) :
    ((runSteps steps).tables.map Table.name).Nodup := by
  rw [names_runSteps]
  exact nodup_keys_firstBy _ _

/-! ### Contents of tables -/

lemma find?_putTable (table : Table) (tables : List Table) (name : String) :
    (putTable table tables).find? (fun t => t.name == name)
      = if table.name = name then some table else tables.find? fun t => t.name == name := by
  induction tables with
  | nil => by_cases hname : table.name = name <;> simp [putTable, hname]
  | cons t rest ih =>
      rw [putTable]
      by_cases ht : t.name = table.name
      · by_cases hname : table.name = name <;> simp [ht, hname]
      · by_cases hname : t.name = name
        · have hne : table.name ≠ name := fun h => ht (hname.trans h.symm)
          rw [if_neg (by simpa using ht), if_neg hne]
          simp [hname]
        · simp [ht, hname, ih]

lemma find?_updateFirstTable (target name : String) {change : Table → Table}
    (hchange : ∀ t, (change t).name = t.name) (tables : List Table) :
    (updateFirstTable target change tables).find? (fun t => t.name == name)
      = if target = name then (tables.find? fun t => t.name == name).map change
        else tables.find? fun t => t.name == name := by
  induction tables with
  | nil => simp [updateFirstTable]
  | cons t rest ih =>
      rw [updateFirstTable]
      by_cases ht : t.name = target
      · by_cases hname : target = name
        · simp [ht, hname, hchange]
        · simp [ht, hname, hchange]
      · by_cases hname : t.name = name
        · have hne : target ≠ name := fun h => ht (hname.trans h.symm)
          rw [if_neg (by simpa using ht), if_neg hne]
          simp [hname]
        · simp [ht, hname, ih]

lemma table?_updateTable (d : Draft) (target name : String) {change : Table → Table}
    (hchange : ∀ t, (change t).name = t.name) : (d.updateTable target change).table? name
      = if target = name then (d.table? name).map change else d.table? name :=
  find?_updateFirstTable target name hchange d.tables

lemma table?_addTable (d : Draft) (table : Table) (name : String) :
    (d.addTable table).table? name
      = if table.name = name then some table else d.table? name :=
  find?_putTable table d.tables name

/-- A step that adds no table of a name leaves the table of the name as it is, up to the change that
the step makes to it. -/
lemma table?_applyTo (d : Draft) {step : DraftStep}
    (h : ∀ t ∈ step.added?, t.name ≠ name) : (step.applyTo d).table? name
      = (d.table? name).map fun t => (step.editOf? name).toList.foldl TableEdit.applyTo t := by
  cases step with
  | addTable table =>
      have hname : table.name ≠ name := h table rfl
      simp [DraftStep.applyTo, table?_addTable, hname, DraftStep.editOf?]
  | addRelation relation => simp [DraftStep.applyTo, Draft.table?, DraftStep.editOf?]
  | edit target change =>
      rw [DraftStep.applyTo, table?_updateTable _ _ _ fun t => name_applyTo t change]
      by_cases htarget : target = name
      · simp [htarget, DraftStep.editOf?]
      · simp [htarget, DraftStep.editOf?]

/-- A table holds what was last added under its name, with the changes made to it since then. -/
lemma table?_runSteps (before : List DraftStep) (table : Table)
    (hlast : ∀ t, .addTable t ∈ after → t.name ≠ table.name) :
    (runSteps (before ++ .addTable table :: after)).table? table.name
      = some ((after.filterMap (DraftStep.editOf? table.name)).foldl TableEdit.applyTo table) := by
  induction after using List.reverseRecOn with
  | nil => simp [DraftStep.applyTo, table?_addTable]
  | append_singleton after step ih =>
      have hsteps : before ++ .addTable table :: (after ++ [step])
          = (before ++ .addTable table :: after) ++ [step] := by simp
      have hstep : ∀ t ∈ step.added?, t.name ≠ table.name := by
        intro t ht
        refine hlast t (List.mem_append_right _ (List.mem_singleton.mpr ?_))
        cases step with
        | addTable => exact congrArg DraftStep.addTable (Option.some.inj ht).symm
        | addRelation | edit => simp [DraftStep.added?] at ht
      rw [hsteps, runSteps_concat, table?_applyTo _ hstep,
        ih fun t ht => hlast t (List.mem_append_left _ ht)]
      rw [List.filterMap_append, List.foldl_append]
      cases hedit : step.editOf? table.name <;> simp [hedit]

/-- A change of the table of a name changes no other table. -/
lemma tables_edit (steps : List DraftStep) (name : String) (change : TableEdit) :
    (runSteps (steps ++ [.edit name change])).tables
      = (runSteps steps).tables.map fun t => if t.name = name then change.applyTo t else t := by
  rw [runSteps_concat, DraftStep.applyTo, tables_updateTable_of_nodup (nodup_names_runSteps steps)]

/-! ### Relations -/

/-- The edge that a relation runs along. -/
def Relation.edge (r : Relation) : String × String × String :=
  (r.fromTable, r.fromColumn, r.toTable)

lemma sameEdge_iff {r s : Relation} : r.sameEdge s = true ↔ r.edge = s.edge := by
  simp [Relation.sameEdge, Relation.edge, and_assoc]

lemma hasEdge_iff {r : Relation} :
    d.hasEdge r = true ↔ r.edge ∈ d.relations.map Relation.edge := by
  simp [Draft.hasEdge, sameEdge_iff]

lemma relations_addRelation (d : Draft) (r : Relation) : (d.addRelation r).1.relations
    = d.relations ++ if r.edge ∈ d.relations.map Relation.edge then [] else [r] := by
  rw [Draft.addRelation]
  by_cases hedge : d.hasEdge r = true
  · rw [if_pos hedge, if_pos (hasEdge_iff.mp hedge), List.append_nil, relations_note]
  · rw [if_neg hedge, if_neg (mt hasEdge_iff.mpr hedge)]

/-- The relations of a draft are the first along their edges of those that were added. -/
def Draft.Records (d : Draft) (added : List Relation) : Prop :=
  d.relations = firstBy Relation.edge added

lemma Draft.Records.addRelation {rs : List Relation} (h : d.Records rs) (r : Relation) :
    (d.addRelation r).1.Records (rs ++ [r]) := by
  rw [Draft.Records, relations_addRelation, h, firstBy_concat]
  simp only [mem_keys_firstBy]
  split <;> rfl

lemma Draft.Records.addRelations {rs : List Relation} (h : d.Records rs) (added : List Relation) :
    (d.addRelations added).Records (rs ++ added) := by
  induction added generalizing d rs with
  | nil => simpa [Draft.addRelations] using h
  | cons r added ih => simpa [Draft.addRelations] using ih (h.addRelation r)

/-- The relations are those of the added ones that are the first along their edge. -/
lemma relations_runSteps (steps : List DraftStep) : (runSteps steps).relations
    = firstBy Relation.edge (steps.filterMap DraftStep.relation?) := by
  induction steps using List.reverseRecOn with
  | nil => rfl
  | append_singleton steps step ih =>
      rw [runSteps_concat, List.filterMap_append]
      cases step with
      | addRelation relation =>
          simp only [DraftStep.applyTo, relations_addRelation, ih, List.filterMap_cons,
            DraftStep.relation?, List.filterMap_nil, firstBy_concat, mem_keys_firstBy]
          split <;> rfl
      | addTable table =>
          simpa [DraftStep.applyTo, List.filterMap_cons, DraftStep.relation?] using ih
      | edit target change =>
          simpa [DraftStep.applyTo, List.filterMap_cons, DraftStep.relation?] using ih

/-- A relation is added unless one along its edge was to be added before. -/
lemma addRelation_runSteps (steps : List DraftStep) (relation : Relation) :
    ((runSteps steps).addRelation relation).2 = true
      ↔ relation.edge ∉ (steps.filterMap DraftStep.relation?).map Relation.edge := by
  rw [← mem_keys_firstBy, ← relations_runSteps, ← hasEdge_iff, Draft.addRelation]
  split
  · next hedge => simp [hedge]
  · next hedge => simp [hedge]

/-! ### Distinct tables and relations -/

/-- No two tables have the same name, and no two relations run along the same edge. -/
structure Draft.Distinct (d : Draft) : Prop where
  tables : (d.tables.map Table.name).Nodup
  relations : (d.relations.map Relation.edge).Nodup

namespace Draft

lemma distinct_empty : Draft.empty.Distinct := ⟨by simp [empty], by simp [empty]⟩

lemma Distinct.note (h : d.Distinct) (notice : Notice) : (d.note notice).Distinct :=
  ⟨h.tables, h.relations⟩

lemma Distinct.noteAll (h : d.Distinct) (notices : List Notice) : (d.noteAll notices).Distinct :=
  ⟨by simpa using h.tables, by simpa using h.relations⟩

lemma Distinct.addTable (h : d.Distinct) (table : Table) : (d.addTable table).Distinct := by
  refine ⟨?_, h.relations⟩
  rw [tables_addTable, names_putTable]
  split
  · simpa using h.tables
  · next hname => exact List.Nodup.append h.tables (by simp) (by simpa using hname)

lemma Distinct.updateTable (h : d.Distinct) (name : String) {change : Table → Table}
    (hchange : ∀ t, (change t).name = t.name) : (d.updateTable name change).Distinct :=
  ⟨by simpa [names_updateFirstTable name hchange] using h.tables, h.relations⟩

lemma Distinct.addRelation (h : d.Distinct) (r : Relation) : (d.addRelation r).1.Distinct := by
  refine ⟨by simpa using h.tables, ?_⟩
  rw [relations_addRelation]
  split
  · simpa using h.relations
  · next hedge =>
      rw [List.map_append]
      exact List.Nodup.append h.relations (by simp) (by simpa using hedge)

lemma Distinct.addRelations (h : d.Distinct) (rs : List Relation) : (d.addRelations rs).Distinct :=
  List.foldlRecOn (motive := Draft.Distinct) rs _ h fun _ hd r _ => hd.addRelation r

lemma Distinct.amendTable (h : d.Distinct) (target : String) {change : Table → Table}
    (hchange : ∀ t, (change t).name = t.name) (rs : List Relation) (notice : Notice) :
    (d.amendTable target change rs notice).Distinct := by
  rw [Draft.amendTable]
  split
  · exact (h.updateTable target hchange).addRelations rs
  · exact h.note notice

end Draft

end SchemaReader
