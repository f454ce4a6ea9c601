/-
The table of a name in what a text defines: the one that was declared last under the name, and in a
script with the indexes and foreign keys that later statements add to it.

* `lastNamed?`: the last table of a name in a list; `table?_foldl`: steps that each put in a table,
  or none, leave the last one of a name;
* `listed_foldl`, `kept_foldl`: what steps that change a table list in it, and what they keep of it;
* `ModelFile.table?_draft`, `TableModule.table?_draft`, `Ddl.table?_draft`: the tables of the three
  kinds of texts, name by name, with `Ddl.Script.lastCreate?`: the statement that creates a table
  last;
* `table?_ofText`: the tables of a schema are those that its text defines, and each is the one of
  its name.
-/
import Mathlib.Data.List.ReduceOption
import SchemaReader.Proofs.Backing.TableModule
import SchemaReader.Proofs.Schema.Collapse
import SchemaReader.Proofs.Schema.Parts

namespace SchemaReader

variable {name : String}

/-! ### The last table of a name -/

/-- The last table of a name in a list. -/
def lastNamed? (name : String) (tables : List Table) : Option Table :=
  tables.reverse.find? fun table => table.name == name

@[simp]
lemma lastNamed?_nil : lastNamed? name [] = none := rfl

lemma lastNamed?_concat (name : String) (tables : List Table) (table : Table) :
    lastNamed? name (tables ++ [table])
      = if table.name = name then some table else lastNamed? name tables := by
  by_cases hname : table.name = name <;> simp [lastNamed?, hname]

lemma mem_of_lastNamed? {table : Table} {tables : List Table}
    (h : lastNamed? name tables = some table) : table ∈ tables :=
  List.mem_reverse.mp (List.mem_of_find?_eq_some h)

lemma name_of_lastNamed? {table : Table} {tables : List Table}
    (h : lastNamed? name tables = some table) : table.name = name := by
  simpa using List.find?_some h

/-- Steps that each put in a table, or none, leave the last one that was put in under a name. -/
lemma table?_foldl {α : Type} {step : Draft → α → Draft} {added? : α → Option Table}
    (hstep : ∀ d x, (step d x).table? name
      = ((added? x).filter fun table => table.name == name).or (d.table? name))
    (xs : List α) (d : Draft) : (xs.foldl step d).table? name
      = (lastNamed? name (xs.filterMap added?)).or (d.table? name) := by
  induction xs using List.reverseRecOn with
  | nil => simp
  | append_singleton xs x ih =>
      rw [List.foldl_append, List.foldl_cons, List.foldl_nil, hstep, ih, List.filterMap_append]
      cases hadded : added? x with
      | none => simp [hadded]
      | some table =>
          by_cases hname : table.name = name <;>
            simp [hadded, lastNamed?_concat, hname, Option.filter]

@[simp]
lemma table?_note (d : Draft) (notice : Notice) : (d.note notice).table? name = d.table? name := rfl

lemma table?_empty : Draft.empty.table? name = none := rfl

lemma table?_addTable_or (d : Draft) (table : Table) : (d.addTable table).table? name
    = ((some table).filter fun table => table.name == name).or (d.table? name) := by
  rw [table?_addTable]
  by_cases hname : table.name = name <;> simp [hname, Option.filter]

/-! ### Steps that change a table -/

/-- Steps that each append to what a table lists append everything one after the other. -/
lemma listed_foldl {α β : Type} {step : Table → α → Table} (listed : Table → List β)
    (part : String → α → List β) (hname : ∀ t x, (step t x).name = t.name)
    (hstep : ∀ t x, listed (step t x) = listed t ++ part t.name x) (xs : List α) (table : Table) :
    listed (xs.foldl step table) = listed table ++ xs.flatMap (part table.name) := by
  induction xs generalizing table with
  | nil => simp
  | cons x xs ih =>
      rw [List.foldl_cons, ih, hstep, hname, List.append_assoc, List.flatMap_cons]

/-- Steps that each keep something of a table keep it all together. -/
lemma kept_foldl {α β : Type} {step : Table → α → Table} (kept : Table → β)
    (hstep : ∀ t x, kept (step t x) = kept t) (xs : List α) (table : Table) :
    kept (xs.foldl step table) = kept table :=
  List.foldlRecOn (motive := fun t => kept t = kept table) xs _ rfl
    fun t ht x _ => (hstep t x).trans ht

/-! ### Model files -/

namespace ModelFile

/-- The tables that a model file declares, one after the other. -/
def Contents.tables (contents : Contents) : List Table :=
  contents.models.reduceOption.map (Model.table contents.declared)

lemma table?_draft (contents : Contents) (name : String) :
    contents.draft.table? name = lastNamed? name contents.tables := by
  have hstep : ∀ (d : Draft) model, (addModel contents.declared d model).table? name
      = ((model.map (Model.table contents.declared)).filter fun table => table.name == name).or
          (d.table? name) := by
    intro d model
    cases model with
    | none => simp [addModel]
    | some model => simp [addModel, Model.addTo, table?_addTable_or]
  rw [Contents.draft, table?_foldl hstep, table?_empty, Option.or_none, Contents.tables,
    List.reduceOption, List.map_filterMap]
  rfl

end ModelFile

/-! ### Table modules -/

namespace TableModule

lemma table?_entries (contents : Contents) (table : String) (entries : List Entry) (d : Draft) :
    (entries.foldl (Entry.addTo contents table) d).table? name = d.table? name := by
  rw [Draft.table?, (relations_entries contents table entries d).1, Draft.table?]

lemma table?_draft (contents : Contents) (name : String) : contents.draft.table? name
    = lastNamed? name (contents.tables.map (TableCall.table contents)) := by
  have hstep : ∀ (d : Draft) (call : TableCall), (call.addTo contents d).table? name
      = ((some (call.table contents)).filter fun table => table.name == name).or
          (d.table? name) := by
    intro d call
    simp [TableCall.addTo, table?_addTable_or, table?_entries]
  rw [Contents.draft, Draft.table?_addRelations, table?_foldl hstep, Draft.table?_noteAll,
    table?_empty, Option.or_none, List.filterMap_eq_map']

end TableModule

/-! ### Scripts -/

namespace Ddl

/-- The tables that a script creates, one after the other. -/
def Script.createdTables (script : Script) : List Table :=
  script.tables.reduceOption.map CreateTable.table

/-- The last statement of a script that creates a table of a name. -/
def Script.lastCreate? (script : Script) (table : String) : Option CreateTable :=
  script.tables.reduceOption.reverse.find? fun statement => statement.name == table

lemma lastNamed?_createdTables (script : Script) (name : String) :
    lastNamed? name script.createdTables = (script.lastCreate? name).map CreateTable.table := by
  rw [lastNamed?, Script.createdTables, Script.lastCreate?, ← List.map_reverse, List.find?_map,
    Function.comp_def]
  simp

/-- A table with an index that a statement creates on it. -/
def CreateIndex.amend (table : Table) (statement : CreateIndex) : Table :=
  addNamedIndex statement.name statement.columns statement.unique table

/-- A table with a foreign key that a statement adds to it. -/
def AddForeignKey.amend (table : Table) (statement : AddForeignKey) : Table :=
  linkEdges (statement.key.edges statement.table) table

/-- A created table with the indexes and then the foreign keys that a script adds to it. -/
def Script.amend (script : Script) (table : Table) : Table :=
  (script.foreignKeys.filter fun statement => statement.table == table.name).foldl
    AddForeignKey.amend
    ((script.indexes.filter fun statement => statement.table == table.name).foldl
      CreateIndex.amend table)

lemma table?_amendTable (d : Draft) (target : String) {change : Table → Table}
    (hchange : ∀ t, (change t).name = t.name) (rs : List Relation) (notice : Notice) :
    (d.amendTable target change rs notice).table? name
      = (d.table? name).map fun table => if target = name then change table else table := by
  rw [Draft.amendTable]
  by_cases hname : target = name
  · subst hname
    cases htable : d.table? target with
    | none => simp [htable]
    | some table =>
        rw [if_pos (by rfl), Draft.table?_addRelations, table?_updateTable _ _ _ hchange]
        simp [htable]
  · simp only [if_neg hname, Option.map_id_fun', id_eq]
    split
    · rw [Draft.table?_addRelations, table?_updateTable _ _ _ hchange, if_neg hname]
    · rfl

lemma table?_createIndex (d : Draft) (statement : CreateIndex) : (statement.addTo d).table? name
    = (d.table? name).map fun table =>
        if statement.table = name then statement.amend table else table := by
  rw [statement.addTo_eq]
  exact table?_amendTable d statement.table (name_addNamedIndex _ _ _) _ _

lemma table?_addForeignKey (d : Draft) (statement : AddForeignKey) :
    (statement.addTo d).table? name = (d.table? name).map fun table =>
        if statement.table = name then statement.amend table else table := by
  rw [statement.addTo_eq]
  exact table?_amendTable d statement.table (name_linkEdges _) _ _

/-- Statements that each change the table that they name, if it is there, change the table of a name
one after the other. -/
lemma table?_amend {α : Type} {step : Draft → α → Draft} {target : α → String}
    {amend : Table → α → Table}
    (hstep : ∀ d x, (step d x).table? name
      = (d.table? name).map fun table => if target x = name then amend table x else table)
    (xs : List α) (d : Draft) : (xs.foldl step d).table? name
      = (d.table? name).map fun table =>
          (xs.filter fun x => target x == name).foldl amend table := by
  induction xs generalizing d with
  | nil => simp
  | cons x xs ih =>
      rw [List.foldl_cons, ih, hstep, Option.map_map]
      by_cases hname : target x = name
      · simp [hname, Function.comp_def]
      · simp [hname, Function.comp_def]

lemma table?_created (script : Script) (name : String) :
    (script.tables.foldl addCreated .empty).table? name = lastNamed? name script.createdTables := by
  have hstep : ∀ (d : Draft) statement, (addCreated d statement).table? name
      = ((statement.map CreateTable.table).filter fun table => table.name == name).or
          (d.table? name) := by
    intro d statement
    cases statement with
    | none => simp [addCreated]
    | some statement => simp [addCreated, CreateTable.addTo, table?_addTable_or]
  rw [table?_foldl hstep, table?_empty, Option.or_none, Script.createdTables, List.reduceOption,
    List.map_filterMap]
  rfl

lemma table?_draft (script : Script) (name : String) :
    script.draft.table? name = (lastNamed? name script.createdTables).map script.amend := by
  rw [Script.draft, table?_amend table?_addForeignKey, table?_amend table?_createIndex,
    table?_created, Option.map_map]
  refine Option.map_congr fun table htable => ?_
  rw [Script.amend, name_of_lastNamed? htable, Function.comp_apply]

end Ddl

/-! ### Schemas -/

lemma table?_ofText (source : Source) (text : List Char) (rawPath name : String) :
    (Schema.ofText source text rawPath).table? name
      = (source.draft? text).bind fun draft => draft.table? name := by
  rw [Schema.ofText, Schema.ofTextNoted]
  cases source.draft? text <;> rfl

/-- Each table of a schema is the one of its name. -/
lemma mem_tables_ofText {source : Source} {text : List Char} {rawPath : String} {table : Table} :
    table ∈ (Schema.ofText source text rawPath).tables
      ↔ (Schema.ofText source text rawPath).table? table.name = some table := by
  rw [Schema.table?]
  refine ⟨fun h => ?_, List.mem_of_find?_eq_some⟩
  have hnodup := (nodup_ofText source text rawPath).1
  generalize (Schema.ofText source text rawPath).tables = tables at h hnodup
  induction tables with
  | nil => simp at h
  | cons t rest ih =>
      rw [List.map_cons, List.nodup_cons] at hnodup
      rcases List.mem_cons.mp h with rfl | h
      · simp
      · have hname : t.name ≠ table.name := fun heq =>
          hnodup.1 (heq ▸ List.mem_map_of_mem h)
        rw [List.find?_cons_of_neg (by simpa using hname), ih h hnodup.2]

end SchemaReader
