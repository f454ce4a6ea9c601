/-
Indexes without columns.

* `Table.bareIndexes`: the indexes of a table that have no column, with what each change of a table
  does to them;
* `ModelFile.bareIndexes_table`, `TableModule.bareIndexes_table`: model files and table modules make
  none;
* `Ddl.Script.bareIndexes`: those of a script, from index clauses and from statements that create an
  index, where neither lists a column;
* `bareIndexes_ofText`: the schema of a text has exactly these.
-/
import SchemaReader.Proofs.Schema.LastDeclared

namespace SchemaReader

namespace Table

/-- The indexes of a table that have no column. -/
def bareIndexes (table : Table) : List Index :=
  table.indexes.filter fun index => index.columns.isEmpty

@[simp]
lemma bareIndexes_empty (name : String) : (Table.empty name).bareIndexes = [] := rfl

@[simp]
lemma bareIndexes_addColumn (table : Table) (column : Column) :
    (table.addColumn column).bareIndexes = table.bareIndexes := rfl

lemma bareIndexes_addIndex (table : Table) (index : Index) : (table.addIndex index).bareIndexes
    = table.bareIndexes ++ if index.columns.isEmpty then [index] else [] := by
  rw [bareIndexes, bareIndexes, addIndex, List.filter_append]
  by_cases hcolumns : index.columns.isEmpty = true <;> simp [hcolumns]

@[simp]
lemma bareIndexes_uniqueColumn (table : Table) (name column : String) :
    (table.addIndex (.uniqueColumn name column)).bareIndexes = table.bareIndexes := by
  simp [bareIndexes_addIndex, Index.uniqueColumn]

@[simp]
lemma bareIndexes_markPrimaryKey (table : Table) (names : List String) :
    (table.markPrimaryKey names).bareIndexes = table.bareIndexes := by
  rw [markPrimaryKey, kept_foldl bareIndexes]
  exact fun _ _ => rfl

/-- All indexes of a table have columns if none is bare. -/
lemma bareIndexes_eq_nil {table : Table} :
    table.bareIndexes = [] ↔ ∀ index ∈ table.indexes, index.columns ≠ [] := by
  simp [bareIndexes]

end Table

/-! ### Model files -/

namespace ModelFile

/-- An index of a model that is read lists a column. -/
lemma columns_ne_nil_of_ofLine? {line : List Char} {name : Option String} {columns : List String}
    {unique : Bool} (h : BlockAttribute.ofLine? line = some (.index name columns unique)) :
    columns ≠ [] := by
  rw [BlockAttribute.ofLine?] at h
  split at h
  · cases h
  · dsimp only at h
    split at h
    · cases h
    · cases h
    · next hne _ =>
        split at h
        · cases h
        · cases h
          exact hne

/-- An attribute that is read leaves no index without columns. -/
lemma bareIndexes_applyTo {line : List Char} {declared : BlockAttribute}
    (h : BlockAttribute.ofLine? line = some declared) (table : Table) :
    (declared.applyTo table).bareIndexes = table.bareIndexes := by
  cases declared with
  | id columns => exact table.bareIndexes_markPrimaryKey columns
  | index index columns unique =>
      have hcolumns : columns.isEmpty = false := by simpa using columns_ne_nil_of_ofLine? h
      simp [BlockAttribute.applyTo, Table.bareIndexes_addIndex, hcolumns]
  | withoutColumns => rfl

/-- A line that declares something is read as an attribute. -/
lemma exists_ofLine?_of_ofText {text : List Char} {declared : BlockAttribute}
    (h : Line.ofText text = .blockAttribute (some declared)) :
    ∃ line, BlockAttribute.ofLine? line = some declared := by
  simp only [Line.ofText] at h
  split at h
  · cases h
  · split at h
    · exact ⟨_, Line.blockAttribute.inj h⟩
    · split at h <;> cases h

/-- The attributes of a model whose lines are read from texts are read themselves. -/
lemma exists_ofLine?_of_mem_attributes {model : Model} {declared : BlockAttribute}
    (hlines : ∀ line ∈ model.lines, ∃ text, line = Line.ofText text)
    (h : declared ∈ model.attributes) : ∃ line, BlockAttribute.ofLine? line = some declared := by
  obtain ⟨line, hline, hdeclared⟩ := List.mem_filterMap.mp h
  obtain ⟨text, rfl⟩ := hlines line hline
  cases hread : Line.ofText text with
  | blockAttribute found =>
      rw [hread] at hdeclared
      exact exists_ofLine?_of_ofText (hread.trans (congrArg Line.blockAttribute hdeclared))
  | blank | field | unrecognized => simp [hread] at hdeclared

lemma bareIndexes_addField (declared : List String) (keys : List (String × Reference))
    (table : Table) (field : Field) :
    (addField declared keys table field).bareIndexes = table.bareIndexes := by
  rw [addField]
  split
  · rfl
  · dsimp only
    split <;> simp

lemma bareIndexes_table (declared : List String) {model : Model}
    (hlines : ∀ line ∈ model.lines, ∃ text, line = Line.ofText text) :
    (model.table declared).bareIndexes = [] := by
  rw [Model.table]
  refine List.foldlRecOn (motive := fun t : Table => t.bareIndexes = []) model.attributes _ ?_
    fun t ht declared hdeclared => ?_
  · exact kept_foldl Table.bareIndexes (bareIndexes_addField declared _) model.fields _
  · obtain ⟨line, hline⟩ := exists_ofLine?_of_mem_attributes hlines hdeclared
    rw [bareIndexes_applyTo hline, ht]

/-- The models of a text have lines that are read from texts. -/
lemma lines_ofText {text : List Char} {model : Model}
    (h : model ∈ (Contents.ofText text).models.reduceOption) :
    ∀ line ∈ model.lines, ∃ text, line = Line.ofText text := by
  obtain ⟨found, -, hmodel⟩ := List.mem_map.mp (List.reduceOption_mem_iff.mp h)
  obtain ⟨inner, -, rfl⟩ := Option.map_eq_some_iff.mp hmodel
  intro line hline
  obtain ⟨text, -, rfl⟩ := List.mem_map.mp hline
  exact ⟨text, rfl⟩

end ModelFile

/-! ### Table modules -/

namespace TableModule

/-- An index of a callback that is read lists a column. -/
lemma columns_ne_nil_of_ofMatch? {found : Match} {call : IndexCall}
    (h : IndexCall.ofMatch? found = some call) : call.columns ≠ [] := by
  obtain ⟨arguments, -, hcall⟩ := Option.bind_eq_some_iff.mp h
  dsimp only at hcall
  split at hcall
  · cases hcall
  · next hcolumns =>
      cases hcall
      simpa using hcolumns

lemma bareIndexes_callback (table : Table) (text : List Char) :
    ((Callback.ofText text).applyTo table).bareIndexes = table.bareIndexes := by
  rw [Callback.applyTo, kept_foldl Table.bareIndexes Table.bareIndexes_markPrimaryKey]
  refine List.foldlRecOn (motive := fun t : Table => t.bareIndexes = table.bareIndexes)
    (Callback.ofText text).indexes _ rfl fun t ht call hcall => ?_
  obtain ⟨found, -, hread⟩ := List.mem_filterMap.mp hcall
  have hcolumns : call.columns.isEmpty = false := by simpa using columns_ne_nil_of_ofMatch? hread
  simp [addIndexCall, Table.bareIndexes_addIndex, hcolumns, ht]

lemma bareIndexes_applyTo (contents : Contents) (table : Table) (entry : Entry) :
    (entry.applyTo contents table).bareIndexes = table.bareIndexes := by
  cases entry with
  | column entry =>
      simp only [Entry.applyTo]
      split <;> simp
  | unterminated => rfl
  | unrecognized => rfl

lemma bareIndexes_table (contents : Contents) {call : TableCall}
    (hcallbacks : ∀ callback ∈ call.callbacks, ∃ text, callback = Callback.ofText text) :
    (call.table contents).bareIndexes = [] := by
  rw [TableCall.table]
  refine List.foldlRecOn (motive := fun t : Table => t.bareIndexes = []) call.callbacks _ ?_
    fun t ht callback hcallback => ?_
  · exact kept_foldl Table.bareIndexes (bareIndexes_applyTo contents) call.entries _
  · obtain ⟨text, rfl⟩ := hcallbacks callback hcallback
    rw [bareIndexes_callback, ht]

/-- A table call that is read has callbacks that are read from texts. -/
lemma exists_ofText_of_mem_callbacks {binding : String} {arguments : List (List Char)}
    {call : TableCall} (h : TableCall.ofArguments binding arguments = .ok call) :
    ∀ callback ∈ call.callbacks, ∃ text, callback = Callback.ofText text := by
  rw [TableCall.ofArguments] at h
  split at h
  · cases h
  · split at h
    · cases h
      intro callback hcallback
      obtain ⟨text, -, rfl⟩ := List.mem_map.mp hcallback
      exact ⟨text, rfl⟩
    · cases h

/-- The table calls of a text have callbacks that are read from texts. -/
lemma callbacks_ofText {text : List Char} {call : TableCall}
    (h : call ∈ (Contents.ofText text).tables) :
    ∀ callback ∈ call.callbacks, ∃ text, callback = Callback.ofText text := by
  obtain ⟨outcome, houtcome, hcall⟩ := List.mem_filterMap.mp h
  obtain ⟨found, -, hread⟩ := List.mem_map.mp houtcome
  cases outcome with
  | error fault => cases hcall
  | ok read =>
      obtain rfl : read = call := Option.some.inj hcall
      rw [TableCall.ofMatch] at hread
      split at hread
      · cases hread
      · exact exists_ofText_of_mem_callbacks hread

end TableModule

/-! ### Scripts -/

namespace Ddl

/-- The index without columns that an index clause of a table makes if it lists none. -/
def TableEntry.bareIndex? (table : String) : TableEntry → Option Index
  | .index name [] => some ⟨name.getD (Index.defaultName table [] false), [], false⟩
  | _ => none

/-- The index without columns that a statement creates if it lists none. -/
def CreateIndex.bareIndex? (statement : CreateIndex) : Option Index :=
  if statement.columns.isEmpty then
    some ⟨statement.name.getD (Index.defaultName statement.table [] statement.unique), [],
      statement.unique⟩
  else none

/-- The indexes without columns that a script gives a table: those of the index clauses without
columns in the statement that last creates it, then those of the statements that create an index on
it without columns. -/
def Script.bareIndexes (script : Script) (table : String) : List Index :=
  ((script.lastCreate? table).toList.flatMap fun statement =>
    statement.entries.filterMap (TableEntry.bareIndex? table)) ++
  (script.indexes.filter fun statement => statement.table == table).filterMap
    CreateIndex.bareIndex?

lemma bareIndexes_applyTo (table : Table) (entry : TableEntry) :
    (entry.applyTo table).bareIndexes
      = table.bareIndexes ++ (entry.bareIndex? table.name).toList := by
  cases entry with
  | column entry =>
      simp only [TableEntry.applyTo]
      split <;> simp [TableEntry.bareIndex?]
  | primaryKey columns => simp [TableEntry.applyTo, TableEntry.bareIndex?]
  | unique name columns =>
      cases columns <;>
        simp [TableEntry.applyTo, TableEntry.bareIndex?, addNamedIndex, Table.bareIndexes_addIndex]
  | index name columns =>
      cases columns <;>
        simp [TableEntry.applyTo, TableEntry.bareIndex?, addNamedIndex, Table.bareIndexes_addIndex]
  | foreignKey | otherConstraint | unrecognized =>
      simp [TableEntry.applyTo, TableEntry.bareIndex?]

lemma bareIndexes_linkEdges (edges : List Relation) (table : Table) :
    (linkEdges edges table).bareIndexes = table.bareIndexes := by
  rw [linkEdges, kept_foldl Table.bareIndexes]
  exact fun _ _ => rfl

lemma bareIndexes_table (statement : CreateTable) : statement.table.bareIndexes
    = statement.entries.filterMap (TableEntry.bareIndex? statement.name) := by
  rw [CreateTable.table, bareIndexes_linkEdges,
    listed_foldl Table.bareIndexes (fun name entry => (entry.bareIndex? name).toList) name_applyTo
      bareIndexes_applyTo,
    Table.bareIndexes_empty, List.nil_append, List.filterMap_eq_flatMap_toList]
  rfl

lemma bareIndexes_createIndex (table : Table) (statement : CreateIndex)
    (hname : statement.table = table.name) : (statement.amend table).bareIndexes
      = table.bareIndexes ++ statement.bareIndex?.toList := by
  rw [CreateIndex.amend, addNamedIndex, Table.bareIndexes_addIndex, CreateIndex.bareIndex?, hname]
  cases hcolumns : statement.columns <;> simp

/-- Statements that create indexes on a table add those without columns one after the other. -/
lemma bareIndexes_createIndexes (statements : List CreateIndex) (table : Table)
    (hname : ∀ statement ∈ statements, statement.table = table.name) :
    (statements.foldl CreateIndex.amend table).bareIndexes
      = table.bareIndexes ++ statements.filterMap CreateIndex.bareIndex? := by
  induction statements generalizing table with
  | nil => simp
  | cons statement rest ih =>
      obtain ⟨hstatement, hrest⟩ := List.forall_mem_cons.mp hname
      rw [List.foldl_cons, ih (statement.amend table) hrest,
        bareIndexes_createIndex _ _ hstatement, List.append_assoc, List.filterMap_cons]
      cases statement.bareIndex? <;> rfl

lemma bareIndexes_amend (script : Script) (table : Table) : (script.amend table).bareIndexes
    = table.bareIndexes ++
        (script.indexes.filter fun statement => statement.table == table.name).filterMap
          CreateIndex.bareIndex? := by
  have hkey : ∀ (t : Table) (s : AddForeignKey), (s.amend t).bareIndexes = t.bareIndexes :=
    fun t _ => bareIndexes_linkEdges _ t
  rw [Script.amend, kept_foldl Table.bareIndexes hkey, bareIndexes_createIndexes]
  intro statement hstatement
  simpa using (List.mem_filter.mp hstatement).2

/-- The indexes without columns of a table of a script. -/
lemma bareIndexes_of_table? {script : Script} {table : Table} {name : String}
    (h : script.draft.table? name = some table) :
    table.bareIndexes = script.bareIndexes name := by
  rw [table?_draft, lastNamed?_createdTables, Option.map_map] at h
  obtain ⟨statement, hlast, rfl⟩ := Option.map_eq_some_iff.mp h
  have hname : statement.name = name := by simpa using List.find?_some hlast
  rw [Function.comp_apply, bareIndexes_amend, bareIndexes_table, name_table, Script.bareIndexes,
    hlast, hname]
  simp

end Ddl

/-! ### Schemas -/

/-- The indexes without columns that a text of a source gives a table. -/
def Source.bareIndexes (source : Source) (text : List Char) (table : String) : List Index :=
  match source with
  | .sql => (Ddl.Script.ofText text).bareIndexes table
  | .prisma | .drizzle | .unknown => []

/-- The tables of a schema have exactly the indexes without columns that come from index clauses and
from statements that create an index, where no column is listed; every other index has a column.  So
all indexes of model files and table modules have columns, and all those of a script have if no such
clause or statement is there. -/
theorem bareIndexes_ofText (source : Source) (text : List Char) (rawPath : String) :
    (∀ table ∈ (Schema.ofText source text rawPath).tables,
      table.bareIndexes = source.bareIndexes text table.name) ∧
    ((∀ table ∈ (Schema.ofText source text rawPath).tables, ∀ index ∈ table.indexes,
        index.columns ≠ [])
      ↔ ∀ table ∈ (Schema.ofText source text rawPath).tables,
        source.bareIndexes text table.name = []) := by
  have hbare : ∀ table ∈ (Schema.ofText source text rawPath).tables,
      table.bareIndexes = source.bareIndexes text table.name := by
    intro table htable
    have hread := mem_tables_ofText.mp htable
    rw [table?_ofText] at hread
    cases source with
    | prisma =>
        rw [Source.draft?, Option.bind_some, ModelFile.table?_draft] at hread
        obtain ⟨model, hmodel, rfl⟩ := List.mem_map.mp (mem_of_lastNamed? hread)
        exact ModelFile.bareIndexes_table _ (ModelFile.lines_ofText hmodel)
    | drizzle =>
        rw [Source.draft?, Option.bind_some, TableModule.table?_draft] at hread
        obtain ⟨call, hcall, rfl⟩ := List.mem_map.mp (mem_of_lastNamed? hread)
        exact TableModule.bareIndexes_table _ (TableModule.callbacks_ofText hcall)
    | sql =>
        rw [Source.draft?, Option.bind_some] at hread
        exact Ddl.bareIndexes_of_table? hread
    | unknown => cases hread
  refine ⟨hbare, forall₂_congr fun table htable => ?_⟩
  rw [← hbare table htable, Table.bareIndexes_eq_nil]

/-- An index clause without columns makes an index without columns. -/
theorem bareIndexes_emptyClause :
    ¬ ∀ table ∈ (Schema.ofText .sql "CREATE TABLE t (a INT, INDEX ix ());".toList "inline").tables,
      ∀ index ∈ table.indexes, index.columns ≠ [] := by
  decide +kernel

end SchemaReader
