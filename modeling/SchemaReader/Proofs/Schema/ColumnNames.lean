/-
The names of the columns of a table.

* `Table.columnNames`: the names in order, with what each change of a table does to them;
* `ModelFile.columnNames_table`, `TableModule.columnNames_table`, `Ddl.columnNames_table`: the
  columns of the table of a model, of a table call and of a statement are those among its fields or
  entries, with `Ddl.columnNames_amend`: later statements leave them as they are.
-/
import SchemaReader.Proofs.Schema.LastDeclared

namespace SchemaReader

variable {table : Table} {name : String}

namespace Table

/-- The names of the columns of a table, in order. -/
def columnNames (table : Table) : List String := table.columns.map Column.name

@[simp]
lemma columnNames_empty (name : String) : (Table.empty name).columnNames = [] := rfl

@[simp]
lemma columnNames_addColumn (table : Table) (column : Column) :
    (table.addColumn column).columnNames = table.columnNames ++ [column.name] := by
  simp [columnNames, addColumn]

@[simp]
lemma columnNames_addIndex (table : Table) (index : Index) :
    (table.addIndex index).columnNames = table.columnNames := rfl

/-- What a change of a column keeps of it is the same for all columns. -/
lemma map_columns_updateColumn {β : Type} (kept : Column → β) (table : Table) (name : String)
    {change : Column → Column} (hchange : ∀ c, kept (change c) = kept c) :
    (table.updateColumn name change).columns.map kept = table.columns.map kept := by
  rw [updateColumn]
  induction table.columns with
  | nil => rfl
  | cons column rest ih =>
      rw [updateFirstColumn]
      split
      · simp [hchange]
      · simp [ih]

/-- What a mark of a primary key keeps of a column is the same for all columns. -/
lemma map_columns_markPrimaryKey {β : Type} (kept : Column → β)
    (hkept : ∀ c, kept { c with primaryKey := true } = kept c) (table : Table)
    (names : List String) :
    (table.markPrimaryKey names).columns.map kept = table.columns.map kept := by
  rw [markPrimaryKey]
  refine List.foldlRecOn (motive := fun t : Table => t.columns.map kept = table.columns.map kept)
    names _ rfl fun t ht name _ => ?_
  exact (map_columns_updateColumn kept t name hkept).trans ht

@[simp]
lemma columnNames_markPrimaryKey (table : Table) (names : List String) :
    (table.markPrimaryKey names).columnNames = table.columnNames :=
  map_columns_markPrimaryKey Column.name (fun _ => rfl) table names

end Table

/-! ### Model files -/

namespace ModelFile

/-- The names of the fields of a model that are columns. -/
def Model.columnNames (declared : List String) (model : Model) : List String :=
  (model.fields.filter fun field => !field.isRelation declared).map Field.name

lemma columnNames_addField (declared : List String) (keys : List (String × Reference))
    (table : Table) (field : Field) : (addField declared keys table field).columnNames
      = table.columnNames ++ if field.isRelation declared then [] else [field.name] := by
  rw [addField]
  split
  · simp
  · dsimp only
    split <;> simp [Field.column]

lemma columnNames_applyTo (table : Table) (declared : BlockAttribute) :
    (declared.applyTo table).columnNames = table.columnNames := by
  cases declared with
  | id columns => exact table.columnNames_markPrimaryKey columns
  | index index columns unique => rfl
  | withoutColumns => rfl

lemma columnNames_table (declared : List String) (model : Model) :
    (model.table declared).columnNames = model.columnNames declared := by
  rw [Model.table, kept_foldl Table.columnNames columnNames_applyTo,
    listed_foldl Table.columnNames
      (fun _ field => if field.isRelation declared then [] else [field.name]) (name_addField _)
      (columnNames_addField declared _),
    Table.columnNames_empty, List.nil_append, Model.columnNames]
  induction model.fields with
  | nil => rfl
  | cons field rest ih =>
      rw [List.flatMap_cons, ih]
      by_cases hrelation : field.isRelation declared = true <;> simp [hrelation]

end ModelFile

/-! ### Table modules -/

namespace TableModule

/-- The name of a column, if an entry is one. -/
def Entry.columnName? : Entry → Option String
  | .column entry => some entry.name
  | .unterminated | .unrecognized => none

lemma columnNames_applyTo (contents : Contents) (table : Table) (entry : Entry) :
    (entry.applyTo contents table).columnNames
      = table.columnNames ++ entry.columnName?.toList := by
  cases entry with
  | column entry =>
      simp only [Entry.applyTo]
      split <;> simp [Entry.columnName?]
  | unterminated => simp [Entry.applyTo, Entry.columnName?]
  | unrecognized => simp [Entry.applyTo, Entry.columnName?]

lemma columnNames_addIndexCall (table : Table) (call : IndexCall) :
    (addIndexCall table call).columnNames = table.columnNames := rfl

lemma columnNames_callback (table : Table) (callback : Callback) :
    (callback.applyTo table).columnNames = table.columnNames := by
  rw [Callback.applyTo, kept_foldl Table.columnNames Table.columnNames_markPrimaryKey,
    kept_foldl Table.columnNames columnNames_addIndexCall]

lemma columnNames_table (contents : Contents) (call : TableCall) :
    (call.table contents).columnNames = call.entries.filterMap Entry.columnName? := by
  rw [TableCall.table, kept_foldl Table.columnNames columnNames_callback,
    listed_foldl Table.columnNames (fun _ entry => entry.columnName?.toList) name_applyTo
      (columnNames_applyTo contents),
    Table.columnNames_empty, List.nil_append, List.filterMap_eq_flatMap_toList]

end TableModule

/-! ### Scripts -/

namespace Ddl

/-- The name of a column, if an entry is one. -/
def TableEntry.columnName? : TableEntry → Option String
  | .column entry => some entry.name
  | _ => none

/-- The column that an entry adds, if it is one. -/
def TableEntry.column? : TableEntry → Option Column
  | .column entry => some ⟨entry.name, entry.type, entry.nullable, entry.primaryKey, none⟩
  | _ => none

lemma columnName?_eq (entry : TableEntry) : entry.columnName? = entry.column?.map Column.name := by
  cases entry <;> rfl

section Kept

-- what is kept of a column leaves out whether it is a key and what it points at
variable {β : Type} {kept : Column → β} (hkey : ∀ c, kept { c with primaryKey := true } = kept c)

include hkey in
lemma map_columns_applyTo (table : Table) (entry : TableEntry) :
    (entry.applyTo table).columns.map kept
      = table.columns.map kept ++ (entry.column?.map kept).toList := by
  cases entry with
  | column entry =>
      simp only [TableEntry.applyTo]
      split <;> simp [TableEntry.column?, Table.addColumn, Table.addIndex]
  | primaryKey columns =>
      simpa [TableEntry.applyTo, TableEntry.column?] using
        Table.map_columns_markPrimaryKey kept hkey table columns
  | unique index columns =>
      simp only [TableEntry.applyTo]
      split <;> simp [TableEntry.column?, addNamedIndex, Table.addIndex]
  | index index columns =>
      simp [TableEntry.applyTo, TableEntry.column?, addNamedIndex, Table.addIndex]
  | foreignKey | otherConstraint | unrecognized =>
      simp [TableEntry.applyTo, TableEntry.column?]

variable (hreference : ∀ c reference, kept { c with references := reference } = kept c)

include hreference in
lemma map_columns_linkEdges (edges : List Relation) (table : Table) :
    (linkEdges edges table).columns.map kept = table.columns.map kept :=
  kept_foldl (fun t : Table => t.columns.map kept)
    (fun t _ => Table.map_columns_updateColumn kept t _ fun c => hreference c _) edges table

include hkey hreference in
/-- The columns of a created table are those that its entries add. -/
lemma map_columns_table (statement : CreateTable) : statement.table.columns.map kept
    = statement.entries.filterMap fun entry => entry.column?.map kept := by
  rw [CreateTable.table, map_columns_linkEdges hreference,
    listed_foldl (fun t : Table => t.columns.map kept)
      (fun _ entry => (entry.column?.map kept).toList) name_applyTo (map_columns_applyTo hkey)]
  exact (List.filterMap_eq_flatMap_toList _ _).symm

end Kept

lemma columnNames_linkEdges (edges : List Relation) (table : Table) :
    (linkEdges edges table).columnNames = table.columnNames :=
  map_columns_linkEdges (fun _ _ => rfl) edges table

lemma columnNames_table (statement : CreateTable) :
    statement.table.columnNames = statement.entries.filterMap TableEntry.columnName? := by
  rw [funext columnName?_eq]
  exact map_columns_table (fun _ => rfl) (fun _ _ => rfl) statement

lemma columnNames_amend (script : Script) (table : Table) :
    (script.amend table).columnNames = table.columnNames := by
  have hindex : ∀ (t : Table) (s : CreateIndex), (s.amend t).columnNames = t.columnNames :=
    fun _ _ => rfl
  have hkey : ∀ (t : Table) (s : AddForeignKey), (s.amend t).columnNames = t.columnNames :=
    fun t s => columnNames_linkEdges _ t
  rw [Script.amend, kept_foldl Table.columnNames hkey, kept_foldl Table.columnNames hindex]

end Ddl

end SchemaReader
