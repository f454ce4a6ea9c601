/-
Uniqueness in the definition of a column and in a clause.

* `ColumnDef.unmarked`, `Clause.uniqueColumn?`, `TableDef.unmarked`: a table without what it says of
  the uniqueness of single columns, and `TableDef.uniqueNames`, the columns of which it says it;
* `TableDef.UniqueAlike`, `Statement.UniqueAlike`: two ways to write a table that differ in nothing
  else;
* `marked_created`: a table is the one without its marks, with an index for each column that is
  marked;
* `ofText_uniqueAlike`: scripts that say it in different places define the same schema up to the
  order of indexes.
-/
import SchemaReader.Proofs.Ddl.Decode
import SchemaReader.Proofs.Schema.IndexOrder

namespace SchemaReader.Ddl

open Text (IsGap)

variable {names : List String} {base t : Table} {d d' : Draft} {table table' : TableDef}
  {statements statements' : List Statement} {text text' : List Char}

/-! ### Marks -/

/-- A column without the mark. -/
def ColumnDef.unmarked (column : ColumnDef) : ColumnDef :=
  { column with options := column.options.filter (· ≠ .unique) }

/-- The column, if it is marked. -/
def ColumnDef.uniqueColumn? (column : ColumnDef) : Option String :=
  if column.options.contains .unique then some column.name else none

/-- The column of a clause that marks a single one and has no name. -/
def Clause.uniqueColumn? : Clause → Option String
  | .unique none [column] => some column
  | _ => none

/-- A table without its marks. -/
def TableDef.unmarked (table : TableDef) : TableDef where
  name := table.name
  columns := table.columns.map ColumnDef.unmarked
  clauses := table.clauses.filter fun clause => clause.uniqueColumn?.isNone

/-- The columns that are marked, in their definitions and in clauses. -/
def TableDef.uniqueNames (table : TableDef) : List String :=
  table.columns.filterMap ColumnDef.uniqueColumn? ++ table.clauses.filterMap Clause.uniqueColumn?

/-- Two tables that mark the same columns and are the same without their marks. -/
structure TableDef.UniqueAlike (table table' : TableDef) : Prop where
  unmarked : table.unmarked = table'.unmarked
  names : table.uniqueNames.Perm table'.uniqueNames

/-- Two statements that are the same, or that create two such tables. -/
inductive Statement.UniqueAlike : Statement → Statement → Prop
  | createTable {table table' : TableDef} : table.UniqueAlike table' →
      Statement.UniqueAlike (.createTable table) (.createTable table')
  | same (statement : Statement) : Statement.UniqueAlike statement statement

/-- The table with its marks in clauses alone. -/
def TableDef.marksInClauses (table : TableDef) : TableDef :=
  { table.unmarked with
    clauses := table.unmarked.clauses ++ table.uniqueNames.map fun name => .unique none [name] }

/-- Every table can mark its columns in clauses alone. -/
lemma uniqueAlike_marksInClauses (table : TableDef) : table.UniqueAlike table.marksInClauses := by
  have hclauses : ∀ names : List String,
      (names.map fun name => Clause.unique none [name]).filterMap Clause.uniqueColumn? = names ∧
        (names.map fun name => Clause.unique none [name]).filter
          (fun clause => clause.uniqueColumn?.isNone)
          = [] := fun names => by
    simp [List.filterMap_map, Function.comp_def, Clause.uniqueColumn?]
  obtain ⟨hmarks, hnone⟩ := hclauses table.uniqueNames
  constructor
  · have hcolumns : ColumnDef.unmarked ∘ ColumnDef.unmarked = ColumnDef.unmarked := by
      funext column
      simp [ColumnDef.unmarked]
    simp [TableDef.marksInClauses, TableDef.unmarked, List.filter_append, hnone, hcolumns]
  · have hcolumns : table.unmarked.columns.filterMap ColumnDef.uniqueColumn? = [] := by
      simp [TableDef.unmarked, ColumnDef.unmarked, ColumnDef.uniqueColumn?, List.filterMap_map]
    have hothers : table.unmarked.clauses.filterMap Clause.uniqueColumn? = [] := by
      simp [TableDef.unmarked, List.filterMap_eq_nil_iff]
    have hnames : table.marksInClauses.uniqueNames = table.uniqueNames := by
      rw [TableDef.uniqueNames, TableDef.marksInClauses, List.filterMap_append, hcolumns,
        hothers, hmarks]
      simp
    rw [hnames]

/-! ### Columns and clauses -/

lemma ColumnDef.entry_unmarked (column : ColumnDef) :
    column.unmarked.entry = { column.entry with unique := false } := by
  have htarget : ∀ option : ColumnOption, decide (option ≠ .unique) = false →
      option.target? = none := by
    rintro option hoption
    obtain rfl : option = .unique := by simpa using hoption
    rfl
  have hnotNull := contains_filter_ne (show ColumnOption.notNull ≠ .unique by simp) column.options
  have hprimaryKey := contains_filter_ne (show ColumnOption.primaryKey ≠ .unique by simp)
    column.options
  have hunique : (column.options.filter (· ≠ .unique)).contains .unique = false := by simp
  rw [ColumnDef.entry, ColumnDef.entry, unmarked, hnotNull, hprimaryKey, hunique,
    findSome?_filter fun option _ => htarget option]

lemma ColumnDef.uniqueColumn?_eq (column : ColumnDef) :
    column.uniqueColumn? = if column.entry.unique then some column.entry.name else none := rfl

/-- A definition adds the column that it adds without the mark, and marks it if it has the mark. -/
lemma marked_column (h : base.Marked names t) (column : ColumnDef) :
    ((TableEntry.column column.unmarked.entry).applyTo base).Marked
      (names ++ column.uniqueColumn?.toList)
      ((TableEntry.column column.entry).applyTo t) := by
  rw [column.entry_unmarked, column.uniqueColumn?_eq]
  generalize column.entry = entry
  have hgrown := h.addColumn ⟨entry.name, entry.type, entry.nullable, entry.primaryKey, none⟩
  rw [TableEntry.applyTo, TableEntry.applyTo]
  split
  · exact hgrown.mark entry.name
  · simpa using hgrown

lemma marked_addNamedIndex (h : base.Marked names t) (name : Option String) (columns : List String)
    (unique : Bool) :
    (addNamedIndex name columns unique base).Marked names
      (addNamedIndex name columns unique t) := by
  rw [addNamedIndex, addNamedIndex, h.name]
  exact h.addIndex _

lemma Clause.eq_of_uniqueColumn? {clause : Clause} {column : String}
    (h : clause.uniqueColumn? = some column) : clause = .unique none [column] := by
  unfold uniqueColumn? at h
  split at h
  · rw [Option.some.inj h]
  · simp at h

/-- A clause either marks its column or does the same to both tables. -/
lemma marked_clause (h : base.Marked names t) (clause : Clause) :
    (if clause.uniqueColumn?.isNone then clause.entry.applyTo base else base).Marked
      (names ++ clause.uniqueColumn?.toList) (clause.entry.applyTo t) := by
  cases hclause : clause.uniqueColumn? with
  | some column =>
      have hmark := h.mark column
      rw [← Index.defaultName_singleton] at hmark
      rw [Clause.eq_of_uniqueColumn? hclause]
      exact hmark
  | none =>
      rw [Option.toList_none, List.append_nil, Option.isNone_none, if_pos rfl]
      cases clause with
      | primaryKey columns => exact h.markPrimaryKey columns
      | unique name columns =>
          simp only [Clause.entry, TableEntry.applyTo]
          split
          · exact h
          · exact marked_addNamedIndex h name columns true
      | index asKey name columns => exact marked_addNamedIndex h name columns false
      | foreignKey name key => exact h

lemma marked_linkEdges (h : base.Marked names t) (edges : List Relation) :
    (linkEdges edges base).Marked names (linkEdges edges t) := by
  rw [linkEdges, linkEdges]
  exact h.foldl_same _ (fun edge ht => ht.updateColumn edge.fromColumn _) edges

/-! ### Tables -/

/-- The marks are no foreign keys. -/
lemma edges_unmarked (table : TableDef) : table.unmarked.created.edges = table.created.edges := by
  have hcolumns : (table.columns.map ColumnDef.unmarked).filterMap (fun c => c.entry.references)
      = table.columns.filterMap fun c => c.entry.references := by
    rw [List.filterMap_map]
    exact List.filterMap_congr fun c _ => by rw [Function.comp_apply, c.entry_unmarked]
  have hclauses : (table.clauses.filter fun c => c.uniqueColumn?.isNone).filterMap
      (fun c => c.entry.foreignKey?) = table.clauses.filterMap fun c => c.entry.foreignKey? := by
    rw [List.filterMap_filter]
    refine List.filterMap_congr fun c _ => ?_
    cases c with
    | unique name columns => simp [Clause.entry, TableEntry.foreignKey?]
    | primaryKey | index | foreignKey => rfl
  have hkeys : ∀ table : TableDef, table.created.entries.filterMap TableEntry.foreignKey?
      = table.columns.filterMap (fun c => c.entry.references) ++
          table.clauses.filterMap fun c => c.entry.foreignKey? := fun table => by
    simp [TableDef.created, TableDef.items, List.filterMap_map, Function.comp_def,
      TableEntry.foreignKey?]
  rw [CreateTable.edges, CreateTable.edges, hkeys, hkeys, TableDef.unmarked, hcolumns, hclauses]
  rfl

/-- **A table and its marks.**  A table is read as the table without its marks, with an index for
each of the columns that are marked, whether in their definitions or in clauses. -/
theorem marked_created (table : TableDef) :
    table.unmarked.created.table.Marked table.uniqueNames table.created.table := by
  have hentries : ∀ table : TableDef, table.created.entries
      = table.columns.map (fun column => .column column.entry) ++ table.clauses.map Clause.entry :=
        fun _ => by
    simp [TableDef.created, TableDef.items, Function.comp_def]
  have hcolumns := (Table.Marked.refl (Table.empty table.name)).foldl table.columns
    ColumnDef.uniqueColumn? fun column _ _ _ _ h => marked_column h column
  have hclauses := hcolumns.foldl table.clauses Clause.uniqueColumn? fun clause _ _ _ _ h =>
    marked_clause h clause
  rw [CreateTable.table, CreateTable.table, edges_unmarked, hentries, hentries]
  refine marked_linkEdges ?_ _
  simp only [List.foldl_append, List.foldl_map, List.foldl_filter, TableDef.unmarked]
  exact hclauses

/-- Two such tables are alike. -/
lemma TableDef.UniqueAlike.alike (h : table.UniqueAlike table') :
    table.created.table.Alike table'.created.table := by
  have hmarked := marked_created table
  rw [h.unmarked] at hmarked
  exact hmarked.alike (marked_created table') h.names

/-! ### Scripts -/

/-- Two statements that create tables of one name, with the same foreign keys and alike. -/
structure CreateTable.Alike (statement statement' : CreateTable) : Prop where
  edges : statement.edges = statement'.edges
  table : statement.table.Alike statement'.table

lemma alike_addTo {statement statement' : CreateTable} (h : d.Alike d')
    (hs : statement.Alike statement') :
    (statement.addTo d).Alike (statement'.addTo d') := by
  rw [CreateTable.addTo, CreateTable.addTo, hs.edges]
  exact (((h.noteAll _ _).addRelations _).note _ _).addTable hs.table

lemma alike_addIndex (h : d.Alike d') (statement : CreateIndex) :
    (statement.addTo d).Alike (statement.addTo d') := by
  rw [statement.addTo_eq, statement.addTo_eq]
  refine h.amendTable _ (fun ht => ?_) _ _
  rw [addNamedIndex, addNamedIndex, ht.name]
  exact ht.addIndex _

lemma alike_linkEdges {t t' : Table} (h : t.Alike t') (edges : List Relation) :
    (linkEdges edges t).Alike (linkEdges edges t') := by
  rw [linkEdges, linkEdges]
  induction edges generalizing t t' with
  | nil => exact h
  | cons edge edges ih => exact ih (h.updateColumn _ _)

lemma alike_addForeignKey (h : d.Alike d') (statement : AddForeignKey) :
    (statement.addTo d).Alike (statement.addTo d') := by
  rw [statement.addTo_eq, statement.addTo_eq]
  exact h.amendTable _ (fun ht => alike_linkEdges ht _) _ _

/-- The scripts of such statements create tables that are alike, and go on in the same way. -/
lemma alike_scriptOf (h : List.Forall₂ Statement.UniqueAlike statements statements') :
    List.Forall₂ CreateTable.Alike (statements.filterMap Statement.created?)
        (statements'.filterMap Statement.created?) ∧
      statements.filterMap Statement.index? = statements'.filterMap Statement.index? ∧
      statements.filterMap Statement.added? = statements'.filterMap Statement.added? := by
  induction h with
  | nil => exact ⟨.nil, rfl, rfl⟩
  | @cons statement statement' _ _ hstatement _ ih =>
      obtain ⟨htables, hindexes, hkeys⟩ := ih
      cases hstatement with
      | @createTable table table' halike =>
          have hedges := edges_unmarked table
          rw [halike.unmarked, edges_unmarked] at hedges
          exact ⟨.cons ⟨hedges.symm, halike.alike⟩ htables, hindexes, hkeys⟩
      | same =>
          refine ⟨?_, ?_, ?_⟩
          · rw [List.filterMap_cons, List.filterMap_cons]
            split
            · exact htables
            · exact .cons ⟨rfl, .refl _⟩ htables
          · rw [List.filterMap_cons, List.filterMap_cons, hindexes]
          · rw [List.filterMap_cons, List.filterMap_cons, hkeys]

/-- Statement by statement, their drafts stay alike. -/
theorem draft_alike (h : List.Forall₂ Statement.UniqueAlike statements statements') :
    (scriptOf statements).draft.Alike (scriptOf statements').draft := by
  obtain ⟨htables, hindexes, hkeys⟩ := alike_scriptOf h
  have hcreated : ((scriptOf statements).tables.foldl addCreated .empty).Alike
      ((scriptOf statements').tables.foldl addCreated .empty) := by
    rw [scriptOf, scriptOf, List.foldl_map, List.foldl_map]
    exact Draft.Alike.foldl _ (R := CreateTable.Alike) (fun hs hd => alike_addTo hd hs) htables
      (.refl .empty)
  have hindexed : (scriptOf statements).indexes = (scriptOf statements').indexes := hindexes
  have hadded : (scriptOf statements).foreignKeys = (scriptOf statements').foreignKeys := hkeys
  rw [Script.draft, Script.draft, hindexed, hadded]
  exact (hcreated.foldl_same _ alike_addIndex _).foldl_same _ alike_addForeignKey _

/-- A text with white space and the statements of a script. -/
structure IsScript (statements : List Statement) (text : List Char) : Prop where
  proper : ∀ statement ∈ statements, statement.Proper
  written : ∃ g body, text = g ++ body ∧ IsGap g ∧
    Writes (statements.flatMap Statement.pieces) body []

lemma IsScript.ofText (h : IsScript statements text) :
    Script.ofText text = scriptOf statements := by
  obtain ⟨g, body, rfl, hg, hbody⟩ := h.written
  exact ofText_script h.proper hbody hg

/-- **Uniqueness in definitions and in clauses.**  Whether the uniqueness of a column is written in
its definition or in a clause of its own without a name, and among whatever other options and
clauses, the scripts define the same schema up to the order of the indexes of a table. -/
theorem ofText_uniqueAlike (h : IsScript statements text) (h' : IsScript statements' text')
    (halike : List.Forall₂ Statement.UniqueAlike statements statements') (rawPath : String) :
    (Schema.ofText .sql text rawPath).Alike (Schema.ofText .sql text' rawPath) := by
  have hdraft := draft_alike halike
  rw [← h.ofText, ← h'.ofText] at hdraft
  exact hdraft.schema .sql rawPath rawPath

end SchemaReader.Ddl
