/-
Common tables as statements.

* `CommonTable.statement`: the statement that creates a common table, and `commonScript`: the
  statements of several tables;
* `ofText_commonScript`: such a script is read as the tables that it creates.
-/
import SchemaReader.Proofs.Common.Table
import SchemaReader.Proofs.Ddl.NameLists

namespace SchemaReader

open Ddl
open Text (IsWord IsGap IsKeyword Spells Stops isWordChar isBlank)
open Pattern

/-! ### Statements -/

/-- The words of the options of a column. -/
def optionWords (nullable primaryKey unique : Bool) : List String :=
  (if nullable then [] else ["NOT", "NULL"]) ++ (if primaryKey then ["PRIMARY", "KEY"] else []) ++
    if unique then ["UNIQUE"] else []

/-- Words, each behind a space. -/
def spacedWords (words : List String) : List Char := words.flatMap fun word => ' ' :: word.toList

/-- ` NOT NULL PRIMARY KEY UNIQUE`, with those of the options that a column has. -/
def CommonColumn.options (column : CommonColumn) : List Char :=
  spacedWords (optionWords column.nullable column.primaryKey column.unique)

/-- `c TEXT` and the options of the column. -/
def CommonColumn.columnText (column : CommonColumn) : List Char :=
  column.name.toList ++ (" TEXT".toList ++ column.options)

lemma CommonColumn.columnText_eq (column : CommonColumn) : column.columnText
    = column.name.toList ++ ([' '] ++ ("TEXT".toList ++ column.options)) := rfl

/-- `CREATE TABLE T (c TEXT, d TEXT);` -/
def CommonTable.statement (table : CommonTable) : List Char :=
  createText table.name.toList (listed (table.columns.map CommonColumn.columnText))

/-- The statements of tables, each on a line of its own. -/
def commonScript (tables : List CommonTable) : List Char :=
  tables.flatMap fun table => table.statement ++ ['\n']

variable {column : CommonColumn} {table : CommonTable} {tables : List CommonTable}
  {words : List String} {w rest : List Char}

/-! ### Columns -/

lemma stops_spacedWords (hrest : Stops isWordChar rest) :
    Stops isWordChar (spacedWords words ++ rest) := by
  cases words with
  | nil => exact hrest
  | cons word words => simp [spacedWords]; decide

/-- No statement begins in words that are no leading words. -/
lemma still_spacedWords (h : ∀ word ∈ words, IsKeyword word.toList ∧ word ∉ leadingWords)
    (hrest : Stops isWordChar rest) : Still (spacedWords words) rest := by
  have hleading : ∀ K ∈ leadingWords, IsKeyword K.toList := by decide
  induction words with
  | nil => exact still_nil
  | cons word words ih =>
      rw [List.forall_mem_cons] at h
      have hspells := h.1.1.cased.spells
      have hfree : ∀ K ∈ leadingWords, ¬ Spells K.toList word.toList := by
        intro K hK hword
        have heq := hword.unique (hleading K hK) h.1.1 hspells
        exact h.1.2 (String.toList_injective heq ▸ hK)
      have hword : Still word.toList (spacedWords words ++ rest) :=
        still_free_word (hspells.isWord h.1.1) hfree (stops_spacedWords hrest)
      exact Still.append (u := [' ']) (still_gap (by decide)) (hword.append (ih h.2))

/-- The options of a column are keywords, none of which a statement begins or a type goes on
with. -/
lemma optionWords_keywords : ∀ nullable primaryKey unique,
    ∀ word ∈ optionWords nullable primaryKey unique, IsKeyword word.toList ∧ word ∉ leadingWords ∧
      ∀ L ∈ ["PRECISION", "VARYING", "WITH"], ¬ L.toList <+: word.toList := by decide

lemma stops_options (hrest : Stops isWordChar rest) : Stops isWordChar (column.options ++ rest) :=
  stops_spacedWords hrest

lemma beginsOptions_options : BeginsOptions column.options := by
  have hwords := optionWords_keywords column.nullable column.primaryKey column.unique
  rw [CommonColumn.options]
  generalize optionWords column.nullable column.primaryKey column.unique = words at hwords
  cases words with
  | nil => exact Or.inl rfl
  | cons word words =>
      obtain ⟨hkeyword, -, hnot⟩ := hwords word List.mem_cons_self
      have hstops : Stops isWordChar (spacedWords words ++ []) := stops_spacedWords (by simp)
      rw [List.append_nil] at hstops
      exact Or.inr ⟨[' '], word.toList, spacedWords words, word, rfl, by decide, hkeyword,
        hkeyword.cased.spells, hstops, hnot⟩

/-- What the options say. -/
lemma forms_options (column : CommonColumn) :
    notNullForm.occursIn (maskNested .script column.options) = !column.nullable ∧
      inlinePrimaryKeyForm.occursIn (maskNested .script column.options) = column.primaryKey ∧
        inlineUniqueForm.occursIn (maskNested .script column.options) = column.unique ∧
          inlineReferencesForm.find? (maskNested .script column.options) = none := by
  have hforms : ∀ nullable primaryKey unique,
      let masked := maskNested .script (spacedWords (optionWords nullable primaryKey unique))
      notNullForm.occursIn masked = !nullable ∧ inlinePrimaryKeyForm.occursIn masked = primaryKey ∧
        inlineUniqueForm.occursIn masked = unique ∧ inlineReferencesForm.find? masked = none := by
    decide
  exact hforms column.nullable column.primaryKey column.unique

section Columns

variable (hw : IsWord column.name.toList)

include hw

/-- A statement that begins with the name of a column does not go on with its type. -/
lemma still_columnText (hrest : Stops isWordChar rest) : Still column.columnText rest := by
  have hstops : Stops isWordChar (column.options ++ rest) := stops_options hrest
  have hbars : Bars ([' '] ++ ("TEXT".toList ++ (column.options ++ rest))) :=
    bars_word (by decide) (by simp) (by decide) hstops (by decide)
  have htype : Still "TEXT".toList (column.options ++ rest) :=
    still_free_word (by decide) (by decide) hstops
  have hoptions : Still column.options rest := still_spacedWords (fun word hword =>
    let h := optionWords_keywords _ _ _ word hword; ⟨h.1, h.2.1⟩) hrest
  rw [column.columnText_eq]
  refine (still_word hw (by simpa using hbars)).append ?_
  exact Still.append (still_gap (by decide)) (htype.append hoptions)

lemma isItem_columnText : IsItem column.columnText where
  ne_nil := List.append_ne_nil_of_left_ne_nil hw.ne_nil _
  start := hw.stops_isBlank _
  stop := by
    have hlast : ∀ nullable primaryKey unique, Stops isBlank (" TEXT".toList ++
        spacedWords (optionWords nullable primaryKey unique)).reverse := by decide
    rw [CommonColumn.columnText, List.reverse_append]
    exact (hlast _ _ _).append_of_ne_nil (by simp) _
  closed := by
    have hchars : ∀ nullable primaryKey unique, ∀ c ∈ " TEXT".toList ++
        spacedWords (optionWords nullable primaryKey unique), isPlain c = true ∧ c ≠ ',' := by
          decide
    exact (IsWord.closed hw fun _ => ne_comma_of_isWordChar).append
      (closed_of_forall (hchars _ _ _))
  uncommented := by
    have hchars : ∀ nullable primaryKey unique, ∀ c ∈ " TEXT".toList ++
        spacedWords (optionWords nullable primaryKey unique), isScriptText c = true := by decide
    exact (uncommented_word hw).append (uncommented_of_forall (hchars _ _ _))
  still _ hrest := still_columnText hw (hrest.stops (by decide))

/-- What a column is read as. -/
lemma ofText?_columnText : ColumnEntry.ofText? column.columnText = some ⟨column.name, "TEXT",
    column.nullable, column.primaryKey, column.unique, none⟩ := by
  obtain ⟨hnull, hkey, hunique, hreferences⟩ := forms_options column
  have hstops : Stops isWordChar (column.options ++ []) := stops_options (by simp)
  rw [List.append_nil] at hstops
  have hproper : (ColumnType.mk "TEXT".toList none).Proper := by decide
  have hread := ofText?_column hw (g := [' ']) (by decide) (by simp) hproper
    beginsOptions_options fun _ => hstops
  have htype : String.ofList (ColumnType.text ⟨"TEXT".toList, none⟩) = "TEXT" := by decide
  refine hread.trans ?_
  rw [hnull, hkey, hunique, inlineForeignKey?_eq_none hreferences, htype, String.ofList_toList,
    Bool.not_not]

/-- The type tells the entry from a constraint, unless it could be the name of one. -/
lemma ofText_columnText (hfree : String.ofList (Text.upper column.name.toList) ≠ "CONSTRAINT") :
    TableEntry.ofText column.columnText = .column ⟨column.name, "TEXT", column.nullable,
      column.primaryKey, column.unique, none⟩ := by
  have hstops : Stops isWordChar (column.options ++ []) := stops_options (by simp)
  rw [List.append_nil] at hstops
  have htype : secondWordIsType column.columnText = true := by
    rw [column.columnText_eq, secondWordIsType_append hw (by decide) (by simp) (by decide)
      hstops]
    decide
  have hword : firstWord column.columnText ≠ "CONSTRAINT" := by
    rw [column.columnText_eq, firstWord_append hw (by simp; decide)]
    exact hfree
  have hcolumn : looksLikeConstraint column.columnText = false := by
    simp [looksLikeConstraint, htype, hword]
  exact ofText_of_ofText? hcolumn (ofText?_columnText hw)

end Columns

/-! ### Scripts -/

/-- The statement that a table is read as. -/
def CommonTable.created (table : CommonTable) : CreateTable where
  name := table.name
  entries := table.columns.map fun column =>
    .column ⟨column.name, "TEXT", column.nullable, column.primaryKey, column.unique, none⟩

/-- The list of a table, the end of its statement and the line feed. -/
def CommonTable.statementBody (table : CommonTable) : List Char :=
  listed (table.columns.map CommonColumn.columnText) ++ ([')', ';'] ++ ['\n'])

lemma CommonTable.statement_eq (table : CommonTable) :
    table.statement ++ ['\n'] = createHead table.name.toList ++ table.statementBody := by
  rw [CommonTable.statement, createText_eq, CommonTable.statementBody]
  simp only [List.append_assoc]

section Scripts

variable (h : table.Proper)

include h

lemma isItem_columnTexts : ∀ t ∈ table.columns.map CommonColumn.columnText, IsItem t := by
  intro t ht
  obtain ⟨column, hcolumn, rfl⟩ := List.mem_map.mp ht
  exact isItem_columnText (h.columns column hcolumn).1

/-- A form of statements that passes over the word `CREATE` reads nothing in the statement. -/
lemma silent_statement {q : Pattern} {before : List Char} (hq : q ∈ heads)
    (hcreate : ∀ v, Silent q before "CREATE ".toList ("TABLE ".toList ++ v)) :
    Silent q before (table.statement ++ ['\n']) rest := by
  have hlist : Still (listed (table.columns.map CommonColumn.columnText))
      (')' :: ';' :: '\n' :: rest) :=
    still_listed (isItem_columnTexts h) ⟨')', by decide, _, rfl⟩
  refine silent_append.mpr ⟨?_, still_gap (by decide) q hq _⟩
  exact silent_createText h.name hlist hq hcreate

lemma opens_statement : createTableHead.Opens (Stops isWordChar) (createHead table.name.toList)
    table.statementBody [(1, table.name.toList)] where
  ne_nil := createHead_ne_nil
  takes _ _ hbefore := takes_createHead h.name hbefore
  silent before rest := by
    have hsigns : ∀ c ∈ [')', ';'] ++ ['\n'], isWordChar c = false := by decide
    have hlist : Still (listed (table.columns.map CommonColumn.columnText))
        ([')', ';'] ++ ['\n'] ++ rest) :=
      still_listed (isItem_columnTexts h) ⟨')', by decide, _, rfl⟩
    exact hlist.append (still_outside hsigns) _ (by simp [heads]) _
  next before := by simp [CommonTable.statementBody]; decide

/-- What the match of a statement is read as. -/
lemma ofMatch?_statement (rest : List Char) :
    CreateTable.ofMatch? (matchOf (table.statementBody ++ rest, [(1, table.name.toList)]))
      = some table.created := by
  have hitems := isItem_columnTexts h
  have henclosed : enclosed? .script (table.statementBody ++ rest)
      = some (listed (table.columns.map CommonColumn.columnText), ';' :: '\n' :: rest) := by
    have hclosed : enclosed? .script (listed (table.columns.map CommonColumn.columnText) ++
        ')' :: (';' :: '\n' :: rest))
          = some (listed (table.columns.map CommonColumn.columnText), ';' :: '\n' :: rest) :=
      enclosed?_of_closed (closed_listed (isPart_of_isItem hitems)) (by decide)
    simpa [CommonTable.statementBody] using hclosed
  have hentries : (table.columns.map CommonColumn.columnText).map TableEntry.ofText
      = table.created.entries := by
    rw [List.map_map]
    exact List.map_congr_left fun column hcolumn =>
      ofText_columnText (h.columns column hcolumn).1 (h.columns column hcolumn).2
  simp [CreateTable.ofMatch?, listAfter?, matchOf, henclosed, Match.group, Match.group?,
    nameOf_plain h.name, splitTopLevel_items hitems, hentries, CommonTable.created]

end Scripts

lemma uncommented_commonScript (h : ∀ table ∈ tables, table.Proper) :
    Uncommented .script (commonScript tables) := by
  refine uncommented_flatMap fun table htable => Uncommented.append ?_ (uncommented_gap (by decide))
  exact uncommented_createText (h table htable).name
    (uncommented_listed (isItem_columnTexts (h table htable)))

/-- A script of common tables is read as the statements that create them. -/
theorem ofText_commonScript (h : ∀ table ∈ tables, table.Proper) :
    Script.ofText (commonScript tables)
    = ⟨tables.map fun table => some table.created, [], []⟩ := by
  have hsplit : commonScript tables
      = tables.flatMap fun table => createHead table.name.toList ++ table.statementBody :=
    List.flatMap_congr fun table _ => table.statement_eq
  have hcomments : stripComments .script (commonScript tables) = commonScript tables :=
    (uncommented_commonScript h).stripComments_eq
  have htables : (createTableHead.findAll (commonScript tables)).map CreateTable.ofMatch?
      = tables.map fun table => some table.created := by
    rw [hsplit]
    exact map_findAll_of_opens (fun _ => rfl) (fun _ => isHead_createTableHead.wordLed.fails_nil)
      (fun table htable => opens_statement (h table htable))
      (fun table htable => ofMatch?_statement (h table htable)) (by simp)
  have hindexes : createIndexHead.findAll (commonScript tables) = [] :=
    findAll_eq_nil (fun _ => isHead_createIndexHead.wordLed.fails_nil)
      fun table htable before rest =>
      silent_statement (h table htable) (by simp [heads]) fun v => silent_create_createIndexHead
  have hkeys : addForeignKeyForm.findAll (commonScript tables) = [] :=
    findAll_eq_nil (fun _ => isHead_addForeignKeyForm.wordLed.fails_nil)
      fun table htable before rest =>
      silent_statement (h table htable) (by simp [heads]) fun v =>
        isHead_addForeignKeyForm.silent_keyword spacedKeyword_create (by decide)
  rw [Script.ofText, hcomments, Script.ofStripped, htables, hindexes, hkeys]
  rfl

/-! ### The schema -/

lemma CommonTable.edges_created (table : CommonTable) : table.created.edges = [] := by
  simp [CreateTable.edges, CommonTable.created, List.filterMap_map, TableEntry.foreignKey?,
    Function.comp_def]

lemma CommonTable.table_created (table : CommonTable) :
    table.created.table = table.table "TEXT" := by
  rw [CreateTable.table, table.edges_created, ← foldl_addTo]
  simp only [linkEdges, List.foldl_nil, CommonTable.created, List.foldl_map]
  rfl

/-- A script of common tables defines them. -/
theorem schema_commonScript (h : ∀ table ∈ tables, table.Proper)
    (hnames : (tables.map CommonTable.name).Nodup) (rawPath : String) :
    Schema.ofText .sql (commonScript tables) rawPath
      = ⟨.sql, tables.map (CommonTable.table "TEXT"), [], rawPath⟩ := by
  have hstep : ∀ (d : Draft) (table : CommonTable),
      (addCreated d (some table.created)).tables = putTable (table.table "TEXT") d.tables ∧
        (addCreated d (some table.created)).relations = d.relations := by
    intro d table
    simp [addCreated, CreateTable.addTo, table.table_created, table.edges_created,
      Draft.addRelations]
  rw [schema_of_script (ofText_commonScript h)]
  simp only [Script.draft, List.foldl_map, List.foldl_nil]
  exact schema_foldl (fun d table => (hstep d table).1) (fun d table => (hstep d table).2) hnames
    ⟨rfl, rfl⟩ _ _

example : commonScript [⟨"t", [⟨"a", false, true, false⟩, ⟨"b", true, false, true⟩]⟩]
    = "CREATE TABLE t (a TEXT NOT NULL PRIMARY KEY, b TEXT UNIQUE);\n".toList := by decide

end SchemaReader
