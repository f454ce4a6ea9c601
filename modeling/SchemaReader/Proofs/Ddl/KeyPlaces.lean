/-
The three places of a foreign key.

* `SpelledKey.inlineScript`, `SpelledKey.clauseScript`, `SpelledKey.alteredScript`: a foreign key as
  an option of its column, as a clause of its table and added to its table;
* `SpelledKey.optionSchema`: what is left of the key in the first of these places;
* `SpelledKey.ofText_places`: in which of them the key is read.
-/
import SchemaReader.Proofs.Ddl.KeyTexts

namespace SchemaReader.Ddl

open Text (IsWord IsGap Spells Stops isWordChar isBlank)
open Pattern

namespace SpelledKey

/-- The key as an option of its column. -/
def inlineScript (key : SpelledKey) : List Char := createText key.table key.inlineText

/-- The key as a clause of its table. -/
def clauseScript (key : SpelledKey) : List Char :=
  createText key.table (key.columnText ++ ',' :: ' ' :: key.keyText)

/-- The key added to its table. -/
def alteredScript (key : SpelledKey) : List Char :=
  createText key.table key.columnText ++ key.alteration

/-- The column as it is read without options. -/
def columnEntry (key : SpelledKey) : ColumnEntry :=
  ⟨String.ofList key.column, String.ofList key.type, true, false, false, none⟩

/-- The table with the column alone. -/
def plainTable (key : SpelledKey) : Table :=
  ⟨String.ofList key.table,
    [⟨String.ofList key.column, String.ofList key.type, true, false, none⟩], []⟩

/-- The relation of the key. -/
def edge (key : SpelledKey) : Relation :=
  ⟨String.ofList key.table, String.ofList key.column, key.reference.table, key.reference.column,
    .oneToMany⟩

/-- The schema of the key as an option of its column.  The key is lost where the name of the table
pointed at begins with a quoted part, and the column is unique where a plain part spells the word
for it. -/
def optionSchema (key : SpelledKey) (rawPath : String) : Schema :=
  let table := String.ofList key.table
  let column := String.ofList key.column
  ⟨.sql, [⟨table, [⟨column, String.ofList key.type, true, false,
      if key.target.OpensPlain then some key.reference else none⟩],
      if key.target.Shows "UNIQUE" then [.uniqueColumn table column] else []⟩],
    if key.target.OpensPlain then [key.edge] else [], rawPath⟩

end SpelledKey

variable {key : SpelledKey}

/-! ### Comments -/

lemma uncommented_around {quoting : Quoting} {w : List Char} (hw : IsWord w) :
    Uncommented .script (quoting.around w) := by
  have hne : ∀ d, isWordChar d = false → ∀ c ∈ w, c ≠ d := fun _ => hw.forall_ne
  cases quoting with
  | plain => exact uncommented_word hw
  | double => exact uncommented_literal (by decide) (hne _ (by decide))
  | back => exact uncommented_literal (by decide) (hne _ (by decide))
  | square =>
      have hopen : Uncommented .script ['['] := uncommented_of_forall (by decide)
      exact hopen.append ((uncommented_word hw).append (uncommented_of_forall (by decide)))

lemma uncommented_text {R : WrittenName} (hR : R.Proper) : Uncommented .script R.text := by
  obtain ⟨qualifier, quoting, name⟩ := R
  cases qualifier with
  | none => exact uncommented_around hR.isWord
  | some qualifier =>
      obtain ⟨hw, hg, hh⟩ := hR.qualifier _ rfl
      have hperiod : Uncommented .script ['.'] := uncommented_of_forall (by decide)
      refine (uncommented_around hw).append ((uncommented_gap hg).append (hperiod.append ?_))
      exact (uncommented_gap hh).append (uncommented_around hR.isWord)

section Uncommented

variable (h : key.Proper)

include h

lemma uncommented_references : Uncommented .script key.references := by
  have hlist : Uncommented .script key.list := by
    obtain ⟨table, column, type, target, targetColumn⟩ := key
    cases targetColumn with
    | none => exact uncommented_nil
    | some c =>
        have hopen : Uncommented .script ['('] := uncommented_of_forall (by decide)
        have hclose : Uncommented .script [')'] := uncommented_of_forall (by decide)
        exact hopen.append ((uncommented_around (h.targetColumn _ rfl)).append hclose)
  have hkeyword : Uncommented .script "REFERENCES ".toList := uncommented_of_forall (by decide)
  rw [key.references_eq]
  exact hkeyword.append ((uncommented_text h.target).append hlist)

lemma uncommented_columnText : Uncommented .script key.columnText := by
  have hspace : Uncommented .script [' '] := uncommented_of_forall (by decide)
  exact (uncommented_word h.column).append (hspace.append (uncommented_word h.type))

lemma uncommented_keyText : Uncommented .script key.keyText := by
  have hwords : Uncommented .script "FOREIGN ".toList ∧ Uncommented .script "KEY".toList :=
    ⟨uncommented_of_forall (by decide), uncommented_of_forall (by decide)⟩
  have hspace : Uncommented .script [' '] := uncommented_of_forall (by decide)
  have hopen : Uncommented .script ['('] := uncommented_of_forall (by decide)
  have hclose : Uncommented .script [')'] := uncommented_of_forall (by decide)
  rw [key.keyText_eq]
  refine hwords.1.append (hwords.2.append (hspace.append (Uncommented.append ?_ ?_)))
  · exact hopen.append ((uncommented_word h.column).append hclose)
  · exact hspace.append (uncommented_references h)

lemma uncommented_alteration : Uncommented .script key.alteration := by
  have hwords : ∀ t ∈ ["ALTER ", "TABLE ", "ADD ", " ", ";"], Uncommented .script t.toList := by
    intro t ht
    have hchars : ∀ t ∈ ["ALTER ", "TABLE ", "ADD ", " ", ";"], ∀ c ∈ t.toList,
        isScriptText c = true := by decide
    exact uncommented_of_forall (hchars t ht)
  rw [key.alteration_eq]
  refine (hwords " " (by decide)).append (Uncommented.append ?_ (hwords ";" (by decide)))
  refine (hwords "ALTER " (by decide)).append ((hwords "TABLE " (by decide)).append ?_)
  refine (uncommented_word h.table).append ((hwords " " (by decide)).append ?_)
  exact (hwords "ADD " (by decide)).append (uncommented_keyText h)

end Uncommented

/-! ### The scripts as they are read -/

section Scripts

variable (h : key.Proper)

include h

lemma splitTopLevel_columnText : splitTopLevel .script ',' key.columnText = [key.columnText] := by
  have htrim := trim_columnText h
  rw [splitTopLevel_of_closed (closed_columnText holdsNames_ne_comma h), htrim]
  rw [htrim]
  exact List.append_ne_nil_of_left_ne_nil h.column.ne_nil _

lemma splitTopLevel_inlineText : splitTopLevel .script ',' key.inlineText = [key.inlineText] := by
  have htrim := trim_inlineText h
  rw [splitTopLevel_of_closed (closed_inlineText holdsNames_ne_comma h), htrim]
  rw [htrim, SpelledKey.inlineText]
  simp

lemma splitTopLevel_clause : splitTopLevel .script ',' (key.columnText ++ ',' :: ' ' :: key.keyText)
    = [key.columnText, key.keyText] := by
  have hcolumn := trim_columnText h
  have hkey := trim_space_keyText h
  have hspaced : Closed .script (· ≠ ',') (' ' :: key.keyText) :=
    .cons (by decide) (by decide) (closed_keyText holdsNames_ne_comma h)
  rw [splitTopLevel_cons (by decide) (closed_columnText holdsNames_ne_comma h),
    splitTopLevel_of_closed hspaced, hcolumn, hkey]
  · rw [hkey, key.keyText_eq]
    simp
  · rw [hcolumn]
    exact List.append_ne_nil_of_left_ne_nil h.column.ne_nil _

variable (hfree : key.Free)

include hfree

lemma ofText_inlineScript : Script.ofText key.inlineScript
    = ⟨[some ⟨String.ofList key.table, [.column { key.columnEntry with
        unique := decide (key.target.Shows "UNIQUE")
        references := if key.target.OpensPlain then some key.foreignKey else none }]⟩], [],
          []⟩ := by
  have hspace : Uncommented .script [' '] := uncommented_of_forall (by decide)
  have hcomment : Uncommented .script key.inlineText :=
    (uncommented_columnText h).append (hspace.append (uncommented_references h))
  rw [SpelledKey.inlineScript,
    ofText_createText_alone h.table (still_inlineText h hfree (by simp [EndsKey]))
    hcomment (closed_inlineText ⟨holdsWords_true, trivial⟩ h), splitTopLevel_inlineText h,
    List.map_singleton, ofText_inlineText h hfree]
  rfl

lemma ofText_clauseScript : Script.ofText key.clauseScript
    = ⟨[some ⟨String.ofList key.table, [.column key.columnEntry, .foreignKey key.foreignKey]⟩], [],
        []⟩ := by
  have hclosing : EndsKey [')', ';'] := by simp [EndsKey]
  have hcomma : ∀ v : List Char, Bars (',' :: v) := fun v =>
    bars_of_stops (by simp; decide) (by simp; decide)
  have hseparator : Uncommented .script [',', ' '] := uncommented_of_forall (by decide)
  have hstill : Still (key.columnText ++ ([',', ' '] ++ key.keyText)) [')', ';'] :=
    (still_columnText h hfree (hcomma _)).append
      (Still.append (still_outside (by decide)) (still_keyText h hclosing))
  have hcomment : Uncommented .script (key.columnText ++ ([',', ' '] ++ key.keyText)) :=
    (uncommented_columnText h).append (hseparator.append (uncommented_keyText h))
  have hholds : HoldsNames fun _ => True := ⟨holdsWords_true, trivial⟩
  have hclosed : Closed .script (fun _ => True) (key.columnText ++ ',' :: ' ' :: key.keyText) :=
    (closed_columnText hholds h).append
      (.cons (by decide) trivial (.cons (by decide) trivial (closed_keyText hholds h)))
  have hread : Script.ofText key.clauseScript = ⟨[some ⟨String.ofList key.table, (splitTopLevel
      .script ',' (key.columnText ++ ',' :: ' ' :: key.keyText)).map .ofText⟩], [], []⟩ :=
    ofText_createText_alone h.table hstill hcomment hclosed
  rw [hread, splitTopLevel_clause h]
  simp only [List.map_cons, List.map_nil, ofText_columnText h hfree, ofText_keyText h]
  rfl

lemma ofText_alteredScript : Script.ofText key.alteredScript
    = ⟨[some ⟨String.ofList key.table, [.column key.columnEntry]⟩], [],
        [⟨String.ofList key.table, key.foreignKey⟩]⟩ := by
  have hbars : Bars (')' :: ';' :: key.alteration) :=
    bars_of_stops (by simp; decide) (by simp; decide)
  have hread := ofText_createText h.table (still_columnText h hfree hbars)
    (uncommented_columnText h)
    (uncommented_alteration h) (closed_columnText ⟨holdsWords_true, trivial⟩ h)
    (fun _ => silent_alteration h isHead_createTableHead (by simp [heads]) (by decide))
    (fun _ => silent_alteration h isHead_createIndexHead (by simp [heads]) (by decide))
    fun _ => finds_alteration h
  have hadded : AddForeignKey.ofMatch (matchOf ([';'],
      (key.captures 3 ++ [(2, key.column)]) ++ [(1, key.table)]))
        = ⟨String.ofList key.table, key.foreignKey⟩ := by
    have hgroups : ((key.captures 3 ++ [(2, key.column)]) ++ [(1, key.table)]).lookup 1
        = some key.table ∧ ((key.captures 3 ++ [(2, key.column)]) ++ [(1, key.table)]).lookup 2
          = some key.column := by
      obtain ⟨table, column, type, target, targetColumn⟩ := key
      cases targetColumn <;> simp [SpelledKey.captures, List.lookup_cons]
    have hkey : ForeignKey.ofMatch [String.ofList key.column] 3 (matchOf ([';'],
        (key.captures 3 ++ [(2, key.column)]) ++ [(1, key.table)])) = key.foreignKey :=
      ofMatch_captures h (List.append_assoc _ _ _) rfl
    rw [AddForeignKey.ofMatch, Match.group, Match.group, Match.group?, Match.group?]
    simp only [matchOf, hgroups.1, hgroups.2, Option.getD_some, nameOf_plain h.table,
      namesOf_word h.column]
    exact congrArg (AddForeignKey.mk _) hkey
  rw [SpelledKey.alteredScript, hread, splitTopLevel_columnText h, List.map_singleton,
    ofText_columnText h hfree, List.map_singleton, hadded]
  rfl

end Scripts

/-! ### The schemas -/

lemma edges_foreignKey (key : SpelledKey) :
    key.foreignKey.edges (String.ofList key.table) = [key.edge] := by
  obtain ⟨table, column, type, target, targetColumn⟩ := key
  cases targetColumn <;> rfl

/-- The column made to point along the relation of the key. -/
lemma linkEdges_addIndexes (key : SpelledKey) (indexes : List Index) :
    linkEdges [key.edge] { key.plainTable with indexes }
      = ⟨String.ofList key.table, [⟨String.ofList key.column, String.ofList key.type, true, false,
          some key.reference⟩], indexes⟩ := by
  simp [linkEdges, SpelledKey.edge, SpelledKey.plainTable, Table.setReference, Table.updateColumn,
    updateFirstColumn]

lemma ofText_schema_clause (h : key.Proper) (hfree : key.Free) (rawPath : String) :
    Schema.ofText .sql key.clauseScript rawPath = key.schema rawPath := by
  have hedges : (CreateTable.mk (String.ofList key.table)
      [.column key.columnEntry, .foreignKey key.foreignKey]).edges = [key.edge] :=
    (List.append_nil _).trans (edges_foreignKey key)
  have htable : (CreateTable.mk (String.ofList key.table)
      [.column key.columnEntry, .foreignKey key.foreignKey]).table
        = linkEdges [key.edge] { key.plainTable with indexes := [] } := by
    rw [CreateTable.table, hedges]
    rfl
  rw [schema_of_script (ofText_clauseScript h hfree), schema_oneTable (by simp [hedges]),
    htable, hedges, linkEdges_addIndexes]
  rfl

lemma ofText_schema_altered (h : key.Proper) (hfree : key.Free) (rawPath : String) :
    Schema.ofText .sql key.alteredScript rawPath = key.schema rawPath := by
  have hcreated : addCreated .empty (some ⟨String.ofList key.table, [.column key.columnEntry]⟩)
      = ⟨[key.plainTable], [], [.createdTableRead]⟩ := rfl
  have hlinked : linkEdges [key.edge] key.plainTable = _ := linkEdges_addIndexes key []
  have hname : key.plainTable.name = String.ofList key.table := rfl
  rw [schema_of_script (ofText_alteredScript h hfree), Script.draft, List.foldl_cons,
    List.foldl_nil, List.foldl_nil, List.foldl_cons, List.foldl_nil, hcreated]
  simp [AddForeignKey.addTo, edges_foreignKey, Draft.table?, Draft.updateTable, updateFirstTable,
    Draft.schema, Draft.addRelations, Draft.addRelation, Draft.hasEdge, hname, hlinked]
  rfl

lemma ofText_schema_inline (h : key.Proper) (hfree : key.Free) (rawPath : String) :
    Schema.ofText .sql key.inlineScript rawPath = key.optionSchema rawPath := by
  have hread := ofText_inlineScript h hfree
  have hindex : ∀ (unique : Bool) (references : Option ForeignKey),
      [TableEntry.column { key.columnEntry with unique, references }].foldl TableEntry.applyTo
        (Table.empty (String.ofList key.table)) = { key.plainTable with indexes :=
          if unique then [.uniqueColumn (String.ofList key.table) (String.ofList key.column)]
            else [] } := by
    intro unique references
    cases unique <;> rfl
  by_cases hplain : key.target.OpensPlain
  · have hedges : (CreateTable.mk (String.ofList key.table) [.column { key.columnEntry with
        unique := decide (key.target.Shows "UNIQUE"), references := some key.foreignKey }]).edges
          = [key.edge] := (List.append_nil _).trans (edges_foreignKey key)
    rw [if_pos hplain] at hread
    rw [schema_of_script hread, schema_oneTable (by simp [hedges]), CreateTable.table,
      hedges, hindex, linkEdges_addIndexes]
    simp [SpelledKey.optionSchema, hplain]
  · have hedges : (CreateTable.mk (String.ofList key.table) [.column { key.columnEntry with
        unique := decide (key.target.Shows "UNIQUE"), references := none }]).edges = [] := rfl
    rw [if_neg hplain] at hread
    rw [schema_of_script hread, schema_oneTable (by simp [hedges]), CreateTable.table,
      hedges, hindex]
    simp [SpelledKey.optionSchema, hplain, linkEdges, SpelledKey.plainTable]

lemma optionSchema_eq_schema_iff (key : SpelledKey) (rawPath : String) :
    key.optionSchema rawPath = key.schema rawPath
      ↔ key.target.OpensPlain ∧ ¬ key.target.Shows "UNIQUE" := by
  by_cases hplain : key.target.OpensPlain <;> by_cases hshows : key.target.Shows "UNIQUE" <;>
    simp [SpelledKey.optionSchema, SpelledKey.schema, SpelledKey.edge, hplain, hshows]

/-- A foreign key is read as the reference of its column and the one relation that it means, both
as a clause of the table and where the table is altered, however the names of what it points at are
written.  As an option of the column it is read so exactly where the name of the table pointed at
begins with a plain part, and no plain part of it is the word for a unique column. -/
theorem SpelledKey.ofText_places (h : key.Proper) (hfree : key.Free) (rawPath : String) :
    Schema.ofText .sql key.clauseScript rawPath = key.schema rawPath ∧
      Schema.ofText .sql key.alteredScript rawPath = key.schema rawPath ∧
      Schema.ofText .sql key.inlineScript rawPath = key.optionSchema rawPath ∧
      (Schema.ofText .sql key.inlineScript rawPath = key.schema rawPath
        ↔ key.target.OpensPlain ∧ ¬ key.target.Shows "UNIQUE") := by
  have hinline := ofText_schema_inline h hfree rawPath
  refine ⟨ofText_schema_clause h hfree rawPath, ofText_schema_altered h hfree rawPath, hinline, ?_⟩
  rw [hinline, optionSchema_eq_schema_iff]

/-- A key that points at `app."users"`. -/
def sampleKey : SpelledKey where
  table := "orders".toList
  column := "owner".toList
  type := "INT".toList
  target := ⟨some (.plain, "app".toList, [], []), .double, "users".toList⟩
  targetColumn := some (.back, "uid".toList)

/-- The qualifier shows, and the key is read in all three places. -/
theorem SpelledKey.ofText_places_sampleKey :
    sampleKey.Proper ∧ sampleKey.Free ∧
      Schema.ofText .sql sampleKey.clauseScript "a.sql" = sampleKey.schema "a.sql" ∧
      Schema.ofText .sql sampleKey.alteredScript "a.sql" = sampleKey.schema "a.sql" ∧
      Schema.ofText .sql sampleKey.inlineScript "a.sql" = sampleKey.schema "a.sql" := by
  have hproper : sampleKey.Proper := {
    table := by decide
    column := by decide
    type := by decide
    target := ⟨by decide, by decide⟩
    targetColumn := by decide }
  have hfree : sampleKey.Free := ⟨by decide, by decide⟩
  obtain ⟨hclause, haltered, -, hinline⟩ := SpelledKey.ofText_places hproper hfree "a.sql"
  exact ⟨hproper, hfree, hclause, haltered, hinline.mpr (by decide)⟩

/-- A key that points at a quoted name is lost as an option of its column: the column is read
without it, and there is no relation. -/
theorem quoted_option_loses_key :
    Schema.ofText .sql "CREATE TABLE t (a INT REFERENCES \"u\"(id));".toList "inline"
      = ⟨.sql, [⟨"t", [⟨"a", "INT", true, false, none⟩], []⟩], [], "inline"⟩ ∧
    Schema.ofText .sql "CREATE TABLE t (a INT, FOREIGN KEY (a) REFERENCES \"u\"(id));".toList
      "inline"
      = ⟨.sql, [⟨"t", [⟨"a", "INT", true, false, some ⟨"u", "id"⟩⟩], []⟩],
          [⟨"t", "a", "u", "id", .oneToMany⟩], "inline"⟩ := by
  decide +kernel

end SchemaReader.Ddl
