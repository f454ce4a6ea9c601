/-
Names in declarations and in lists.

* `SpelledClause`: a trailing constraint with a list of names in any spelling;
* `SpelledTable`: a table with one such constraint, with `SpelledTable.script`;
* `SpelledTable.table`: the table that it means;
* `SpelledTable.ofText_listed`: a constraint reaches exactly the columns that it lists.
-/
import SchemaReader.Proofs.Ddl.NameLists
import SchemaReader.Proofs.Ddl.Passes
import SchemaReader.Proofs.Ddl.Silence

namespace SchemaReader.Ddl

open Text (IsWord IsGap IsKeyword Spells Stops isWordChar isBlank)
open Pattern

/-! ### Written tables -/

/-- The bare name. -/
def SpelledName.name (name : SpelledName) : String := String.ofList name.bare

/-- A constraint with a list of names. -/
inductive SpelledClause where
  | primaryKey (columns : List SpelledName)
  | unique (columns : List SpelledName)
  | index (columns : List SpelledName)
  | foreignKey (columns : List SpelledName) (table : List Char) (targets : List SpelledName)

/-- The text of a list in parentheses. -/
def listText (names : List SpelledName) : List Char :=
  '(' :: (listed (names.map SpelledName.text) ++ [')'])

namespace SpelledClause

/-- A constraint as it is written. -/
def text : SpelledClause → List Char
  | primaryKey columns =>
      "PRIMARY".toList ++ ([' '] ++ ("KEY".toList ++ ([' '] ++ listText columns)))
  | unique columns => "UNIQUE".toList ++ ([' '] ++ listText columns)
  | index columns => "KEY".toList ++ ([' '] ++ listText columns)
  | foreignKey columns table targets =>
      "FOREIGN".toList ++ ([' '] ++ ("KEY".toList ++ ([' '] ++ (listText columns ++ ([' '] ++
        ("REFERENCES".toList ++ ([' '] ++ (table ++ ([' '] ++ listText targets)))))))))

/-- The constraint with bare names. -/
def clause : SpelledClause → Clause
  | primaryKey columns => .primaryKey (columns.map SpelledName.name)
  | unique columns => .unique none (columns.map SpelledName.name)
  | index columns => .index true none (columns.map SpelledName.name)
  | foreignKey columns table targets => .foreignKey none
      ⟨columns.map SpelledName.name, String.ofList table, targets.map SpelledName.name⟩

/-- There are names in a list, spelled properly, and the list does not look as if it stood in square
brackets. -/
structure ProperList (names : List SpelledName) : Prop where
  proper : ∀ name ∈ names, name.Proper
  listable : Listable names
  ne_nil : names ≠ []

instance (names : List SpelledName) : Decidable (ProperList names) :=
  decidable_of_iff ((∀ name ∈ names, name.Proper) ∧ Listable names ∧ names ≠ [])
    ⟨fun h => ⟨h.1, h.2.1, h.2.2⟩, fun h => ⟨h.1, h.2, h.3⟩⟩

def Proper : SpelledClause → Prop
  | primaryKey columns | unique columns | index columns => ProperList columns
  | foreignKey columns table targets => ProperList columns ∧ IsWord table ∧ ProperList targets

instance : (clause : SpelledClause) → Decidable clause.Proper
  | primaryKey columns | unique columns | index columns =>
      inferInstanceAs (Decidable (ProperList columns))
  | foreignKey columns table targets =>
      inferInstanceAs (Decidable (ProperList columns ∧ IsWord table ∧ ProperList targets))

/-- The names that a primary key marks. -/
def marked : SpelledClause → List String
  | primaryKey columns => columns.map SpelledName.name
  | _ => []

/-- What a column of a foreign key points at: the name in the same place of the other list. -/
def reference? (column : String) : SpelledClause → Option Reference
  | foreignKey columns table targets =>
      (((columns.map SpelledName.name).zip (targets.map SpelledName.name)).reverse.lookup
        column).map
        fun target => ⟨String.ofList table, target⟩
  | _ => none

/-- The index of a constraint, with the columns in the order of the list. -/
def indexes (table : String) : SpelledClause → List Index
  | unique columns =>
      let names := columns.map SpelledName.name
      [⟨Index.defaultName table names true, names, true⟩]
  | index columns =>
      let names := columns.map SpelledName.name
      [⟨Index.defaultName table names false, names, false⟩]
  | _ => []

end SpelledClause

/-- A table with columns and one constraint. -/
structure SpelledTable where
  name : List Char
  columns : List (SpelledName × ColumnType)
  clause : SpelledClause

namespace SpelledTable

/-- The entries of the list of a table. -/
def items (table : SpelledTable) : List (List Char) :=
  table.columns.map (fun column => column.1.text ++ ' ' :: column.2.text) ++ [table.clause.text]

def script (table : SpelledTable) : List Char := createText table.name (listed table.items)

/-- The table with bare names. -/
def definition (table : SpelledTable) : TableDef where
  name := String.ofList table.name
  columns := table.columns.map fun column => ⟨column.1.name, column.2, []⟩
  clauses := [table.clause.clause]

/-- The table that is meant: the constraint reaches exactly the columns that it lists. -/
def table (table : SpelledTable) : Table where
  name := String.ofList table.name
  columns := table.columns.map fun column =>
    ⟨column.1.name, String.ofList column.2.text, true, table.clause.marked.contains column.1.name,
      table.clause.reference? column.1.name⟩
  indexes := table.clause.indexes (String.ofList table.name)

structure Proper (table : SpelledTable) : Prop where
  name : IsWord table.name
  columns : ∀ column ∈ table.columns, column.1.Proper ∧ column.1.Free ∧ column.2.Proper
  clause : table.clause.Proper
  distinct : (table.columns.map fun column => column.1.name).Nodup

instance (table : SpelledTable) : Decidable table.Proper :=
  decidable_of_iff (IsWord table.name ∧
      (∀ column ∈ table.columns, column.1.Proper ∧ column.1.Free ∧ column.2.Proper) ∧
        table.clause.Proper ∧ (table.columns.map fun column => column.1.name).Nodup)
    ⟨fun h => ⟨h.1, h.2.1, h.2.2.1, h.2.2.2⟩, fun h => ⟨h.1, h.2, h.3, h.4⟩⟩

end SpelledTable

variable {before u v w rest : List Char} {type : ColumnType} {name : SpelledName}
  {names : List SpelledName}

/-! ### Parts of entries -/

/-- A part of an entry: it closes what it opens, holds no comment, and no statement begins in it. -/
structure Calm (u rest : List Char) : Prop where
  closed : Closed .script (· ≠ ',') u
  uncommented : Uncommented .script u
  still : Still u rest

lemma Calm.append (hu : Calm u (v ++ rest)) (hv : Calm v rest) : Calm (u ++ v) rest :=
  ⟨hu.closed.append hv.closed, hu.uncommented.append hv.uncommented, hu.still.append hv.still⟩

lemma calm_gap (hg : IsGap u) : Calm u rest :=
  ⟨IsGap.closed hg fun _ => ne_comma_of_isBlank, uncommented_gap hg, still_gap hg⟩

lemma calm_space : Calm [' '] rest := calm_gap (by decide)

/-- A word behind which no statement goes on. -/
lemma calm_barred (hw : IsWord w) (hrest : Bars rest) : Calm w rest :=
  ⟨IsWord.closed hw fun _ => ne_comma_of_isWordChar, uncommented_word hw, still_word hw hrest⟩

/-- A word with which no statement begins. -/
lemma calm_free (hw : IsWord w) (hfree : ∀ K ∈ leadingWords, ¬ Spells K.toList w)
    (hrest : Stops isWordChar rest) : Calm w rest :=
  ⟨IsWord.closed hw fun _ => ne_comma_of_isWordChar, uncommented_word hw,
    still_free_word hw hfree hrest⟩

lemma calm_spelled (h : name.Readable) (hrest : Bars rest) : Calm name.text rest :=
  ⟨closed_spelled h fun _ => ne_comma_of_isNameChar, uncommented_spelled h, still_spelled h hrest⟩

/-- A text that is calm wherever an entry ends can stand in a list. -/
lemma isItem_of_calm (hstart : Stops isBlank u) (hend : EndsSolid u)
    (hcalm : ∀ rest, EndsItem rest → Calm u rest) : IsItem u :=
  have hu := hcalm [')'] ⟨')', by decide, [], rfl⟩
  ⟨⟨hend.1, hstart, hend.2, hu.closed⟩, hu.uncommented, fun rest hrest => (hcalm rest hrest).still⟩

/-! ### Declared columns in a list -/

lemma isScriptText_of_isSizeChar {c : Char} (h : isSizeChar c = true) : isScriptText c = true := by
  simp only [isSizeChar, Bool.or_eq_true, beq_iff_eq] at h
  rcases h with (h | rfl) | h
  · exact isScriptText_of_isWordChar (Text.isWordChar_of_isAsciiDigit h)
  · decide
  · exact isScriptText_of_isBlank h

lemma uncommented_type (h : type.Proper) : Uncommented .script type.text := by
  obtain ⟨w, size⟩ := type
  cases size with
  | none => exact uncommented_word h.isWord
  | some size =>
      obtain ⟨hg, hu⟩ := h.size _ rfl
      have hopen : Uncommented .script ['('] := uncommented_of_forall (by decide)
      have hclose : Uncommented .script [')'] := uncommented_of_forall (by decide)
      have hsize : Uncommented .script size.2 :=
        uncommented_of_forall fun c hc => isScriptText_of_isSizeChar (hu c hc)
      exact (uncommented_word h.isWord).append
        ((uncommented_gap hg).append (hopen.append (hsize.append hclose)))

lemma still_type (h : type.Proper) (hrest : EndsItem rest) : Still type.text rest := by
  obtain ⟨w, size⟩ := type
  cases size with
  | none => exact still_word h.isWord hrest.bars
  | some size =>
      obtain ⟨g, u⟩ := size
      obtain ⟨hg, hu⟩ := h.size _ rfl
      have hbars : Bars (g ++ '(' :: (u ++ ')' :: rest)) :=
        bars_gap hg (by simp; decide) (by simp; decide)
      have hsize : Still u ([')'] ++ rest) := fun q hq before => by
        obtain ⟨K, b, hhead⟩ := exists_isHead hq
        exact silent_size hhead.ledBy hhead.isKeyword hu
      refine (still_word h.isWord (by simpa using hbars)).append (Still.append (still_gap hg) ?_)
      refine Still.append (u := ['(']) (still_outside (by decide)) ?_
      exact hsize.append (still_outside (by decide))

lemma isItem_declared (h : name.Proper) (hfree : name.Free) (htype : type.Proper) :
    IsItem (name.text ++ ' ' :: type.text) := by
  have hstart := htype.not_stops []
  rw [List.append_nil] at hstart
  have hne : type.text ≠ [] := fun hnil => hstart (by simp [hnil])
  have hend : EndsSolid type.text := ⟨hne, htype.stops_isBlank_reverse⟩
  have hname := isItem_spelled h.readable
  refine isItem_of_calm (hname.start.append_of_ne_nil hname.ne_nil _)
    ((hend.append_left [' ']).append_left name.text) fun rest hrest => ?_
  have hcalmName : Calm name.text (([' '] ++ type.text) ++ rest) :=
    ⟨hname.closed, hname.uncommented, still_declared h hfree (by simp; decide)⟩
  have hcalmType : Calm type.text rest :=
    ⟨htype.closed holdsWords_ne_comma, uncommented_type htype, still_type htype hrest⟩
  exact hcalmName.append (calm_space.append hcalmType)

/-! ### Constraints in a list -/

/-- A keyword in letters of any case is no other keyword. -/
lemma not_spells_cased {K L : String} (hK : IsKeyword K.toList) (hL : IsKeyword L.toList)
    (hw : Text.Cased K.toList w) (hne : L ≠ K) : ¬ Spells L.toList w := fun hspells =>
  hne (String.toList_injective (hspells.unique hL hK hw.spells))

/-- A word of a constraint, before a space. -/
lemma calm_word (hw : IsWord w) (hfree : ∀ K ∈ leadingWords, ¬ Spells K.toList w) :
    Calm w (' ' :: rest) := calm_free hw hfree (by simp; decide)

lemma isItem_names (h : ∀ name ∈ names, name.Proper) :
    ∀ t ∈ names.map SpelledName.text, IsItem t := by
  intro t ht
  obtain ⟨name, hname, rfl⟩ := List.mem_map.mp ht
  exact isItem_spelled (h name hname).readable

/-- A list in parentheses. -/
lemma calm_parenthesized {texts : List (List Char)} (h : ∀ t ∈ texts, IsItem t) :
    Calm ('(' :: (listed texts ++ [')'])) rest := by
  have hopen : Uncommented .script ['('] := uncommented_of_forall (by decide)
  have hclose : Uncommented .script [')'] := uncommented_of_forall (by decide)
  refine ⟨.bracket _ (by decide) (by decide) (closed_listed (isPart_of_isItem h)),
    hopen.append ((uncommented_listed h).append hclose), ?_⟩
  refine Still.append (u := ['(']) (still_outside (by decide)) ?_
  exact (still_listed h ⟨')', by decide, rest, rfl⟩).append (still_outside (by decide))

lemma calm_listText (h : ∀ name ∈ names, name.Proper) : Calm (listText names) rest :=
  calm_parenthesized (isItem_names h)

lemma ne_closing_listed (h : ∀ name ∈ names, name.Proper) :
    ∀ c ∈ listed (names.map SpelledName.text), c ≠ ')' :=
  forall_mem_listed (List.forall_mem_map.mpr fun name hname =>
    ne_closing_spelled (h name hname).readable)
    (by decide) (by decide)

lemma calm_text {clause : SpelledClause} (h : clause.Proper) : Calm clause.text rest := by
  have hword : ∀ K ∈ ["PRIMARY", "UNIQUE", "KEY", "FOREIGN", "REFERENCES"], ∀ rest,
      Calm K.toList (' ' :: rest) := by
    intro K hK rest
    have hwords : ∀ K ∈ ["PRIMARY", "UNIQUE", "KEY", "FOREIGN", "REFERENCES"], IsWord K.toList ∧
        ∀ L ∈ leadingWords, ¬ Spells L.toList K.toList := by decide
    exact calm_word (hwords K hK).1 (hwords K hK).2
  cases clause with
  | primaryKey columns =>
      refine (hword "PRIMARY" (by decide) _).append (calm_space.append ?_)
      exact (hword "KEY" (by decide) _).append (calm_space.append (calm_listText h.proper))
  | unique columns =>
      exact (hword "UNIQUE" (by decide) _).append (calm_space.append (calm_listText h.proper))
  | index columns =>
      exact (hword "KEY" (by decide) _).append (calm_space.append (calm_listText h.proper))
  | foreignKey columns table targets =>
      obtain ⟨hcolumns, htable, htargets⟩ := h
      have hbars : Bars ([' '] ++ (listText targets ++ rest)) :=
        bars_gap (by decide) (by simp [listText]; decide) (by simp [listText]; decide)
      have hname : Calm table ([' '] ++ (listText targets ++ rest)) := calm_barred htable hbars
      refine (hword "FOREIGN" (by decide) _).append (calm_space.append ?_)
      refine (hword "KEY" (by decide) _).append (calm_space.append ?_)
      refine (calm_listText hcolumns.proper).append (calm_space.append ?_)
      refine (hword "REFERENCES" (by decide) _).append (calm_space.append (Calm.append ?_ ?_))
      · simpa using hname
      · exact calm_space.append (calm_listText htargets.proper)

lemma endsSolid_listText (names : List SpelledName) : EndsSolid (listText names) := by
  have hclose : EndsSolid [')'] := ⟨by simp, by simp; decide⟩
  exact hclose.append_left ('(' :: listed (names.map SpelledName.text))

lemma endsSolid_text (clause : SpelledClause) : EndsSolid clause.text := by
  cases clause with
  | primaryKey columns =>
      have hkey := ((endsSolid_listText columns).append_left [' ']).append_left "KEY".toList
      exact (hkey.append_left [' ']).append_left "PRIMARY".toList
  | unique columns =>
      exact ((endsSolid_listText columns).append_left [' ']).append_left "UNIQUE".toList
  | index columns => exact ((endsSolid_listText columns).append_left [' ']).append_left "KEY".toList
  | foreignKey columns table targets =>
      have htable := ((endsSolid_listText targets).append_left [' ']).append_left table
      have hreferences := (htable.append_left [' ']).append_left "REFERENCES".toList
      have hcolumns := (hreferences.append_left [' ']).append_left (listText columns)
      have hkey := (hcolumns.append_left [' ']).append_left "KEY".toList
      exact (hkey.append_left [' ']).append_left "FOREIGN".toList

/-- A constraint begins with one of the words for constraints. -/
lemma exists_word_text (clause : SpelledClause) : ∃ K ∈ constraintWords, ∃ v,
    IsKeyword K.toList ∧ clause.text = K.toList ++ ([' '] ++ v) := by
  cases clause with
  | primaryKey columns => exact ⟨"PRIMARY", by decide, _, by decide, rfl⟩
  | unique columns => exact ⟨"UNIQUE", by decide, _, by decide, rfl⟩
  | index columns => exact ⟨"KEY", by decide, _, by decide, rfl⟩
  | foreignKey columns table targets => exact ⟨"FOREIGN", by decide, _, by decide, rfl⟩

lemma isItem_clause {clause : SpelledClause} (h : clause.Proper) : IsItem clause.text := by
  obtain ⟨K, -, v, hK, htext⟩ := exists_word_text clause
  refine isItem_of_calm ?_ (endsSolid_text clause) fun _ _ => calm_text h
  rw [htext]
  exact (hK.cased.spells.isWord hK).stops_isBlank _

/-! ### Constraints as they are read -/

lemma namesOf_properList (h : SpelledClause.ProperList names) :
    namesOf (listed (names.map SpelledName.text)) = names.map SpelledName.name :=
  namesOf_listed (fun name hname => (h.proper name hname).readable) h.listable

/-- A keyword with a space behind it. -/
lemma beginsKeyword_space {K : String} (hK : IsKeyword K.toList) (v : List Char) :
    BeginsKeyword K (K.toList ++ ' ' :: v) :=
  ⟨hK, K.toList, _, rfl, hK.cased.spells, by simp; decide⟩

section Constraints

variable {columns targets : List SpelledName} {table : List Char}

lemma constraint?_primaryKey_listed (h : SpelledClause.ProperList columns) :
    constraint? (SpelledClause.primaryKey columns).text
      = some (.primaryKey (columns.map SpelledName.name)) := by
  have hspaced : SpacedKeyword "PRIMARY" ("PRIMARY".toList ++ [' ']) :=
    spacedKeyword_space (by decide) rfl
  have hbegins : BeginsKeyword "PRIMARY" (SpelledClause.primaryKey columns).text :=
    beginsKeyword_space (by decide) _
  have htext : (SpelledClause.primaryKey columns).text = (("PRIMARY".toList ++ [' ']) ++
      ("KEY".toList ++ ([' '] ++ listText columns))) ++ [] := by
    rw [List.append_nil, List.append_assoc]
    rfl
  have hfind := find?_of_eq_append htext (takes_primaryKeyForm hspaced
    (show IsKeyword "KEY".toList by decide).cased.spells (by decide) (ne_closing_listed h.proper))
  simp [constraint?_of_primaryKeyForm hbegins hfind, Match.group, Match.group?,
    namesOf_properList h]

lemma constraint?_unique_listed (h : SpelledClause.ProperList columns) :
    constraint? (SpelledClause.unique columns).text
      = some (.unique none (columns.map SpelledName.name)) := by
  have hbegins : BeginsKeyword "UNIQUE" (SpelledClause.unique columns).text :=
    beginsKeyword_space (by decide) _
  have hfind := find?_of_eq_append (List.append_nil _).symm (takes_uniqueForm
    (show IsKeyword "UNIQUE".toList by decide).cased.spells (g := [' ']) (by decide)
      (ne_closing_listed h.proper))
  simp [constraint?_of_uniqueForm hbegins hfind, Match.group, Match.group?, namesOf_properList h]

lemma constraint?_index_listed (h : SpelledClause.ProperList columns) :
    constraint? (SpelledClause.index columns).text
      = some (.index none (columns.map SpelledName.name)) := by
  have hbegins : BeginsKeyword "KEY" (SpelledClause.index columns).text :=
    beginsKeyword_space (by decide) _
  have hfind := find?_of_eq_append (List.append_nil _).symm (takes_indexForm
    (Or.inr (show IsKeyword "KEY".toList by decide).cased.spells) (g := [' ']) (by decide)
      (ne_closing_listed h.proper))
  simp [constraint?_of_indexForm hbegins (by decide) hfind, Match.group, Match.group?,
    List.lookup_cons, namesOf_properList h]

lemma constraint?_foreignKey_listed (h : SpelledClause.ProperList columns) (htable : IsWord table)
    (htargets : SpelledClause.ProperList targets) :
    constraint? (SpelledClause.foreignKey columns table targets).text
      = some (.foreignKey ⟨columns.map SpelledName.name, String.ofList table,
          some (targets.map SpelledName.name)⟩) := by
  have hforeign : SpacedKeyword "FOREIGN" ("FOREIGN".toList ++ [' ']) :=
    spacedKeyword_space (by decide) rfl
  have hreferences : SpacedKeyword "REFERENCES" ("REFERENCES".toList ++ [' ']) :=
    spacedKeyword_space (by decide) rfl
  have htakes : ∀ before, (referencesForm 2).Takes before (("REFERENCES".toList ++ [' ']) ++
      (table ++ ([' '] ++ listText targets))) [] _ := fun before =>
    takes_referencesForm_listed 2 hreferences (WrittenName.plain_proper htable) (by decide)
      (ne_closing_listed htargets.proper)
  have hbody := takes_foreignKeyForm (takes_unnamedKey hforeign (takes_foreignKeyBody 1 hforeign
    (show IsKeyword "KEY".toList by decide).cased.spells (show IsGap [' '] by decide)
      (ne_closing_listed h.proper) (show IsGap [' '] by decide) htakes
        (by rw [List.append_assoc]; exact hreferences.stops_isBlank _)))
  have htext : (SpelledClause.foreignKey columns table targets).text
      = (("FOREIGN".toList ++ [' ']) ++
      ("KEY".toList ++ ([' '] ++ (listText columns ++ ([' '] ++ (("REFERENCES".toList ++ [' ']) ++
        (table ++ ([' '] ++ listText targets)))))))) ++ [] := by
    rw [List.append_nil, List.append_assoc, List.append_assoc]
    rfl
  have hfind := find?_of_eq_append htext hbody
  simp [constraint?_of_foreignKeyForm hfind, Match.group, Match.group?, List.lookup_cons,
    ForeignKey.ofMatch, namesOf_properList h, namesOf_properList htargets, nameOf_plain htable]

end Constraints

/-- A word before `KEY`, or before a parenthesis, shows a constraint. -/
lemma looksLikeConstraint_key {K : String} (hK : K ∈ ["PRIMARY", "FOREIGN"]) (v : List Char) :
    looksLikeConstraint (K.toList ++ ([' '] ++ ("KEY".toList ++ ([' '] ++ v)))) = true := by
  have hkey : IsWord "KEY".toList := by decide
  have hwords : ∀ K ∈ ["PRIMARY", "FOREIGN"], IsWord K.toList ∧
      constraintWords.contains (String.ofList (Text.upper K.toList)) = true := by decide
  obtain ⟨hword, hconstraint⟩ := hwords K hK
  have htype : typeNames.contains (String.ofList (Text.upper "KEY".toList)) = false := by
    decide
  rw [looksLikeConstraint, firstWord_append hword (by simp; decide),
    secondWordIsType_append hword (by decide) (by simp) hkey (by simp; decide), hconstraint, htype]
  simp

lemma looksLikeConstraint_list {K : String} (hK : K ∈ ["UNIQUE", "KEY"]) (v : List Char) :
    looksLikeConstraint (K.toList ++ ([' '] ++ '(' :: v)) = true := by
  have hwords : ∀ K ∈ ["UNIQUE", "KEY"], IsWord K.toList ∧
      constraintWords.contains (String.ofList (Text.upper K.toList)) = true := by decide
  obtain ⟨hword, hconstraint⟩ := hwords K hK
  rw [looksLikeConstraint, firstWord_append hword (by simp; decide),
    secondWordIsType_parenthesis hword (by decide), hconstraint]
  simp

/-- A constraint is read as the constraint with bare names. -/
lemma ofText_text {clause : SpelledClause} (h : clause.Proper) :
    TableEntry.ofText clause.text = clause.clause.entry := by
  have hboth : looksLikeConstraint clause.text = true ∧
      constraint? clause.text = some clause.clause.entry := by
    cases clause with
    | primaryKey columns =>
        exact ⟨looksLikeConstraint_key (by decide) _, constraint?_primaryKey_listed h⟩
    | unique columns =>
        exact ⟨looksLikeConstraint_list (by decide) _, constraint?_unique_listed h⟩
    | index columns =>
        exact ⟨looksLikeConstraint_list (by decide) _, constraint?_index_listed h⟩
    | foreignKey columns table targets =>
        exact ⟨looksLikeConstraint_key (by decide) _, constraint?_foreignKey_listed h.1 h.2.1 h.2.2⟩
  rw [TableEntry.ofText, hboth.1, if_pos rfl, hboth.2, Option.getD_some]

/-! ### The table -/

variable {table : SpelledTable}

lemma isItem_items (h : table.Proper) : ∀ t ∈ table.items, IsItem t := by
  intro t ht
  rcases List.mem_append.mp ht with ht | ht
  · obtain ⟨column, hcolumn, rfl⟩ := List.mem_map.mp ht
    obtain ⟨hname, hfree, htype⟩ := h.columns column hcolumn
    exact isItem_declared hname hfree htype
  · obtain rfl := List.mem_singleton.mp ht
    exact isItem_clause h.clause

/-- The script is read as the table with bare names. -/
lemma ofText_spelledTable (h : table.Proper) :
    Script.ofText table.script = ⟨[some table.definition.created], [], []⟩ := by
  have hentries : table.items.map TableEntry.ofText = table.definition.items.map Prod.snd := by
    have hcolumns : (table.columns.map fun column => column.1.text ++ ' ' :: column.2.text).map
        TableEntry.ofText = table.definition.columns.map fun column => .column column.entry := by
      rw [SpelledTable.definition, List.map_map, List.map_map, List.map_inj_left]
      intro column hcolumn
      obtain ⟨hname, hfree, htype⟩ := h.columns column hcolumn
      exact ofText_declared hname hfree htype
    rw [SpelledTable.items, List.map_append, hcolumns, List.map_singleton, ofText_text h.clause,
      TableDef.items, List.map_append, List.map_map]
    rfl
  rw [SpelledTable.script, ofText_items h.name (isItem_items h), hentries]
  rfl

/-- Of the places in which a foreign key lists a column the last one counts. -/
lemma foldl_pointAlong_lookup (table : String) (pairs : List (String × Reference))
    (column : Column) :
    (pairs.map (edgeOf table)).foldl pointAlong column
      = { column with references := (pairs.reverse.lookup column.name).or column.references } := by
  induction pairs using List.reverseRecOn with
  | nil => simp
  | append_singleton pairs pair ih =>
      obtain ⟨name, target⟩ := pair
      rw [List.map_append, List.foldl_append, ih, List.reverse_append]
      by_cases hname : column.name = name
      · simp [pointAlong, edgeOf, hname]
      · have hbeq : (column.name == name) = false := by simpa using hname
        simp [pointAlong, edgeOf, hname, List.lookup_cons, hbeq]

lemma lookup_map_snd {β γ : Type} (f : β → γ) (pairs : List (String × β)) (key : String) :
    (pairs.map fun pair => (pair.1, f pair.2)).lookup key = (pairs.lookup key).map f := by
  induction pairs with
  | nil => rfl
  | cons pair pairs ih =>
      rw [List.map_cons, List.lookup_cons, List.lookup_cons, ih]
      split <;> rfl

lemma reference?_eq (clause : SpelledClause) (column : String) :
    clause.reference? column = clause.clause.pairs.reverse.lookup column := by
  cases clause with
  | foreignKey columns table targets =>
      rw [SpelledClause.reference?, SpelledClause.clause, Clause.pairs, KeyDef.pairs,
        ← List.map_reverse, lookup_map_snd]
  | primaryKey | unique | index => rfl

lemma indexes_eq {clause : SpelledClause} (h : clause.Proper) (table : String) :
    clause.indexes table = [clause.clause].filterMap (Clause.index? table) := by
  cases clause with
  | unique columns =>
      have hne : columns ≠ [] := SpelledClause.ProperList.ne_nil h
      simp [SpelledClause.indexes, SpelledClause.clause, Clause.index?, indexOf, hne]
  | primaryKey | index | foreignKey => rfl

/-- The entries of the table make the table that is meant. -/
lemma table_definition (h : table.Proper) : table.definition.created.table = table.table := by
  have hdistinct : (table.definition.columns.map ColumnDef.name).Nodup := by
    simpa [SpelledTable.definition, Function.comp_def] using h.distinct
  have hplain : ∀ column ∈ table.definition.columns, column.options = [] := by
    intro column hcolumn
    obtain ⟨_, -, rfl⟩ := List.mem_map.mp hcolumn
    rfl
  have hpairs : table.definition.pairs = table.clause.clause.pairs := by
    have hnone : table.definition.columns.flatMap ColumnDef.pairs = [] :=
      List.flatMap_eq_nil_iff.mpr fun column hcolumn => by simp [ColumnDef.pairs,
        hplain column hcolumn]
    rw [TableDef.pairs, hnone]
    simp [SpelledTable.definition]
  have hindexes : table.definition.indexes = table.clause.indexes (String.ofList table.name) := by
    have hnone : (table.definition.columns.filter fun column => column.options.contains .unique)
        = [] :=
      List.filter_eq_nil_iff.mpr fun column hcolumn => by simp [hplain column hcolumn]
    rw [TableDef.indexes, hnone, indexes_eq h.clause]
    simp [SpelledTable.definition]
  have hmarked : table.definition.clauses.flatMap Clause.primaryKeys = table.clause.marked := by
    obtain ⟨name, columns, clause⟩ := table
    cases clause <;> simp [SpelledTable.definition, SpelledClause.clause, Clause.primaryKeys,
      SpelledClause.marked]
  rw [table_created hdistinct, hindexes, hpairs, hmarked]
  simp [SpelledTable.table, SpelledTable.definition, foldl_pointAlong_lookup, Column.markIf,
    ColumnDef.plain, reference?_eq]

/-- A trailing constraint reaches exactly the columns that it lists, however their names are spelled
in the declarations and in the list. -/
theorem SpelledTable.ofText_listed (h : table.Proper) (rawPath : String) :
    (Schema.ofText .sql table.script rawPath).tables = [table.table] := by
  rw [schema_of_script (ofText_spelledTable h), Draft.schema, Script.draft, List.foldl_cons,
    List.foldl_nil, List.foldl_nil, List.foldl_nil, tables_oneTable, table_definition h]

/-- Columns with a comma, a period and a bracket in their names, and a key over two of them. -/
def sampleSpelledTable : SpelledTable where
  name := "t".toList
  columns := [(⟨.double, "a,b".toList⟩, ⟨"INT".toList, none⟩),
    (⟨.square, "s.c".toList⟩, ⟨"VARCHAR".toList, some ([], "20".toList)⟩),
    (⟨.plain, "d".toList⟩, ⟨"INT".toList, none⟩)]
  clause := .foreignKey [⟨.square, "s.c".toList⟩, ⟨.double, "a,b".toList⟩] "u".toList
    [⟨.back, "x".toList⟩, ⟨.plain, "y".toList⟩]

/-- Both listed columns are found, the third one stays as it is. -/
theorem SpelledTable.ofText_listed_sample :
    sampleSpelledTable.Proper ∧
      (Schema.ofText .sql sampleSpelledTable.script "a.sql").tables
        = [⟨"t", [⟨"a,b", "INT", true, false, some ⟨"u", "y"⟩⟩,
            ⟨"c", "VARCHAR(20)", true, false, some ⟨"u", "x"⟩⟩, ⟨"d", "INT", true, false, none⟩],
              []⟩] := by
  have hproper : sampleSpelledTable.Proper := by decide
  refine ⟨hproper, (SpelledTable.ofText_listed hproper "a.sql").trans ?_⟩
  decide

/-- Two names in square brackets are taken for one list in square brackets, and neither column is
marked. -/
theorem square_list_marks_nothing :
    Schema.ofText .sql "CREATE TABLE t ([a] INT, [b] INT, PRIMARY KEY ([a], [b]));".toList "inline"
      = ⟨.sql, [⟨"t", [⟨"a", "INT", true, false, none⟩, ⟨"b", "INT", true, false, none⟩], []⟩], [],
          "inline"⟩ ∧
    Schema.ofText .sql "CREATE TABLE t ([a] INT, [b] INT, PRIMARY KEY ([a], b));".toList "inline"
      = ⟨.sql, [⟨"t", [⟨"a", "INT", true, true, none⟩, ⟨"b", "INT", true, true, none⟩], []⟩], [],
          "inline"⟩ := by
  decide +kernel

end SchemaReader.Ddl
