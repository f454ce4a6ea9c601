/-
Scripts read by byte offsets.

* `tableEntry`, `createTable`, `createIndex`, `addForeignKey`, `script`: the readings of
  `SchemaReader.Ddl`, with the slices and the groups that they take;
* `inlineForeignKey_goesWell`: the options of a column are cut where their masked form shows a
  foreign key;
* `tableEntry_goesWell`, `createTable_goesWell`, `createIndex_goesWell`, `addForeignKey_goesWell`,
  `script_goesWell`: nothing but a depth of brackets goes wrong in any of them.
-/
import SchemaReader.Ddl.Script
import SchemaReader.Proofs.ByOffset.Matches
import SchemaReader.Proofs.Ddl.OneTable

namespace SchemaReader.ByOffset.Ddl

open SchemaReader.Ddl

/-! ### Entries of tables -/

/-- The bare names of a written list. -/
def namesOf (text : List Char) : Checked (List String) := do
  let names ← identifierList .script text
  return names.map String.ofList

/-- The columns that a group lists, if the group is there. -/
def targetsOf (list : Option (List Char)) : Checked (Option (List String)) := do
  let some text := list | pure none
  let names ← namesOf text
  return some names

/-- The foreign key of a match whose group `n` is the table and whose group `n + 1` lists the
columns pointed at. -/
def foreignKey (columns : List String) (n : Nat) (found : Match) : Checked ForeignKey := do
  let table ← groupOf found n
  let targets ← targetsOf (found.group? (n + 1))
  return ⟨columns, nameOf table, targets⟩

/-- The foreign key among the options of a column: sought in the masked options, and read from the
slice of the options that begins where it shows. -/
def inlineForeignKey (name : String) (options masked : List Char) :
    Checked (Option ForeignKey) := do
  let some shown := inlineReferencesForm.find? masked | pure none
  let fromThere ← sliceFrom options (startOf shown)
  let some found := inlineReferencesForm.find? fromThere | pure none
  let key ← foreignKey [name] 1 found
  return some key

/-- Reads a column. -/
def columnEntry (text : List Char) : Checked (Option ColumnEntry) := do
  let some found := columnForm.find? text | pure none
  let written ← groupOf found 1
  let options ← sliceFrom text (endOf found)
  let masked := maskNested .script options
  let references ← inlineForeignKey (nameOf written) options masked
  let type ← groupOf found 2
  return some {
    name := nameOf written
    type := String.ofList (Text.trim type)
    nullable := !notNullForm.occursIn masked
    primaryKey := inlinePrimaryKeyForm.occursIn masked
    unique := inlineUniqueForm.occursIn masked
    references }

/-- Reads a column, or nothing that is known. -/
def columnText (text : List Char) : Checked TableEntry := do
  let some entry ← columnEntry text | pure .unrecognized
  return .column entry

/-- Whether the second word of an entry is a type. -/
def secondWordIsType (text : List Char) : Checked Bool := do
  let some found := secondWordForm.find? text | pure false
  let word ← groupOf found 1
  return typeNames.contains (String.ofList (Text.upper word))

/-- Whether an entry is to be read as a constraint first. -/
def looksLikeConstraint (text : List Char) : Checked Bool := do
  if constraintWords.contains (firstWord text) then
    if firstWord text == "CONSTRAINT" then return true
    let isType ← secondWordIsType text
    return !isType
  else return false

/-- Reads a constraint. -/
def constraint (text : List Char) : Checked (Option TableEntry) := do
  if let some found := foreignKeyForm.find? text then
    let list ← groupOf found 1
    let columns ← namesOf list
    let key ← foreignKey columns 2 found
    return some (.foreignKey key)
  else if let some found := primaryKeyForm.find? text then
    let list ← groupOf found 1
    let columns ← namesOf list
    return some (.primaryKey columns)
  else if let some found := uniqueForm.find? text then
    let list ← groupOf found 3
    let columns ← namesOf list
    return some (.unique (((found.group? 2).or (found.group? 1)).map nameOf) columns)
  else if let some found := indexForm.find? text then
    let list ← groupOf found 2
    let columns ← namesOf list
    return some (.index ((found.group? 1).map nameOf) columns)
  else if ["KEY", "INDEX", "UNIQUE"].contains (firstWord text) then return none
  else return some .otherConstraint

/-- Reads an entry of a created table. -/
def tableEntry (text : List Char) : Checked TableEntry := do
  let isConstraint ← looksLikeConstraint text
  if isConstraint then
    let some entry ← constraint text | columnText text
    return entry
  else columnText text

/-! ### Statements -/

/-- The statement of a match of `createTableHead` in a text. -/
def createTable (text : List Char) (found : Match) : Checked (Option CreateTable) := do
  let name ← groupOf found 1
  let some list ← bodyBehind .script text found | pure none
  let pieces ← splitTopLevel .script ',' list
  let entries ← pieces.mapM tableEntry
  return some ⟨nameOf name, entries⟩

/-- The statement of a match of `createIndexHead` in a text. -/
def createIndex (text : List Char) (found : Match) : Checked (Option CreateIndex) := do
  let table ← groupOf found 3
  let some list ← bodyBehind .script text found | pure none
  let pieces ← splitTopLevel .script ',' list
  return some {
    table := nameOf table
    name := (found.group? 2).map nameOf
    columns := ((pieces.map indexedColumn).filter fun column => !column.isEmpty).map String.ofList
    unique := (found.group? 1).isSome }

/-- The statement of a match of `addForeignKeyForm`. -/
def addForeignKey (found : Match) : Checked AddForeignKey := do
  let table ← groupOf found 1
  let list ← groupOf found 2
  let columns ← namesOf list
  let key ← foreignKey columns 3 found
  return ⟨nameOf table, key⟩

/-- The statements of a text. -/
def script (text : List Char) : Checked Script := do
  let stripped ← stripComments .script text
  let tables ← (createTableHead.findAll stripped).mapM (createTable stripped)
  let indexes ← (createIndexHead.findAll stripped).mapM (createIndex stripped)
  let foreignKeys ← (addForeignKeyForm.findAll stripped).mapM addForeignKey
  return ⟨tables, indexes.filterMap id, foreignKeys⟩

variable {text list : List Char} {found : Match} {m n : Nat}

/-! ### Nothing but the depth goes wrong -/

lemma namesOf_goesWell (h : brackets text ≤ n) :
    GoesWell n (namesOf text) (SchemaReader.Ddl.namesOf text) :=
  (identifierList_goesWell h).bind .ok

/-- A foreign key in a text whose match is at hand. -/
lemma foreignKey_goesWell {columns : List String} (hgroup : groupOf found m = .ok (found.group m))
    (hlist : brackets (found.group (m + 1)) ≤ n) :
    GoesWell n (foreignKey columns m found) (.ofMatch columns m found) := by
  rw [foreignKey, hgroup, ok_bind, ForeignKey.ofMatch]
  rw [Match.group] at hlist
  cases hlisted : found.group? (m + 1) with
  | none => exact .ok
  | some list =>
      rw [hlisted, Option.getD_some] at hlist
      have htargets : GoesWell n (targetsOf (some list)) (some (SchemaReader.Ddl.namesOf list)) :=
        (namesOf_goesWell hlist).bind .ok
      exact htargets.bind .ok

/-- The options of a column are cut between characters, where their masked form shows a foreign
key. -/
theorem inlineForeignKey_goesWell (name : String) {options : List Char} (h : brackets options ≤ n) :
    GoesWell n (inlineForeignKey name options (maskNested .script options))
      (inlineForeignKey? name options (maskNested .script options)) := by
  rw [inlineForeignKey, inlineForeignKey?]
  cases hshown : inlineReferencesForm.find? (maskNested .script options) with
  | none => exact .ok
  | some shown =>
      obtain ⟨fromThere, hdrop⟩ := sliceFrom_shown hshown (by decide) (by decide)
      have hslice : sliceFrom options (startOf shown) = .ok fromThere := by
        rw [sliceFrom, hdrop, Option.elim_some]
      obtain ⟨skipped, hsplit, -⟩ := Text.dropBytes?_eq_some_iff.mp hdrop
      have hthere : brackets fromThere ≤ n :=
        brackets_le (hsplit ▸ List.sublist_append_right skipped fromThere) h
      simp only [hslice, ok_bind]
      rw [startOf] at hdrop
      simp only [Option.bind_eq_bind, Option.bind_some, hdrop]
      cases hfound : inlineReferencesForm.find? fromThere with
      | none => exact .ok
      | some found =>
          have hgroup := groupOf_of_find? hfound (n := 1) (by decide) (by decide)
          have hlist := brackets_group_of_find?_le hfound (m := 2) (by decide) hthere
          exact (foreignKey_goesWell hgroup hlist).bind .ok

lemma columnEntry_goesWell (h : brackets text ≤ n) :
    GoesWell n (columnEntry text) (ColumnEntry.ofText? text) := by
  rw [columnEntry, ColumnEntry.ofText?]
  cases hfound : columnForm.find? text with
  | none => exact .ok
  | some found =>
      have hstands := Pattern.stands_of_find? hfound
      have hoptions := brackets_after_le hstands h
      simp only [groupOf_of_find? hfound (n := 1) (by decide) (by decide),
        groupOf_of_find? hfound (n := 2) (by decide) (by decide), sliceFrom_endOf hstands, ok_bind]
      exact (inlineForeignKey_goesWell _ hoptions).bind .ok

lemma columnText_goesWell (h : brackets text ≤ n) :
    GoesWell n (columnText text) (.ofColumnText text) := by
  refine (columnEntry_goesWell h).bind ?_
  rw [TableEntry.ofColumnText]
  cases ColumnEntry.ofText? text <;> exact .ok

lemma secondWordIsType_eq (text : List Char) :
    secondWordIsType text = .ok (SchemaReader.Ddl.secondWordIsType text) := by
  rw [secondWordIsType, SchemaReader.Ddl.secondWordIsType]
  cases hfound : secondWordForm.find? text with
  | none => rfl
  | some found =>
      simp only [groupOf_of_find? hfound (n := 1) (by decide) (by decide)]
      rfl

lemma looksLikeConstraint_eq (text : List Char) :
    looksLikeConstraint text = .ok (SchemaReader.Ddl.looksLikeConstraint text) := by
  rw [looksLikeConstraint, SchemaReader.Ddl.looksLikeConstraint, secondWordIsType_eq]
  cases constraintWords.contains (firstWord text) with
  | false => rfl
  | true => cases firstWord text == "CONSTRAINT" <;> rfl

/-- The groups that the form of a constraint is read by take part in every match of it. -/
lemma constraint_goesWell (h : brackets text ≤ n) :
    GoesWell n (constraint text) (constraint? text) := by
  rw [constraint, constraint?]
  cases hforeign : foreignKeyForm.find? text with
  | some found =>
      have hlist : ∀ m, brackets (found.group m) ≤ n := fun m =>
        brackets_group_of_find?_le hforeign (by decide) h
      have hcolumns := groupOf_of_find? hforeign (n := 1) (by decide) (by decide)
      have htable := groupOf_of_find? hforeign (n := 2) (by decide) (by decide)
      simp only [hcolumns, ok_bind]
      exact (namesOf_goesWell (hlist 1)).bind ((foreignKey_goesWell htable (hlist 3)).bind .ok)
  | none =>
      cases hprimary : primaryKeyForm.find? text with
      | some found =>
          have hcolumns := groupOf_of_find? hprimary (n := 1) (by decide) (by decide)
          have hlist := brackets_group_of_find?_le hprimary (m := 1) (by decide) h
          simp only [hcolumns, ok_bind]
          exact (namesOf_goesWell hlist).bind .ok
      | none =>
          cases hunique : uniqueForm.find? text with
          | some found =>
              have hcolumns := groupOf_of_find? hunique (n := 3) (by decide) (by decide)
              have hlist := brackets_group_of_find?_le hunique (m := 3) (by decide) h
              simp only [hcolumns, ok_bind]
              exact (namesOf_goesWell hlist).bind .ok
          | none =>
              cases hindex : indexForm.find? text with
              | some found =>
                  have hcolumns := groupOf_of_find? hindex (n := 2) (by decide) (by decide)
                  have hlist := brackets_group_of_find?_le hindex (m := 2) (by decide) h
                  simp only [hcolumns, ok_bind]
                  exact (namesOf_goesWell hlist).bind .ok
              | none =>
                  simp only
                  split <;> exact .ok

theorem tableEntry_goesWell (h : brackets text ≤ n) :
    GoesWell n (tableEntry text) (.ofText text) := by
  rw [tableEntry, looksLikeConstraint_eq, ok_bind, TableEntry.ofText]
  split
  · refine (constraint_goesWell h).bind ?_
    cases constraint? text with
    | none => exact columnText_goesWell h
    | some entry => exact .ok
  · exact columnText_goesWell h

theorem createTable_goesWell (h : found ∈ createTableHead.findAll text) (hn : brackets text ≤ n) :
    GoesWell n (createTable text found) (CreateTable.ofMatch? found) := by
  rw [createTable, groupOf_of_mem_findAll h (by decide) (by decide), ok_bind,
    bodyBehind_of_mem_findAll h, ok_bind, CreateTable.ofMatch?, listAfter?]
  cases hlist : (enclosed? .script found.stop.after).map (·.1) with
  | none => exact .ok
  | some list =>
      have hroom := brackets_arguments_le (Pattern.stands_of_mem_findAll h) hlist hn
      have hentries : ∀ piece ∈ SchemaReader.splitTopLevel .script ',' list, brackets piece ≤ n :=
        fun _ hpiece => brackets_le_of_mem_splitTopLevel hpiece hroom
      refine (splitTopLevel_goesWell hroom).bind ?_
      exact (GoesWell.mapM fun piece hpiece => tableEntry_goesWell (hentries piece hpiece)).bind .ok

theorem createIndex_goesWell (h : found ∈ createIndexHead.findAll text) (hn : brackets text ≤ n) :
    GoesWell n (createIndex text found) (CreateIndex.ofMatch? found) := by
  rw [createIndex, groupOf_of_mem_findAll h (by decide) (by decide), ok_bind,
    bodyBehind_of_mem_findAll h, ok_bind, CreateIndex.ofMatch?, listAfter?]
  cases hlist : (enclosed? .script found.stop.after).map (·.1) with
  | none => exact .ok
  | some list =>
      have hroom := brackets_arguments_le (Pattern.stands_of_mem_findAll h) hlist hn
      exact (splitTopLevel_goesWell hroom).bind .ok

theorem addForeignKey_goesWell (h : found ∈ addForeignKeyForm.findAll text)
    (hn : brackets text ≤ n) : GoesWell n (addForeignKey found) (.ofMatch found) := by
  have hlist : ∀ m, brackets (found.group m) ≤ n := fun m =>
    brackets_group_of_mem_findAll_le h (by decide) hn
  have htable := groupOf_of_mem_findAll h (n := 3) (by decide) (by decide)
  rw [addForeignKey, groupOf_of_mem_findAll h (by decide) (by decide), ok_bind,
    groupOf_of_mem_findAll h (by decide) (by decide), ok_bind]
  exact (namesOf_goesWell (hlist 2)).bind ((foreignKey_goesWell htable (hlist 4)).bind .ok)

/-- Nothing but a depth of brackets goes wrong in reading a script. -/
theorem script_goesWell (text : List Char) :
    GoesWell (brackets text) (script text) (.ofText text) := by
  have hn := brackets_stripComments_le .script text
  rw [script, stripComments_eq, ok_bind]
  refine (GoesWell.mapM fun _ h => createTable_goesWell h hn).bind ?_
  refine (GoesWell.mapM fun _ h => createIndex_goesWell h hn).bind ?_
  refine (GoesWell.mapM fun _ h => addForeignKey_goesWell h hn).bind ?_
  rw [List.filterMap_map]
  exact .ok

/-! ### A depth that leaves its 32 bits -/

open Pattern Text

/-- `FOREIGN KEY (list) REFERENCES u` -/
def keyOver (list : List Char) : List Char :=
  "FOREIGN ".toList ++ ("KEY".toList ++ ([' '] ++
    (('(' :: (list ++ [')'])) ++ ([' '] ++ ("REFERENCES ".toList ++ (['u'] ++ []))))))

/-- `ALTER TABLE t ADD FOREIGN KEY (list) REFERENCES u;` -/
def alterationOver (list : List Char) : List Char :=
  ("ALTER ".toList ++ ("TABLE ".toList ++ (['t'] ++ ([' '] ++ ("ADD ".toList ++ keyOver list)))))
    ++ [';']

lemma keyOver_eq (list : List Char) : keyOver list
    = "FOREIGN ".toList ++ ("KEY".toList ++ ([' '] ++
        (('(' :: (list ++ [')'])) ++ ([' '] ++ ("REFERENCES ".toList ++ (['u'] ++ [])))))) := rfl

lemma alterationOver_eq (list : List Char) : alterationOver list
    = ("ALTER ".toList ++ ("TABLE ".toList ++ (['t'] ++ ([' '] ++
        ("ADD ".toList ++ keyOver list))))) ++ [';'] := rfl

lemma spacedKeyword_add : SpacedKeyword "ADD" "ADD ".toList := spacedKeyword_space (by decide) rfl

lemma spacedKeyword_alter : SpacedKeyword "ALTER" "ALTER ".toList :=
  spacedKeyword_space (by decide) rfl

lemma spacedKeyword_foreign : SpacedKeyword "FOREIGN" "FOREIGN ".toList :=
  spacedKeyword_space (by decide) rfl

lemma spacedKeyword_references : SpacedKeyword "REFERENCES" "REFERENCES ".toList :=
  spacedKeyword_space (by decide) rfl

section Alteration

variable {before : List Char} (hlist : ∀ c ∈ list, c = ']')

include hlist

lemma chars_of_mem_listed {c : Char} (hc : c ∈ '(' :: (list ++ [')'])) :
    isWordChar c = false ∧ isScriptText c = true := by
  have hsign : c = '(' ∨ c = ']' ∨ c = ')' := by
    obtain rfl | hc := List.mem_cons.mp hc
    · exact Or.inl rfl
    · exact Or.inr ((List.mem_append.mp hc).imp (hlist c) List.mem_singleton.mp)
  obtain rfl | rfl | rfl := hsign <;> decide

lemma uncommented_alterationOver : Uncommented .script (alterationOver list) := by
  have hlisted : ∀ c ∈ '(' :: (list ++ [')']), isScriptText c = true := fun c hc =>
    (chars_of_mem_listed hlist hc).2
  refine uncommented_of_forall ?_
  simp only [alterationOver_eq, keyOver_eq, List.forall_mem_append]
  exact ⟨⟨by decide, by decide, by decide, by decide, by decide, by decide, by decide, by decide,
    hlisted, by decide, by decide, by decide, by decide⟩, by decide⟩

/-- The form of a created table, or of a created index, reads nothing of the alteration. -/
lemma silent_alterationOver {q b : Pattern} {K : String} (hhead : IsHead q K b) (hq : q ∈ heads)
    (hK : K ≠ "ALTER") : Silent q before (alterationOver list) [] := by
  have hne : ∀ L ∈ ["TABLE", "ADD"], K ≠ L := by
    rintro L hL rfl
    have hnot : ∀ L ∈ ["TABLE", "ADD"], L ∉ leadingWords := by decide
    exact hnot K hL hhead.leads
  have hsigns : ∀ c ∈ '(' :: (list ++ [')']), isWordChar c = false := fun c hc =>
    (chars_of_mem_listed hlist hc).1
  have hbars : Bars ([' '] ++ ("ADD ".toList ++ (keyOver list ++ [';']))) :=
    bars_keyword (by decide) (by simp) spacedKeyword_add (by decide)
  have hkey : Still (keyOver list) [';'] := by
    rw [keyOver_eq]
    refine (still_keyword spacedKeyword_foreign (by decide)).append ?_
    refine (still_free_word (by decide) (by decide) (by simp; decide)).append ?_
    refine (still_gap (by decide)).append ((still_outside hsigns).append ?_)
    refine (still_gap (by decide)).append ?_
    refine (still_keyword spacedKeyword_references (by decide)).append ?_
    exact (still_free_word (by decide) (by decide) (by simp; decide)).append still_nil
  rw [alterationOver_eq]
  simp only [List.append_assoc]
  refine silent_append.mpr ⟨hhead.silent_keyword spacedKeyword_alter hK, ?_⟩
  refine silent_append.mpr ⟨hhead.silent_keyword spacedKeyword_table (hne _ (by decide)), ?_⟩
  refine silent_append.mpr ⟨still_word (by decide) (by simpa using hbars) q hq _, ?_⟩
  refine silent_append.mpr ⟨still_gap (by decide) q hq _, silent_append.mpr ⟨?_, ?_⟩⟩
  · exact hhead.silent_keyword spacedKeyword_add (hne _ (by decide))
  · exact silent_append.mpr ⟨hkey q hq _, still_outside (by decide) q hq _⟩

/-- The form of an added key takes the alteration. -/
lemma finds_alterationOver : Finds addForeignKeyForm [] (alterationOver list)
    [([';'], ([(3, ['u'])] ++ [(2, list)]) ++ [(1, ['t'])])] := by
  have hq : addForeignKeyForm ∈ heads := by simp [heads]
  have hinner : ∀ c ∈ list, c ≠ ')' := fun c hc => hlist c hc ▸ by decide
  have hu : (WrittenName.plain ['u']).Proper := WrittenName.plain_proper (by decide)
  have hreferences : ∀ before, (referencesForm 3).Takes before
      ("REFERENCES ".toList ++ (['u'] ++ []))
      [';'] [(3, ['u'])] := fun _ =>
    takes_referencesForm_unlisted 3 spacedKeyword_references hu Text.isGap_nil (by simp; decide)
      (by simp) (by simp) fun _ => by simp; decide
  have hkey : ∀ before, (opt constraintName ++ foreignKeyBody 2).Takes before (keyOver list) [';']
      ([(3, ['u'])] ++ [(2, list)]) := fun _ => by
    rw [keyOver_eq]
    exact takes_unnamedKey spacedKeyword_foreign (takes_foreignKeyBody 2 spacedKeyword_foreign
      (Text.Cased.spells rfl) (by decide) hinner (by decide) hreferences (by simp; decide))
  rw [keyOver_eq] at hkey
  have htakes := takes_addForeignKeyForm spacedKeyword_alter spacedKeyword_table
    (show IsWord ['t'] by decide) (g := [' ']) (by decide) (by simp) spacedKeyword_add
    spacedKeyword_foreign (by decide) hkey (show Stops isWordChar [] by simp)
  rw [← keyOver_eq] at htakes
  rw [alterationOver_eq]
  refine Finds.found (u := []) trivial htakes (by simp) ?_
  exact .stop (still_outside (by decide) _ hq _) isHead_addForeignKeyForm.wordLed.fails_nil

/-- The list of the added key is read. -/
lemma script_alterationOver {slip : Slip} (h : namesOf list = .error slip) :
    script (alterationOver list) = .error slip := by
  have hnone : ∀ {q b : Pattern} {K : String}, IsHead q K b → q ∈ heads → K ≠ "ALTER" →
      q.findAll (alterationOver list) = [] := fun hhead hq hK =>
    List.map_eq_nil_iff.mp (findAll_of_finds
      (.stop (silent_alterationOver hlist hhead hq hK) hhead.wordLed.fails_nil))
  have hadded := findAll_of_finds (finds_alterationOver hlist)
  obtain ⟨found, hfound, hyield⟩ := List.map_eq_singleton_iff.mp hadded
  have hcaptures : found.captures = [(3, ['u']), (2, list), (1, ['t'])] :=
    congrArg Prod.snd hyield
  have hkey : addForeignKey found = .error slip := by
    simp [addForeignKey, groupOf, Match.group?, hcaptures, List.lookup_cons, h]
  rw [script, stripComments_eq, ok_bind, (uncommented_alterationOver hlist).stripComments_eq,
    hnone isHead_createTableHead (by simp [heads]) (by decide),
    hnone isHead_createIndexHead (by simp [heads]) (by decide), hfound]
  simp [hkey]

end Alteration

/-- A list of too many closing brackets takes the depth out of its 32 bits. -/
lemma namesOf_closings {count : Nat} (h : 2 ^ 31 < count) :
    namesOf (List.replicate count ']') = .error .depth := by
  have htrim : Text.trim (List.replicate count ']') = List.replicate count ']' :=
    Text.trim_of_forall fun c hc => List.eq_of_mem_replicate hc ▸ by decide
  have hinner : SchemaReader.withoutOuterBrackets (List.replicate count ']')
      = List.replicate count ']' := by
    cases count <;> rfl
  rw [namesOf, identifierList, htrim, withoutOuterBrackets_eq, ok_bind, hinner, splitTopLevel,
    piecesLoop_closings (by omega) (by omega)]
  rfl

/-- So does an altered table with such a list. -/
theorem script_closings {count : Nat} (h : 2 ^ 31 < count) :
    script (alterationOver (List.replicate count ']')) = .error .depth :=
  script_alterationOver (fun _ => List.eq_of_mem_replicate) (namesOf_closings h)

end SchemaReader.ByOffset.Ddl
