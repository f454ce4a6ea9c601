/-
Scripts that create one table.

* `heads`: the forms of statements, with `Still`: none of them reads anything within a text;
* `still_word`, `still_text`, `still_free_word`: words and written names within which no statement
  begins;
* `createText`: a statement that creates a table, with the text of its list;
* `ofText_createText`, `ofText_createText_alone`: what such a statement is read as, if no statement
  begins in its list;
* `schema_created`, `schema_oneTable`: the schema of such a script.
-/
import SchemaReader.Extraction
import SchemaReader.Proofs.Ddl.MaskedKey
import SchemaReader.Proofs.Ddl.Scan
import SchemaReader.Proofs.Lexical.Comments
import SchemaReader.Proofs.Schema.Runs

namespace SchemaReader.Ddl

open Text (IsWord IsGap IsKeyword Spells Stops isWordChar isBlank)
open Pattern

/-! ### The forms of statements -/

/-- The forms of statements: created tables, created indexes and added foreign keys. -/
def heads : List Pattern := [createTableHead, createIndexHead, addForeignKeyForm]

/-- The words that statements begin with. -/
def leadingWords : List String := ["CREATE", "ALTER"]

/-- The words of which one stands behind the word that a statement begins with. -/
def secondWords : List String :=
  ["GLOBAL", "LOCAL", "TEMPORARY", "TEMP", "UNLOGGED", "TABLE", "UNIQUE", "INDEX"]

/-- No statement goes on with a text: it begins with none of the second words. -/
def NoSecondWord (text : List Char) : Prop :=
  ∀ K ∈ secondWords, ∀ (before : List Char) (b : Pattern), b.Avoids isWordChar →
    (keyword K ++ b).Fails before text

/-- A form of statements: it begins with one of two keywords, and one of the second words has to
stand behind it. -/
structure IsHead (q : Pattern) (K : String) (b : Pattern) : Prop extends KeywordThen q K b where
  leads : K ∈ leadingWords
  second : ∀ before text, NoSecondWord text → b.Fails before text

variable {before t u v w g text rest tail list : List Char} {q b : Pattern} {K : String}
  {R : WrittenName}

/-- No statement goes on with a word that is none of the second words. -/
lemma noSecondWord_word (hw : ∀ c ∈ w, isWordChar c = true) (hrest : Stops isWordChar rest)
    (hfree : ∀ K ∈ secondWords, ¬ Spells K.toList w) : NoSecondWord (w ++ rest) := by
  intro K hK before b hb
  have hkeyword : ∀ K ∈ secondWords, IsKeyword K.toList := by decide
  exact fails_keyword_append (hkeyword K hK) hb hw hrest fun hspells => absurd hspells (hfree K hK)

lemma noSecondWord_of_stops (h : Stops isWordChar text) : NoSecondWord text := by
  refine noSecondWord_word (w := []) (by simp) h fun K hK hspells => ?_
  have hne : ∀ K ∈ secondWords, K.toList ≠ [] := by decide
  exact hne K hK (List.forall₂_nil_right_iff.mp hspells)

lemma noSecondWord_keyword (h : SpacedKeyword K t) (hK : K ∉ secondWords) (v : List Char) :
    NoSecondWord (t ++ v) := by
  intro L hL before b hb
  have hkeyword : ∀ K ∈ secondWords, IsKeyword K.toList := by decide
  exact fails_keyword_of_ne h (hkeyword L hL) (fun heq => hK (heq ▸ hL)) hb

lemma isHead_createTableHead : IsHead createTableHead "CREATE" createTableTail where
  toKeywordThen := keywordThen_createTableHead
  leads := by decide
  second before text h := by
    have hblanks : ∀ b, (someBlanks ++ b).Avoids isWordChar := someBlanks_avoids_isWordChar.append
    simp only [createTableTail, fails_opt_append, fails_assoc, fails_alt_append, keywordBefore]
    refine ⟨⟨?_, ?_⟩, ⟨⟨?_, ?_⟩, ?_⟩, ?_⟩
    all_goals exact h _ (by decide) _ _ (hblanks _)

lemma isHead_createIndexHead : IsHead createIndexHead "CREATE"
    (opt (.group 1 (keywordBefore "UNIQUE")) ++ createIndexTail) where
  toKeywordThen := keywordThen_createIndexHead
  leads := by decide
  second before text h := by
    have hblanks : ∀ b, (someBlanks ++ b).Avoids isWordChar := someBlanks_avoids_isWordChar.append
    simp only [createIndexTail, fails_opt_append, fails_group_append, fails_assoc, keywordBefore]
    exact ⟨h _ (by decide) _ _ (hblanks _), h _ (by decide) _ _ (hblanks _)⟩

lemma isHead_addForeignKeyForm : IsHead addForeignKeyForm "ALTER" addForeignKeyTail where
  toKeywordThen := keywordThen_addForeignKeyForm
  leads := by decide
  second before text h := by
    simp only [addForeignKeyTail, fails_assoc, keywordBefore]
    exact h _ (by decide) _ _ (someBlanks_avoids_isWordChar.append _)

lemma exists_isHead (hq : q ∈ heads) : ∃ K b, IsHead q K b := by
  simp only [heads, List.mem_cons, List.not_mem_nil, or_false] at hq
  rcases hq with rfl | rfl | rfl
  · exact ⟨_, _, isHead_createTableHead⟩
  · exact ⟨_, _, isHead_createIndexHead⟩
  · exact ⟨_, _, isHead_addForeignKeyForm⟩

/-! ### Texts in which no statement begins -/

/-- No form of statements reads anything within a text, which stands before `rest`. -/
def Still (text rest : List Char) : Prop := ∀ q ∈ heads, ∀ before, Silent q before text rest

/-- What keeps a statement from going on behind a word. -/
def Bars (rest : List Char) : Prop := ∀ q K b, IsHead q K b → Blocks b rest

lemma bars_of_stops (hblank : Stops isBlank rest) (hword : Stops isWordChar rest) : Bars rest :=
  fun _ _ _ _ => blocks_of_stops hblank hword

lemma bars_gap (hg : IsGap g) (hblank : Stops isBlank rest) (hword : Stops isWordChar rest) :
    Bars (g ++ rest) := fun _ _ _ hq =>
  blocks_gap hg hblank hword fun before => hq.second before rest (noSecondWord_of_stops hword)

lemma bars_keyword (hg : IsGap g) (hne : g ≠ []) (h : SpacedKeyword K t) (hK : K ∉ secondWords) :
    Bars (g ++ (t ++ rest)) := fun _ _ _ hq =>
  ⟨g, t ++ rest, rfl, hg, h.stops_isBlank _, fun hnil => absurd hnil hne,
    fun _ before => hq.second before _ (noSecondWord_keyword h hK rest)⟩

/-- A word bars the statement that is none of the second words. -/
lemma bars_word (hg : IsGap g) (hne : g ≠ []) (hw : IsWord w) (hrest : Stops isWordChar rest)
    (hfree : ∀ K ∈ secondWords, ¬ Spells K.toList w) : Bars (g ++ (w ++ rest)) := fun _ _ _ hq =>
  ⟨g, w ++ rest, rfl, hg, hw.stops_isBlank rest, fun hnil => absurd hnil hne,
    fun _ before => hq.second before _ (noSecondWord_word hw.chars hrest hfree)⟩

lemma still_nil : Still [] rest := fun _ _ _ => trivial

lemma Still.append (hu : Still u (v ++ rest)) (hv : Still v rest) : Still (u ++ v) rest :=
  fun q hq before => silent_append.mpr ⟨hu q hq before, hv q hq _⟩

/-- No statement begins where no word does. -/
lemma still_outside (hu : ∀ c ∈ u, isWordChar c = false) : Still u rest := fun q hq before => by
  obtain ⟨K, b, hhead⟩ := exists_isHead hq
  exact hhead.wordLed.silent_outside hu

lemma still_gap (hg : IsGap g) : Still g rest :=
  still_outside fun c hc => Text.not_isWordChar_of_isBlank (hg c hc)

/-- No statement begins with a word behind which it cannot go on. -/
lemma still_word (hw : IsWord w) (hrest : Bars rest) : Still w rest := fun q hq before => by
  obtain ⟨K, b, hhead⟩ := exists_isHead hq
  exact hhead.silent_word hw (hrest q K b hhead)

/-- Nor with a written name. -/
lemma still_text (hR : R.Proper) (hrest : Bars rest) : Still R.text rest := fun q hq before => by
  obtain ⟨K, b, hhead⟩ := exists_isHead hq
  refine silent_text hhead.toKeywordThen hR (fun before v => ?_) (hrest q K b hhead)
  exact hhead.second before _ (noSecondWord_of_stops (by simp [not_isWordChar_period]))

/-- Nor with a word that no statement begins with. -/
lemma still_free_word (hw : IsWord w) (hfree : ∀ K ∈ leadingWords, ¬ Spells K.toList w)
    (hrest : Stops isWordChar rest) : Still w rest := fun q hq before => by
  obtain ⟨K, b, hhead⟩ := exists_isHead hq
  refine hhead.wordLed.silent_word hw.chars (hhead.fails _ _ ?_)
  rw [fails_wordEdge_append]
  intro _
  exact fails_keywordBefore_of_not_spells hhead.isKeyword hw.chars hrest (hfree K hhead.leads)

/-- Nor with a keyword that is none of these words. -/
lemma still_keyword (ht : SpacedKeyword K t) (hK : K ∉ leadingWords) :
    Still t rest := fun q hq before => by
  obtain ⟨L, b, hhead⟩ := exists_isHead hq
  exact hhead.silent_keyword ht fun heq => hK (heq ▸ hhead.leads)

/-! ### Scripts with one created table -/

/-- `CREATE TABLE table (` -/
def createHead (table : List Char) : List Char :=
  "CREATE ".toList ++ ("TABLE ".toList ++ (table ++ ([' '] ++ ['('])))

lemma createHead_eq (table : List Char) : createHead table
    = "CREATE ".toList ++ ("TABLE ".toList ++ (table ++ ([' '] ++ ['(']))) := rfl

/-- `CREATE TABLE table (list);` -/
def createText (table list : List Char) : List Char :=
  ("CREATE ".toList ++ ("TABLE ".toList ++ (table ++ ([' '] ++ ['('])))) ++ (list ++ [')', ';'])

lemma createText_eq (table list : List Char) :
    createText table list = createHead table ++ (list ++ [')', ';']) := rfl

lemma spacedKeyword_create : SpacedKeyword "CREATE" "CREATE ".toList :=
  spacedKeyword_space (by decide) rfl

lemma spacedKeyword_table : SpacedKeyword "TABLE" "TABLE ".toList :=
  spacedKeyword_space (by decide) rfl

lemma uncommented_createText (hT : IsWord w) (hlist : Uncommented .script list) :
    Uncommented .script (createText w list) := by
  have hwords : Uncommented .script "CREATE ".toList ∧ Uncommented .script "TABLE ".toList :=
    ⟨uncommented_of_forall (by decide), uncommented_of_forall (by decide)⟩
  rw [createText_eq, createHead_eq]
  refine (hwords.1.append (hwords.2.append ((uncommented_word hT).append ?_))).append ?_
  · exact uncommented_of_forall (show ∀ c ∈ [' ', '('], isScriptText c = true by decide)
  · exact hlist.append (uncommented_of_forall (by decide))

lemma createHead_ne_nil : createHead w ≠ [] :=
  List.append_ne_nil_of_left_ne_nil (by decide) _

lemma takes_createHead (hT : IsWord w) (hbefore : Stops isWordChar before) :
    createTableHead.Takes before (createHead w) rest [(1, w)] :=
  takes_createTableHead spacedKeyword_create spacedKeyword_table hT (by decide) hbefore

/-- The form of a created index passes over the word `CREATE`, behind which `TABLE` stands. -/
lemma silent_create_createIndexHead :
    Silent createIndexHead before "CREATE ".toList ("TABLE ".toList ++ v) := by
  have hq := isHead_createIndexHead.wordLed
  have hfails : createIndexHead.Fails before ("CREATE ".toList ++ ("TABLE ".toList ++ v)) := by
    simp only [createIndexHead, fails_assoc, fails_wordEdge_append]
    intro _
    refine fails_keywordBefore_of_spaced spacedKeyword_create (by decide)
      (spacedKeyword_table.stops_isBlank v) fun _ => ?_
    rw [fails_opt_append, fails_group_append]
    exact ⟨fails_keywordBefore_of_ne spacedKeyword_table (by decide) (by decide),
      fails_keywordBefore_of_ne spacedKeyword_table (by decide) (by decide)⟩
  have hword : ∀ c ∈ "CREATE".toList, isWordChar c = true := by decide
  exact silent_append (u := "CREATE".toList) (v := [' ']) |>.mpr
    ⟨hq.silent_word hword hfails, hq.silent_gap (by decide)⟩

section CreateText

variable {found : List (List Char × Captures)} (hT : IsWord w)
  (hlist : Still list (')' :: ';' :: tail))

include hT hlist

/-- A form of statements that passes over the word `CREATE` passes over the whole statement. -/
lemma silent_createText (hq : q ∈ heads)
    (hcreate : ∀ v, Silent q before "CREATE ".toList ("TABLE ".toList ++ v)) :
    Silent q before (createText w list) tail := by
  obtain ⟨K, b, hhead⟩ := exists_isHead hq
  have hne : K ≠ "TABLE" := by
    rintro rfl
    exact absurd hhead.leads (by decide)
  have hbars : Bars ([' '] ++ (['('] ++ (list ++ ([')', ';'] ++ tail)))) :=
    bars_gap (by decide) (by simp; decide) (by simp; decide)
  have hsigns : ∀ c ∈ [')', ';'], isWordChar c = false := by decide
  rw [createText_eq, createHead_eq]
  simp only [List.append_assoc]
  refine silent_append.mpr ⟨by simpa using hcreate _, silent_append.mpr ⟨?_, ?_⟩⟩
  · exact hhead.silent_keyword spacedKeyword_table hne
  refine silent_append.mpr ⟨still_word hT (by simpa using hbars) q hq _, ?_⟩
  refine silent_append.mpr ⟨still_gap (by decide) q hq _, ?_⟩
  refine silent_append.mpr ⟨still_outside (by decide) q hq _, ?_⟩
  exact silent_append.mpr ⟨by simpa using hlist q hq _, still_outside hsigns q hq _⟩

/-- A scan for created tables comes upon the table. -/
lemma finds_createText (htail : ∀ before, Silent createTableHead before tail []) :
    Finds createTableHead [] (createText w list ++ tail)
      [(list ++ (')' :: ';' :: tail), [(1, w)])] := by
  have hq : createTableHead ∈ heads := by simp [heads]
  have hsigns : ∀ c ∈ [')', ';'], isWordChar c = false := by decide
  have hend : list ++ [')', ';'] ++ tail = list ++ (')' :: ';' :: tail) := by simp
  rw [createText_eq, List.append_assoc, hend]
  refine Finds.found (u := []) trivial (takes_createHead hT (by simp)) createHead_ne_nil
    (.stop ?_ ?_)
  · refine silent_append.mpr ⟨by simpa using hlist _ hq _, ?_⟩
    exact silent_append (u := [')', ';']).mpr ⟨still_outside hsigns _ hq _, htail _⟩
  · exact isHead_createTableHead.wordLed.fails_nil

/-- A statement that creates a table, with a text behind it, is read as the table and as what is
found in that text. -/
theorem ofText_createText (hcreate : Uncommented .script list) (hrest : Uncommented .script tail)
    (hclosed : Closed .script (fun _ => True) list)
    (htables : ∀ before, Silent createTableHead before tail [])
    (hindexes : ∀ before, Silent createIndexHead before tail [])
    (hkeys : ∀ before, Finds addForeignKeyForm before tail found) :
    Script.ofText (createText w list ++ tail) = {
      tables := [some ⟨String.ofList w, (splitTopLevel .script ',' list).map .ofText⟩]
      indexes := []
      foreignKeys := found.map fun yield => AddForeignKey.ofMatch (matchOf yield) } := by
  have henclosed : enclosed? .script (list ++ ')' :: (';' :: tail)) = some (list, ';' :: tail) :=
    enclosed?_of_closed hclosed (by decide)
  have hcreated : (createTableHead.findAll (createText w list ++ tail)).map CreateTable.ofMatch?
      = [some ⟨String.ofList w, (splitTopLevel .script ',' list).map .ofText⟩] := by
    rw [map_findAll (fun _ => rfl) (finds_createText hT hlist htables)]
    simp [CreateTable.ofMatch?, listAfter?, matchOf, henclosed, Match.group, Match.group?,
      nameOf_plain hT]
  have hindex : createIndexHead.findAll (createText w list ++ tail) = [] := by
    have hsilent : Silent createIndexHead [] (createText w list) tail :=
      silent_createText hT hlist (by simp [heads]) fun v => silent_create_createIndexHead
    have hnone := findAll_of_finds <| Finds.skip hsilent <|
      .stop (hindexes _) isHead_createIndexHead.wordLed.fails_nil
    exact List.map_eq_nil_iff.mp hnone
  have hadded : (addForeignKeyForm.findAll (createText w list ++ tail)).map AddForeignKey.ofMatch
      = found.map fun yield => AddForeignKey.ofMatch (matchOf yield) := by
    have hsilent : Silent addForeignKeyForm [] (createText w list) tail :=
      silent_createText hT hlist (by simp [heads]) fun v =>
        isHead_addForeignKeyForm.silent_keyword spacedKeyword_create (by decide)
    exact map_findAll (fun _ => rfl) (Finds.skip hsilent (hkeys _))
  have hstrip : stripComments .script (createText w list ++ tail) = createText w list ++ tail :=
    ((uncommented_createText hT hcreate).append hrest).stripComments_eq
  rw [Script.ofText, hstrip, Script.ofStripped, hcreated, hindex, hadded]
  rfl

end CreateText

/-- A statement that creates a table, without a text behind it. -/
theorem ofText_createText_alone {list : List Char} (hT : IsWord w) (hlist : Still list [')', ';'])
    (hcomment : Uncommented .script list) (hclosed : Closed .script (fun _ => True) list) :
    Script.ofText (createText w list)
      = ⟨[some ⟨String.ofList w, (splitTopLevel .script ',' list).map .ofText⟩], [], []⟩ := by
  have hread := ofText_createText hT hlist hcomment uncommented_nil hclosed (fun _ => trivial)
    (fun _ => trivial) fun _ => .stop trivial isHead_addForeignKeyForm.wordLed.fails_nil
  rw [List.append_nil] at hread
  exact hread

/-! ### The schema of one created table -/

lemma schema_of_script {text : List Char} {script : Script} (h : Script.ofText text = script)
    (rawPath : String) : Schema.ofText .sql text rawPath = script.draft.schema .sql rawPath := by
  simp [Schema.ofText, Schema.ofTextNoted, Source.draft?, h]

lemma tables_oneTable (statement : CreateTable) :
    (addCreated .empty (some statement)).tables = [statement.table] := by
  simp [addCreated, CreateTable.addTo, Draft.empty, putTable]

/-- The schema of a script that only creates a table; of the relations along one edge the first is
kept. -/
lemma schema_created (statement : CreateTable) (rawPath : String) :
    (Script.mk [some statement] [] []).draft.schema .sql rawPath
      = ⟨.sql, [statement.table], firstBy Relation.edge statement.edges, rawPath⟩ := by
  have hnoted : ∀ notices, (Draft.empty.noteAll notices).Records [] := fun notices => by
    simp [Draft.Records, Draft.empty, firstBy]
  have hrelations : (addCreated .empty (some statement)).relations
      = firstBy Relation.edge statement.edges := by
    simpa [addCreated, CreateTable.addTo, Draft.Records] using
      (hnoted _).addRelations statement.edges
  simp [Script.draft, Draft.schema, tables_oneTable, hrelations]

/-- Relations that leave different columns are all kept. -/
lemma schema_oneTable {statement : CreateTable}
    (hedges : (statement.edges.map Relation.leaves).Nodup)
    (rawPath : String) : (Script.mk [some statement] [] []).draft.schema .sql rawPath
      = ⟨.sql, [statement.table], statement.edges, rawPath⟩ := by
  have hnodup : (statement.edges.map Relation.edge).Nodup := by
    refine List.Nodup.of_map (fun edge => (edge.1, edge.2.1)) ?_
    rw [List.map_map]
    exact hedges
  rw [schema_created, firstBy_of_nodup hnodup]

end SchemaReader.Ddl
