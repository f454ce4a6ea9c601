/-
Where the declarations of table modules begin.

* `ledTo_call`, `ledTo_methodCall`: the leads of patterns that begin with the call of a word or of a
  method;
* `blockScan`, `targetScan`, `indexScan`, `keyScan`, `methodScan`, `referenceScan`, `listScan`,
  `tableScan`: what is looked for in a table module and in its parts, each with `sound_` and its
  name: it finds nothing but behind its leads;
* `silent_tableHead_of_calm`, `exists_of_reads_tableHead`: no table begins behind a word that no
  other word follows, nor in a literal without the call of a function for tables.
-/
import SchemaReader.Proofs.Pattern.Borders
import SchemaReader.Proofs.TableModule.Scans
import SchemaReader.Proofs.TableModule.TableHead

namespace SchemaReader.TableModule

open Pattern
open Text (IsWord IsGap Stops isWordChar isBlank)

variable {b : Pattern} {next : Next} {d : Char} {word name : String} {words : List String}
  {caught : Captures} {before text rest u v w g : List Char}

/-! ### Leads of the patterns -/

/-- A word edge, one of several words, white space and a sign. -/
lemma ledTo_call (hd : next.begins d = true)
    (hb : ∀ before u rest, b.Reads before u rest → ∃ w ∈ words, u = w.toList) :
    LedTo (wordEdge ++ b ++ blanks ++ char d) (words.map String.toList) next := by
  rintro before text h _ rest rfl ⟨_, _, rfl, ⟨_, g, rfl, ⟨_, u, rfl, ⟨rfl, hedge⟩, hu⟩, hg⟩,
    ⟨c, hc, rfl⟩⟩
  obtain rfl : c = d := by simpa using hc
  obtain ⟨w, hw, rfl⟩ := hb _ _ _ hu
  refine h w.toList (List.mem_map_of_mem hw) g (c :: rest) hg (by simp [hd]) (by simp)
    fun hword => ?_
  have hstart : (Cursor.mk before (w.toList ++ (g ++ c :: rest)) 0).atWordEdge = true := by
    simpa using hedge
  exact stops_before_of_atWordEdge hword hstart

lemma ledTo_lit_call (word : String) (hd : next.begins d = true) :
    LedTo (wordEdge ++ lit word ++ blanks ++ char d) ([word].map String.toList) next :=
  ledTo_call hd fun _ _ _ hu => ⟨word, List.mem_singleton_self _, reads_lit.mp hu⟩

/-- A method, white space and a parenthesis. -/
lemma ledTo_methodCall (hword : word.toList = '.' :: w) :
    LedTo (methodCall word) [word.toList] .parenthesis := by
  rintro before text h _ rest rfl ⟨_, _, rfl, ⟨u, g, rfl, hu, hg⟩, ⟨c, hc, rfl⟩⟩
  obtain rfl : c = '(' := by simpa using hc
  obtain rfl := reads_lit.mp hu
  refine h word.toList (List.mem_singleton_self _) g ('(' :: rest) hg (by simp [Next.begins])
    (by simp) fun hword' => ?_
  exact absurd (hword'.chars '.' (by simp [hword])) (by decide)

lemma LedTo.append {q : Pattern} {leads : List (List Char)} (h : LedTo q leads next) (b : Pattern) :
    LedTo (q ++ b) leads next := fun before text hnot => (h before text hnot).append b

/-! ### Scans -/

/-- The relations of blocks. -/
def blockScan (contents : Contents) : TokenScan Relation where
  pattern := blockHead
  read found := (RelationBlock.ofMatch? found).toList.flatMap (RelationBlock.relations contents)
  leads := Token.endsIn ["relations".toList]
  next := .parenthesis

/-- The targets of a block. -/
def targetScan : TokenScan Target where
  pattern := targetHead
  read found := (Target.ofMatch? found).toList
  leads := Token.endsIn (["one", "many"].map String.toList)
  next := .parenthesis

/-- The indexes of a callback. -/
def indexScan : TokenScan IndexCall where
  pattern := indexHead
  read found := (IndexCall.ofMatch? found).toList
  leads := Token.endsIn (["uniqueIndex", "index", "unique"].map String.toList)
  next := .parenthesis

/-- The composite keys of a callback. -/
def keyScan : TokenScan (List String) where
  pattern := keyHead
  read found := ((argumentsAfter? found).map keyColumns).toList
  leads := Token.endsIn ["primaryKey".toList]
  next := .parenthesis

/-- The calls of a method. -/
def methodScan (name : String) : TokenScan Unit where
  pattern := methodCall name
  read _ := [()]
  leads := Token.endsIn [name.toList]
  next := .parenthesis

/-- What a column points at. -/
def referenceScan : TokenScan (String × String) where
  pattern := referencesCall
  read found := [(String.ofList (found.group 1), String.ofList (found.group 2))]
  leads := Token.endsIn [".references".toList]
  next := .parenthesis

/-- The columns of a named argument. -/
def listScan (name : String) : TokenScan (List String) where
  pattern := listArgument name
  read found := [columnNames (found.group 1)]
  leads := Token.endsIn [name.toList]
  next := .colon

/-- The tables of a module. -/
def tableScan : TokenScan (Except TableCallFault TableCall) where
  pattern := tableHead
  read found := [TableCall.ofMatch found]
  leads := Token.isWordly
  next := .word

lemma sound_blockScan (contents : Contents) : (blockScan contents).Sound Token.Proper :=
  (ledTo_lit_call "relations" rfl).sound_calls (by decide) fun _ => rfl

lemma sound_targetScan : targetScan.Sound Token.Proper := by
  refine (ledTo_call (b := .group 1 (lit "one" ||| lit "many")) rfl fun _ u _ hu => ?_).sound_calls
    (by decide) fun _ => rfl
  rcases hu with hu | hu
  · exact ⟨"one", by decide, reads_lit.mp hu⟩
  · exact ⟨"many", by decide, reads_lit.mp hu⟩

/-- The function of an index, white space and a parenthesis. -/
lemma ledTo_indexCall : LedTo (wordEdge ++ .group 1 (lit "uniqueIndex" ||| lit "index" |||
    lit "unique") ++ blanks ++ char '(')
      (["uniqueIndex", "index", "unique"].map String.toList) .parenthesis := by
  refine ledTo_call rfl fun _ u _ hu => ?_
  rcases hu with (hu | hu) | hu
  · exact ⟨"uniqueIndex", by decide, reads_lit.mp hu⟩
  · exact ⟨"index", by decide, reads_lit.mp hu⟩
  · exact ⟨"unique", by decide, reads_lit.mp hu⟩

lemma ledTo_indexHead : LedTo indexHead (["uniqueIndex", "index", "unique"].map String.toList)
    .parenthesis :=
  ledTo_indexCall.append _ |>.append _ |>.append _ |>.append _ |>.append _ |>.append _ |>.append _
    |>.append _

lemma sound_indexScan : indexScan.Sound Token.Proper :=
  ledTo_indexHead.sound_calls (by decide) fun _ => rfl

lemma sound_keyScan : keyScan.Sound Token.Proper :=
  (ledTo_lit_call "primaryKey" rfl).sound_calls (by decide) fun _ => rfl

lemma sound_methodScan (hname : name ∈ [".notNull", ".primaryKey", ".unique"]) :
    (methodScan name).Sound Token.Proper := by
  have hall : ∀ name ∈ [".notNull", ".primaryKey", ".unique"],
      name.toList.head? = some '.' ∧ CallLeads [name.toList] := by decide
  obtain ⟨hhead, hleads⟩ := hall name hname
  obtain ⟨w, hw⟩ := List.head?_eq_some_iff.mp hhead
  exact (ledTo_methodCall hw).sound_calls hleads fun _ => rfl

lemma sound_referenceScan : referenceScan.Sound Token.Proper := by
  have hcall : LedTo (methodCall ".references") [".references".toList] .parenthesis :=
    ledTo_methodCall rfl
  exact (hcall.append _ |>.append _ |>.append _ |>.append _ |>.append _ |>.append _ |>.append _
    |>.append _ |>.append _ |>.append _ |>.append _).sound_calls (by decide) fun _ => rfl

/-- Proper tokens other than literals. -/
def Token.Bare (t : Token) : Prop := t.Proper ∧ ∀ q u, t ≠ .literal q u

lemma sound_listScan (hname : IsWord name.toList) : (listScan name).Sound Token.Bare :=
  ((ledTo_lit_call name rfl).append _ |>.append _).sound
    (fun l hl => Or.inl (by rwa [List.mem_singleton.mp hl])) (by decide) (fun _ => rfl)
    (fun _ => And.left) fun q u hu => absurd rfl (hu.2 q u)

/-! ### The heads of tables -/

/-- Within a word that no other word follows, no table begins. -/
lemma silent_tableHead_of_calm (hw : ∀ c ∈ w, isWordChar c = true) (hstop : Stops isWordChar rest)
    (hcalm : Calm .word rest) : Silent tableHead before w rest := by
  obtain ⟨g, v, rfl, hg, hv⟩ := exists_run isBlank rest
  have hword : Stops isWordChar v := by
    rwa [Calm, Text.dropWhile_append_of_stops hg hv] at hcalm
  refine silent_tableHead_word hw hstop
    (fun _ => fails_someBlanks_append (by decide) hg hv fun _ => ?_)
    fun _ => fails_someBlanks_assignedCall hg hv fun _ => ?_
  · exact (fails_lit (by decide) hword).append _
  · rw [assignedCall, fails_group_append, word, many1, fails_assoc]
    exact fails_one_append hword

/-- What is read as the head of a table ends with the call of a function for tables, and has no
quote in it. -/
lemma exists_of_reads_tableHead (h : tableHead.Reads before w rest) :
    (∃ x, ∃ word ∈ callWords, ∃ g, w = x ++ (word.toList ++ (g ++ ['('])) ∧ IsGap g) ∧
      ∀ c, isQuote c = true → c ∉ w := by
  refine ⟨?_, fun c hc hmem => ?_⟩
  · obtain ⟨_, _, rfl, ⟨_, g, rfl, ⟨x, f, rfl, -, hf⟩, hg⟩, ⟨c, hc, rfl⟩⟩ := h
    obtain rfl : c = '(' := by simpa using hc
    obtain ⟨word, hword, rfl⟩ : ∃ word ∈ callWords, f = word.toList := by
      rcases hf with (hf | hf) | hf
      · exact ⟨"pgTable", by decide, reads_lit.mp hf⟩
      · exact ⟨"mysqlTable", by decide, reads_lit.mp hf⟩
      · exact ⟨"sqliteTable", by decide, reads_lit.mp hf⟩
    exact ⟨x, word, hword, g, by simp, hg⟩
  · have hnever : tableHead.neverReads c = true := by
      simp only [isQuote, Bool.or_eq_true, beq_iff_eq] at hc
      rcases hc with (rfl | rfl) | rfl <;> decide
    exact ne_of_reads tableHead hnever h c hmem rfl

lemma silent_tableHead_literal {c : Char} (hu : IsContent c u) :
    Silent tableHead before (c :: (u ++ [c])) rest := by
  have hquote : isWordChar c = false := by
    have hc := hu.isQuote
    simp only [isQuote, Bool.or_eq_true, beq_iff_eq] at hc
    rcases hc with (rfl | rfl) | rfl <;> decide
  have hend : ∀ before v, Silent tableHead before [c] v := fun before v =>
    silent_tableHead_of_not_isWordChar (by simpa using hquote)
  refine silent_append (u := [c]) |>.mpr ⟨hend _ _, silent_append.mpr ⟨?_, hend _ _⟩⟩
  refine silent_of_forall fun x d y hxy w rest' htext hread => ?_
  obtain ⟨⟨z, word, hword, g, rfl, hg⟩, hfree⟩ := exists_of_reads_tableHead hread
  -- the reading does not go beyond the quote, so that the call is in the literal
  have hsplit : (d :: y) ++ c :: rest = (z ++ (word.toList ++ (g ++ ['(']))) ++ rest' := by
    simpa using htext
  obtain ⟨t, ht, hrest⟩ | ⟨t, ht, -⟩ := List.append_eq_append_iff.mp hsplit
  · cases t with
    | nil =>
        have hnot : u ≠ (x ++ z) ++ (word.toList ++ (g ++ ['('])) :=
          not_holdsCall (hu.calls word hword) hg
        refine hnot ?_
        rw [hxy, ← List.append_nil (d :: y), ← ht]
        simp
    | cons b t =>
        obtain ⟨rfl, -⟩ := List.cons.inj hrest
        exact hfree c hu.isQuote (by simp [ht])
  · have hnot : u ≠ (x ++ z) ++ (word.toList ++ (g ++ '(' :: t)) :=
      not_holdsCall (hu.calls word hword) hg
    refine hnot ?_
    rw [hxy, ht]
    simp

lemma sound_tableScan : tableScan.Sound Token.Proper where
  proper _ := id
  silent := by
    intro t g before rest ht hg hparted hcalm
    have hgap : ∀ before, Silent tableHead before g rest := fun before =>
      silent_tableHead_of_not_isWordChar fun c hc => Text.not_isWordChar_of_isBlank (hg c hc)
    refine silent_append.mpr ⟨?_, hgap _⟩
    have hcalm' : t.isWordly = true → Calm .word (g ++ rest) := fun hwordly => by
      have hdrop := hcalm hwordly
      rwa [Calm, List.dropWhile_append_of_pos hg]
    have hperiod : ∀ before v, Silent tableHead before ['.'] v := fun before v =>
      silent_tableHead_of_not_isWordChar (by decide)
    cases t with
    | word w =>
        exact silent_tableHead_of_calm ht.chars (hparted.stops ht) (hcalm' rfl)
    | member w =>
        exact silent_append (u := ['.']) |>.mpr ⟨hperiod _ _,
          silent_tableHead_of_calm ht.chars (hparted.stops_behind (s := ['.']) ht) (hcalm' rfl)⟩
    | path v w =>
        have hsplit : (Token.path v w).text = v.toList ++ (['.'] ++ w.toList) := rfl
        rw [hsplit, ← List.append_assoc] at hparted
        rw [hsplit]
        refine silent_append.mpr ⟨silent_tableHead_of_calm ht.1.chars (by simp; decide)
          (calm_period _), silent_append.mpr ⟨hperiod _ _, ?_⟩⟩
        exact silent_tableHead_of_calm ht.2.chars (hparted.stops_behind ht.2) (hcalm' rfl)
    | literal c u => exact silent_tableHead_literal ht
    | sign c =>
        exact silent_tableHead_of_not_isWordChar (by simpa [Token.text] using (sign_facts ht).1)
    | arrow => exact silent_tableHead_of_not_isWordChar (by decide)
  gap hg := silent_tableHead_of_not_isWordChar fun c hc => Text.not_isWordChar_of_isBlank (hg c hc)
  wordly _ := id
  fails_nil _ := fails_nil (by decide)
  read_yield _ := rfl

end SchemaReader.TableModule
