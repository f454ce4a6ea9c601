/-
The forms of statements at the borders of texts.

* `stopsShort_of_mem_heads`: no statement goes on behind a semicolon, in a text without quoted and
  bracketed names in which a closing parenthesis follows each opening one;
* `OpensCreate`: a text begins like a created table, with `staysIn_createTableHead` and
  `silent_createIndexHead_of_not_mentions`: what stands before such a text does not go on into it;
* `exists_list_createTableHead`, `exists_list_createIndexHead`: the list of a created table or index
  begins behind a parenthesis.
-/
import SchemaReader.Proofs.Ddl.OneTable
import SchemaReader.Proofs.Lexical.Balance
import SchemaReader.Proofs.Pattern.Borders

namespace SchemaReader.Ddl

open Text (IsWord IsGap IsKeyword Spells Stops Mentions isWordChar isBlank)
open Pattern

variable {before u v w next rest : List Char} {q b : Pattern} {K : String} {d : Char}

/-! ### Scans of statements -/

lemma createTableHead_mem_heads : createTableHead ∈ heads := by simp [heads]

lemma createIndexHead_mem_heads : createIndexHead ∈ heads := by simp [heads]

lemma addForeignKeyForm_mem_heads : addForeignKeyForm ∈ heads := by simp [heads]

lemma isLed_of_mem_heads (hq : q ∈ heads) : q.isLed = true := by
  have hled : ∀ q ∈ heads, q.isLed = true := by simp [heads]; decide
  exact hled q hq

lemma nullable_of_mem_heads (hq : q ∈ heads) : q.nullable = false := by
  have hnull : ∀ q ∈ heads, q.nullable = false := by simp [heads]; decide
  exact hnull q hq

/-- A character with which a quoted or bracketed part of a name begins. -/
def opensNamePart (c : Char) : Bool := c == '"' || c == Char.ofNat 0x60 || c == '['

/-- The parts of a name that could read on begin with a quote or a bracket. -/
lemma stopsShort_namePart (hplain : ∀ c ∈ v ++ [d], opensNamePart c = false)
    (hd : isNameChar d = false) : namePart.StopsShort (v ++ [d]) := by
  have hopening : ∀ {q : Pattern} {e : Char}, opensNamePart e = true →
      (char e ++ q).StopsShort (v ++ [d]) := by
    intro q e he
    refine stopsShort_of_not_mayBegin fun c hc => ?_
    have hne : c ≠ e := by
      rintro rfl
      simp [hplain c hc] at he
    simp [char, mayBegin, nullable, hne]
  have hname : (many1 isNameChar).StopsShort (v ++ [d]) :=
    stopsShort_of_neverReads (by simp [many1, hd])
  have hclosing : ∀ {q b : Pattern} {e : Char}, opensNamePart e = true →
      (char e ++ q ++ b).StopsShort (v ++ [d]) := fun he => by
    intro before x y rest hx hxu hread
    exact hopening he before x y rest hx hxu (reads_assoc.mp hread)
  exact ((hname.alt (hclosing (by decide))).alt (hclosing (by decide))).alt (hclosing (by decide))

/-! ### Before a semicolon -/

section Semicolon

variable (hplain : ∀ c ∈ v ++ [';'], opensNamePart c = false)

include hplain

lemma stopsShort_identifier : identifier.StopsShort (v ++ [';']) := by
  have hpart := stopsShort_namePart hplain (by decide)
  have hperiod : (blanks ++ char '.' ++ blanks).StopsShort (v ++ [';']) :=
    stopsShort_of_neverReads (by decide)
  exact hpart.append (hperiod.append hpart).opt

lemma stopsShort_createTableHead : createTableHead.StopsShort (v ++ [';']) := by
  have hname := stopsShort_identifier hplain
  refine StopsShort.append (StopsShort.append (StopsShort.append ?_ (hname.group 1)) ?_) ?_
  all_goals exact stopsShort_of_neverReads (by decide)

lemma stopsShort_createIndexHead : createIndexHead.StopsShort (v ++ [';']) := by
  have hname := stopsShort_identifier hplain
  have hindex : (opt (.group 2 identifier ++ someBlanks)).StopsShort (v ++ [';']) :=
    ((hname.group 2).append (stopsShort_of_neverReads (by decide))).opt
  refine StopsShort.append (StopsShort.append (StopsShort.append (StopsShort.append
    (StopsShort.append (StopsShort.append (StopsShort.append ?_ hindex) ?_) ?_) (hname.group 3)) ?_)
      ?_) ?_
  all_goals exact stopsShort_of_neverReads (by decide)

lemma stopsShort_addForeignKeyForm (hshut : ∀ a b, v ++ [';'] = a ++ '(' :: b → ')' ∈ b) :
    addForeignKeyForm.StopsShort (v ++ [';']) := by
  have hname := stopsShort_identifier hplain
  have hlist := fun i => stopsShort_inParens i (by decide) hshut
  have hblanks : blanks.StopsShort (v ++ [';']) := stopsShort_of_neverReads (by decide)
  have hsome : someBlanks.StopsShort (v ++ [';']) := stopsShort_of_neverReads (by decide)
  have hforeign : (keywordBefore "FOREIGN" ++ keyword "KEY" ++ blanks).StopsShort (v ++ [';']) :=
    stopsShort_of_neverReads (by decide)
  have hconstraint : constraintName.StopsShort (v ++ [';']) :=
    ((stopsShort_of_neverReads (by decide)).append hname).append hsome
  have hreferences : (referencesForm 3).StopsShort (v ++ [';']) :=
    (((stopsShort_of_neverReads (by decide)).append (hname.group 3)).append hblanks).append
      (hlist 4).opt
  have hbody : (foreignKeyBody 2).StopsShort (v ++ [';']) :=
    ((hforeign.append (hlist 2)).append hblanks).append hreferences
  refine StopsShort.append (StopsShort.append (StopsShort.append (StopsShort.append
    (StopsShort.append ?_ (hname.group 1)) ?_) ?_) hconstraint.opt) hbody
  all_goals exact stopsShort_of_neverReads (by decide)

/-- No statement goes on behind a semicolon. -/
theorem stopsShort_of_mem_heads (hshut : ∀ a b, v ++ [';'] = a ++ '(' :: b → ')' ∈ b)
    (hq : q ∈ heads) : q.StopsShort (v ++ [';']) := by
  simp only [heads, List.mem_cons, List.not_mem_nil, or_false] at hq
  rcases hq with rfl | rfl | rfl
  · exact stopsShort_createTableHead hplain
  · exact stopsShort_createIndexHead hplain
  · exact stopsShort_addForeignKeyForm hplain hshut

end Semicolon

/-! ### Lists -/

/-- What ends with a sign ends with it. -/
lemma exists_of_reads_append_char {c : Char} (h : (q ++ char c).Reads before w rest) :
    ∃ w', w = w' ++ [c] := by
  obtain ⟨w', _, rfl, -, c', hc', rfl⟩ := h
  obtain rfl : c' = c := by simpa using hc'
  exact ⟨w', rfl⟩

/-- The list of a created table begins behind a parenthesis. -/
lemma exists_list_createTableHead (h : createTableHead.Reads before w rest) :
    ∃ w', w = w' ++ ['('] := exists_of_reads_append_char h

lemma exists_list_createIndexHead (h : createIndexHead.Reads before w rest) :
    ∃ w', w = w' ++ ['('] := exists_of_reads_append_char h

/-! ### Before a created table -/

/-- A text begins with the word `CREATE` before another word. -/
def OpensCreate (text : List Char) : Prop :=
  ∃ t v, text = t ++ v ∧ SpacedKeyword "CREATE" t ∧ ¬ Stops isWordChar v

/-- What is read as a created table begins so. -/
lemma opensCreate_of_reads (h : createTableHead.Reads before w rest) : OpensCreate (w ++ rest) := by
  simp only [createTableHead, reads_assoc] at h
  obtain ⟨_, w, rfl, ⟨rfl, -⟩, t, v, rfl, ht, htail⟩ := h
  refine ⟨t, v ++ rest, by simp, spacedKeyword_of_reads (by decide) ht, fun hstops => ?_⟩
  -- behind the first word there has to be one of the second words
  exact isHead_createTableHead.second _ _ (noSecondWord_of_stops hstops) v rest rfl htail

lemma OpensCreate.stops {p : Char → Bool} (h : OpensCreate next)
    (hp : ∀ c, isWordChar c = true → p c = false) : Stops p next := by
  obtain ⟨t, v, rfl, ht, -⟩ := h
  exact ht.stops hp v

lemma OpensCreate.stops_isBlank (h : OpensCreate next) : Stops isBlank next :=
  h.stops fun _ => Text.not_isBlank_of_isWordChar

/-- Neither does a sign read anything there. -/
lemma OpensCreate.fails_char {c : Char} (h : OpensCreate next) (hc : isWordChar c = false)
    (before : List Char) : (char c).Fails before next :=
  fails_of_stops rfl (h.stops fun _ => Text.beq_of_isWordChar hc)

section OpensCreate

variable (hnext : OpensCreate next)

include hnext

lemma halts_keywordBefore (hq : q.Halts (u ++ ['\n']) next) (hK : IsKeyword K.toList)
    (hne : K ≠ "CREATE") (hnever : (keyword K).neverReads '\n' = true) :
    (keywordBefore K ++ q).Halts (u ++ ['\n']) next := by
  refine halts_assoc.mpr ((hq.many1_append hnext.stops_isBlank).append_left
    (stopsShort_of_neverReads hnever) fun before => fails_assoc.mp ?_)
  obtain ⟨t, v, rfl, ht, -⟩ := hnext
  exact fails_keywordBefore_of_ne ht hK hne

lemma halts_keyword (hq : q.Halts (u ++ ['\n']) next) (hK : IsKeyword K.toList)
    (hne : K ≠ "CREATE") (havoids : q.Avoids isWordChar)
    (hnever : (keyword K).neverReads '\n' = true) :
    (keyword K ++ q).Halts (u ++ ['\n']) next := by
  refine hq.append_left (stopsShort_of_neverReads hnever) fun before => ?_
  obtain ⟨t, v, rfl, ht, -⟩ := hnext
  exact fails_keyword_of_ne ht hK hne havoids

/-- A name before the parenthesis of a list: the word `CREATE` could be the name, but there is
another word behind it. -/
lemma fails_identifier_parenthesis (before : List Char) :
    (identifier ++ (blanks ++ char '(')).Fails before next := by
  obtain ⟨t, v, rfl, ht, hv⟩ := hnext
  obtain ⟨s, g, rfl, hs, hg, hne⟩ := ht.split
  have hword := hs.isWord ht.isKeyword
  have hstops : ∀ p : Char → Bool, (∀ c, isWordChar c = true → p c = false) → Stops p v := fun p =>
    Text.stops_of_not_stops hv
  have hblank := hstops isBlank fun _ => Text.not_isBlank_of_isWordChar
  have hperiod : NoPeriod (g ++ v) :=
    noPeriod_of_gap hg hblank (hstops _ fun _ => Text.beq_of_isWordChar (by decide))
  have hname : Stops isNameChar (g ++ v) := stops_isNameChar_gap hg hne
  rw [List.append_assoc]
  refine fails_identifier_append ?_ (isPlainName_of_isWord hword) hperiod hname ?_
  · refine avoids_of_mayBegin rfl fun c hc => ?_
    have hparen : c ≠ '(' := by
      rintro rfl
      exact absurd hc (by decide)
    simp [blanks, char, mayBegin, isNameChar_not_isBlank c hc, hparen]
  · exact fails_blanks_append (by decide) hg hblank
      (fails_of_stops rfl (hstops _ fun c => Text.beq_of_isWordChar (by decide)))

/-- What halts at the created table stays before it also behind its first word. -/
lemma staysIn_create (hq : q.Halts (u ++ ['\n']) next) :
    (wordEdge ++ (keywordBefore "CREATE" ++ q)).StaysIn (u ++ ['\n']) next := by
  have hedge : wordEdge.StopsShort (u ++ ['\n']) := stopsShort_of_neverReads (by decide)
  have hkeyword : (keyword "CREATE").StopsShort (u ++ ['\n']) :=
    stopsShort_of_neverReads (by decide)
  have hblanks := (hq.many1_append hnext.stops_isBlank).stays
  exact (staysIn_assoc.mpr (hblanks.append_left hkeyword)).append_left hedge

/-- A name before what halts at the created table. -/
lemma halts_identifier (hplain : ∀ c ∈ u, opensNamePart c = false)
    (hq : q.Halts (u ++ ['\n']) next) (hfails : ∀ before, (identifier ++ q).Fails before next) :
    (identifier ++ q).Halts (u ++ ['\n']) next := by
  have hline : ∀ c ∈ u ++ ['\n'], opensNamePart c = false :=
    List.forall_mem_append.mpr ⟨hplain, by decide⟩
  have hpart := stopsShort_namePart hline (by decide)
  have hblank := hnext.stops_isBlank
  -- the name could also end behind its first part
  have hfirst : ∀ before, (namePart ++ q).Fails before next := fun before =>
    fails_append.mpr fun w rest hw hread =>
      (fails_opt_append.mp (fails_append.mp (fails_assoc.mp (hfails before)) w rest hw hread)).2
  have hsecond : (namePart ++ q).Halts (u ++ ['\n']) next := hq.append_left hpart hfirst
  have hperiod : (char '.' ++ (blanks ++ (namePart ++ q))).Halts (u ++ ['\n']) next := by
    have hfails : ∀ before, (char '.').Fails before next := hnext.fails_char (by decide)
    exact (hsecond.many_append hblank).append_left (stopsShort_of_neverReads (by decide))
      fun before => (hfails before).append _
  refine ⟨staysIn_assoc.mpr (StaysIn.append_left (StaysIn.opt_append ?_ hq.stays) hpart), hfails⟩
  simp only [staysIn_assoc]
  exact (hperiod.many_append hblank).stays

/-- No created table goes on into another one. -/
theorem staysIn_createTableHead (hplain : ∀ c ∈ u, opensNamePart c = false) :
    createTableHead.StaysIn (u ++ ['\n']) next := by
  have hblank := hnext.stops_isBlank
  have hblanks : ∀ {q : Pattern}, q.Halts (u ++ ['\n']) next →
      (someBlanks ++ q).Halts (u ++ ['\n']) next := fun hq => hq.many1_append hblank
  have havoids : ∀ q : Pattern, (someBlanks ++ q).Avoids isWordChar :=
    someBlanks_avoids_isWordChar.append
  have hparen : (char '(').Halts (u ++ ['\n']) next :=
    ⟨(stopsShort_of_neverReads (by decide)).staysIn next, hnext.fails_char (by decide)⟩
  have hname : (.group 1 identifier ++ (blanks ++ char '(')).Halts (u ++ ['\n']) next :=
    (halts_identifier hnext hplain (hparen.many_append hblank)
      (fails_identifier_parenthesis hnext)).group_append 1
  have hexists : (opt ifNotExists ++ (.group 1 identifier ++ (blanks ++ char '('))).Halts
      (u ++ ['\n']) next := by
    refine Halts.opt_append ?_ hname
    simp only [ifNotExists, halts_assoc]
    refine halts_keywordBefore hnext (halts_keywordBefore hnext (halts_keywordBefore hnext hname
      ?_ ?_ ?_) ?_ ?_ ?_) ?_ ?_ ?_
    all_goals decide
  have htable :=
    halts_keywordBefore (K := "TABLE") hnext hexists (by decide) (by decide) (by decide)
  have htemporary : (opt ((keyword "TEMPORARY" ||| keyword "TEMP" ||| keyword "UNLOGGED") ++
      someBlanks) ++ (keywordBefore "TABLE" ++ (opt ifNotExists ++ (.group 1 identifier ++
        (blanks ++ char '('))))).Halts (u ++ ['\n']) next := by
    refine Halts.opt_append (halts_assoc.mpr (Halts.alt_append (Halts.alt_append ?_ ?_) ?_)) htable
    all_goals
      exact halts_keyword hnext (hblanks htable) (by decide) (by decide) (havoids _) (by decide)
  have hglobal : createTableTail.Halts (u ++ ['\n']) next := by
    refine Halts.opt_append (halts_assoc.mpr (Halts.alt_append ?_ ?_)) htemporary
    all_goals
      exact halts_keyword hnext (hblanks htemporary) (by decide) (by decide) (havoids _) (by decide)
  simp only [createTableHead, staysIn_assoc]
  exact staysIn_create hnext hglobal

/-- No created index stands before a created table where none is mentioned. -/
theorem silent_createIndexHead_of_not_mentions (hindex : ¬ Mentions "INDEX" u) :
    Silent createIndexHead before (u ++ ['\n']) next := by
  have hline : ¬ Mentions "INDEX" (u ++ ['\n']) := by
    rw [Text.mentions_append (by decide), not_or]
    exact ⟨hindex, Text.not_mentions_nil (by decide)⟩
  have hword : (keywordBefore "INDEX").Halts (u ++ ['\n']) next := by
    refine ⟨(staysIn_many1 hnext.stops_isBlank).append_left (stopsShort_of_neverReads (by decide)),
      fun before => ?_⟩
    obtain ⟨t, v, rfl, ht, -⟩ := hnext
    exact fails_keyword_of_ne ht (by decide) (by decide) someBlanks_avoids_isWordChar
  have hunique : (opt (.group 1 (keywordBefore "UNIQUE")) ++ keywordBefore "INDEX").Halts
      (u ++ ['\n']) next := by
    refine Halts.opt_append (Halts.group_append ?_ 1) hword
    exact halts_keywordBefore hnext hword (by decide) (by decide) (by decide)
  have hstays : (wordEdge ++ keywordBefore "CREATE" ++ opt (.group 1 (keywordBefore "UNIQUE")) ++
      keywordBefore "INDEX").StaysIn (u ++ ['\n']) next := by
    simp only [staysIn_assoc]
    exact staysIn_create hnext hunique
  apply silent_of_not_mentions (by decide) ?reads hstays ?ends hline
  case reads =>
    intro before text hfails
    simp only [fails_assoc] at hfails
    simp only [createIndexHead, fails_assoc]
    exact hfails
  case ends =>
    -- before the word there is white space, whether the index is unique or not
    rintro before _ rest ⟨_, y, rfl, ⟨_, t, rfl, ⟨rfl, -⟩, ht⟩, hy⟩ v
    have hcreate := spacedKeyword_of_reads (by decide) ht
    obtain hunique | rfl := hy
    · simpa using (spacedKeyword_of_reads (by decide) hunique).stops_reverse _
    · simpa using hcreate.stops_reverse v

end OpensCreate

end SchemaReader.Ddl
