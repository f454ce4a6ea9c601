/-
What stands in brackets or literals among the options of a column.

* `occursIn_squeeze`: whether a flag shows in a text does not depend on the width of its white
  space;
* `GoesOn`: a text that goes on with options, behind a type;
* `takes_type_or_more`: what is taken for a type in front of such a text is told by its first word;
* `Hides`: a literal or brackets, which masking hides;
* `sameFlags_of_squeeze`: two columns whose options show the same, up to the width of white space,
  have the same flags, and so have two with other literals and brackets in the same places.
-/
import SchemaReader.Proofs.Ddl.SameFlags
import SchemaReader.Proofs.Ddl.SpelledName
import SchemaReader.Proofs.Pattern.Borders
import SchemaReader.Proofs.Text.Squeezed

namespace SchemaReader.Ddl

open Text (IsWord IsGap IsKeyword Spells Stops squeeze isWordChar isBlank)
open Pattern

variable {before s t u v w g o r text text' rest : List Char} {type : ColumnType} {K L : String}

/-! ### Flags in squeezed texts -/

/-- A keyword that is a word of its own. -/
lemma reads_keyword_alone (hK : IsKeyword K.toList) :
    (wordEdge ++ keyword K ++ wordEdge).Reads before w rest ↔
      Spells K.toList w ∧ Stops isWordChar before ∧ Stops isWordChar rest := by
  constructor
  · rintro ⟨_, _, rfl, ⟨_, s, rfl, ⟨rfl, hedge⟩, hs⟩, ⟨rfl, hedge'⟩⟩
    have hspells := reads_keyword.mp hs
    have hword := hspells.isWord hK
    simp only [List.nil_append, List.append_nil] at hedge hedge' hspells ⊢
    exact ⟨hspells, stops_before_of_atWordEdge hword hedge, stops_of_atWordEdge hword hedge'⟩
  · rintro ⟨hs, hbefore, hrest⟩
    have hword := hs.isWord hK
    suffices htakes : (wordEdge ++ keyword K ++ wordEdge).Takes before w rest [] from htakes.reads
    simp only [takes_assoc]
    exact (takes_wordEdge_before hbefore (hword.not_stops _)).after_nothing
      ((takes_keyword hs).append_nothing (takes_wordEdge_behind hword hrest))

/-- Two keywords in a row that are words of their own. -/
lemma reads_two_keywords (hK : IsKeyword K.toList) (hL : IsKeyword L.toList) :
    (wordEdge ++ keywordBefore K ++ keyword L ++ wordEdge).Reads before w rest ↔
      ∃ t s, w = t ++ s ∧ SpacedKeyword K t ∧ Spells L.toList s ∧ Stops isWordChar before ∧
        Stops isWordChar rest := by
  constructor
  · rintro ⟨_, _, rfl, ⟨_, s, rfl, ⟨_, t, rfl, ⟨rfl, hedge⟩, ht⟩, hs⟩, ⟨rfl, hedge'⟩⟩
    have hspaced := spacedKeyword_of_reads hK ht
    have hspells := reads_keyword.mp hs
    obtain ⟨x, g, rfl, hx, -, -⟩ := hspaced.split
    simp only [List.nil_append, List.append_nil, List.append_assoc, List.reverse_append]
      at hedge hedge' ⊢
    exact ⟨x ++ g, s, by simp, hspaced, hspells, stops_before_of_atWordEdge (hx.isWord hK) hedge,
      stops_of_atWordEdge (hspells.isWord hL) hedge'⟩
  · rintro ⟨t, s, rfl, ht, hs, hbefore, hrest⟩
    have hword := hs.isWord hL
    suffices htakes : (wordEdge ++ keywordBefore K ++ keyword L ++ wordEdge).Takes before
        (t ++ s) rest []
      from htakes.reads
    simp only [takes_assoc]
    refine (takes_wordEdge_before hbefore (by simpa using ht.not_stops _)).after_nothing ?_
    refine (takes_keywordBefore ht (by simpa using hword.stops_isBlank _)).seq ?_
    exact (takes_keyword hs).append_nothing (takes_wordEdge_behind hword hrest)

/-- A word of a text is a word of any text that is squeezed to the same. -/
lemma exists_word_of_squeeze (hw : IsWord w) (h : squeeze (u ++ (w ++ v)) = squeeze text) :
    ∃ u' v', text = u' ++ (w ++ v') ∧ squeeze u' = squeeze u ∧ squeeze v' = squeeze v := by
  have hblank : ∀ c ∈ w, isBlank c = false :=
    fun c hc => Text.not_isBlank_of_isWordChar (hw.chars c hc)
  rw [Text.squeeze_append (hw.stops_isBlank v), Text.squeeze_append_of_not_isBlank hblank] at h
  obtain ⟨u', x, rfl, hu, hx⟩ := Text.exists_of_squeeze_eq_append h.symm
  obtain ⟨w', v', rfl, hw', hv⟩ := Text.exists_of_squeeze_eq_append hx
  obtain rfl := Text.eq_of_squeeze_eq hw' hblank
  exact ⟨u', v', rfl, hu, hv⟩

/-- So is a gap before a word, up to its width. -/
lemma exists_gap_of_squeeze (hg : IsGap g) (hne : g ≠ []) (hv : Stops isBlank v)
    (h : squeeze (g ++ v) = squeeze text) :
    ∃ g' v', text = g' ++ v' ∧ IsGap g' ∧ g' ≠ [] ∧ squeeze v' = squeeze v := by
  rw [Text.squeeze_gap_append hg hne hv] at h
  obtain ⟨g', v', rfl, hg', hv'⟩ := Text.exists_of_squeeze_eq_append (x := [' ']) h.symm
  obtain ⟨hgap, hne'⟩ := Text.isGap_of_squeeze_eq hg'
  exact ⟨g', v', rfl, hgap, hne', hv'⟩

lemma stops_of_squeeze (h : squeeze u = squeeze v) (hv : Stops isWordChar v) : Stops isWordChar u :=
  Text.stops_isWordChar_squeeze.mp (h ▸ Text.stops_isWordChar_squeeze.mpr hv)

lemma stops_reverse_of_squeeze (h : squeeze u = squeeze v) (hv : Stops isWordChar v.reverse) :
    Stops isWordChar u.reverse :=
  Text.stops_reverse_squeeze.mp (h ▸ Text.stops_reverse_squeeze.mpr hv)

/-- A pattern that occurs in a text occurs in any text that is squeezed to the same. -/
def GoesThroughGaps (q : Pattern) : Prop :=
  ∀ ⦃text text'⦄, squeeze text = squeeze text' → q.occursIn text = true → q.occursIn text' = true

lemma goesThroughGaps_keyword (hK : IsKeyword K.toList) :
    GoesThroughGaps (wordEdge ++ keyword K ++ wordEdge) := by
  intro text text' hsqueeze h
  obtain ⟨u, w, v, rfl, hread⟩ := occursIn_iff_reads.mp h
  obtain ⟨hw, hu, hv⟩ := (reads_keyword_alone hK).mp hread
  obtain ⟨u', v', rfl, hu', hv'⟩ := exists_word_of_squeeze (hw.isWord hK) hsqueeze
  refine occursIn_iff_reads.mpr ⟨u', w, v', rfl, (reads_keyword_alone hK).mpr ⟨hw, ?_, ?_⟩⟩
  · exact stops_reverse_of_squeeze hu' hu
  · exact stops_of_squeeze hv' hv

lemma goesThroughGaps_two_keywords (hK : IsKeyword K.toList) (hL : IsKeyword L.toList) :
    GoesThroughGaps (wordEdge ++ keywordBefore K ++ keyword L ++ wordEdge) := by
  intro text text' hsqueeze h
  obtain ⟨u, w, v, rfl, hread⟩ := occursIn_iff_reads.mp h
  obtain ⟨t, s, rfl, ht, hs, hu, hv⟩ := (reads_two_keywords hK hL).mp hread
  obtain ⟨x, g, rfl, hx, hg, hne⟩ := ht.split
  have hword := hs.isWord hL
  simp only [List.append_assoc] at hsqueeze
  obtain ⟨u', y, rfl, hu', hy⟩ := exists_word_of_squeeze (hx.isWord hK) hsqueeze
  obtain ⟨g', z, rfl, hg', hne', hz⟩ := exists_gap_of_squeeze hg hne (hword.stops_isBlank v) hy.symm
  obtain ⟨u'', v', rfl, hnil, hv'⟩ := exists_word_of_squeeze (u := []) hword hz.symm
  obtain rfl : u'' = [] := Text.eq_of_squeeze_eq hnil (by simp)
  refine occursIn_iff_reads.mpr ⟨u', (x ++ g') ++ s, v', by simp, (reads_two_keywords hK hL).mpr
    ⟨_, _, rfl, ⟨hK, x, g', rfl, hx, hg', hne'⟩, hs, ?_, ?_⟩⟩
  · exact stops_reverse_of_squeeze hu' hu
  · exact stops_of_squeeze hv' hv

/-- Whether a flag shows in a text does not depend on the width of its white space. -/
theorem occursIn_squeeze (hsqueeze : squeeze text = squeeze text') :
    notNullForm.occursIn text = notNullForm.occursIn text' ∧
      inlinePrimaryKeyForm.occursIn text = inlinePrimaryKeyForm.occursIn text' ∧
      inlineUniqueForm.occursIn text = inlineUniqueForm.occursIn text' := by
  have hiff : ∀ {q : Pattern}, GoesThroughGaps q → q.occursIn text = q.occursIn text' := fun hq =>
    Bool.eq_iff_iff.mpr ⟨hq hsqueeze, hq hsqueeze.symm⟩
  exact ⟨hiff (goesThroughGaps_two_keywords (by decide) (by decide)),
    hiff (goesThroughGaps_two_keywords (by decide) (by decide)),
    hiff (goesThroughGaps_keyword (by decide))⟩

/-! ### Types before options -/

/-- A text that goes on with options: behind white space it begins with a word, and with none that
can go on with a type. -/
def GoesOn (o : List Char) : Prop :=
  ∃ g s v, o = g ++ (s ++ v) ∧ IsGap g ∧ g ≠ [] ∧ IsWord s ∧ Stops isWordChar v ∧
    ∀ K ∈ ["PRECISION", "VARYING", "WITH", "WITHOUT"], ¬ Spells K.toList s

/-- What is read of a word, but not all of it, is followed by no white space. -/
lemma stops_isBlank_of_ne (hs : IsWord s) (hv : Stops isWordChar v) (hu : IsWord u)
    (htext : s ++ v = u ++ rest) (hne : u ≠ s) : Stops isBlank rest := by
  refine Text.stops_of_not_stops (fun hrest => hne ?_) fun _ => Text.not_isBlank_of_isWordChar
  rw [← Text.takeWhile_append_of_stops hu.chars hrest, ← htext,
    Text.takeWhile_append_of_stops hs.chars hv]

/-- A time zone begins with one of two words. -/
lemma fails_timeZone (hg : IsGap g) (hs : IsWord s) (hv : Stops isWordChar v)
    (hfree : ∀ K ∈ ["WITH", "WITHOUT"], ¬ Spells K.toList s) :
    (someBlanks ++ keyword "WITH" ++ opt (keyword "OUT") ++ someBlanks ++
      keywordBefore "TIME" ++ keyword "ZONE").Fails before (g ++ (s ++ v)) := by
  have hne : ∀ {K : String} {x : List Char}, K ∈ ["WITH", "WITHOUT"] → Spells K.toList x → x ≠ s :=
    fun hK hx heq => hfree _ hK (heq ▸ hx)
  have hkeyword : ∀ K ∈ ["WITH", "WITHOUT"], IsKeyword K.toList := by decide
  have hstop : ∀ {K : String} {x y : List Char}, K ∈ ["WITH", "WITHOUT"] → Spells K.toList x →
      s ++ v = x ++ y → Stops isBlank y := fun hK hx hxy =>
    stops_isBlank_of_ne hs hv (hx.isWord (hkeyword _ hK)) hxy (hne hK hx)
  simp only [fails_assoc]
  refine fails_someBlanks_append (by decide) hg (hs.stops_isBlank v) fun _ => ?_
  rw [fails_append]
  intro x y hxy hread
  have hx := reads_keyword.mp hread
  rw [fails_opt_append, fails_append]
  refine ⟨fun x' y' hy hx' => fails_someBlanks ?_, fails_someBlanks (hstop (by decide) hx hxy)⟩
  have hboth : Spells ("WITH".toList ++ "OUT".toList) (x ++ x') :=
    List.rel_append hx (reads_keyword.mp hx')
  refine hstop (K := "WITHOUT") (by decide) hboth ?_
  rw [hxy, hy, List.append_assoc]

/-- The words that are taken for the second one of a type, each with the first one. -/
def doubleTypes : List (String × String) := [("DOUBLE", "PRECISION"), ("CHARACTER", "VARYING")]

/-- A word begins with the letters of a keyword. -/
def BeginsSpelled (L : String) (s : List Char) : Prop := ∃ x y, s = x ++ y ∧ Spells L.toList x

lemma fails_of_not_beginsSpelled (hL : IsKeyword L.toList)
    (havoids : (keyword L).avoidsBlanks = true)
    (hg : IsGap g) (hs : IsWord s) (hv : Stops isWordChar v) (h : ¬ BeginsSpelled L s) :
    (someBlanks ++ keyword L).Fails before (g ++ (s ++ v)) := by
  refine fails_someBlanks_append havoids hg (hs.stops_isBlank v) fun _ x y hxy hread => ?_
  have hx := reads_keyword.mp hread
  obtain ⟨z, rfl, rfl⟩ | ⟨z, rfl, rfl⟩ := List.append_eq_append_iff.mp hxy
  · -- the reading does not go on beyond the word
    cases z with
    | nil => exact h ⟨s, [], by simp, by simpa using hx⟩
    | cons d z =>
        have hd := (hx.isWord hL).chars d (by simp)
        simp [hd] at hv
  · exact h ⟨x, z, rfl, hx⟩

/-- A type is taken as a whole, unless the word behind it begins with what makes it a type of two
words. -/
lemma takes_typeForm_word (htype : type.Proper) (hg : IsGap g) (hne : g ≠ []) (hs : IsWord s)
    (hv : Stops isWordChar v) (hfree : ∀ K ∈ ["WITH", "WITHOUT"], ¬ Spells K.toList s)
    (hsingle : type.size = none → ∀ p ∈ doubleTypes, Spells p.1.toList type.word →
      ¬ BeginsSpelled p.2 s) :
    typeForm.Takes before type.text (g ++ (s ++ v)) [] := by
  have hsuffix : ∀ before, typeSuffix.Takes before [] (g ++ (s ++ v)) [] := fun _ => by
    refine Takes.after_nothing (w := []) (takes_opt_skip ?_) (takes_star_stop ?_)
    · rw [List.nil_append]
      exact fails_timeZone hg hs hv hfree
    simp only [fails_assoc]
    exact fails_bracket_word hg hs (by decide)
  obtain ⟨w, size⟩ := type
  cases size with
  | none =>
      simp only [typeForm, takes_assoc]
      refine (takes_typeWords htype.isWord (stops_isWordChar_gap hg hne) (fun hw _ => ?_)
        fun hw _ => ?_).append_nothing ?_
      · exact fails_of_not_beginsSpelled (by decide) (by decide) hg hs hv
          (hsingle rfl ("DOUBLE", "PRECISION") (by decide) hw)
      · exact fails_of_not_beginsSpelled (by decide) (by decide) hg hs hv
          (hsingle rfl ("CHARACTER", "VARYING") (by decide) hw)
      refine Takes.after_nothing (w := []) (takes_opt_skip ?_) (hsuffix _)
      simp only [fails_assoc]
      exact fails_bracket_word hg hs (by decide)
  | some size =>
      obtain ⟨x, u⟩ := size
      obtain ⟨hx, hu⟩ := htype.size _ rfl
      exact takes_typeForm_parentheses htype.isWord hx
        (fun c hc => ne_parenthesis_of_isSizeChar (hu c hc)) hsuffix

/-- Otherwise the type of two words is taken, and the rest of the word is left. -/
lemma takes_typeForm_double {p : String × String} (hp : p ∈ doubleTypes) (ht : Spells p.1.toList t)
    (hg : IsGap g) (hne : g ≠ []) (hu : Spells p.2.toList u) (hw : IsWord w) :
    typeForm.Takes before (t ++ (g ++ u)) (w ++ v) [] := by
  have hkeyword : ∀ p ∈ doubleTypes, IsKeyword p.1.toList ∧ IsKeyword p.2.toList := by decide
  obtain ⟨hK, hL⟩ := hkeyword p hp
  have hspaced : SpacedKeyword p.1 (t ++ g) := ⟨hK, t, g, rfl, ht, hg, hne⟩
  have hboth : (keywordBefore p.1 ++ keyword p.2).Takes before (t ++ (g ++ u)) (w ++ v) [] := by
    rw [← List.append_assoc]
    refine (takes_keywordBefore hspaced ?_).seq (takes_keyword hu)
    exact (hu.isWord hL).stops_isBlank _
  have hwords : typeWords.Takes before (t ++ (g ++ u)) (w ++ v) [] := by
    simp only [doubleTypes, List.mem_cons, List.not_mem_nil, or_false] at hp
    rcases hp with rfl | rfl
    · exact (hboth.alt_left _).alt_left _
    · refine (hboth.alt_right ?_).alt_left _
      have hfails : (keywordBefore "DOUBLE" ++ keyword "PRECISION").Fails before
          ((t ++ g) ++ (u ++ (w ++ v))) := fails_keywordBefore_of_ne hspaced (by decide) (by decide)
      simpa using hfails
  have hbracket : ∀ (before : List Char) (c : Char) (q : Pattern), c ∈ ['(', '['] →
      (blanks ++ (char c ++ q)).Fails before (w ++ v) :=
    fun _ _ _ hc => fails_bracket_word (g := []) Text.isGap_nil hw hc
  simp only [typeForm, takes_assoc]
  refine hwords.append_nothing (Takes.after_nothing (w := []) (takes_opt_skip ?_)
    (Takes.after_nothing (w := []) (takes_opt_skip ?_) (takes_star_stop ?_)))
  · simp only [fails_assoc]
    exact hbracket _ _ _ (by decide)
  · simp only [fails_assoc]
    exact fails_someBlanks (hw.stops_isBlank v)
  · simp only [fails_assoc]
    exact hbracket _ _ _ (by decide)

/-! ### Columns with options that show the same -/

/-- Options that show the same, up to the width of white space, show the same flags. -/
lemma sameFlags_ofParts (h : squeeze (maskNested .script u) = squeeze (maskNested .script v))
    (name : String) (t t' : List Char) :
    (ColumnEntry.ofParts name t u).SameFlags (ColumnEntry.ofParts name t' v) := by
  obtain ⟨hnotNull, hprimaryKey, hunique⟩ := occursIn_squeeze h
  exact ⟨rfl, congrArg (!·) hnotNull, hprimaryKey, hunique⟩

lemma isPlain_of_isWord (hs : IsWord s) : ∀ c ∈ s, isPlain c = true := fun c hc =>
  isPlain_of_isWordChar (hs.chars c hc)

/-- What is left of masked options: a space, their first word and what is left of the rest. -/
lemma squeeze_maskNested_word (hg : IsGap g) (hne : g ≠ []) (hs : IsWord s) :
    squeeze (maskNested .script (g ++ (s ++ v)))
      = ' ' :: (s ++ squeeze (maskNested .script v)) := by
  rw [maskNested_gap hg, maskNested_of_plain (isPlain_of_isWord hs),
    Text.squeeze_gap_append hg hne (hs.stops_isBlank _),
    Text.squeeze_append_of_not_isBlank fun c hc => Text.not_isBlank_of_isWordChar (hs.chars c hc)]

lemma stops_squeeze_maskNested (hv : Stops isWordChar v) :
    Stops isWordChar (squeeze (maskNested .script v)) := by
  have hend : Stops isWordChar (v ++ []) := by rwa [List.append_nil]
  have hmask : Stops isWordChar (maskNested .script v ++ []) := stops_maskNested hend id
  exact Text.stops_isWordChar_squeeze.mpr (by simpa using hmask)

/-- Options that show the same begin with the same word and go on showing the same. -/
lemma word_unique_of_squeeze {g' s' v' : List Char} (hg : IsGap g) (hne : g ≠ []) (hs : IsWord s)
    (hv : Stops isWordChar v) (hg' : IsGap g') (hne' : g' ≠ []) (hs' : IsWord s')
    (hv' : Stops isWordChar v') (h : squeeze (maskNested .script (g ++ (s ++ v)))
      = squeeze (maskNested .script (g' ++ (s' ++ v')))) :
    s = s' ∧ squeeze (maskNested .script v) = squeeze (maskNested .script v') := by
  rw [squeeze_maskNested_word hg hne hs, squeeze_maskNested_word hg' hne' hs', List.cons.injEq] at h
  have hword := congrArg (List.takeWhile isWordChar) h.2
  rw [Text.takeWhile_append_of_stops hs.chars (stops_squeeze_maskNested hv),
    Text.takeWhile_append_of_stops hs'.chars (stops_squeeze_maskNested hv')] at hword
  subst hword
  exact ⟨rfl, List.append_cancel_left h.2⟩

/-- What is read of a column, where the name and the type are taken as a whole and the name is that
of no constraint. -/
lemma ofText_of_takes_type (hw : IsPlainName w)
    (hfree : String.ofList (Text.upper w) ∉ constraintWords)
    (hg : IsGap g) (hne : g ≠ []) (ht : ¬ Stops isWordChar t)
    (htakes : typeForm.Takes (g.reverse ++ w.reverse) t r []) :
    TableEntry.ofText (w ++ (g ++ (t ++ r)))
      = .column (.ofParts (String.ofList w) (Text.trim t) r) := by
  have hnot : ¬ Stops isWordChar (t ++ r) := fun h => ht h.of_append
  have hblank : Stops isBlank (t ++ r) :=
    Text.stops_of_not_stops hnot fun _ => Text.not_isBlank_of_isWordChar
  have hperiod : Stops (· == '.') (t ++ r) :=
    Text.stops_of_not_stops hnot fun _ => Text.beq_of_isWordChar (by decide)
  have hname : identifier.Takes [] w (g ++ (t ++ r)) [] :=
    takes_plainName hw (noPeriod_of_gap hg hblank hperiod) (stops_isNameChar_gap hg hne)
  have hcolumn : looksLikeConstraint (w ++ (g ++ (t ++ r))) = false := by
    rw [looksLikeConstraint, firstWord_plainName hw (endsFirstWord_gap hg hne _),
      List.contains_eq_mem, decide_eq_false hfree, Bool.false_and]
  rw [ofText_of_ofText? hcolumn (ofText?_of_takes_type hname hg hne hblank htakes),
    nameOf_plainName hw]

/-- A type and the options behind it, and what is taken for them.  Where the first word of the
options begins with the second word of a type, the type is longer and the options are shorter. -/
lemma exists_taken_parts (htype : type.Proper) (hs : IsWord s)
    (hfree : ∀ K ∈ ["PRECISION", "VARYING", "WITH", "WITHOUT"], ¬ Spells K.toList s) :
    (∀ g v, IsGap g → g ≠ [] → Stops isWordChar v →
      ∀ before, typeForm.Takes before type.text (g ++ (s ++ v)) []) ∨
    ∃ x y, s = x ++ y ∧ IsWord y ∧ ∀ g v, IsGap g → g ≠ [] →
      ∀ before, typeForm.Takes before (type.text ++ (g ++ x)) (y ++ v) [] := by
  by_cases hsingle : type.size = none → ∀ p ∈ doubleTypes, Spells p.1.toList type.word →
      ¬ BeginsSpelled p.2 s
  · have hfree' : ∀ K ∈ ["WITH", "WITHOUT"], ¬ Spells K.toList s := fun K hK =>
      hfree K (List.mem_cons_of_mem _ (List.mem_cons_of_mem _ hK))
    exact Or.inl fun g v hg hne hv _ => takes_typeForm_word htype hg hne hs hv hfree' hsingle
  · push Not at hsingle
    obtain ⟨hsize, p, hp, hword, x, y, rfl, hx⟩ := hsingle
    have hsecond : ∀ p ∈ doubleTypes, p.2 ∈ ["PRECISION", "VARYING", "WITH", "WITHOUT"] := by decide
    have hy : IsWord y := by
      refine ⟨?_, fun c hc => hs.chars c (List.mem_append_right x hc)⟩
      rintro rfl
      exact hfree p.2 (hsecond p hp) (by simpa using hx)
    have htext : type.text = type.word := by rw [ColumnType.text, hsize]
    refine Or.inr ⟨x, y, rfl, hy, fun g v hg hne _ => ?_⟩
    rw [htext]
    exact takes_typeForm_double hp hword hg hne hx hy

/-! ### Literals and brackets -/

/-- A text that masking hides as a whole: a literal, or brackets around a text that closes what it
opens. -/
inductive Hides : List Char → Prop
  | literal {q : Char} {u : List Char} : isQuote q = true → (∀ c ∈ u, Dialect.script.Keeps q c) →
      Hides (q :: (u ++ [q]))
  | bracket {o c : Char} {u : List Char} : isOpening o = true → isClosing c = true →
      Closed .script (fun _ => True) u → Hides (o :: (u ++ [c]))

/-- Such a text begins with a sign. -/
lemma Hides.exists_cons (h : Hides t) :
    ∃ c z, t = c :: z ∧ isWordChar c = false ∧ isBlank c = false := by
  have hsigns : ∀ c ∈ ['"', '\'', '`', '(', '[', '{'], isWordChar c = false ∧
      isBlank c = false := by decide
  cases h with
  | @literal q u hq _ =>
      simp only [isQuote, Bool.or_eq_true, beq_iff_eq] at hq
      exact ⟨q, u ++ [q], rfl, hsigns q (by rcases hq with (rfl | rfl) | rfl <;> decide)⟩
  | @bracket o c u ho _ _ =>
      simp only [isOpening, Bool.or_eq_true, beq_iff_eq] at ho
      exact ⟨o, u ++ [c], rfl, hsigns o (by rcases ho with (rfl | rfl) | rfl <;> decide)⟩

lemma Hides.stops (h : Hides t) (v : List Char) : Stops isWordChar (t ++ v) := by
  obtain ⟨c, z, rfl, hword, -⟩ := h.exists_cons
  exact Text.stops_cons.mpr hword

lemma Hides.maskNested_append (h : Hides t) (rest : List Char) :
    maskNested .script (t ++ rest) = spaces t ++ maskNested .script rest := by
  cases h with
  | literal hq hu =>
      rw [List.cons_append, List.append_assoc]
      exact maskNested_literal hq hu
  | bracket ho hc hu =>
      rw [List.cons_append, List.append_assoc]
      exact maskNested_bracket ho hc hu

/-- Two hidden texts in the same place show the same up to the width of white space. -/
lemma squeeze_maskNested_hides {P : Char → Prop} (hu : Closed .script P u) (ht : Hides t)
    (hs : Hides s) :
    squeeze (maskNested .script (u ++ (t ++ v)))
      = squeeze (maskNested .script (u ++ (s ++ v))) := by
  have hspaces : ∀ {t : List Char}, Hides t → spaces t ≠ [] := fun ht => by
    obtain ⟨c, z, rfl, -⟩ := ht.exists_cons
    exact spaces_ne_nil c z
  rw [SchemaReader.maskNested_append hu, SchemaReader.maskNested_append hu, ht.maskNested_append,
    hs.maskNested_append]
  exact Text.squeeze_append_congr (Text.squeeze_gap_congr (isGap_spaces t) (hspaces ht)
    (isGap_spaces s) (hspaces hs) _) _

/-- A text goes on with options whatever stands in place of a literal or of brackets. -/
lemma GoesOn.of_hides (h : GoesOn (u ++ (t ++ v))) (ht : Hides t) (hs : Hides s) :
    GoesOn (u ++ (s ++ v)) := by
  obtain ⟨g, w, x, htext, hg, hne, hw, hx, hfree⟩ := h
  -- the first word stands ahead of what is hidden, which begins with a sign
  obtain ⟨y, rfl, hy⟩ : ∃ y, u = (g ++ w) ++ y ∧ Stops isWordChar (y ++ (s ++ v)) := by
    rw [← List.append_assoc g] at htext
    obtain ⟨y, hgw, htv⟩ | ⟨y, rfl, rfl⟩ := List.append_eq_append_iff.mp htext
    · cases y with
      | nil => exact ⟨[], by simpa using hgw.symm, by simpa using hs.stops v⟩
      | cons c y =>
          obtain ⟨d, z, rfl, hword, hblank⟩ := ht.exists_cons
          obtain rfl : d = c := (List.cons.inj htv).1
          have hmem : d ∈ g ++ w := by simp [hgw]
          rcases List.mem_append.mp hmem with hd | hd
          · simp [hg d hd] at hblank
          · simp [hw.chars d hd] at hword
    · cases y with
      | nil => exact ⟨[], rfl, hs.stops v⟩
      | cons c y => exact ⟨c :: y, rfl, Text.stops_cons.mpr (Text.stops_cons.mp hx)⟩
  exact ⟨g, w, y ++ (s ++ v), by simp, hg, hne, hw, hy, hfree⟩

/-! ### Columns -/

/-- Two texts are read as columns of a name that have the same flags, and in the place of one
another they leave the flags and the indexes of a table as they are, whatever entries stand around
them. -/
def ReadAlike (name text text' : List Char) : Prop :=
  ∃ entry entry' : ColumnEntry, TableEntry.ofText text = .column entry ∧
    TableEntry.ofText text' = .column entry' ∧ entry.name = String.ofList name ∧
    entry.SameFlags entry' ∧
    ∀ (table : String) (front behind : List TableEntry),
      (CreateTable.table ⟨table, front ++ .column entry :: behind⟩).SameFlags
        (CreateTable.table ⟨table, front ++ .column entry' :: behind⟩)

/-- Two columns that differ in their options, where these show the same up to the width of white
space, are read alike. -/
lemma readAlike_of_squeeze {o' : List Char} (hw : IsPlainName w)
    (hfree : String.ofList (Text.upper w) ∉ constraintWords) (hg : IsGap g) (hne : g ≠ [])
    (htype : type.Proper) (ho : GoesOn o) (ho' : GoesOn o')
    (h : squeeze (maskNested .script o) = squeeze (maskNested .script o')) :
    ReadAlike w (w ++ (g ++ (type.text ++ o))) (w ++ (g ++ (type.text ++ o'))) := by
  obtain ⟨x, s, v, rfl, hx, hxne, hs, hv, hwords⟩ := ho
  obtain ⟨x', s', v', rfl, hx', hxne', hs', hv', -⟩ := ho'
  obtain ⟨rfl, hrest⟩ := word_unique_of_squeeze hx hxne hs hv hx' hxne' hs' hv' h
  have hstart : ∀ z, ¬ Stops isWordChar (type.text ++ z) := htype.not_stops
  rcases exists_taken_parts htype hs hwords with hwhole | ⟨y, z, rfl, hz, hmore⟩
  · have hstart' : ¬ Stops isWordChar type.text := by simpa using hstart []
    have hflags := sameFlags_ofParts h (String.ofList w) (Text.trim type.text) (Text.trim type.text)
    exact ⟨_, _, ofText_of_takes_type hw hfree hg hne hstart' (hwhole x v hx hxne hv _),
      ofText_of_takes_type hw hfree hg hne hstart' (hwhole x' v' hx' hxne' hv' _), rfl, hflags,
      sameFlags_table hflags⟩
  · have hread : ∀ x v, IsGap x → x ≠ [] →
        TableEntry.ofText (w ++ (g ++ (type.text ++ (x ++ ((y ++ z) ++ v)))))
          = .column (.ofParts (String.ofList w) (Text.trim (type.text ++ (x ++ y))) (z ++ v)) :=
      fun x v hx hxne => by
        have hcut := ofText_of_takes_type hw hfree hg hne (hstart _) (hmore x v hx hxne _)
        simpa only [List.append_assoc] using hcut
    have hshown : squeeze (maskNested .script (z ++ v))
        = squeeze (maskNested .script (z ++ v')) := by
      have hblank : ∀ c ∈ z, isBlank c = false := fun c hc =>
        Text.not_isBlank_of_isWordChar (hz.chars c hc)
      rw [maskNested_of_plain (isPlain_of_isWord hz), maskNested_of_plain (isPlain_of_isWord hz),
        Text.squeeze_append_of_not_isBlank hblank, Text.squeeze_append_of_not_isBlank hblank, hrest]
    have hflags := sameFlags_ofParts hshown (String.ofList w) (Text.trim (type.text ++ (x ++ y)))
      (Text.trim (type.text ++ (x' ++ y)))
    exact ⟨_, _, hread x v hx hxne, hread x' v' hx' hxne', rfl, hflags, sameFlags_table hflags⟩

/-- **Hidden text changes no flag.**  A column with a plain name, which begins no constraint, and
with a type that is a word, with or without a size, has options that begin with any word but those
that can go on with a type.  If the options of two such columns are masked to the same text, up to
the width of white space, both are read as columns with the same name, the same flags and the same
uniqueness, and with any entries around them, their tables have columns with the same flags, and the
same indexes.  So they are if another literal or other brackets stand in place of a literal or of
brackets among the options. -/
theorem sameFlags_of_squeeze (hw : IsPlainName w)
    (hfree : String.ofList (Text.upper w) ∉ constraintWords)
    (hg : IsGap g) (hne : g ≠ []) (htype : type.Proper) :
    (∀ o o', GoesOn o → GoesOn o' → squeeze (maskNested .script o)
      = squeeze (maskNested .script o') →
      ReadAlike w (w ++ (g ++ (type.text ++ o))) (w ++ (g ++ (type.text ++ o')))) ∧
    ∀ u t s v, Closed .script (fun _ => True) u → Hides t → Hides s → GoesOn (u ++ (t ++ v)) →
      ReadAlike w (w ++ (g ++ (type.text ++ (u ++ (t ++ v)))))
        (w ++ (g ++ (type.text ++ (u ++ (s ++ v))))) := by
  refine ⟨fun o o' ho ho' h => readAlike_of_squeeze hw hfree hg hne htype ho ho' h,
    fun u t s v hu ht hs ho => ?_⟩
  exact readAlike_of_squeeze hw hfree hg hne htype ho (ho.of_hides ht hs)
    (squeeze_maskNested_hides hu ht hs)

/-- A default and a condition, both full of options. -/
def sampleHiding : List Char :=
  " DEFAULT 'it''s NOT NULL (' CHECK (c <> 'UNIQUE' OR PRIMARY KEY) NOT\n NULL".toList

/-- Another default and another condition in the same places. -/
def sampleHidden : List Char := " DEFAULT '' CHECK ([\x7b\x7d]) NOT NULL".toList

/-- A type with a size. -/
def sampleNumeric : ColumnType := ⟨"NUMERIC".toList, some ([], "10, 2".toList)⟩

/-- What the two hide makes no difference, and no more does what a condition hides. -/
theorem sameFlags_of_squeeze_sampleHiding :
    IsPlainName "c".toList ∧ String.ofList (Text.upper "c".toList) ∉ constraintWords ∧
    IsGap [' '] ∧ sampleNumeric.Proper ∧ GoesOn sampleHiding ∧ GoesOn sampleHidden ∧
    squeeze (maskNested .script sampleHiding) = squeeze (maskNested .script sampleHidden) ∧
    ReadAlike "c".toList ("c".toList ++ ([' '] ++ (sampleNumeric.text ++ sampleHiding)))
      ("c".toList ++ ([' '] ++ (sampleNumeric.text ++ sampleHidden))) ∧
    Closed .script (fun _ => True) " CHECK ".toList ∧ Hides "(c > 0)".toList ∧
      Hides "'NOT NULL'".toList ∧
    GoesOn (" CHECK ".toList ++ ("(c > 0)".toList ++ " UNIQUE".toList)) ∧
    ReadAlike "c".toList
      ("c".toList ++ ([' '] ++ (sampleNumeric.text ++ (" CHECK ".toList ++
        ("(c > 0)".toList ++ " UNIQUE".toList)))))
      ("c".toList ++ ([' '] ++ (sampleNumeric.text ++ (" CHECK ".toList ++
        ("'NOT NULL'".toList ++ " UNIQUE".toList))))) := by
  have hstart : ∀ v, Stops isWordChar (' ' :: v) := fun v => by simp; decide
  have hname : IsPlainName "c".toList := by decide
  have hfree : String.ofList (Text.upper "c".toList) ∉ constraintWords := by decide
  have htype : sampleNumeric.Proper := by decide
  have hhiding : GoesOn sampleHiding :=
    ⟨[' '], "DEFAULT".toList, _, rfl, by decide, by decide, by decide, hstart _, by decide⟩
  have hhidden : GoesOn sampleHidden :=
    ⟨[' '], "DEFAULT".toList, _, rfl, by decide, by decide, by decide, hstart _, by decide⟩
  have hsqueeze : squeeze (maskNested .script sampleHiding)
      = squeeze (maskNested .script sampleHidden) := by decide
  have hplain : ∀ u ∈ [" CHECK ".toList, "c > 0".toList], ∀ c ∈ u, isPlain c = true := by decide
  have hclosed : ∀ u ∈ [" CHECK ".toList, "c > 0".toList], Closed .script (fun _ => True) u :=
    fun u hu => closed_of_forall fun c hc => ⟨hplain u hu c hc, trivial⟩
  have hcheck := hclosed " CHECK ".toList (by decide)
  have hcondition : Hides "(c > 0)".toList :=
    .bracket (o := '(') (c := ')') (by decide) (by decide) (hclosed "c > 0".toList (by decide))
  have hunquoted : ∀ c ∈ "NOT NULL".toList, c ≠ '\'' := by decide
  have hliteral : Hides "'NOT NULL'".toList :=
    .literal (q := '\'') (by decide) fun c hc => ⟨hunquoted c hc, fun h => absurd h (by decide)⟩
  have hchecked : GoesOn (" CHECK ".toList ++ ("(c > 0)".toList ++ " UNIQUE".toList)) :=
    ⟨[' '], "CHECK".toList, _, rfl, by decide, by decide, by decide, hstart _, by decide⟩
  obtain ⟨hshown, hother⟩ :=
    sameFlags_of_squeeze hname hfree (g := [' ']) (by decide) (by decide) htype
  exact ⟨hname, hfree, by decide, htype, hhiding, hhidden, hsqueeze,
    hshown _ _ hhiding hhidden hsqueeze, hcheck, hcondition, hliteral, hchecked,
    hother _ _ _ _ hcheck hcondition hliteral hchecked⟩

end SchemaReader.Ddl
