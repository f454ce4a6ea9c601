/-
Names in every spelling.

* `SpelledName`: a plain word, or any text between quotes or in square brackets;
* `SpelledName.bare`: what stands behind the last period of it;
* `nameOf_spelled`, `leadingIdentifier_spelled`: a spelled name is read as its bare name, both where
  a column is declared and where it is listed;
* `closed_spelled`, `still_spelled`, `uncommented_spelled`: a spelled name in a statement.
-/
import Mathlib.Data.List.Infix
import SchemaReader.Proofs.Ddl.OneTable
import SchemaReader.Proofs.Ddl.ReadEntry

namespace SchemaReader.Ddl

open Text (IsWord IsGap IsKeyword Spells Stops isWordChar isBlank)
open Pattern

/-- A name with its quoting.  Between marks it may hold commas, periods and other signs. -/
structure SpelledName where
  quoting : Quoting
  content : List Char
  deriving DecidableEq, Repr

namespace SpelledName

/-- A spelled name as it stands in a text. -/
def text (name : SpelledName) : List Char := name.quoting.around name.content

/-- The bare name: what stands behind the last period. -/
def bare (name : SpelledName) : List Char := Text.lastSegment (· == '.') name.content

/-- A plain word, or a text of any length between marks, without quotes, brackets and white space,
that does not end with a period.  Square brackets do not keep what opens a comment from doing so. -/
structure Proper (name : SpelledName) : Prop where
  word : name.quoting = .plain → IsWord name.content
  chars : ∀ c ∈ name.content, isPlain c = true ∧ isBlank c = false
  bare_ne_nil : name.bare ≠ []
  comment : name.quoting = .square → ¬ ['-', '-'] <:+: name.content ∧ ¬ ['/', '*'] <:+: name.content

/-- What reading a name back takes: a proper name, or a plain one with dollar signs in it. -/
structure Readable (name : SpelledName) : Prop where
  plain : name.quoting = .plain → IsPlainName name.content
  chars : ∀ c ∈ name.content, isPlain c = true ∧ isBlank c = false
  bare_ne_nil : name.bare ≠ []
  comment : name.quoting = .square → ¬ ['-', '-'] <:+: name.content ∧ ¬ ['/', '*'] <:+: name.content

lemma Proper.readable {name : SpelledName} (h : name.Proper) : name.Readable :=
  ⟨fun hplain => isPlainName_of_isWord (h.word hplain), h.chars, h.bare_ne_nil, h.comment⟩

/-- A plain name begins neither a statement nor a constraint. -/
structure Free (name : SpelledName) : Prop where
  leading : name.quoting = .plain → ∀ K ∈ leadingWords, ¬ Spells K.toList name.content
  constraint : name.quoting = .plain → String.ofList (Text.upper name.content) ∉ constraintWords

instance (name : SpelledName) : Decidable name.Proper :=
  decidable_of_iff ((name.quoting = .plain → IsWord name.content) ∧
      (∀ c ∈ name.content, isPlain c = true ∧ isBlank c = false) ∧ name.bare ≠ [] ∧
        (name.quoting = .square → ¬ ['-', '-'] <:+: name.content ∧ ¬ ['/', '*'] <:+: name.content))
    ⟨fun h => ⟨h.1, h.2.1, h.2.2.1, h.2.2.2⟩, fun h => ⟨h.1, h.2, h.3, h.4⟩⟩

instance (name : SpelledName) : Decidable name.Readable :=
  decidable_of_iff ((name.quoting = .plain → IsPlainName name.content) ∧
      (∀ c ∈ name.content, isPlain c = true ∧ isBlank c = false) ∧ name.bare ≠ [] ∧
        (name.quoting = .square → ¬ ['-', '-'] <:+: name.content ∧ ¬ ['/', '*'] <:+: name.content))
    ⟨fun h => ⟨h.1, h.2.1, h.2.2.1, h.2.2.2⟩, fun h => ⟨h.1, h.2, h.3, h.4⟩⟩

instance (name : SpelledName) : Decidable name.Free :=
  decidable_of_iff ((name.quoting = .plain → ∀ K ∈ leadingWords, ¬ Spells K.toList name.content) ∧
      (name.quoting = .plain → String.ofList (Text.upper name.content) ∉ constraintWords))
    ⟨fun h => ⟨h.1, h.2⟩, fun h => ⟨h.1, h.2⟩⟩

end SpelledName

variable {name : SpelledName} {before g u v w rest : List Char}

/-! ### Characters -/

/-- What holds of word characters and of the dollar sign holds of name characters. -/
lemma of_isNameChar {P : Char → Prop} (hword : ∀ c, isWordChar c = true → P c) (hdollar : P '$')
    {c : Char} (hc : isNameChar c = true) : P c := by
  rcases Bool.or_eq_true_iff.mp hc with hc | hc
  · exact hword c hc
  · exact (beq_iff_eq.mp hc) ▸ hdollar

lemma isPlain_of_isNameChar {c : Char} (hc : isNameChar c = true) : isPlain c = true :=
  of_isNameChar (fun _ => isPlain_of_isWordChar) (by decide) hc

lemma isScriptText_of_isNameChar {c : Char} (hc : isNameChar c = true) : isScriptText c = true :=
  of_isNameChar (fun _ => isScriptText_of_isWordChar) (by decide) hc

lemma ne_comma_of_isNameChar {c : Char} (hc : isNameChar c = true) : c ≠ ',' :=
  of_isNameChar (fun _ => ne_comma_of_isWordChar) (by decide) hc

/-- The marks that a name can stand between, and those that a bare name is freed from. -/
def nameMarks : List Char := ['"', '\'', Char.ofNat 0x60, '[', ']']

lemma mem_nameMarks {quoting : Quoting} {m : Char × Char} (hm : quoting.marks? = some m) :
    m.1 ∈ nameMarks ∧ m.2 ∈ nameMarks := by
  cases quoting <;> simp [Quoting.marks?] at hm <;> subst hm <;> decide

/-- A spelled name is its content between marks, if there are any. -/
lemma exists_marks (name : SpelledName) : ∃ s t : List Char, name.text = s ++ (name.content ++ t) ∧
    s ⊆ nameMarks ∧ t ⊆ nameMarks := by
  obtain ⟨quoting, content⟩ := name
  cases hmarks : quoting.marks? with
  | none => exact ⟨[], [], by simp [SpelledName.text, Quoting.around, hmarks], by simp, by simp⟩
  | some m =>
      obtain ⟨hopen, hclose⟩ := mem_nameMarks hmarks
      exact ⟨[m.1], [m.2], by simp [SpelledName.text, Quoting.around, hmarks], by simpa, by simpa⟩

lemma content_ne_nil (h : name.Readable) : name.content ≠ [] := by
  intro hnil
  have hbare := h.bare_ne_nil
  simp [SpelledName.bare, hnil, Text.lastSegment] at hbare

/-- What holds of the marks and of all but quotes, brackets and white space holds of all characters
of a spelled name. -/
lemma forall_mem_spelled {P : Char → Prop} (h : name.Readable)
    (hcontent : ∀ c, isPlain c = true → isBlank c = false → P c) (hmarks : ∀ c ∈ nameMarks, P c) :
    ∀ c ∈ name.text, P c := by
  obtain ⟨s, t, htext, hs, ht⟩ := exists_marks name
  intro c hc
  rw [htext] at hc
  rcases List.mem_append.mp hc with hc | hc
  · exact hmarks c (hs hc)
  · rcases List.mem_append.mp hc with hc | hc
    · exact hcontent c (h.chars c hc).1 (h.chars c hc).2
    · exact hmarks c (ht hc)

lemma isBlank_spelled (h : name.Readable) : ∀ c ∈ name.text, isBlank c = false :=
  forall_mem_spelled h (fun _ _ => id) (by decide)

lemma ne_closing_spelled (h : name.Readable) : ∀ c ∈ name.text, c ≠ ')' :=
  forall_mem_spelled h (fun _ hc _ => ne_of_isPlain hc (by decide)) (by decide)

lemma spelled_ne_nil (h : name.Readable) : name.text ≠ [] := by
  obtain ⟨s, t, htext, -, -⟩ := exists_marks name
  rw [htext]
  exact List.append_ne_nil_of_right_ne_nil _
    (List.append_ne_nil_of_left_ne_nil (content_ne_nil h) _)

/-! ### Bare names -/

/-- A text is what stands behind its last period, alone or behind a part that ends with one. -/
lemma exists_lastSegment (w : List Char) :
    (Text.lastSegment (· == '.') w = w ∧ ∀ c ∈ w, (c == '.') = false) ∨
      ∃ u v, w = u ++ '.' :: v ∧ Text.lastSegment (· == '.') w = v ∧
      ∀ c ∈ v, (c == '.') = false := by
  induction w with
  | nil => exact Or.inl ⟨rfl, by simp⟩
  | cons c w ih =>
      rcases ih with ⟨-, hw⟩ | ⟨u, v, rfl, -, hv⟩
      · by_cases hc : c = '.'
        · subst hc
          exact Or.inr ⟨[], w, rfl, lastSegment_append (u := []) rfl hw, hw⟩
        · have hall : ∀ d ∈ c :: w, (d == '.') = false :=
            List.forall_mem_cons.mpr ⟨by simpa using hc, hw⟩
          exact Or.inl ⟨lastSegment_of_forall hall, hall⟩
      · exact Or.inr ⟨c :: u, v, rfl, lastSegment_append (u := c :: u) rfl hv, hv⟩

lemma cleanIdentifier_marks {s t w : List Char} (hs : s ⊆ nameMarks) (ht : t ⊆ nameMarks)
    (hw : ∀ c ∈ w, isPlain c = true ∧ isBlank c = false)
    (hne : Text.lastSegment (· == '.') w ≠ []) :
    cleanIdentifier (s ++ (w ++ t)) = Text.lastSegment (· == '.') w := by
  have hdot : ∀ c ∈ nameMarks, (c == '.') = false := by decide
  have hmarks : ∀ c ∈ nameMarks, isBlank c = false := by decide
  have hquote : ∀ c ∈ nameMarks, (isQuote c || c == '[' || c == ']') = true := by decide
  have hplain : ∀ c ∈ w, isPlain c = true := fun c hc => (hw c hc).1
  have hblank : ∀ c ∈ s ++ (w ++ t), isBlank c = false := by
    simp only [List.forall_mem_append]
    exact ⟨fun c hc => hmarks c (hs hc), fun c hc => (hw c hc).2, fun c hc => hmarks c (ht hc)⟩
  rw [cleanIdentifier, Text.trim_of_forall hblank]
  rcases exists_lastSegment w with ⟨hlast, hnone⟩ | ⟨u, v, rfl, hlast, hnone⟩
  · have hall : ∀ c ∈ s ++ (w ++ t), (c == '.') = false := by
      simp only [List.forall_mem_append]
      exact ⟨fun c hc => hdot c (hs hc), hnone, fun c hc => hdot c (ht hc)⟩
    rw [lastSegment_of_forall hall, Text.trim_of_forall hblank, hlast]
    exact trimWhere_marks (fun c hc => hquote c (hs hc)) (fun c hc => hquote c (ht hc)) hplain
      (hlast ▸ hne)
  · have htail : ∀ c ∈ v ++ t, (c == '.') = false :=
      List.forall_mem_append.mpr ⟨hnone, fun c hc => hdot c (ht hc)⟩
    have hsplit : s ++ ((u ++ '.' :: v) ++ t) = (s ++ u) ++ '.' :: (v ++ t) := by simp
    have htailBlank : ∀ c ∈ v ++ t, isBlank c = false := fun c hc =>
      hblank c (by rw [hsplit]; simp [hc])
    rw [hlast] at hne ⊢
    rw [hsplit, lastSegment_append rfl htail, Text.trim_of_forall htailBlank]
    exact trimWhere_marks (s := []) (by simp) (fun c hc => hquote c (ht hc))
      (fun c hc => hplain c (by simp [hc])) hne

/-- A name between marks, or a bare one, is read as what stands behind its last period. -/
lemma leadingIdentifier_marks {s t w : List Char} (hs : s ⊆ nameMarks) (ht : t ⊆ nameMarks)
    (hw : ∀ c ∈ w, isPlain c = true ∧ isBlank c = false)
    (hne : Text.lastSegment (· == '.') w ≠ []) :
    leadingIdentifier (s ++ (w ++ t)) = Text.lastSegment (· == '.') w := by
  have hmarks : ∀ c ∈ nameMarks, endsFirstWord c = false := by decide
  have hends : ∀ c ∈ s ++ (w ++ t), endsFirstWord c = false := by
    simp only [List.forall_mem_append]
    refine ⟨fun c hc => hmarks c (hs hc), fun c hc => ?_, fun c hc => hmarks c (ht hc)⟩
    have hparenthesis : c ≠ '(' := ne_of_isPlain (hw c hc).1 (by decide)
    simp [endsFirstWord, (hw c hc).2, hparenthesis]
  have hblank : ∀ c ∈ s ++ (w ++ t), isBlank c = false := fun c hc =>
    (Bool.or_eq_false_iff.mp (hends c hc)).1
  rw [leadingIdentifier, Text.trim_of_forall hblank, firstSegment_of_forall hends,
    cleanIdentifier_marks hs ht hw hne]

lemma cleanIdentifier_spelled (h : name.Readable) : cleanIdentifier name.text = name.bare := by
  obtain ⟨s, t, htext, hs, ht⟩ := exists_marks name
  rw [htext, cleanIdentifier_marks hs ht h.chars h.bare_ne_nil]
  rfl

/-- A declared name is read as the bare name. -/
lemma nameOf_spelled (h : name.Readable) : nameOf name.text = String.ofList name.bare := by
  rw [nameOf, cleanIdentifier_spelled h]

lemma bare_plainName (hw : IsPlainName w) : SpelledName.bare ⟨.plain, w⟩ = w :=
  lastSegment_of_forall fun c hc => beq_of_isNameChar (by decide) (hw.chars c hc)

lemma readable_plainName (hw : IsPlainName w) : SpelledName.Readable ⟨.plain, w⟩ where
  plain _ := hw
  chars c hc := ⟨isPlain_of_isNameChar (hw.chars c hc), isNameChar_not_isBlank c (hw.chars c hc)⟩
  bare_ne_nil := by
    rw [bare_plainName hw]
    exact hw.ne_nil
  comment hsquare := by cases hsquare

lemma nameOf_plainName (hw : IsPlainName w) : nameOf w = String.ofList w := by
  have hname := nameOf_spelled (readable_plainName hw)
  rw [bare_plainName hw] at hname
  exact hname

/-- A listed name is read as the bare name, too, whatever follows its first word. -/
lemma leadingIdentifier_append (h : name.Readable) (hv : Stops (fun c => !endsFirstWord c) v)
    (htrim : Text.trim (name.text ++ v) = name.text ++ v) :
    leadingIdentifier (name.text ++ v) = name.bare := by
  have hends : ∀ c ∈ name.text, (!endsFirstWord c) = true := by
    refine forall_mem_spelled h (fun c hplain hblank => ?_) (by decide)
    have hne : c ≠ '(' := ne_of_isPlain hplain (by decide)
    simp [endsFirstWord, hblank, hne]
  rw [leadingIdentifier, htrim, Text.firstSegment, Text.takeWhile_append_of_stops hends hv,
    cleanIdentifier_spelled h]

lemma leadingIdentifier_spelled (h : name.Readable) : leadingIdentifier name.text = name.bare := by
  have hread := leadingIdentifier_append h (v := []) Text.stops_nil
  rw [List.append_nil] at hread
  exact hread (Text.trim_of_forall (isBlank_spelled h))

/-! ### Identifiers -/

lemma takes_namePart_spelled (h : name.Readable)
    (hrest : name.quoting = .plain → Stops isNameChar rest) :
    namePart.Takes before name.text rest [] :=
  takes_namePart_of_isPlain (content_ne_nil h)
    (fun hplain => ⟨(h.plain hplain).chars, hrest hplain⟩) fun c hc => (h.chars c hc).1

/-! ### Spelled names in statements -/

lemma closed_spelled {P : Char → Prop} (h : name.Readable) (hP : ∀ c, isNameChar c = true → P c) :
    Closed .script P name.text := by
  obtain ⟨quoting, content⟩ := name
  have hkeeps : ∀ d, isPlain d = false → ∀ c ∈ content, Dialect.script.Keeps d c := fun d hd c hc =>
    ⟨ne_of_isPlain (h.chars c hc).1 hd, fun hback => absurd hback (by decide)⟩
  cases quoting with
  | plain => exact closed_of_forall fun c hc => ⟨(h.chars c hc).1, hP c ((h.plain rfl).chars c hc)⟩
  | double => exact .literal P (by decide) (hkeeps _ (by decide))
  | back => exact .literal P (by decide) (hkeeps _ (by decide))
  | square =>
      exact .bracket P (by decide) (by decide)
        (closed_of_forall fun c hc => ⟨(h.chars c hc).1, trivial⟩)

/-- In a text without white space no statement begins, if none can go on behind it: white space has
to stand behind the word that a statement begins with. -/
lemma still_unspaced (hu : ∀ c ∈ u, isBlank c = false) (hrest : Bars rest) : Still u rest := by
  intro q hq before
  obtain ⟨K, b, hhead⟩ := exists_isHead hq
  induction u generalizing before with
  | nil => trivial
  | cons c u ih =>
      refine ⟨?_, ih (List.forall_mem_cons.mp hu).2 _⟩
      obtain ⟨w, v, hsplit, hw, hv⟩ := exists_run isWordChar (c :: u)
      rw [← List.cons_append, hsplit]
      cases v with
      | nil =>
          -- the word goes to the end of the text
          have hword : IsWord w := ⟨by rintro rfl; simp at hsplit, hw⟩
          obtain ⟨d, w, rfl⟩ := List.exists_cons_of_ne_nil hword.ne_nil
          rw [List.append_nil]
          exact (hhead.silent_word hword (hrest q K b hhead)).1
      | cons d v =>
          have hd : isBlank d = false := hu d (by simp [hsplit])
          refine hhead.fails _ _ (fails_wordEdge_append.mpr fun _ => ?_)
          rw [List.append_assoc]
          exact fails_keywordBefore_append (g := []) hhead.isKeyword hhead.avoidsBlanks hw
            Text.isGap_nil (by simpa using hd) (fun _ => by simpa using hv)
            fun _ hne => absurd rfl hne

/-- A listed name. -/
lemma still_spelled (h : name.Readable) (hrest : Bars rest) : Still name.text rest :=
  still_unspaced (isBlank_spelled h) hrest

/-- A declared name. -/
lemma still_declared (h : name.Proper) (hfree : name.Free) (hword : Stops isWordChar rest) :
    Still name.text rest := by
  obtain ⟨quoting, content⟩ := name
  have hmarks : ∀ o c : Char, o ∈ nameMarks → c ∈ nameMarks →
      Still (o :: (content ++ [c])) rest := by
    intro o c ho hc
    have hclasses : ∀ c ∈ nameMarks, isBlank c = false ∧ isWordChar c = false := by decide
    obtain ⟨hcblank, hcword⟩ := hclasses c hc
    have hopen : Still (o :: content) ([c] ++ rest) := by
      refine still_unspaced (List.forall_mem_cons.mpr ⟨(hclasses o ho).1, ?_⟩) (bars_of_stops ?_ ?_)
      · exact fun d hd => (h.chars d hd).2
      · simpa using hcblank
      · simpa using hcword
    exact hopen.append (still_outside (by simpa using hcword))
  cases quoting with
  | plain => exact still_free_word (h.word rfl) (hfree.leading rfl) hword
  | double | back | square => exact hmarks _ _ (by decide) (by decide)

/-- In square brackets nothing opens a comment. -/
lemma uncommented_square (hquote : ∀ c ∈ u, isQuote c = false) (hline : ¬ ['-', '-'] <:+: u)
    (hblock : ¬ ['/', '*'] <:+: u) : Uncommented .script (u ++ [']']) := by
  induction u with
  | nil => exact uncommented_of_forall (by decide)
  | cons c u ih =>
      rw [List.forall_mem_cons] at hquote
      have htail := ih hquote.2 (fun h => hline (h.trans (List.suffix_cons c u).isInfix))
        fun h => hblock (h.trans (List.suffix_cons c u).isInfix)
      have hpair : ∀ a b : Char, b ≠ ']' → ¬ [a, b] <:+: c :: u → ∀ rest,
          ¬ (a = c ∧ [b] <+: u ++ ']' :: rest) := by
        rintro a b hb hnot rest ⟨rfl, hprefix⟩
        cases u with
        | nil => exact hb (List.cons_prefix_cons.mp hprefix).1
        | cons d u =>
            obtain ⟨rfl, -⟩ := List.cons_prefix_cons.mp hprefix
            exact hnot ⟨[], u, rfl⟩
      intro out rest
      have hline' := hpair '-' '-' (by decide) hline rest
      have hblock' := hpair '/' '*' (by decide) hblock rest
      have hstep : CommentMode.step .script c (u ++ [']'] ++ rest) (.text .outside)
          = (.text .outside, [c]) := by
        simp [CommentMode.step, CommentMode.ofText, Literal.covers, hquote.1,
          Dialect.script, hline', hblock']
      rw [List.cons_append, List.cons_append, stripCommentsLoop, hstep]
      simpa using htail (c :: out) rest

lemma uncommented_spelled (h : name.Readable) : Uncommented .script name.text := by
  obtain ⟨quoting, content⟩ := name
  have hchars : ∀ d, isPlain d = false → ∀ c ∈ content, c ≠ d := fun d hd c hc =>
    ne_of_isPlain (h.chars c hc).1 hd
  cases quoting with
  | plain =>
      exact uncommented_of_forall fun c hc => isScriptText_of_isNameChar ((h.plain rfl).chars c hc)
  | double => exact uncommented_literal (by decide) (hchars _ (by decide))
  | back => exact uncommented_literal (by decide) (hchars _ (by decide))
  | square =>
      obtain ⟨hline, hblock⟩ := h.comment rfl
      have hopen : Uncommented .script ['['] := uncommented_of_forall (by decide)
      exact hopen.append (uncommented_square (fun c hc => (isPlain_iff.mp (h.chars c hc).1).1) hline
        hblock)

/-! ### Declared columns -/

/-- The first word of a text that begins with a mark is no word that a constraint begins with. -/
lemma firstWord_mark {c : Char} (hc : c ∈ nameMarks) (u : List Char) :
    constraintWords.contains (firstWord (c :: u)) = false := by
  have hmarks : ∀ c ∈ nameMarks, endsFirstWord c = false ∧ c.toNat < 128 ∧
      ∀ K ∈ constraintWords, K.toList.head? ≠ some c.toUpper := by decide
  obtain ⟨hfirst, hascii, hhead⟩ := hmarks c hc
  rw [List.contains_eq_mem, decide_eq_false_iff_not]
  intro hmem
  refine hhead _ hmem ?_
  rw [firstWord, String.toList_ofList, Text.firstSegment, List.takeWhile_cons, hfirst]
  simp [Text.upper, Text.upperChar_of_ascii hascii]

variable {type : ColumnType}

/-- A declared column is read under the bare name. -/
lemma ofText_declared (h : name.Proper) (hfree : name.Free) (htype : type.Proper) :
    TableEntry.ofText (name.text ++ ' ' :: type.text)
      = .column ⟨String.ofList name.bare, String.ofList type.text, true, false, false, none⟩ := by
  have hstart := htype.not_stops []
  rw [List.append_nil] at hstart
  have hblank : Stops isBlank type.text :=
    Text.stops_of_not_stops hstart fun _ => Text.not_isBlank_of_isWordChar
  have hperiod : Stops (· == '.') type.text := Text.stops_of_not_stops hstart fun _ =>
    Text.beq_of_isWordChar (by decide)
  have hidentifier : identifier.Takes [] name.text ([' '] ++ (type.text ++ [])) [] := by
    rw [List.append_nil]
    exact (takes_namePart_spelled h.readable fun _ =>
      stops_isNameChar_gap (by decide) (by simp)).append_nothing
      (takes_opt_skip (fails_period (noPeriod_of_gap (by decide) hblank hperiod)))
  have hread := ofText?_column_of_takes hidentifier (by decide) (by simp) htype
    (BeginsOptions.endsType (Or.inl rfl)) (by simp)
  rw [List.append_nil, nameOf_spelled h.readable] at hread
  have hnot : looksLikeConstraint (name.text ++ ' ' :: type.text) = false := by
    rw [looksLikeConstraint, Bool.and_eq_false_iff]
    left
    obtain ⟨quoting, content⟩ := name
    cases quoting with
    | plain =>
        rw [SpelledName.text, Quoting.around, Quoting.marks?]
        rw [firstWord_append (h.word rfl) (by simp; decide), List.contains_eq_mem,
          decide_eq_false (hfree.constraint rfl)]
    | double | back | square => exact firstWord_mark (by decide) _
  exact ofText_of_ofText? hnot hread

end SchemaReader.Ddl
