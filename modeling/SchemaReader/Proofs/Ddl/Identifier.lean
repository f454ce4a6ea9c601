/-
Written names as patterns read them.

* `WrittenName`: a name, plain or quoted, alone or after a qualifier;
* `IsPlainName`: a plain identifier, with `takes_plainName`;
* `takes_identifier`: the pattern of identifiers takes a written name as a whole, and
  `nameOf_text` gives the bare name back;
* `fails_identifier_append`: an identifier with what follows it fails on a plain name, if what
  follows it fails behind the name.
-/
import SchemaReader.Ddl.TableEntry
import SchemaReader.Proofs.Lexical.Identifier
import SchemaReader.Proofs.Pattern.Words

namespace SchemaReader.Ddl

open Text (IsWord IsGap Stops isWordChar isBlank)
open Pattern (Takes Fails takes_many1 takes_char takes_blanks takes_assoc fails_of_not_mayBegin
  opt blanks char many1)

/-! ### Names -/

/-- A name as it can be written: each of its parts plain or quoted, and white space around the
period after a qualifier. -/
structure WrittenName where
  /-- The qualifier's quoting and name, with the white space before and after the period. -/
  qualifier : Option (Quoting × List Char × List Char × List Char)
  quoting : Quoting
  name : List Char
  deriving DecidableEq, Repr

/-- A written name as it stands in a text. -/
def WrittenName.text (name : WrittenName) : List Char :=
  match name.qualifier with
  | none => name.quoting.around name.name
  | some (quoting, qualifier, g, h) =>
      quoting.around qualifier ++ (g ++ '.' :: (h ++ name.quoting.around name.name))

/-- A name whose parts are words, with white space between them. -/
structure WrittenName.Proper (name : WrittenName) : Prop where
  isWord : IsWord name.name
  qualifier : ∀ q ∈ name.qualifier, IsWord q.2.1 ∧ IsGap q.2.2.1 ∧ IsGap q.2.2.2

/-- A plain name. -/
def WrittenName.plain (name : List Char) : WrittenName := ⟨none, .plain, name⟩

variable {R : WrittenName} {quoting : Quoting} {before w g h rest : List Char} {q : Pattern}

lemma WrittenName.plain_proper (hw : IsWord w) : (WrittenName.plain w).Proper :=
  ⟨hw, by simp [plain]⟩

@[simp]
lemma WrittenName.text_plain : (WrittenName.plain w).text = w := rfl

lemma WrittenName.text_ne_nil (hR : R.Proper) : R.text ≠ [] := by
  obtain ⟨qualifier, quoting, name⟩ := R
  cases qualifier with
  | none => exact Quoting.around_ne_nil hR.isWord.ne_nil
  | some qualifier =>
      exact List.append_ne_nil_of_left_ne_nil
        (Quoting.around_ne_nil (hR.qualifier _ rfl).1.ne_nil) _

lemma stops_isBlank_text (hR : R.Proper) (v : List Char) : Stops isBlank (R.text ++ v) := by
  obtain ⟨qualifier, quoting, name⟩ := R
  cases qualifier with
  | none => exact Quoting.stops_isBlank_around hR.isWord v
  | some qualifier =>
      rw [WrittenName.text, List.append_assoc]
      exact Quoting.stops_isBlank_around (hR.qualifier _ rfl).1 _

lemma isNameChar_of_isWordChar {c : Char} (h : isWordChar c = true) : isNameChar c = true := by
  simp [isNameChar, h]

lemma isNameChar_not_isBlank (c : Char) (h : isNameChar c = true) : isBlank c = false := by
  cases hc : isBlank c with
  | false => rfl
  | true => simp [Text.not_isNameChar_of_isBlank hc] at h

/-- A plain identifier: characters of names, at least one. -/
structure IsPlainName (w : List Char) : Prop where
  ne_nil : w ≠ []
  chars : ∀ c ∈ w, isNameChar c = true

instance (w : List Char) : Decidable (IsPlainName w) :=
  decidable_of_iff (w ≠ [] ∧ ∀ c ∈ w, isNameChar c = true)
    ⟨fun h => ⟨h.1, h.2⟩, fun h => ⟨h.1, h.2⟩⟩

lemma isPlainName_of_isWord (hw : IsWord w) : IsPlainName w :=
  ⟨hw.ne_nil, fun c hc => isNameChar_of_isWordChar (hw.chars c hc)⟩

/-- A class that no name character is in begins no plain identifier. -/
lemma IsPlainName.stops {p : Char → Bool} (hw : IsPlainName w)
    (hp : ∀ c, isNameChar c = true → p c = false) (v : List Char) : Stops p (w ++ v) := by
  obtain ⟨c, w, rfl⟩ := List.exists_cons_of_ne_nil hw.ne_nil
  simpa using hp c (hw.chars c List.mem_cons_self)

lemma IsPlainName.stops_isBlank (hw : IsPlainName w) (v : List Char) : Stops isBlank (w ++ v) :=
  hw.stops isNameChar_not_isBlank v

/-- A sign that stands in no plain identifier. -/
lemma beq_of_isNameChar {c d : Char} (hd : isNameChar d = false) (hc : isNameChar c = true) :
    (c == d) = false := by
  have hne : c ≠ d := by
    rintro rfl
    simp [hd] at hc
  simpa using hne

/-- What stands between two marks is taken with them. -/
lemma takes_between {o c : Char} (hne : w ≠ []) (hw : ∀ d ∈ w, d ≠ c) :
    (char o ++ many1 (· != c) ++ char c).Takes before (o :: (w ++ [c])) rest [] := by
  have hname : (many1 (· != c)).Takes (o :: before) w (c :: rest) [] :=
    takes_many1 hne (fun d hd => by simpa using hw d hd) (by simp)
  exact takes_assoc.mpr (takes_char.append (u := [o]) (hname.append takes_char))

lemma takes_quoted {c : Char} (hne : w ≠ []) (hw : ∀ d ∈ w, d ≠ c) :
    (quoted c).Takes before (c :: (w ++ [c])) rest [] := takes_between hne hw

/-- A part of an identifier is taken as a whole: a plain one, which ends where its characters end,
or plain characters between marks. -/
lemma takes_namePart_of_isPlain (hne : w ≠ [])
    (hplain : quoting = .plain → (∀ c ∈ w, isNameChar c = true) ∧ Stops isNameChar rest)
    (hw : ∀ c ∈ w, isPlain c = true) : namePart.Takes before (quoting.around w) rest [] := by
  have hmark : ∀ d, isPlain d = false → ∀ c ∈ w, c ≠ d := fun d hd c hc =>
    ne_of_isPlain (hw c hc) hd
  cases quoting with
  | plain =>
      have hname : (many1 isNameChar).Takes before w rest [] :=
        takes_many1 hne (hplain rfl).1 (hplain rfl).2
      exact ((hname.alt_left _).alt_left _).alt_left _
  | double =>
      have hother : (many1 isNameChar).Fails before (Quoting.double.around w ++ rest) :=
        fails_of_not_mayBegin rfl (by decide)
      have hquoted : (quoted '"').Takes before (Quoting.double.around w) rest [] :=
        takes_quoted hne (hmark _ (by decide))
      exact ((hquoted.alt_right hother).alt_left _).alt_left _
  | back =>
      have hother : (many1 isNameChar ||| quoted '"').Fails before
          (Quoting.back.around w ++ rest) := fails_of_not_mayBegin rfl (by decide)
      have hquoted : (quoted (Char.ofNat 0x60)).Takes before (Quoting.back.around w) rest [] :=
        takes_quoted hne (hmark _ (by decide))
      exact (hquoted.alt_right hother).alt_left _
  | square =>
      have hother : (many1 isNameChar ||| quoted '"' ||| quoted (Char.ofNat 0x60)).Fails before
          (Quoting.square.around w ++ rest) := fails_of_not_mayBegin rfl (by decide)
      have hsquare : (char '[' ++ many1 (· != ']') ++ char ']').Takes before
          (Quoting.square.around w) rest [] := takes_between hne (hmark _ (by decide))
      exact hsquare.alt_right hother

/-- So is a word. -/
lemma takes_namePart (hw : IsWord w)
    (hrest : quoting = .plain → Stops isNameChar rest) :
    namePart.Takes before (quoting.around w) rest [] :=
  takes_namePart_of_isPlain hw.ne_nil
    (fun hplain => ⟨fun c hc => isNameChar_of_isWordChar (hw.chars c hc), hrest hplain⟩)
    fun c hc => isPlain_of_isWordChar (hw.chars c hc)

/-! ### Identifiers -/

/-- The first character of a text that is no white space, if there is one, is no period. -/
def NoPeriod (text : List Char) : Prop :=
  ∃ g rest, text = g ++ rest ∧ IsGap g ∧ Stops isBlank rest ∧ Stops (· == '.') rest

lemma noPeriod_of_gap (hg : IsGap g) (hrest : Stops isBlank rest) (hdot : Stops (· == '.') rest) :
    NoPeriod (g ++ rest) := ⟨g, rest, rfl, hg, hrest, hdot⟩

lemma noPeriod_of_stops (hrest : Stops isBlank rest) (hdot : Stops (· == '.') rest) :
    NoPeriod rest := noPeriod_of_gap Text.isGap_nil hrest hdot

/-- What could be a qualifier's period fails where none follows. -/
lemma fails_period (h : NoPeriod rest) :
    (blanks ++ char '.' ++ blanks ++ namePart).Fails before rest := by
  obtain ⟨g, rest, rfl, hg, hrest, hdot⟩ := h
  simp only [Pattern.fails_assoc]
  exact Pattern.fails_blanks_append (by decide) hg hrest (Pattern.fails_one_append hdot)

/-- A written name is taken as a whole where neither a period nor, for a plain name, a further
name character follows. -/
theorem takes_identifier (hR : R.Proper) (hperiod : NoPeriod rest)
    (hname : R.quoting = .plain → Stops isNameChar rest) :
    identifier.Takes before R.text rest [] := by
  obtain ⟨qualifier, quoting, name⟩ := R
  cases qualifier with
  | none =>
      exact (takes_namePart hR.isWord hname).append_nothing
        (Pattern.takes_opt_skip (fails_period hperiod))
  | some qualifier =>
      obtain ⟨quoting', w, g', h'⟩ := qualifier
      obtain ⟨hw, hg', hh'⟩ := hR.qualifier _ rfl
      have hname' : Stops isBlank (quoting.around name ++ rest) :=
        Quoting.stops_isBlank_around hR.isWord _
      have hqualifier : namePart.Takes before (quoting'.around w)
          ((g' ++ '.' :: (h' ++ quoting.around name)) ++ rest) [] := by
        refine takes_namePart hw fun _ => ?_
        rw [List.append_assoc]
        exact hg'.stops (fun _ => Text.not_isNameChar_of_isBlank) (by simp [isNameChar]; decide)
      have htakes : (blanks ++ char '.' ++ blanks ++ namePart).Takes
          ((quoting'.around w).reverse ++ before) (g' ++ '.' :: (h' ++ quoting.around name))
          rest [] := by
        simp only [takes_assoc]
        refine (takes_blanks hg' (by simp; decide)).seq ?_
        refine takes_char.seq (u := ['.']) ?_
        exact (takes_blanks hh' hname').seq (takes_namePart hR.isWord hname)
      exact hqualifier.seq htakes.opt

/-- A plain name is taken where neither a period nor a name character follows. -/
lemma takes_plainName (hw : IsPlainName w) (hperiod : NoPeriod rest)
    (hname : Stops isNameChar rest) : identifier.Takes before w rest [] := by
  have hpart : (many1 isNameChar).Takes before w rest [] := takes_many1 hw.ne_nil hw.chars hname
  have hwhole : namePart.Takes before w rest [] := ((hpart.alt_left _).alt_left _).alt_left _
  exact hwhole.append_nothing (Pattern.takes_opt_skip (fails_period hperiod))

lemma takes_plain (hw : IsWord w) (hperiod : NoPeriod rest) (hname : Stops isNameChar rest) :
    identifier.Takes before w rest [] := takes_plainName (isPlainName_of_isWord hw) hperiod hname

/-- The bare name of a written one. -/
theorem nameOf_text (hR : R.Proper) : nameOf R.text = String.ofList R.name := by
  obtain ⟨qualifier, quoting, name⟩ := R
  rw [nameOf]
  cases qualifier with
  | none => exact congrArg String.ofList (cleanIdentifier_around hR.isWord)
  | some qualifier =>
      obtain ⟨quoting', w, g', h'⟩ := qualifier
      obtain ⟨hw, -, hh'⟩ := hR.qualifier _ rfl
      have hstart : Stops isBlank (quoting'.around w ++ g') := Quoting.stops_isBlank_around hw g'
      have hne : quoting'.around w ++ g' ≠ [] :=
        List.append_ne_nil_of_left_ne_nil (Quoting.around_ne_nil hw.ne_nil) _
      have hclean : cleanIdentifier ((quoting'.around w ++ g') ++ '.' :: (h' ++
          quoting.around name)) = name := cleanIdentifier_qualified hstart hne hh' hR.isWord
      simpa [WrittenName.text] using congrArg String.ofList hclean

lemma nameOf_plain (hw : IsWord w) : nameOf w = String.ofList w := by
  have hname := nameOf_text (WrittenName.plain_proper hw)
  rw [WrittenName.text_plain] at hname
  exact hname

/-- An identifier and what follows it fail on a plain name, if what follows fails behind it. -/
lemma fails_identifier_append (hq : q.Avoids isNameChar) (hw : IsPlainName w)
    (hperiod : NoPeriod rest) (hname : Stops isNameChar rest)
    (h : q.Fails (w.reverse ++ before) rest) : (identifier ++ q).Fails before (w ++ rest) := by
  have havoids : (opt (blanks ++ char '.' ++ blanks ++ namePart) ++ q).Avoids isNameChar := by
    intro before text htext
    refine Pattern.fails_opt_append.mpr ⟨Fails.append ?_ q, hq before text htext⟩
    cases text with
    | nil => simp at htext
    | cons c text =>
        have hc : isNameChar c = true := by simpa using htext
        have hblank := isNameChar_not_isBlank c hc
        have hdot : c ≠ '.' := by
          rintro rfl
          exact absurd hc (by decide)
        exact fails_period (noPeriod_of_stops (by simpa using hblank) (by simpa using hdot))
  have hsign : ∀ d, isNameChar d = false → Stops (· == d) (w ++ rest) := fun d hd =>
    hw.stops (fun _ => beq_of_isNameChar hd) _
  rw [identifier, Pattern.fails_assoc, namePart]
  simp only [Pattern.fails_alt_append, quoted, Pattern.fails_assoc]
  refine ⟨⟨⟨?_, ?_⟩, ?_⟩, ?_⟩
  · refine Pattern.fails_many1_append havoids hw.chars hname fun _ => ?_
    exact Pattern.fails_opt_append.mpr ⟨(fails_period hperiod).append q, h⟩
  · exact Pattern.fails_one_append (hsign '"' (by decide))
  · exact Pattern.fails_one_append (hsign (Char.ofNat 0x60) (by decide))
  · exact Pattern.fails_one_append (hsign '[' (by decide))

end SchemaReader.Ddl
