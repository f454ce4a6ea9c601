/-
Words, and the gaps between them.

* `Text.IsWord`, `Text.IsGap`: word characters, at least one, and white space, if any;
* `Text.Stops`: no character of a class stands at the start of a text;
* `Text.Spells`: a text spells a keyword, in the letters that `isLetter` accepts;
* `Text.Cased`: a text is a keyword written in letters of any case;
* `Text.words`: the longest runs of word characters, and the empty ones between other characters,
  with `Text.mem_words`: a word that begins and ends where words do is one of them;
* `Text.Mentions`: one of the words of a text spells a keyword;
* the classes of characters that exclude each other.
-/
import Mathlib.Data.List.Forall2
import Mathlib.Tactic.Lemma
import SchemaReader.Ddl.Forms
import SchemaReader.Lexical.Brackets
import SchemaReader.Proofs.Text.Segments

namespace SchemaReader.Text

/-! ### What is decided about characters -/

-- what holds of the characters of a text is decided by going through the text: where an instance
-- for statements about all characters is around, that one would be tried too

instance decidableForallMem {P : Char → Prop} [DecidablePred P] (text : List Char) :
    Decidable (∀ c ∈ text, P c) := List.decidableBAll P text

instance decidableForallMemOption {P : Char → Prop} [DecidablePred P] (c? : Option Char) :
    Decidable (∀ c ∈ c?, P c) := c?.decidableForallMem

/-! ### Classes of characters -/

/-- The code points of white space. -/
def blankCodes : List Nat :=
  [0x09, 0x0A, 0x0B, 0x0C, 0x0D, 0x20, 0x85, 0xA0, 0x1680, 0x2000, 0x2001, 0x2002, 0x2003, 0x2004,
   0x2005, 0x2006, 0x2007, 0x2008, 0x2009, 0x200A, 0x2028, 0x2029, 0x202F, 0x205F, 0x3000]

lemma mem_blankCodes {c : Char} (h : isBlank c = true) : c.toNat ∈ blankCodes := by
  simp only [isBlank, Bool.or_eq_true, Bool.and_eq_true, decide_eq_true_eq, beq_iff_eq] at h
  simp only [blankCodes, List.mem_cons, List.not_mem_nil, or_false]
  omega

/-- A class that holds none of the code points of white space holds no white space. -/
lemma not_of_isBlank (p : Char → Bool) (hp : ∀ n ∈ blankCodes, p (Char.ofNat n) = false)
    {c : Char} (h : isBlank c = true) : p c = false := by
  simpa using hp _ (mem_blankCodes h)

lemma not_isWordChar_of_isBlank {c : Char} (h : isBlank c = true) : isWordChar c = false :=
  not_of_isBlank isWordChar (by decide) h

lemma not_isNameChar_of_isBlank {c : Char} (h : isBlank c = true) : Ddl.isNameChar c = false :=
  not_of_isBlank Ddl.isNameChar (by decide) h

lemma not_isQuote_of_isBlank {c : Char} (h : isBlank c = true) : isQuote c = false :=
  not_of_isBlank isQuote (by decide) h

lemma not_isOpening_of_isBlank {c : Char} (h : isBlank c = true) : isOpening c = false :=
  not_of_isBlank isOpening (by decide) h

lemma not_isClosing_of_isBlank {c : Char} (h : isBlank c = true) : isClosing c = false :=
  not_of_isBlank isClosing (by decide) h

lemma not_isBlank_of_isWordChar {c : Char} (h : isWordChar c = true) : isBlank c = false := by
  cases hc : isBlank c with
  | false => rfl
  | true => simp [not_isWordChar_of_isBlank hc] at h

/-- The signs that have a meaning in a source format are no word characters. -/
lemma ne_of_isWordChar {c d : Char} (hc : isWordChar c = true) (hd : isWordChar d = false) :
    c ≠ d := by
  rintro rfl
  simp [hd] at hc

lemma beq_of_isWordChar {c d : Char} (hd : isWordChar d = false) (hc : isWordChar c = true) :
    (c == d) = false := beq_eq_false_iff_ne.mpr (ne_of_isWordChar hc hd)

lemma isUpper_iff {c : Char} : c.isUpper = true ↔ 'A' ≤ c ∧ c ≤ 'Z' := decide_eq_true_iff

lemma toUpper_of_not_lower {c : Char} (h : ¬ ('a' ≤ c ∧ c ≤ 'z')) : c.toUpper = c := dif_neg h

lemma isAsciiLetter_of_isUpper_toUpper {c : Char} (h : c.toUpper.isUpper = true) :
    isAsciiLetter c = true := by
  simp only [isAsciiLetter, Bool.or_eq_true, Bool.and_eq_true, decide_eq_true_eq]
  by_cases hlower : 'a' ≤ c ∧ c ≤ 'z'
  · exact Or.inl hlower
  · rw [toUpper_of_not_lower hlower] at h
    exact Or.inr (isUpper_iff.mp h)

lemma ascii_of_isAsciiLetter {c : Char} (h : isAsciiLetter c = true) : c.toNat < 128 := by
  simp only [isAsciiLetter, Bool.or_eq_true, Bool.and_eq_true, decide_eq_true_eq, Char.le_def,
    UInt32.le_iff_toNat_le, Char.toNat_val] at h
  have : 'z'.toNat = 122 := rfl
  have : 'Z'.toNat = 90 := rfl
  omega

lemma isWordChar_of_isAsciiLetter {c : Char} (h : isAsciiLetter c = true) :
    isWordChar c = true := by
  have hcode := ascii_of_isAsciiLetter h
  simp [isWordChar, hcode, h]

lemma not_isAsciiLetter_of_isAsciiDigit {c : Char} (h : isAsciiDigit c = true) :
    ¬ isAsciiLetter c = true := by
  simp only [isAsciiDigit, isAsciiLetter, Bool.or_eq_true, Bool.and_eq_true, decide_eq_true_eq,
    Char.le_def, UInt32.le_iff_toNat_le, Char.toNat_val] at h ⊢
  have : '9'.toNat = 57 := rfl
  have : 'A'.toNat = 65 := rfl
  have : 'a'.toNat = 97 := rfl
  omega

lemma isWordChar_of_isAsciiDigit {c : Char} (h : isAsciiDigit c = true) : isWordChar c = true := by
  have hcode : c.toNat < 128 := by
    simp only [isAsciiDigit, Bool.and_eq_true, decide_eq_true_eq, Char.le_def,
      UInt32.le_iff_toNat_le, Char.toNat_val] at h
    have : '9'.toNat = 57 := rfl
    omega
  simp [isWordChar, hcode, h]

/-! ### Words and gaps -/

/-- Word characters, at least one. -/
structure IsWord (w : List Char) : Prop where
  ne_nil : w ≠ []
  chars : ∀ c ∈ w, isWordChar c = true

/-- White space, if any. -/
def IsGap (g : List Char) : Prop := ∀ c ∈ g, isBlank c = true

instance (w : List Char) : Decidable (IsWord w) :=
  decidable_of_iff (w ≠ [] ∧ ∀ c ∈ w, isWordChar c = true)
    ⟨fun h => ⟨h.1, h.2⟩, fun h => ⟨h.1, h.2⟩⟩

instance (g : List Char) : Decidable (IsGap g) :=
  inferInstanceAs (Decidable (∀ c ∈ g, isBlank c = true))

lemma isGap_nil : IsGap [] := by simp [IsGap]

lemma IsWord.forall_ne {w : List Char} {d : Char} (hw : IsWord w) (hd : isWordChar d = false) :
    ∀ c ∈ w, c ≠ d := fun c hc => ne_of_isWordChar (hw.chars c hc) hd

/-- No character of a class stands at the start of a text. -/
def Stops (p : Char → Bool) (text : List Char) : Prop := ∀ c ∈ text.head?, p c = false

instance (p : Char → Bool) (text : List Char) : Decidable (Stops p text) :=
  inferInstanceAs (Decidable (∀ c ∈ text.head?, p c = false))

variable {p : Char → Bool} {u v w g : List Char}

@[simp]
lemma stops_nil : Stops p [] := by simp [Stops]

@[simp]
lemma stops_cons {c : Char} : Stops p (c :: v) ↔ p c = false := by simp [Stops]

lemma Stops.append (hu : Stops p u) (hv : Stops p v) : Stops p (u ++ v) := by
  cases u with
  | nil => exact hv
  | cons c u => simpa using hu

lemma Stops.append_of_ne_nil (hu : Stops p u) (hne : u ≠ []) (v : List Char) :
    Stops p (u ++ v) := by
  obtain ⟨c, u, rfl⟩ := List.exists_cons_of_ne_nil hne
  simpa using hu

lemma IsGap.stops (hg : IsGap g) (hp : ∀ c, isBlank c = true → p c = false) (hv : Stops p v) :
    Stops p (g ++ v) := by
  cases g with
  | nil => exact hv
  | cons c g => simpa using hp c (hg c List.mem_cons_self)

lemma IsGap.stops_of_ne_nil (hg : IsGap g) (hne : g ≠ [])
    (hp : ∀ c, isBlank c = true → p c = false) (v : List Char) : Stops p (g ++ v) := by
  obtain ⟨c, g, rfl⟩ := List.exists_cons_of_ne_nil hne
  simpa using hp c (hg c List.mem_cons_self)

lemma IsWord.stops (hw : IsWord w) (hp : ∀ c, isWordChar c = true → p c = false)
    (v : List Char) : Stops p (w ++ v) := by
  obtain ⟨c, w, rfl⟩ := List.exists_cons_of_ne_nil hw.ne_nil
  simpa using hp c (hw.chars c List.mem_cons_self)

lemma IsWord.stops_isBlank (hw : IsWord w) (v : List Char) : Stops isBlank (w ++ v) :=
  hw.stops (fun _ => not_isBlank_of_isWordChar) v

lemma IsWord.not_stops (hw : IsWord w) (v : List Char) : ¬ Stops isWordChar (w ++ v) := by
  obtain ⟨c, w, rfl⟩ := List.exists_cons_of_ne_nil hw.ne_nil
  simpa using hw.chars c List.mem_cons_self

/-- Where a word goes on, no class begins that excludes the characters of words. -/
lemma stops_of_not_stops (h : ¬ Stops isWordChar v) (hp : ∀ c, isWordChar c = true → p c = false) :
    Stops p v := by
  cases v with
  | nil => simp
  | cons c v => simpa using hp c (by simpa using h)

lemma IsWord.not_stops_reverse (hw : IsWord w) : ¬ Stops isWordChar w.reverse := by
  have hreverse : IsWord w.reverse :=
    ⟨List.reverse_ne_nil_iff.mpr hw.ne_nil, fun c hc => hw.chars c (List.mem_reverse.mp hc)⟩
  simpa using hreverse.not_stops []

lemma Stops.of_append (h : Stops p (u ++ v)) : Stops p u := by
  cases u with
  | nil => exact stops_nil
  | cons c u => simpa using h

lemma stops_dropWhile (p : Char → Bool) (u : List Char) : Stops p (u.dropWhile p) := by
  induction u with
  | nil => simp
  | cons c u ih =>
      rw [List.dropWhile_cons]
      split
      · exact ih
      · next hc => simpa using hc

lemma takeWhile_append_of_stops (hu : ∀ c ∈ u, p c = true) (hv : Stops p v) :
    (u ++ v).takeWhile p = u := by
  rw [List.takeWhile_append_of_pos hu]
  cases v with
  | nil => simp
  | cons c v => simp [stops_cons.mp hv]

lemma dropWhile_append_of_stops (hu : ∀ c ∈ u, p c = true) (hv : Stops p v) :
    (u ++ v).dropWhile p = v := by
  rw [List.dropWhile_append_of_pos hu]
  cases v with
  | nil => simp
  | cons c v => simp [stops_cons.mp hv]

/-! ### Keywords -/

/-- A text spells a keyword: each of its characters is a form of the keyword's letter. -/
def Spells (keyword w : List Char) : Prop :=
  List.Forall₂ (fun k c => isLetter k c = true) keyword w

/-- A text is a keyword, given in capitals, written in letters of any case. -/
def Cased (keyword w : List Char) : Prop := w.map Char.toUpper = keyword

/-- A keyword as patterns have it: capitals, at least one. -/
structure IsKeyword (keyword : List Char) : Prop where
  ne_nil : keyword ≠ []
  capitals : ∀ k ∈ keyword, k.isUpper = true

instance (keyword : List Char) : Decidable (IsKeyword keyword) :=
  decidable_of_iff (keyword ≠ [] ∧ ∀ k ∈ keyword, k.isUpper = true)
    ⟨fun h => ⟨h.1, h.2⟩, fun h => ⟨h.1, h.2⟩⟩

instance (keyword w : List Char) : Decidable (Spells keyword w) :=
  inferInstanceAs (Decidable (List.Forall₂ _ keyword w))

instance (keyword w : List Char) : Decidable (Cased keyword w) :=
  inferInstanceAs (Decidable (_ = _))

lemma isWordChar_of_isLetter {k c : Char} (hk : k.isUpper = true) (h : isLetter k c = true) :
    isWordChar c = true := by
  simp only [isLetter, Bool.or_eq_true, Bool.and_eq_true, beq_iff_eq] at h
  obtain (rfl | ⟨rfl, rfl⟩) | ⟨rfl, rfl⟩ := h
  · exact isWordChar_of_isAsciiLetter (isAsciiLetter_of_isUpper_toUpper hk)
  · decide
  · decide

lemma Spells.isWord {K : List Char} (hK : IsKeyword K) (h : Spells K w) : IsWord w := by
  obtain ⟨hne, hcap⟩ := hK
  refine ⟨fun hw => hne ?_, ?_⟩
  · subst hw
    exact List.forall₂_nil_right_iff.mp h
  · clear hne
    induction h with
    | nil => simp
    | cons hkc _ ih =>
        intro c hc
        rcases List.mem_cons.mp hc with rfl | hc
        · exact isWordChar_of_isLetter (hcap _ List.mem_cons_self) hkc
        · exact ih (fun k hk => hcap k (List.mem_cons_of_mem _ hk)) c hc

lemma Cased.spells {K : List Char} (h : Cased K w) : Spells K w := by
  subst h
  rw [Spells, List.forall₂_map_left_iff]
  exact List.forall₂_same.mpr fun c _ => by simp [isLetter]

lemma toUpper_of_isUpper {c : Char} (h : c.isUpper = true) : c.toUpper = c := by
  refine toUpper_of_not_lower fun hlower => ?_
  have hlow : 'a' ≤ 'Z' := Char.le_trans hlower.1 (isUpper_iff.mp h).2
  exact absurd hlow (by decide)

/-- A keyword in capitals. -/
lemma IsKeyword.cased {K : List Char} (hK : IsKeyword K) : Cased K K :=
  (List.map_congr_left fun c hc => toUpper_of_isUpper (hK.capitals c hc)).trans (List.map_id K)

/-- The letters of a keyword in any case are ASCII. -/
lemma Cased.ascii {K : List Char} (hK : IsKeyword K) (h : Cased K w) : ∀ c ∈ w, c.toNat < 128 := by
  intro c hc
  have hupper : c.toUpper ∈ K := h ▸ List.mem_map_of_mem hc
  exact ascii_of_isAsciiLetter (isAsciiLetter_of_isUpper_toUpper (hK.capitals _ hupper))

/-- A character is a form of one capital at most. -/
lemma isLetter_unique {k l c : Char} (hk : k.isUpper = true) (hl : l.isUpper = true)
    (h : isLetter k c = true) (h' : isLetter l c = true) : k = l := by
  have hforms : ∀ {m : Char}, m.isUpper = true → isLetter m c = true → m = c.toUpper ∨
      (m = 'S' ∧ c = '\u017F') ∨ (m = 'K' ∧ c = '\u212A') := by
    intro m _ hm
    simp only [isLetter, Bool.or_eq_true, Bool.and_eq_true, beq_iff_eq] at hm
    obtain (hm | hm) | hm := hm
    · exact Or.inl hm.symm
    · exact Or.inr (Or.inl hm)
    · exact Or.inr (Or.inr hm)
  rcases hforms hk h with rfl | ⟨rfl, rfl⟩ | ⟨rfl, rfl⟩ <;>
    rcases hforms hl h' with rfl | ⟨rfl, hc⟩ | ⟨rfl, hc⟩
  · rfl
  · subst hc; exact absurd hk (by decide)
  · subst hc; exact absurd hk (by decide)
  · exact absurd hl (by decide)
  · rfl
  · exact absurd hc (by decide)
  · exact absurd hl (by decide)
  · exact absurd hc (by decide)
  · rfl

/-- A text spells one keyword at most. -/
lemma Spells.unique {K L : List Char} (hK : IsKeyword K) (hL : IsKeyword L) (h : Spells K w)
    (h' : Spells L w) : K = L := by
  obtain ⟨-, hK⟩ := hK
  obtain ⟨-, hL⟩ := hL
  induction h generalizing L with
  | nil => exact (List.forall₂_nil_right_iff.mp h').symm
  | @cons k c K w hk _ ih =>
      obtain ⟨l, L, hl, hL', rfl⟩ := List.forall₂_cons_right_iff.mp h'
      rw [List.forall_mem_cons] at hK hL
      rw [isLetter_unique hK.1 hL.1 hk hl, ih hL' hK.2 hL.2]

/-- The capitals of an ASCII character. -/
lemma upperChar_of_ascii {c : Char} (hc : c.toNat < 128) : upperChar c = [c.toUpper] := by
  unfold upperChar
  split
  case h_11 => rfl
  all_goals exact absurd hc (by decide)

lemma upper_of_ascii (hw : ∀ c ∈ w, c.toNat < 128) : upper w = w.map Char.toUpper := by
  induction w with
  | nil => rfl
  | cons c w ih =>
      rw [List.forall_mem_cons] at hw
      rw [upper, List.flatMap_cons, upperChar_of_ascii hw.1, ← upper, ih hw.2]
      rfl

/-- The capitals of an ASCII text that spells a keyword. -/
lemma Spells.upper_eq {K : List Char} (h : Spells K w) (hw : ∀ c ∈ w, c.toNat < 128) :
    upper w = K := by
  rw [upper_of_ascii hw]
  induction h with
  | nil => rfl
  | @cons k c K w hk _ ih =>
      rw [List.forall_mem_cons] at hw
      rw [List.map_cons, ih hw.2]
      simp only [isLetter, Bool.or_eq_true, Bool.and_eq_true, beq_iff_eq] at hk
      obtain (rfl | ⟨-, rfl⟩) | ⟨-, rfl⟩ := hk
      · rfl
      · exact absurd hw.1 (by decide)
      · exact absurd hw.1 (by decide)

/-! ### The words of a text -/

/-- The runs of word characters between the other characters of a text, empty ones included. -/
def words (text : List Char) : List (List Char) := segments (fun c => !isWordChar c) text

/-- A text mentions a keyword if one of its words spells it, in letters of any case. -/
def Mentions (K : String) (text : List Char) : Prop := ∃ w ∈ words text, Spells K.toList w

instance (K : String) (text : List Char) : Decidable (Mentions K text) :=
  inferInstanceAs (Decidable (∃ w ∈ words text, Spells K.toList w))

section Mentions

variable {K : String} {u w rest : List Char} {c : Char}

lemma words_append (hc : isWordChar c = false) (u rest : List Char) :
    words (u ++ c :: rest) = words u ++ words rest :=
  segments_append (by simpa using hc) u rest

lemma words_of_word (hw : ∀ c ∈ w, isWordChar c = true) : words w = [w] :=
  segments_of_none (by simpa using hw)

/-- A word that begins and ends where words do is one of the words of the text. -/
theorem mem_words (hw : ∀ c ∈ w, isWordChar c = true) (hu : Stops isWordChar u.reverse)
    (hrest : Stops isWordChar rest) : w ∈ words (u ++ (w ++ rest)) := by
  have hbegin : w ∈ words (w ++ rest) := by
    cases rest with
    | nil => rw [List.append_nil, words_of_word hw]; exact List.mem_singleton_self w
    | cons c rest =>
        rw [words_append (by simpa using hrest), words_of_word hw]
        exact List.mem_cons_self
  obtain rfl | ⟨u, c, rfl⟩ := List.eq_nil_or_concat u
  · exact hbegin
  · rw [List.concat_eq_append] at hu ⊢
    rw [List.append_assoc, List.singleton_append, words_append (by simpa using hu)]
    exact List.mem_append_right _ hbegin

lemma mentions_of_spells (hK : IsKeyword K.toList) (hw : Spells K.toList w)
    (hu : Stops isWordChar u.reverse) (hrest : Stops isWordChar rest) :
    Mentions K (u ++ (w ++ rest)) := ⟨w, mem_words (hw.isWord hK).chars hu hrest, hw⟩

lemma mentions_append (hc : isWordChar c = false) :
    Mentions K (u ++ c :: rest) ↔ Mentions K u ∨ Mentions K rest := by
  simp only [Mentions, words_append hc, List.mem_append, or_and_right, exists_or]

lemma not_mentions_nil (hK : IsKeyword K.toList) : ¬ Mentions K [] := by
  rintro ⟨w, hw, hspells⟩
  obtain rfl := List.mem_singleton.mp hw
  exact (hspells.isWord hK).ne_nil rfl

end Mentions

end SchemaReader.Text
