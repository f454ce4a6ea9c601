/-
Texts that write a list of pieces.

* `Piece`: a keyword, in letters of any case, or a text that is to stand as it is;
* `Writes`: a text writes pieces one after the other, each followed by white space, if any, but so
  that words do not run together;
* `writes_append`, `writes_parenthesized`, `Writes.trimmed`: the parts of a written text, and what
  trimming leaves of it;
* `Writes.silent`: a search for a keyword passes over pieces that do not spell it.
-/
import SchemaReader.Proofs.Pattern.Words
import SchemaReader.Proofs.Text.Trim

namespace SchemaReader

open Text (IsWord IsGap IsKeyword Spells Cased Stops isWordChar isBlank)

/-! ### Pieces -/

/-- A piece of a written text. -/
inductive Piece where
  /-- A keyword, given in capitals, in letters of any case. -/
  | keyword (word : String)
  /-- A text as it stands. -/
  | verbatim (text : List Char)
  deriving DecidableEq, Repr

/-- A single character as it stands. -/
def Piece.sign (c : Char) : Piece := .verbatim [c]

/-- A name as it stands. -/
def Piece.name (name : String) : Piece := .verbatim name.toList

/-- Pieces in parentheses. -/
def parenthesized (pieces : List Piece) : List Piece :=
  .sign '(' :: (pieces ++ [.sign ')'])

/-- A text is one of the ways to write a piece. -/
def Piece.Spelled : Piece → List Char → Prop
  | .keyword word, s => Cased word.toList s
  | .verbatim text, s => s = text

/-- A text is not followed by a word character if it ends with one. -/
def Parted (s rest : List Char) : Prop := Stops isWordChar s.reverse ∨ Stops isWordChar rest

/-- A text, which stands before `rest`, writes pieces: one after the other, each followed by white
space, if any, but so that words do not run together. -/
def Writes : List Piece → (text rest : List Char) → Prop
  | [], text, _ => text = []
  | piece :: pieces, text, rest => ∃ s g u, text = s ++ (g ++ u) ∧ piece.Spelled s ∧ IsGap g ∧
      Parted s (g ++ (u ++ rest)) ∧ Writes pieces u rest

variable {piece : Piece} {ps qs : List Piece} {K : String}
  {before text rest s u v w g : List Char}

lemma writes_append : Writes (ps ++ qs) text rest ↔
    ∃ u v, text = u ++ v ∧ Writes ps u (v ++ rest) ∧ Writes qs v rest := by
  induction ps generalizing text with
  | nil => simp [Writes]
  | cons p ps ih =>
      simp only [List.cons_append, Writes, ih]
      constructor
      · rintro ⟨s, g, _, rfl, hs, hg, hparted, u, v, rfl, hu, hv⟩
        exact ⟨s ++ (g ++ u), v, by simp, ⟨s, g, u, rfl, hs, hg, by simpa using hparted, hu⟩, hv⟩
      · rintro ⟨_, v, rfl, ⟨s, g, u, rfl, hs, hg, hparted, hu⟩, hv⟩
        exact ⟨s, g, u ++ v, by simp, hs, hg, by simpa using hparted, u, v, rfl, hu, hv⟩

lemma writes_parenthesized (h : Writes (parenthesized ps) text rest) :
    ∃ g u g', text = '(' :: (g ++ (u ++ ')' :: g')) ∧ IsGap g ∧ IsGap g' ∧
      Writes ps u (')' :: (g' ++ rest)) := by
  obtain ⟨_, g, _, rfl, rfl, hg, -, h⟩ := h
  obtain ⟨u, _, rfl, hu, _, g', _, rfl, rfl, hg', -, rfl⟩ := writes_append.mp h
  exact ⟨g, u, g', by simp, hg, hg', by simpa using hu⟩

/-- A piece in capitals. -/
def Piece.capitals : Piece → List Char
  | .keyword word => word.toList
  | .verbatim text => text

/-- Pieces in capitals, each with a space behind it. -/
def spaced (pieces : List Piece) : List Char :=
  pieces.flatMap fun piece => piece.capitals ++ [' ']

/-- Every list of pieces can be written. -/
lemma writes_spaced (hkeywords : ∀ K, Piece.keyword K ∈ ps → IsKeyword K.toList)
    (rest : List Char) : Writes ps (spaced ps) rest := by
  induction ps with
  | nil => rfl
  | cons p ps ih =>
      have hspelled : p.Spelled p.capitals := by
        cases p with
        | verbatim text => rfl
        | keyword K => exact (hkeywords K List.mem_cons_self).cased
      refine ⟨p.capitals, [' '], spaced ps, by simp [spaced], hspelled, by decide,
        Or.inr (by simp; decide), ih fun K hK => hkeywords K (List.mem_cons_of_mem _ hK)⟩

/-! ### Words among pieces -/

/-- After a word, a written text goes on with something else than a word character. -/
lemma Parted.stops (h : Parted s rest) (hs : IsWord s) : Stops isWordChar rest :=
  h.resolve_left hs.not_stops_reverse

/-- The same after a text that ends with a word. -/
lemma Parted.stops_behind (h : Parted (s ++ w) rest) (hw : IsWord w) : Stops isWordChar rest := by
  refine h.resolve_left fun hstop => hw.not_stops_reverse ?_
  rw [List.reverse_append] at hstop
  exact hstop.of_append

/-- Two words have white space between them. -/
lemma gap_ne_nil (h : Stops isWordChar (g ++ (w ++ v))) (hw : IsWord w) : g ≠ [] := by
  rintro rfl
  exact hw.not_stops v h

lemma Piece.isWord_of_spelled_keyword (hK : IsKeyword K.toList)
    (h : (Piece.keyword K).Spelled s) : IsWord s := (Cased.spells h).isWord hK

lemma Piece.isWord_of_spelled_name {name : String} (hname : IsWord name.toList)
    (h : (Piece.name name).Spelled s) : IsWord s := by
  obtain rfl : s = name.toList := h
  exact hname

/-- What holds of white space and of all that can be written for a piece holds of the text. -/
lemma Writes.forall_mem {P : Char → Prop} (h : Writes ps text rest)
    (hps : ∀ piece ∈ ps, ∀ s, piece.Spelled s → ∀ c ∈ s, P c)
    (hblank : ∀ c, isBlank c = true → P c) : ∀ c ∈ text, P c := by
  induction ps generalizing text with
  | nil =>
      obtain rfl := h
      simp
  | cons p ps ih =>
      obtain ⟨s, g, u, rfl, hs, hg, -, hu⟩ := h
      rw [List.forall_mem_cons] at hps
      intro c hc
      simp only [List.mem_append] at hc
      rcases hc with hc | hc | hc
      · exact hps.1 s hs c hc
      · exact hblank c (hg c hc)
      · exact ih hu hps.2 c hc

/-- Before a word, a written text does not end with a word character. -/
lemma Writes.stops_reverse (h : Writes ps text rest) (hrest : ¬ Stops isWordChar rest) :
    Stops isWordChar text.reverse := by
  induction ps generalizing text with
  | nil =>
      obtain rfl := h
      simp
  | cons p ps ih =>
      obtain ⟨s, g, u, rfl, -, hg, hparted, hu⟩ := h
      have hreverse : (s ++ (g ++ u)).reverse = u.reverse ++ (g.reverse ++ s.reverse) := by simp
      rw [hreverse]
      by_cases hune : u = []
      · subst hune
        refine Stops.append (by simp) ?_
        by_cases hgne : g = []
        · subst hgne
          simpa using hparted.resolve_right (by simpa using hrest)
        · refine Stops.append_of_ne_nil ?_ (List.reverse_ne_nil_iff.mpr hgne) _
          intro c hc
          exact Text.not_isWordChar_of_isBlank
            (hg c (List.mem_reverse.mp (List.mem_of_mem_head? hc)))
      · exact (ih hu).append_of_ne_nil (List.reverse_ne_nil_iff.mpr hune) _

/-- A written text begins as its first word does. -/
lemma Writes.stops {p : Char → Bool} (h : Writes ps text rest)
    (hps : ∀ piece ∈ ps, ∀ s, piece.Spelled s → IsWord s)
    (hp : ∀ c, isWordChar c = true → p c = false) : Stops p text := by
  cases ps with
  | nil =>
      obtain rfl := h
      simp
  | cons piece ps =>
      obtain ⟨s, g, u, rfl, hs, -⟩ := h
      exact (hps piece List.mem_cons_self s hs).stops hp _

/-- A written text that begins with a word. -/
lemma Writes.not_stops (h : Writes (piece :: ps) text rest)
    (hpiece : ∀ s, piece.Spelled s → IsWord s) (v : List Char) :
    ¬ Stops isWordChar (text ++ v) := by
  obtain ⟨s, g, u, rfl, hs, -⟩ := h
  rw [List.append_assoc]
  exact (hpiece s hs).not_stops _

/-- What follows a written text matters only as far as it goes on a word. -/
lemma Writes.congr_rest {rest' : List Char} (h : Writes ps text rest)
    (hrest : Stops isWordChar rest → Stops isWordChar rest') : Writes ps text rest' := by
  induction ps generalizing text with
  | nil => exact h
  | cons p ps ih =>
      obtain ⟨s, g, u, rfl, hs, hg, hparted, hu⟩ := h
      refine ⟨s, g, u, rfl, hs, hg, hparted.imp_right fun hstop => ?_, ih hu⟩
      rw [← List.append_assoc] at hstop ⊢
      by_cases hne : g ++ u = []
      · rw [hne] at hstop ⊢
        exact hrest hstop
      · exact hstop.of_append.append_of_ne_nil hne _

/-- White space at the end of a written text belongs to the gap behind its last piece. -/
lemma Writes.append_gap {rest' : List Char} (h : Writes ps text rest) (hne : ps ≠ [])
    (hg : IsGap g) (hgne : g ≠ []) : Writes ps (text ++ g) rest' := by
  have hblank : ∀ v, Stops isWordChar (g ++ v) :=
    hg.stops_of_ne_nil hgne fun _ => Text.not_isWordChar_of_isBlank
  induction ps generalizing text with
  | nil => exact absurd rfl hne
  | cons p ps ih =>
      obtain ⟨s, g', u, rfl, hs, hg', hparted, hu⟩ := h
      cases ps with
      | nil =>
          obtain rfl := hu
          refine ⟨s, g' ++ g, [], by simp, hs, fun c hc => ?_, Or.inr ?_, rfl⟩
          · exact (List.mem_append.mp hc).elim (hg' c) (hg c)
          · rw [List.append_assoc]
            exact hg'.stops (fun _ => Text.not_isWordChar_of_isBlank) (hblank _)
      | cons q ps =>
          refine ⟨s, g', u ++ g, by simp, hs, hg', hparted.imp_right fun hstop => ?_,
            ih hu (List.cons_ne_nil q ps)⟩
          have hassoc : g' ++ ((u ++ g) ++ rest') = (g' ++ u) ++ (g ++ rest') := by simp
          rw [← List.append_assoc] at hstop
          rw [hassoc]
          by_cases hempty : g' ++ u = []
          · rw [hempty]
            exact hblank _
          · exact hstop.of_append.append_of_ne_nil hempty _

/-- A keyword before a word, with the white space between them. -/
lemma writes_spacedKeyword (hK : IsKeyword K.toList)
    (hpiece : ∀ s, piece.Spelled s → IsWord s)
    (h : Writes (.keyword K :: piece :: ps) text rest) :
    ∃ t u, text = t ++ u ∧ Pattern.SpacedKeyword K t ∧ Writes (piece :: ps) u rest := by
  obtain ⟨s, g, u, rfl, hs, hg, hparted, hu⟩ := h
  refine ⟨s ++ g, u, by simp, ⟨hK, s, g, rfl, Cased.spells hs, hg, ?_⟩, hu⟩
  obtain ⟨s', g', u', rfl, hs', -⟩ := hu
  have hstop := hparted.stops (Piece.isWord_of_spelled_keyword hK hs)
  rw [List.append_assoc] at hstop
  exact gap_ne_nil hstop (hpiece s' hs')

/-! ### Trimmed texts -/

/-- All ways to write a piece begin and end with something else than white space. -/
def Piece.Solid (piece : Piece) : Prop :=
  ∀ s, piece.Spelled s → s ≠ [] ∧ Stops isBlank s ∧ Stops isBlank s.reverse

lemma solid_of_isWord (h : ∀ s, piece.Spelled s → IsWord s) : piece.Solid := by
  intro s hs
  have hw := h s hs
  exact ⟨hw.ne_nil, by simpa using hw.stops_isBlank [],
    hw.stops_reverse fun _ => Text.not_isBlank_of_isWordChar⟩

/-- A written text without the white space at its end is written too. -/
theorem Writes.trimmed (h : Writes ps text rest) (hps : ∀ piece ∈ ps, piece.Solid)
    (hne : ps ≠ []) : ∃ t g, text = t ++ g ∧ IsGap g ∧ t ≠ [] ∧ Stops isBlank t ∧
      Stops isBlank t.reverse ∧ Writes ps t [] := by
  induction ps generalizing text with
  | nil => exact absurd rfl hne
  | cons p ps ih =>
      obtain ⟨s, g, u, rfl, hs, hg, hparted, hu⟩ := h
      rw [List.forall_mem_cons] at hps
      obtain ⟨hsne, hstart, hend⟩ := hps.1 s hs
      cases ps with
      | nil =>
          obtain rfl := hu
          exact ⟨s, g, by simp, hg, hsne, hstart, hend, s, [], [], by simp, hs, Text.isGap_nil,
            Or.inr (by simp), rfl⟩
      | cons q qs =>
          obtain ⟨t, g', rfl, hg', htne, -, htend, ht⟩ := ih hu hps.2 (List.cons_ne_nil q qs)
          refine ⟨s ++ (g ++ t), g', by simp, hg', by simp [hsne],
            hstart.append_of_ne_nil hsne _, ?_, s, g, t, rfl, hs, hg, ?_, ht⟩
          · have hreverse : (s ++ (g ++ t)).reverse = t.reverse ++ (s ++ g).reverse := by simp
            rw [hreverse]
            exact htend.append_of_ne_nil (List.reverse_ne_nil_iff.mpr htne) _
          · refine hparted.imp_right fun hstop => ?_
            have hstop' : Stops isWordChar ((g ++ t) ++ (g' ++ rest)) := by simpa using hstop
            simpa using hstop'.of_append

/-- Trimming a written text, with white space before it, leaves it without the white space. -/
lemma Writes.exists_trim (h : Writes ps text rest) (hps : ∀ piece ∈ ps, piece.Solid)
    (hne : ps ≠ []) (hg : IsGap g) :
    Writes ps (Text.trim (g ++ text)) [] ∧ Text.trim (g ++ text) ≠ [] := by
  obtain ⟨t, g', rfl, hg', htne, hstart, hend, ht⟩ := h.trimmed hps hne
  rw [Text.trim_gaps hg hg' hstart hend htne]
  exact ⟨ht, htne⟩

/-! ### Searching for a keyword -/

/-- No way to write a piece holds a word that spells a keyword. -/
def Piece.Avoids (piece : Piece) (K : String) : Prop :=
  ∀ s, piece.Spelled s → (IsWord s ∧ ¬ Spells K.toList s) ∨ ∀ c ∈ s, isWordChar c = false

lemma Piece.keyword_avoids {L : String} (hK : IsKeyword K.toList) (hL : IsKeyword L.toList)
    (hne : K ≠ L) : (Piece.keyword L).Avoids K := by
  intro s hs
  refine Or.inl ⟨isWord_of_spelled_keyword hL hs, fun h => hne ?_⟩
  exact String.toList_injective (h.unique hK hL (Cased.spells hs))

lemma Piece.sign_avoids {c : Char} (hc : isWordChar c = false) : (Piece.sign c).Avoids K := by
  rintro s rfl
  exact Or.inr (by simpa using hc)

/-- A pattern that a keyword leads reads nothing within pieces that avoid the keyword. -/
theorem Writes.silent {q : Pattern} (h : Writes ps text rest) (hq : q.LedBy K)
    (hps : ∀ piece ∈ ps, piece.Avoids K) : Pattern.Silent q before text rest := by
  induction ps generalizing before text with
  | nil =>
      obtain rfl := h
      trivial
  | cons p ps ih =>
      obtain ⟨s, g, u, rfl, hs, hg, hparted, hu⟩ := h
      rw [List.forall_mem_cons] at hps
      rw [Pattern.silent_append, Pattern.silent_append]
      refine ⟨?_, hq.wordLed.silent_gap hg, ih hu hps.2⟩
      rcases hps.1 s hs with ⟨hword, hspells⟩ | hsign
      · refine hq.silent_word hword ?_ hspells
        simpa using hparted.stops hword
      · exact hq.wordLed.silent_outside hsign

end SchemaReader
