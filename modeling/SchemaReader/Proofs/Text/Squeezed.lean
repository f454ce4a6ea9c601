/-
Texts up to the width of their white space.

* `squeeze`: a text with one space for every run of white space;
* `squeeze_append`: a text is squeezed piece by piece, where no run is cut;
* `exists_of_squeeze_eq_append`: what is found in a squeezed text stands in the text, piece by
  piece.
-/
import SchemaReader.Proofs.Text.Words

namespace SchemaReader.Text

variable {u v w g text : List Char} {c : Char}

/-! ### Squeezing -/

/-- A text with one space for every run of white space. -/
def squeeze : List Char → List Char
  | [] => []
  | c :: rest =>
    if isBlank c then
      if (squeeze rest).head? = some ' ' then squeeze rest else ' ' :: squeeze rest
    else c :: squeeze rest

lemma squeeze_nil : squeeze [] = [] := rfl

lemma squeeze_cons_of_not_isBlank (hc : isBlank c = false) (text : List Char) :
    squeeze (c :: text) = c :: squeeze text := by
  rw [squeeze, if_neg (by simp [hc])]

lemma squeeze_cons_of_isBlank (hc : isBlank c = true) (text : List Char) :
    squeeze (c :: text)
      = if (squeeze text).head? = some ' ' then squeeze text else ' ' :: squeeze text := by
  rw [squeeze, if_pos hc]

lemma squeeze_singleton (hc : isBlank c = true) : squeeze [c] = [' '] := by
  rw [squeeze_cons_of_isBlank hc]
  rfl

lemma isGap_singleton (hc : isBlank c = true) : IsGap [c] := by simpa [IsGap] using hc

/-- Of white space at the beginning, one space is left. -/
lemma exists_squeeze_cons_of_isBlank (hc : isBlank c = true) (text : List Char) :
    ∃ x, squeeze (c :: text) = ' ' :: x := by
  rw [squeeze_cons_of_isBlank hc]
  split
  · next hhead => exact List.head?_eq_some_iff.mp hhead
  · exact ⟨_, rfl⟩

lemma squeeze_ne_nil (hne : text ≠ []) : squeeze text ≠ [] := by
  obtain ⟨c, text, rfl⟩ := List.exists_cons_of_ne_nil hne
  cases hc : isBlank c with
  | false => simp [squeeze_cons_of_not_isBlank hc]
  | true =>
      obtain ⟨x, hx⟩ := exists_squeeze_cons_of_isBlank hc text
      simp [hx]

/-- A class that holds a space exactly if it holds all white space begins a squeezed text where it
begins the text. -/
lemma stops_squeeze_iff {p : Char → Bool} (hp : ∀ c, isBlank c = true → p c = p ' ') :
    Stops p (squeeze text) ↔ Stops p text := by
  cases text with
  | nil => rfl
  | cons c text =>
      cases hc : isBlank c with
      | false => rw [squeeze_cons_of_not_isBlank hc, stops_cons, stops_cons]
      | true =>
          obtain ⟨x, hx⟩ := exists_squeeze_cons_of_isBlank hc text
          rw [hx, stops_cons, stops_cons, hp c hc]

lemma stops_isWordChar_squeeze : Stops isWordChar (squeeze text) ↔ Stops isWordChar text :=
  stops_squeeze_iff fun _ hc => (not_isWordChar_of_isBlank hc).trans (by decide)

/-- A text without white space is left as it is. -/
lemma squeeze_append_of_not_isBlank (hu : ∀ c ∈ u, isBlank c = false) (v : List Char) :
    squeeze (u ++ v) = u ++ squeeze v := by
  induction u with
  | nil => rfl
  | cons c u ih =>
      rw [List.forall_mem_cons] at hu
      rw [List.cons_append, squeeze_cons_of_not_isBlank hu.1, ih hu.2, List.cons_append]

/-- Of a gap, one space is left, however wide the gap is. -/
lemma squeeze_gap_append (hg : IsGap g) (hne : g ≠ []) (hv : Stops isBlank v) :
    squeeze (g ++ v) = ' ' :: squeeze v := by
  have hspace : (squeeze v).head? ≠ some ' ' := fun hhead => by
    have hstop : Stops isBlank (squeeze v) :=
      (stops_squeeze_iff fun _ hc => hc.trans (by decide)).mpr hv
    exact absurd (hstop ' ' hhead) (by decide)
  induction g with
  | nil => exact absurd rfl hne
  | cons c g ih =>
      have hc : isBlank c = true := hg c List.mem_cons_self
      have hg' : IsGap g := fun d hd => hg d (List.mem_cons_of_mem c hd)
      rw [List.cons_append, squeeze_cons_of_isBlank hc]
      by_cases hnil : g = []
      · rw [hnil, List.nil_append, if_neg hspace]
      · rw [ih hg' hnil, if_pos (by simp)]

/-- What is left of a text goes by what is left of its end. -/
lemma squeeze_append_congr (h : squeeze v = squeeze w) (u : List Char) :
    squeeze (u ++ v) = squeeze (u ++ w) := by
  induction u with
  | nil => exact h
  | cons c u ih => rw [List.cons_append, List.cons_append, squeeze, squeeze, ih]

/-- The width of a gap makes no difference, whatever follows it. -/
lemma squeeze_gap_congr {g' : List Char} (hg : IsGap g) (hne : g ≠ []) (hg' : IsGap g')
    (hne' : g' ≠ [])
    (v : List Char) : squeeze (g ++ v) = squeeze (g' ++ v) := by
  have hwide : ∀ {g : List Char}, IsGap g → g ≠ [] →
      squeeze (g ++ v) = ' ' :: squeeze (v.dropWhile isBlank) := fun {g} hg hne => by
    have hstart : IsGap (v.takeWhile isBlank) :=
      fun c hc => List.all_eq_true.mp List.all_takeWhile c hc
    have hgap : IsGap (g ++ v.takeWhile isBlank) := List.forall_mem_append.mpr ⟨hg, hstart⟩
    rw [← squeeze_gap_append hgap (by simp [hne]) (stops_dropWhile isBlank v), List.append_assoc,
      List.takeWhile_append_dropWhile]
  rw [hwide hg hne, hwide hg' hne']

/-- A text is squeezed piece by piece, where the second piece begins with no white space. -/
lemma squeeze_append (hv : Stops isBlank v) (u : List Char) :
    squeeze (u ++ v) = squeeze u ++ squeeze v := by
  induction u with
  | nil => rfl
  | cons c u ih =>
      cases hc : isBlank c with
      | false =>
          rw [List.cons_append, squeeze_cons_of_not_isBlank hc, squeeze_cons_of_not_isBlank hc, ih,
            List.cons_append]
      | true =>
          by_cases hnil : u = []
          · subst hnil
            rw [squeeze_gap_append (isGap_singleton hc) (by simp) hv, squeeze_singleton hc,
              List.singleton_append]
          · obtain ⟨d, x, hx⟩ := List.exists_cons_of_ne_nil (squeeze_ne_nil hnil)
            rw [List.cons_append, squeeze_cons_of_isBlank hc, squeeze_cons_of_isBlank hc, ih, hx]
            split <;> simp_all

/-- A word ends a squeezed text where it ends the text. -/
lemma stops_reverse_squeeze :
    Stops isWordChar (squeeze u).reverse ↔ Stops isWordChar u.reverse := by
  induction u with
  | nil => rfl
  | cons c u ih =>
      by_cases hnil : u = []
      · subst hnil
        cases hc : isBlank c with
        | false => rw [squeeze_cons_of_not_isBlank hc, squeeze_nil]
        | true =>
            have hspace : isWordChar ' ' = false := by decide
            simp [squeeze_singleton hc, hspace, not_isWordChar_of_isBlank hc]
      · -- the last character is one of the rest
        have hlast : ∀ {x : List Char} (d : Char), x ≠ [] →
            (Stops isWordChar (d :: x).reverse ↔ Stops isWordChar x.reverse) := fun d hx => by
          rw [List.reverse_cons]
          exact ⟨Stops.of_append, fun h => h.append_of_ne_nil (by simpa using hx) _⟩
        rw [hlast c hnil, ← ih]
        cases hc : isBlank c with
        | false => rw [squeeze_cons_of_not_isBlank hc, hlast c (squeeze_ne_nil hnil)]
        | true =>
            rw [squeeze_cons_of_isBlank hc]
            split
            · rfl
            · exact hlast ' ' (squeeze_ne_nil hnil)

/-! ### What a squeezed text tells -/

/-- What is left of a text in two pieces is left of two pieces of the text. -/
theorem exists_of_squeeze_eq_append {x y : List Char} (h : squeeze text = x ++ y) :
    ∃ u v, text = u ++ v ∧ squeeze u = x ∧ squeeze v = y := by
  induction text generalizing x with
  | nil =>
      obtain ⟨rfl, rfl⟩ := List.append_eq_nil_iff.mp h.symm
      exact ⟨[], [], rfl, rfl, rfl⟩
  | cons c text ih =>
      cases x with
      | nil => exact ⟨[], c :: text, rfl, rfl, h⟩
      | cons d x =>
          cases hc : isBlank c with
          | false =>
              rw [squeeze_cons_of_not_isBlank hc, List.cons_append, List.cons.injEq] at h
              obtain ⟨rfl, htail⟩ := h
              obtain ⟨u, v, rfl, rfl, rfl⟩ := ih htail
              exact ⟨c :: u, v, rfl, squeeze_cons_of_not_isBlank hc u, rfl⟩
          | true =>
              rw [squeeze_cons_of_isBlank hc] at h
              split at h
              · next hhead =>
                  -- the space that is left stands for this character, too
                  obtain ⟨u, v, rfl, hu, rfl⟩ := ih h
                  obtain rfl : d = ' ' := by simpa [h] using hhead
                  exact ⟨c :: u, v, rfl, by simp [squeeze_cons_of_isBlank hc, hu], rfl⟩
              · next hhead =>
                  rw [List.cons_append, List.cons.injEq] at h
                  obtain ⟨rfl, htail⟩ := h
                  obtain ⟨u, v, rfl, rfl, rfl⟩ := ih htail
                  have hu : (squeeze u).head? ≠ some ' ' := fun hu => hhead (by simp [htail, hu])
                  exact ⟨c :: u, v, rfl, by rw [squeeze_cons_of_isBlank hc, if_neg hu], rfl⟩

/-- What is left without white space was there. -/
lemma eq_of_squeeze_eq (h : squeeze u = w) (hw : ∀ c ∈ w, isBlank c = false) : u = w := by
  induction u generalizing w with
  | nil => exact h
  | cons c u ih =>
      cases hc : isBlank c with
      | true =>
          obtain ⟨x, hx⟩ := exists_squeeze_cons_of_isBlank hc u
          have hspace := hw ' ' (by simp [← h, hx])
          exact absurd hspace (by decide)
      | false =>
          rw [squeeze_cons_of_not_isBlank hc] at h
          subst h
          rw [List.forall_mem_cons] at hw
          rw [← ih rfl hw.2]

/-- Where one space is left, there was a gap. -/
lemma isGap_of_squeeze_eq (h : squeeze g = [' ']) : IsGap g ∧ g ≠ [] := by
  refine ⟨?_, fun hnil => by simp [hnil, squeeze] at h⟩
  induction g with
  | nil => exact isGap_nil
  | cons c g ih =>
      cases hc : isBlank c with
      | false =>
          rw [squeeze_cons_of_not_isBlank hc, List.cons.injEq] at h
          exact absurd (h.1 ▸ hc) (by decide)
      | true =>
          refine List.forall_mem_cons.mpr ⟨hc, ?_⟩
          rw [squeeze_cons_of_isBlank hc] at h
          split at h
          · exact ih h
          · have hnil : g = [] := by
              by_contra hne
              exact squeeze_ne_nil hne (List.cons.inj h).2
            simp [hnil]

end SchemaReader.Text
