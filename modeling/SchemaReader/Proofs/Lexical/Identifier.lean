/-
The bare names behind written ones.

* `Quoting`: how a name is written, plain, between quotes or in square brackets;
* `cleanIdentifier_around`, `cleanIdentifier_qualified`: the bare name of a written one, alone or
  after a qualifier;
* `leadingIdentifier_around`: the same for an entry of a list that holds nothing else.
-/
import SchemaReader.Lexical.Identifier
import SchemaReader.Proofs.Lexical.Closed
import SchemaReader.Proofs.Text.Trim

namespace SchemaReader

open Text (IsWord IsGap Stops isWordChar isBlank)

/-! ### Written names -/

/-- How a name is written. -/
inductive Quoting where
  | plain
  /-- Between double quotes. -/
  | double
  /-- Between backquotes. -/
  | back
  /-- In square brackets. -/
  | square
  deriving DecidableEq, Repr

/-- The character before and the character after a name, if it is not plain. -/
def Quoting.marks? : Quoting → Option (Char × Char)
  | .plain => none
  | .double => some ('"', '"')
  | .back => some (Char.ofNat 0x60, Char.ofNat 0x60)
  | .square => some ('[', ']')

/-- A name as it is written. -/
def Quoting.around (quoting : Quoting) (name : List Char) : List Char :=
  match quoting.marks? with
  | none => name
  | some (o, c) => o :: (name ++ [c])

variable {quoting : Quoting} {w g h u v : List Char}

lemma Quoting.around_ne_nil (hne : w ≠ []) : quoting.around w ≠ [] := by
  cases quoting with
  | plain => exact hne
  | _ => exact List.cons_ne_nil _ _

/-- A class that holds neither word characters nor marks begins no written name. -/
lemma Quoting.stops_around {p : Char → Bool} (hw : IsWord w)
    (hp : ∀ c, isWordChar c = true → p c = false)
    (hmarks : ∀ m, quoting.marks? = some m → p m.1 = false) (v : List Char) :
    Stops p (quoting.around w ++ v) := by
  cases quoting with
  | plain => exact hw.stops hp v
  | _ => simpa [around, marks?] using hmarks _ rfl

lemma Quoting.stops_around_reverse {p : Char → Bool} (hw : IsWord w)
    (hp : ∀ c, isWordChar c = true → p c = false)
    (hmarks : ∀ m, quoting.marks? = some m → p m.2 = false) :
    Stops p (quoting.around w).reverse := by
  cases quoting with
  | plain => exact hw.stops_reverse hp
  | _ => simpa [around, marks?] using hmarks _ rfl

lemma Quoting.stops_isBlank_around (hw : IsWord w) (v : List Char) :
    Stops isBlank (quoting.around w ++ v) :=
  stops_around hw (fun _ => Text.not_isBlank_of_isWordChar)
    (fun m hm => by cases quoting <;> simp [marks?] at hm <;> subst hm <;> rfl) v

lemma Quoting.stops_isBlank_around_reverse (hw : IsWord w) :
    Stops isBlank (quoting.around w).reverse :=
  stops_around_reverse hw (fun _ => Text.not_isBlank_of_isWordChar)
    (fun m hm => by cases quoting <;> simp [marks?] at hm <;> subst hm <;> rfl)

/-- A property of the characters of a name and of the marks holds of all characters of a written
name. -/
lemma Quoting.forall_mem_around {P : Char → Prop} (hw : ∀ c ∈ w, P c)
    (hmarks : ∀ m, quoting.marks? = some m → P m.1 ∧ P m.2) : ∀ c ∈ quoting.around w, P c := by
  intro c hc
  cases quoting with
  | plain => exact hw c hc
  | _ =>
      simp only [around, marks?, List.mem_cons, List.mem_append, List.not_mem_nil, or_false] at hc
      rcases hc with rfl | hc | rfl
      · exact (hmarks _ rfl).1
      · exact hw c hc
      · exact (hmarks _ rfl).2

lemma Quoting.trim_around (hw : IsWord w) (hg : IsGap g) (hh : IsGap h) :
    Text.trim (g ++ (quoting.around w ++ h)) = quoting.around w := by
  have hstart : Stops isBlank (quoting.around w ++ []) := stops_isBlank_around hw []
  rw [List.append_nil] at hstart
  exact Text.trim_gaps hg hh hstart (stops_isBlank_around_reverse hw) (around_ne_nil hw.ne_nil)

/-! ### Bare names -/

lemma isPlain_of_isWordChar {c : Char} (h : isWordChar c = true) : isPlain c = true := by
  by_contra hplain
  simp only [isPlain, isQuote, isOpening, isClosing, Bool.and_eq_true, Bool.not_eq_true',
    Bool.or_eq_false_iff, beq_eq_false_iff_ne, not_and_or, not_not] at hplain
  rcases hplain with (((rfl | rfl) | rfl) | ((rfl | rfl) | rfl)) | ((rfl | rfl) | rfl) <;>
    exact absurd h (by decide)

lemma Text.IsWord.isPlain (hw : IsWord w) : ∀ c ∈ w, isPlain c = true := fun c hc =>
  isPlain_of_isWordChar (hw.chars c hc)

lemma firstSegment_of_forall {p : Char → Bool} (hu : ∀ c ∈ u, p c = false) :
    Text.firstSegment p u = u := by
  have hall : ∀ c ∈ u, (!p c) = true := by simpa using hu
  have htake := Text.takeWhile_append_of_stops hall Text.stops_nil
  rw [List.append_nil] at htake
  exact htake

lemma lastSegment_of_forall {p : Char → Bool} (hv : ∀ c ∈ v, p c = false) :
    Text.lastSegment p v = v := by
  have hv' : ∀ c ∈ v.reverse, (!p c) = true := by simpa using hv
  have hwhole := Text.takeWhile_append_of_stops hv' Text.stops_nil
  rw [List.append_nil] at hwhole
  rw [Text.lastSegment, hwhole, List.reverse_reverse]

lemma lastSegment_append {p : Char → Bool} {d : Char} (hd : p d = true)
    (hv : ∀ c ∈ v, p c = false) : Text.lastSegment p (u ++ d :: v) = v := by
  have hv' : ∀ c ∈ v.reverse, (!p c) = true := by simpa using hv
  have hstop : Stops (fun c => !p c) (d :: u.reverse) := by simp [hd]
  have hreverse : (u ++ d :: v).reverse = v.reverse ++ d :: u.reverse := by simp
  rw [Text.lastSegment, hreverse, Text.takeWhile_append_of_stops hv' hstop, List.reverse_reverse]

lemma Quoting.no_dot_around (hw : IsWord w) : ∀ c ∈ quoting.around w, (c == '.') = false :=
  forall_mem_around (fun c hc => Text.beq_of_isWordChar (by decide) (hw.chars c hc))
    (fun m hm => by cases quoting <;> simp [marks?] at hm <;> subst hm <;> decide)

/-- Quotes and square brackets are taken off a text at both ends. -/
lemma trimWhere_marks {s t : List Char} (hs : ∀ c ∈ s, (isQuote c || c == '[' || c == ']') = true)
    (ht : ∀ c ∈ t, (isQuote c || c == '[' || c == ']') = true) (hw : ∀ c ∈ w, isPlain c = true)
    (hne : w ≠ []) :
    Text.trimWhere (fun c => isQuote c || c == '[' || c == ']') (s ++ (w ++ t)) = w := by
  have hplain : ∀ c ∈ w, (isQuote c || c == '[' || c == ']') = false := by
    intro c hc
    have hquote : isQuote c = false := (isPlain_iff.mp (hw c hc)).1
    have hne : ∀ d, isPlain d = false → c ≠ d := fun d => ne_of_isPlain (hw c hc)
    simp [hquote, hne '[' (by decide), hne ']' (by decide)]
  refine Text.trimWhere_of_stops hs ht (fun c hc => hplain c (List.mem_of_mem_head? hc)) ?_ hne
  exact fun c hc => hplain c (List.mem_reverse.mp (List.mem_of_mem_head? hc))

/-- A bare name does without them. -/
lemma Quoting.trimWhere_around (hw : ∀ c ∈ w, isPlain c = true) (hne : w ≠ []) :
    Text.trimWhere (fun c => isQuote c || c == '[' || c == ']') (quoting.around w) = w := by
  cases quoting with
  | plain =>
      simpa [around, marks?] using trimWhere_marks (s := []) (t := []) (by simp) (by simp) hw hne
  | double => exact trimWhere_marks (s := ['"']) (t := ['"']) (by decide) (by decide) hw hne
  | back =>
      exact trimWhere_marks (s := [Char.ofNat 0x60]) (t := [Char.ofNat 0x60]) (by decide)
        (by decide) hw
        hne
  | square => exact trimWhere_marks (s := ['[']) (t := [']']) (by decide) (by decide) hw hne

/-- The bare name of a name written alone. -/
theorem cleanIdentifier_around (hw : IsWord w) : cleanIdentifier (quoting.around w) = w := by
  have htrim : Text.trim (quoting.around w) = quoting.around w := by
    simpa using Quoting.trim_around (g := []) (h := []) hw Text.isGap_nil Text.isGap_nil
  simp only [cleanIdentifier, htrim, lastSegment_of_forall (Quoting.no_dot_around hw),
    Quoting.trimWhere_around hw.isPlain hw.ne_nil]

/-- The bare name of a name written after a qualifier and a period. -/
theorem cleanIdentifier_qualified (hu : Stops isBlank u) (hne : u ≠ []) (hg : IsGap g)
    (hw : IsWord w) : cleanIdentifier (u ++ '.' :: (g ++ quoting.around w)) = w := by
  have hstart : Stops isBlank (u ++ '.' :: (g ++ quoting.around w)) := hu.append_of_ne_nil hne _
  have hend : Stops isBlank (u ++ '.' :: (g ++ quoting.around w)).reverse := by
    have hreverse : (u ++ '.' :: (g ++ quoting.around w)).reverse
        = (quoting.around w).reverse ++ (g.reverse ++ '.' :: u.reverse) := by simp
    rw [hreverse]
    exact (Quoting.stops_isBlank_around_reverse hw).append_of_ne_nil
      (List.reverse_ne_nil_iff.mpr (Quoting.around_ne_nil hw.ne_nil)) _
  have hdots : ∀ c ∈ g ++ quoting.around w, (c == '.') = false := by
    intro c hc
    rcases List.mem_append.mp hc with hc | hc
    · exact Text.not_of_isBlank (· == '.') (by decide) (hg c hc)
    · exact Quoting.no_dot_around hw c hc
  have htrim : Text.trim (g ++ quoting.around w) = quoting.around w := by
    simpa using Quoting.trim_around (h := []) hw hg Text.isGap_nil
  simp only [cleanIdentifier, Text.trim, Text.trimWhere_self hstart hend]
  rw [lastSegment_append (by decide) hdots, ← Text.trim, htrim,
    Quoting.trimWhere_around hw.isPlain hw.ne_nil]

/-- The bare name of an entry that holds a name only. -/
theorem leadingIdentifier_around (hw : IsWord w) (hg : IsGap g) (hh : IsGap h) :
    leadingIdentifier (g ++ (quoting.around w ++ h)) = w := by
  have hword : ∀ c ∈ quoting.around w, (!endsFirstWord c) = true := by
    refine Quoting.forall_mem_around (fun c hc => ?_) fun m hm => ?_
    · have hne : c ≠ '(' := Text.ne_of_isWordChar (hw.chars c hc) (by decide)
      simp [endsFirstWord, Text.not_isBlank_of_isWordChar (hw.chars c hc), hne]
    · cases quoting <;> simp [Quoting.marks?] at hm <;> subst hm <;> decide
  have hends : ∀ c ∈ quoting.around w, endsFirstWord c = false := by simpa using hword
  rw [leadingIdentifier, Quoting.trim_around hw hg hh, firstSegment_of_forall hends,
    cleanIdentifier_around hw]

lemma leadingIdentifier_plain (hw : IsWord w) (hh : IsGap h) :
    leadingIdentifier (w ++ h) = w := by
  have hplain : leadingIdentifier ([] ++ (Quoting.plain.around w ++ h)) = w :=
    leadingIdentifier_around hw Text.isGap_nil hh
  simpa [Quoting.around, Quoting.marks?] using hplain

/-! ### Brackets around lists -/

/-- A text that does not begin and end with brackets has none around it. -/
lemma withoutOuterBrackets_self (hround : Stops (· == '(') v)
    (hsquare : Stops (· == '[') v ∨ Stops (· == ']') v.reverse) : withoutOuterBrackets v = v := by
  unfold withoutOuterBrackets
  split
  · next rest =>
      rcases hsquare with hsquare | hsquare
      · simp at hsquare
      · refine if_neg fun hlast => ?_
        have hmem : ']' ∈ ('[' :: rest).reverse.head? := by
          rw [List.head?_reverse, List.getLast?_cons, hlast]
          rfl
        simpa using hsquare ']' hmem
  · simp at hround
  · rfl

end SchemaReader
