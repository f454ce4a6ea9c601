/-
The first character that a pattern reads.

* `Pattern.nullable`, `Pattern.mayBegin`: whether a pattern can read nothing, and which characters
  it can begin with; `Pattern.fails_of_not_mayBegin` reads a failure off them;
* `Pattern.Avoids`: a pattern reads nothing where a character of a class comes next, so that what
  is read of that class before it goes on as far as it can: `Pattern.fails_append_of_run`.
-/
import SchemaReader.Proofs.Pattern.Reads
import SchemaReader.Proofs.Text.Words

namespace SchemaReader.Pattern

open Text (Stops IsGap isBlank)

/-- Whether a pattern can read the empty text. -/
def nullable : Pattern → Bool
  | .one _ => false
  | .seq a b => a.nullable && b.nullable
  | .alt a b => a.nullable || b.nullable
  | .group _ a => a.nullable
  | .empty | .many _ | .star _ | .wordEdge | .lineStart | .textStart | .textEnd => true

/-- Whether a pattern can read a text that begins with a character. -/
def mayBegin : Pattern → Char → Bool
  | .one p, c | .many p, c => p c
  | .seq a b, c => a.mayBegin c || (a.nullable && b.mayBegin c)
  | .alt a b, c => a.mayBegin c || b.mayBegin c
  | .star a, c | .group _ a, c => a.mayBegin c
  | .empty, _ | .wordEdge, _ | .lineStart, _ | .textStart, _ | .textEnd, _ => false

variable {a b q : Pattern} {p : Char → Bool} {before w g rest : List Char}

@[simp]
lemma nullable_append : (a ++ b).nullable = (a.nullable && b.nullable) := rfl

@[simp]
lemma nullable_or : (a ||| b).nullable = (a.nullable || b.nullable) := rfl

@[simp]
lemma mayBegin_append {c : Char} :
    (a ++ b).mayBegin c = (a.mayBegin c || (a.nullable && b.mayBegin c)) := rfl

@[simp]
lemma mayBegin_or {c : Char} : (a ||| b).mayBegin c = (a.mayBegin c || b.mayBegin c) := rfl

@[simp]
lemma nullable_opt : (opt a).nullable = true := by simp [opt, nullable]

@[simp]
lemma mayBegin_opt {c : Char} : (opt a).mayBegin c = a.mayBegin c := by simp [opt, mayBegin]

lemma nullable_of_reads (q : Pattern) (h : q.Reads before [] rest) : q.nullable = true := by
  induction q generalizing before rest with
  | one p => obtain ⟨c, -, hc⟩ := h; simp at hc
  | seq a b iha ihb =>
      obtain ⟨u, v, huv, hu, hv⟩ := h
      obtain ⟨rfl, rfl⟩ := List.append_eq_nil_iff.mp huv.symm
      simp [nullable, iha hu, ihb hv]
  | alt a b iha ihb =>
      rcases h with h | h
      · simp [nullable, iha h]
      · simp [nullable, ihb h]
  | group n a ih => exact ih h
  | _ => rfl

lemma mayBegin_of_reads (q : Pattern) {c : Char} (h : q.Reads before (c :: w) rest) :
    q.mayBegin c = true := by
  induction q generalizing before w rest with
  | one p =>
      obtain ⟨d, hd, hcd⟩ := h
      obtain ⟨rfl, -⟩ := List.cons.inj hcd
      exact hd
  | many p => exact h c List.mem_cons_self
  | seq a b iha ihb =>
      obtain ⟨u, v, huv, hu, hv⟩ := h
      cases u with
      | nil =>
          rw [List.nil_append] at huv
          subst huv
          simp [mayBegin, nullable_of_reads a hu, ihb hv]
      | cons d u =>
          obtain ⟨rfl, -⟩ := List.cons.inj huv
          simp [mayBegin, iha hu]
  | alt a b iha ihb =>
      rcases h with h | h
      · simp [mayBegin, iha h]
      · simp [mayBegin, ihb h]
  | star a ih =>
      generalize hw : c :: w = text at h
      change Rounds a.Reads before text rest at h
      induction h with
      | stop => simp at hw
      | @round before u v rest hu _ ihv =>
          cases u with
          | nil => exact ihv hw
          | cons d u =>
              obtain ⟨rfl, -⟩ := List.cons.inj hw
              exact ih hu
  | group n a ih => exact ih h
  | empty => exact absurd h (List.cons_ne_nil c w)
  | wordEdge | lineStart | textStart | textEnd => exact absurd h.1 (List.cons_ne_nil c w)

lemma fails_nil (hnull : q.nullable = false) : q.Fails before [] := by
  intro w rest hnil h
  obtain ⟨rfl, rfl⟩ := List.append_eq_nil_iff.mp hnil.symm
  simp [nullable_of_reads q h] at hnull

/-- A pattern that cannot read nothing fails before a character it cannot begin with. -/
lemma fails_of_not_mayBegin (hnull : q.nullable = false) {c : Char} (hc : q.mayBegin c = false) :
    q.Fails before (c :: rest) := by
  intro w rest' hcons h
  cases w with
  | nil => simp [nullable_of_reads q h] at hnull
  | cons d w =>
      obtain ⟨rfl, -⟩ := List.cons.inj hcons
      simp [mayBegin_of_reads q h] at hc

/-- The same for a text of which only the beginning is known. -/
lemma fails_of_stops (hnull : q.nullable = false) (h : Stops q.mayBegin rest) :
    q.Fails before rest := by
  cases rest with
  | nil => exact fails_nil hnull
  | cons c rest => exact fails_of_not_mayBegin hnull (by simpa using h)

lemma fails_one_append (h : Stops p rest) : (one p ++ q).Fails before rest := by
  cases rest with
  | nil => exact fails_nil rfl
  | cons c rest =>
      rw [fails_one_append_cons]
      intro hc
      simp [hc] at h

/-! ### What a pattern avoids -/

/-- A pattern reads nothing at the end of the text, nor where a character of a class comes
next. -/
def Avoids (q : Pattern) (p : Char → Bool) : Prop :=
  ∀ before text, ¬ Stops p text → q.Fails before text

lemma avoids_of_mayBegin (hnull : q.nullable = false)
    (hq : ∀ c, p c = true → q.mayBegin c = false) : q.Avoids p := by
  intro before text htext
  cases text with
  | nil => simp at htext
  | cons c text => exact fails_of_not_mayBegin hnull (hq c (by simpa using htext))

/-- Whether a pattern can read nothing and cannot begin with white space. -/
def avoidsBlanks (q : Pattern) : Bool :=
  !q.nullable && Text.blankCodes.all fun n => !q.mayBegin (Char.ofNat n)

lemma avoids_isBlank (h : q.avoidsBlanks = true) : q.Avoids isBlank := by
  simp only [avoidsBlanks, Bool.and_eq_true, Bool.not_eq_true', List.all_eq_true] at h
  exact avoids_of_mayBegin h.1 fun _ hc => Text.not_of_isBlank q.mayBegin h.2 hc

/-- A pattern that reads only characters of a class, before one that avoids the class, fails on a
run of such characters, unless it reads the run and the other one does not fail behind it. -/
lemma fails_append_of_run (ha : ∀ u rest, a.Reads before u rest → ∀ c ∈ u, p c = true)
    (hq : q.Avoids p) (hw : ∀ c ∈ w, p c = true) (hrest : Stops p rest)
    (h : a.Reads before w rest → q.Fails (w.reverse ++ before) rest) :
    (a ++ q).Fails before (w ++ rest) := by
  rw [fails_append]
  intro u rest' htext hu
  obtain ⟨v, rfl, rfl⟩ | ⟨v, rfl, rfl⟩ := List.append_eq_append_iff.mp htext
  · -- what was read goes beyond `w`, which only the empty text does
    cases v with
    | nil => simpa using h (by simpa using hu)
    | cons d v =>
        have hd : p d = true := ha _ _ hu d (by simp)
        simp [hd] at hrest
  · cases v with
    | nil => simpa using h (by simpa using hu)
    | cons d v => exact hq _ _ (by simpa using hw d (by simp))

/-- Before a pattern that avoids its class, a repetition reads as far as it can. -/
lemma fails_many_append (hq : q.Avoids p) (hw : ∀ c ∈ w, p c = true) (hrest : Stops p rest)
    (h : q.Fails (w.reverse ++ before) rest) : (many p ++ q).Fails before (w ++ rest) :=
  fails_append_of_run (fun _ _ hu => hu) hq hw hrest fun _ => h

end SchemaReader.Pattern
