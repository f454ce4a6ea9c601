/-
Scans of texts put together.

* `Pattern.isFree`, `Pattern.isLed`: a pattern that asks nothing about the place where it stands, or
  asks it at its beginning alone;
* `Pattern.filter_outcomes`: what such a pattern reads within a text does not depend on what follows
  the text;
* `Pattern.StaysIn`: no reading that begins within a text goes on into the next one;
* `Pattern.exists_finds`, `Pattern.Finds.append`: every text has a scan, and the scans of two texts
  are the scan of both if no reading goes on from the first into the second;
* `Pattern.map_captures_find?_append`: what a free pattern finds first in two texts.
-/
import SchemaReader.Proofs.Pattern.First
import SchemaReader.Proofs.Pattern.Outcomes
import SchemaReader.Proofs.Pattern.Search

namespace SchemaReader.Pattern

/-! ### Patterns that do not look around -/

/-- Whether a pattern asks nothing about the place where it stands, and repeats no pattern. -/
def isFree : Pattern → Bool
  | .empty | .one _ | .many _ => true
  | .seq a b | .alt a b => a.isFree && b.isFree
  | .group _ a => a.isFree
  | .star _ | .wordEdge | .lineStart | .textStart | .textEnd => false

/-- Whether a pattern asks about the place where it stands at most at its beginning, for the edge of
a word or the start of a line. -/
def isLed : Pattern → Bool
  | .empty | .one _ | .many _ | .wordEdge | .lineStart => true
  | .seq a b => a.isLed && b.isFree
  | .alt a b => a.isLed && b.isLed
  | .group _ a => a.isLed
  | .star _ | .textStart | .textEnd => false

/-- Behind either of two texts, nearest character first, the same word edges and line starts are
found. -/
structure Alike (before before' : List Char) : Prop where
  word : before.head?.any Text.isWordChar = before'.head?.any Text.isWordChar
  line : before.head?.all (· == '\n') = before'.head?.all (· == '\n')

variable {α β : Type} {p : Char → Bool} {q : Pattern} {before before' u v w next rest : List Char}

lemma Alike.refl (before : List Char) : Alike before before := ⟨rfl, rfl⟩

/-- A line feed is like the start of the text. -/
lemma alike_lineFeed (before : List Char) : Alike ('\n' :: before) [] :=
  ⟨show Text.isWordChar '\n' = false by decide, rfl⟩

lemma alike_cons (c : Char) (before before' : List Char) : Alike (c :: before) (c :: before') :=
  ⟨rfl, rfl⟩

lemma Alike.append (h : Alike before before') (w : List Char) :
    Alike (w ++ before) (w ++ before') := by
  cases w with
  | nil => exact h
  | cons c w => exact alike_cons c _ _

/-! ### What is read within a text -/

/-- Whether an outcome lies within a text. -/
def Outcome.within (u : List Char) (o : Outcome) : Bool := decide (o.1.length ≤ u.length)

/-- A condition on a place that two places agree on, read as the pattern of nothing. -/
lemma filter_ite_nothing {c c' : Prop} [Decidable c] [Decidable c'] (h : c ↔ c') (u : List Char) :
    (if c then [([], [])] else []).filter (Outcome.within u) = if c' then [([], [])] else [] := by
  simp only [h]
  split <;> simp [Outcome.within]

lemma filter_inits (n : Nat) (w : List Char) :
    w.inits.filter (fun v => decide (v.length ≤ n)) = (w.take n).inits := by
  induction w generalizing n with
  | nil => simp
  | cons c w ih =>
      cases n with
      | zero => simp [List.filter_map, Function.comp_def]
      | succ n => simp [List.filter_map, Function.comp_def, ← ih]

lemma take_takeWhile (p : Char → Bool) (u rest : List Char) :
    ((u ++ rest).takeWhile p).take u.length = u.takeWhile p := by
  induction u with
  | nil => rfl
  | cons c u ih =>
      rw [List.cons_append, List.takeWhile_cons, List.takeWhile_cons]
      split
      · rw [List.length_cons, List.take_succ_cons, ih]
      · rfl

/-- What is made of the elements of a list is made of some of them, if nothing is made of the
others. -/
lemma flatMap_eq_flatMap_filter {P : α → Bool} {xs : List α} {f g : α → List β}
    (hin : ∀ x ∈ xs, P x = true → f x = g x) (hout : ∀ x ∈ xs, P x = false → f x = []) :
    xs.flatMap f = (xs.filter P).flatMap g := by
  induction xs with
  | nil => rfl
  | cons x xs ih =>
      rw [List.forall_mem_cons] at hin hout
      rw [List.flatMap_cons, ih hin.2 hout.2]
      cases hx : P x with
      | true => rw [hin.1 hx, List.filter_cons_of_pos hx, List.flatMap_cons]
      | false => rw [hout.1 hx, List.filter_cons_of_neg (by simp [hx]), List.nil_append]

/-- Of one outcome after another, both lie within a text if the second one does so behind the
first. -/
lemma filter_andThen {f : Outcome → List Outcome} {xs : List Outcome}
    {g : Outcome → List Outcome} {u : List Char}
    (hin : ∀ o ∈ xs, o.within u = true → (f o).filter (Outcome.within (u.drop o.1.length)) = g o) :
    (xs.flatMap fun o => (f o).map o.andThen).filter (Outcome.within u)
      = (xs.filter (Outcome.within u)).flatMap fun o => (g o).map o.andThen := by
  rw [List.filter_flatMap]
  refine flatMap_eq_flatMap_filter (fun o ho hwithin => ?_) fun o _ hbeyond => ?_
  · have hlength : o.1.length ≤ u.length := of_decide_eq_true hwithin
    rw [← hin o ho hwithin, List.filter_map]
    refine congrArg _ (List.filter_congr fun o' _ => ?_)
    simp only [Function.comp_def, Outcome.within, Outcome.andThen, List.length_append,
      List.length_drop, decide_eq_decide]
    omega
  · have hlength : ¬ o.1.length ≤ u.length := of_decide_eq_false hbeyond
    rw [List.filter_map, List.map_eq_nil_iff, List.filter_eq_nil_iff]
    intro o' _
    simp only [Function.comp_def, Outcome.within, Outcome.andThen, List.length_append,
      decide_eq_true_eq]
    omega

/-- An outcome that lies within a text is a beginning of it. -/
lemma Outcome.within.exists_append {o : Outcome} (h : o.within u = true)
    (ho : o ∈ q.outcomes before (u ++ rest)) : ∃ v, u = o.1 ++ v := by
  obtain ⟨rest', htext, -⟩ := reads_of_mem_outcomes q ho
  have hprefix : o.1 <+: u := by
    refine List.prefix_of_prefix_length_le ⟨rest', htext.symm⟩ (List.prefix_append u rest) ?_
    exact of_decide_eq_true h
  exact hprefix.imp fun _ => Eq.symm

/-- What a free pattern reads within a text depends neither on what stands before it nor on what
follows it. -/
lemma filter_outcomes_of_isFree (q : Pattern) (hq : q.isFree = true) :
    (q.outcomes before (u ++ rest)).filter (Outcome.within u) = q.outcomes before' u := by
  induction q generalizing before before' u rest with
  | empty => simp [outcomes, Outcome.within]
  | one p =>
      cases u with
      | nil =>
          cases rest with
          | nil => rfl
          | cons c rest =>
              simp only [outcomes, List.nil_append]
              split <;> simp [Outcome.within]
      | cons c u =>
          simp only [outcomes, List.cons_append]
          split <;> simp [Outcome.within]
  | many p =>
      simp only [outcomes]
      rw [← take_takeWhile p u rest, ← filter_inits, ← List.filter_reverse, List.filter_map]
      rfl
  | seq a b iha ihb =>
      simp only [isFree, Bool.and_eq_true] at hq
      rw [outcomes, filter_andThen (g := fun o =>
        b.outcomes (o.1.reverse ++ before') (u.drop o.1.length)), iha hq.1, outcomes]
      intro o ho hwithin
      obtain ⟨v, rfl⟩ := Outcome.within.exists_append hwithin ho
      rw [List.append_assoc, List.drop_left, List.drop_left, ihb hq.2]
  | alt a b iha ihb =>
      simp only [isFree, Bool.and_eq_true] at hq
      rw [outcomes, List.filter_append, iha hq.1, ihb hq.2, outcomes]
  | group n a ih =>
      have hinner : (a.outcomes before (u ++ rest)).filter (Outcome.within u)
          = a.outcomes before' u := ih hq
      rw [outcomes, List.filter_map, outcomes, ← hinner]
      rfl
  | star _ | wordEdge | lineStart | textStart | textEnd => simp [isFree] at hq

/-- What a pattern reads within a text, at its beginning, does not depend on what follows it. -/
theorem filter_outcomes (q : Pattern) (hq : q.isLed = true) (halike : Alike before before')
    (hu : u ≠ []) :
    (q.outcomes before (u ++ rest)).filter (Outcome.within u) = q.outcomes before' u := by
  obtain ⟨c, u, rfl⟩ := List.exists_cons_of_ne_nil hu
  induction q generalizing before before' with
  | empty | one _ | many _ => exact filter_outcomes_of_isFree _ rfl
  | seq a b iha ihb =>
      simp only [isLed, Bool.and_eq_true] at hq
      rw [outcomes, filter_andThen (g := fun o =>
        b.outcomes (o.1.reverse ++ before') ((c :: u).drop o.1.length)), iha hq.1 halike, outcomes]
      intro o ho hwithin
      obtain ⟨v, hv⟩ := Outcome.within.exists_append hwithin ho
      rw [hv, List.append_assoc, List.drop_left, List.drop_left,
        filter_outcomes_of_isFree b hq.2]
  | alt a b iha ihb =>
      simp only [isLed, Bool.and_eq_true] at hq
      rw [outcomes, List.filter_append, iha hq.1 halike, ihb hq.2 halike, outcomes]
  | group n a ih =>
      rw [outcomes, List.filter_map, outcomes, ← ih hq halike]
      rfl
  | wordEdge =>
      refine filter_ite_nothing ?_ _
      simp only [Cursor.atWordEdge, halike.word, List.cons_append, List.head?_cons]
  | lineStart =>
      refine filter_ite_nothing ?_ _
      simp only [Cursor.atLineStart, halike.line]
  | star _ | textStart | textEnd => simp [isLed] at hq

/-! ### Readings that stay in a text -/

/-- No reading that begins within `u` goes on into `next`, the text behind it. -/
def StaysIn (q : Pattern) (u next : List Char) : Prop :=
  ∀ before x y rest, x ≠ [] → x <:+ u → y ≠ [] → next = y ++ rest →
    ¬ q.Reads before (x ++ y) rest

/-- Where no text comes next, no reading goes on into it. -/
lemma staysIn_nil (u : List Char) : q.StaysIn u [] := fun _ _ _ _ _ _ hy hnil =>
  absurd (List.append_eq_nil_iff.mp hnil.symm).1 hy

lemma StaysIn.suffix (h : q.StaysIn u next) (hv : v <:+ u) : q.StaysIn v next :=
  fun before x y rest hx hxv => h before x y rest hx (hxv.trans hv)

/-- What is read from a place within the text is a piece of it. -/
lemma StaysIn.exists_append {x : List Char} (h : q.StaysIn u next) (hx : x ≠ []) (hxu : x <:+ u)
    (htext : x ++ next = w ++ rest) (hread : q.Reads before w rest) : ∃ v, x = w ++ v := by
  obtain ⟨y, rfl, hnext⟩ | ⟨v, hv, -⟩ := List.append_eq_append_iff.mp htext
  · cases y with
    | nil => exact ⟨[], by simp⟩
    | cons d y => exact absurd hread (h before x (d :: y) rest hx hxu (by simp) hnext)
  · exact ⟨v, hv⟩

/-- The outcomes at a place from which no reading goes on into the next text. -/
lemma StaysIn.outcomes_eq (h : q.StaysIn u next) (hq : q.isLed = true)
    (halike : Alike before before') (hu : u ≠ []) :
    q.outcomes before (u ++ next) = q.outcomes before' u := by
  have hwithin : (q.outcomes before (u ++ next)).filter (Outcome.within u) = q.outcomes before' u :=
    filter_outcomes q hq halike hu
  rw [← hwithin, List.filter_eq_self.mpr]
  intro o ho
  obtain ⟨rest, htext, hread⟩ := reads_of_mem_outcomes q ho
  obtain ⟨v, hv⟩ := h.exists_append hu List.suffix_rfl htext hread
  simp [Outcome.within, hv]

/-- Where a pattern reads nothing within a text, it reads nothing with the next text behind. -/
lemma StaysIn.silent (h : q.StaysIn (u ++ v) next) (hq : q.isLed = true)
    (halike : Alike before before') (hsilent : Silent q before' u v) :
    Silent q before u (v ++ next) := by
  induction u generalizing before before' with
  | nil => trivial
  | cons c u ih =>
      refine ⟨?_, ih (h.suffix (List.suffix_cons c _)) (alike_cons c _ _) hsilent.2⟩
      have houtcomes := h.outcomes_eq hq halike (by simp)
      simp only [List.cons_append, List.append_assoc] at houtcomes
      rw [← outcomes_eq_nil_iff, houtcomes, outcomes_eq_nil_iff]
      exact hsilent.1

lemma StaysIn.takes {caught : Captures} (h : q.StaysIn (w ++ rest) next) (hq : q.isLed = true)
    (halike : Alike before before') (hw : w ≠ []) (htakes : q.Takes before' w rest caught) :
    q.Takes before w (rest ++ next) caught := by
  rw [takes_iff, ← List.append_assoc, h.outcomes_eq hq halike (by simp [hw])]
  exact takes_iff.mp htakes

/-! ### Scans -/

/-- What a scan comes upon, with a text added behind. -/
def extend (next : List Char) (found : List (List Char × Captures)) :
    List (List Char × Captures) :=
  found.map fun yield => (yield.1 ++ next, yield.2)

/-- Every text has a scan. -/
theorem exists_finds (hq : q.nullable = false) (before text : List Char) :
    ∃ found, Finds q before text found := by
  induction hn : text.length using Nat.strong_induction_on generalizing before text with
  | _ n ih =>
    obtain hfails | ⟨w, rest, caught, rfl, htakes⟩ := fails_or_takes q before text
    · cases text with
      | nil => exact ⟨[], .stop trivial (fails_nil hq)⟩
      | cons c text =>
          obtain ⟨found, hfound⟩ := ih text.length (by simp at hn; omega) (c :: before) text rfl
          exact ⟨found, Finds.skip (v := [c]) ⟨by simpa using hfails, trivial⟩ hfound⟩
    · have hw : w ≠ [] := by
        rintro rfl
        simp [nullable_of_reads q htakes.reads] at hq
      have hlength := List.length_pos_iff.mpr hw
      obtain ⟨found, hfound⟩ := ih rest.length (by simp at hn; omega) (w.reverse ++ before) rest rfl
      exact ⟨_, .found (u := []) trivial htakes hw hfound⟩

/-- The scans of two texts are the scan of both, if no reading goes on from the first into the
second. -/
theorem Finds.append {found₁ found₂ : List (List Char × Captures)} (hq : q.isLed = true)
    (halike : Alike before before') (hstays : q.StaysIn u next)
    (h₁ : Finds q before' u found₁) (h₂ : Finds q (u.reverse ++ before) next found₂) :
    Finds q before (u ++ next) (extend next found₁ ++ found₂) := by
  induction h₁ generalizing before with
  | @stop _ u hsilent _ =>
      have hstays' : q.StaysIn (u ++ []) next := by rwa [List.append_nil]
      exact h₂.skip (hstays'.silent hq halike hsilent)
  | @found before' v w rest caught found hsilent htakes hw _ ih =>
      have hrest : rest <:+ v ++ (w ++ rest) := ⟨v ++ w, by simp⟩
      have hbehind := (halike.append v.reverse).append w.reverse
      have hfound := ih hbehind (hstays.suffix hrest) (by simpa using h₂)
      have htakes' := (hstays.suffix (List.suffix_append v _)).takes hq
        (halike.append v.reverse) hw htakes
      have hsilent' := hstays.silent hq halike hsilent
      rw [List.append_assoc] at hsilent'
      simpa [extend] using Finds.found hsilent' htakes' hw hfound

/-- A scan comes upon the same behind another text that is like the one before it. -/
lemma Finds.alike {found : List (List Char × Captures)} (h : Finds q before' u found)
    (hq : q.isLed = true) (hnull : q.nullable = false) (halike : Alike before before') :
    Finds q before u found := by
  have hend : Finds q (u.reverse ++ before) [] [] := .stop trivial (fails_nil hnull)
  simpa [extend] using h.append hq halike (staysIn_nil u) hend

/-- What a scan comes upon was read where it stands. -/
lemma Finds.exists_reads {found : List (List Char × Captures)} (h : Finds q before u found) :
    ∀ yield ∈ found, ∃ v w, u = v ++ (w ++ yield.1) ∧ q.Reads (v.reverse ++ before) w yield.1 := by
  induction h with
  | stop => simp
  | @found before v w rest caught found _ htakes _ _ ih =>
      refine List.forall_mem_cons.mpr ⟨⟨v, w, rfl, htakes.reads⟩, fun yield hyield => ?_⟩
      obtain ⟨v', w', rfl, hread⟩ := ih yield hyield
      exact ⟨v ++ (w ++ v'), w', by simp, by simpa using hread⟩

/-! ### Searches of free patterns -/

/-- What a free pattern reads does not depend on what stands before it. -/
lemma outcomes_of_isFree (hq : q.isFree = true) (before before' text : List Char) :
    q.outcomes before text = q.outcomes before' text := by
  have hwithin : ∀ before, (q.outcomes before (text ++ [])).filter (Outcome.within text)
      = q.outcomes before' text := fun _ => filter_outcomes_of_isFree q hq
  have hself : (q.outcomes before (text ++ [])).filter (Outcome.within text)
      = q.outcomes before text :=
    filter_outcomes_of_isFree q hq
  exact hself.symm.trans (hwithin before)

/-- Nor does it depend on what follows. -/
lemma reads_of_isFree (q : Pattern) (hq : q.isFree = true) (h : q.Reads before w rest)
    (before' rest' : List Char) : q.Reads before' w rest' := by
  induction q generalizing before w rest before' rest' with
  | empty | one | many => exact h
  | seq a b iha ihb =>
      simp only [isFree, Bool.and_eq_true] at hq
      obtain ⟨u, v, rfl, ha, hb⟩ := h
      exact ⟨u, v, rfl, iha hq.1 ha _ _, ihb hq.2 hb _ _⟩
  | alt a b iha ihb =>
      simp only [isFree, Bool.and_eq_true] at hq
      exact h.imp (iha hq.1 · _ _) (ihb hq.2 · _ _)
  | group n a ih => exact ih hq h _ _
  | star _ | wordEdge | lineStart | textStart | textEnd => simp [isFree] at hq

lemma occursIn_append_left (hq : q.isFree = true) (h : q.occursIn u = true) (v : List Char) :
    q.occursIn (u ++ v) = true := by
  obtain ⟨x, w, rest, rfl, hread⟩ := occursIn_iff_reads.mp h
  exact occursIn_iff_reads.mpr ⟨x, w, rest ++ v, by simp, reads_of_isFree q hq hread _ _⟩

lemma silent_of_isFree (hq : q.isFree = true) (h : Silent q before u v) : Silent q before' u v := by
  induction u generalizing before before' with
  | nil => trivial
  | cons c u ih =>
      refine ⟨?_, ih h.2⟩
      rw [← outcomes_eq_nil_iff, outcomes_of_isFree hq before' before, outcomes_eq_nil_iff]
      exact h.1

lemma Finds.of_isFree {found : List (List Char × Captures)} (h : Finds q before u found)
    (hq : q.isFree = true) (before' : List Char) : Finds q before' u found := by
  induction h generalizing before' with
  | @stop before u hsilent hend =>
      refine .stop (silent_of_isFree hq hsilent) ?_
      rw [← outcomes_eq_nil_iff, outcomes_of_isFree hq _ (u.reverse ++ before), outcomes_eq_nil_iff]
      exact hend
  | @found before v w rest caught found hsilent htakes hw _ ih =>
      refine .found (silent_of_isFree hq hsilent) ?_ hw (ih _)
      rw [takes_iff, outcomes_of_isFree hq _ (v.reverse ++ before)]
      exact takes_iff.mp htakes

/-- What a free pattern finds first in two texts is what it finds in the first of them, or else in
the second, if no reading goes on from the first into the second. -/
theorem map_captures_find?_append (hq : q.isFree = true) (hled : q.isLed = true)
    (hnull : q.nullable = false) (hstays : q.StaysIn u next) :
    (q.find? (u ++ next)).map Match.captures
      = ((q.find? u).map Match.captures).or ((q.find? next).map Match.captures) := by
  have hcaptures : ∀ {text : List Char} {found : List (List Char × Captures)},
      Finds q [] text found →
      (q.find? text).map Match.captures = found.head?.map Prod.snd := fun hfinds => by
    rw [← find?_of_finds hfinds, Option.map_map]
    rfl
  obtain ⟨found, hfound⟩ := exists_finds hnull [] u
  obtain ⟨found', hfound'⟩ := exists_finds hnull [] next
  rw [hcaptures (hfound.append hled (Alike.refl []) hstays (hfound'.of_isFree hq _)),
    hcaptures hfound, hcaptures hfound', extend]
  cases found <;> simp

end SchemaReader.Pattern
