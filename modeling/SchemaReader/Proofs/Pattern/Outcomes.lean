/-
What a pattern can read at a place, in the order in which it is tried.

* `Pattern.outcomes`: the pieces of text that a pattern can read, each with what its groups
  remember, the preferred one first;
* `Pattern.run_eq`: matching tries its continuation behind one outcome after the other;
* `Pattern.mem_outcomes_iff`: the outcomes of a pattern are its readings;
* `Pattern.takes_iff`: a pattern takes the first of its outcomes, so that it takes something or
  reads nothing: `Pattern.fails_or_takes`;
* `Pattern.occursIn_iff_reads`: a pattern occurs in a text exactly where it reads a piece of it.
-/
import Mathlib.Data.List.Infix
import SchemaReader.Proofs.Pattern.Search

namespace SchemaReader.Pattern

/-- A piece of text that was read, and what groups remember of it, newest first. -/
abbrev Outcome := List Char × Captures

/-- One outcome followed by another. -/
def Outcome.andThen (first second : Outcome) : Outcome :=
  (first.1 ++ second.1, second.2 ++ first.2)

/-- The outcomes of at most `fuel` rounds of a body, none of which reads nothing. -/
def roundOutcomes (body : (before text : List Char) → List Outcome) :
    (fuel : Nat) → (before text : List Char) → List Outcome
  | 0, _, _ => [([], [])]
  | fuel + 1, before, text =>
    ((body before text).flatMap fun o => if o.1 = [] then [] else
      (roundOutcomes body fuel (o.1.reverse ++ before) (text.drop o.1.length)).map o.andThen) ++
        [([], [])]

/-- What a pattern can read at the start of `text`, behind `before`, nearest character first. -/
def outcomes : Pattern → (before text : List Char) → List Outcome
  | .empty, _, _ => [([], [])]
  | .one p, _, text => match text with
    | [] => []
    | c :: _ => if p c then [([c], [])] else []
  | .many p, _, text => (text.takeWhile p).inits.reverse.map fun w => (w, [])
  | .seq a b, before, text => (a.outcomes before text).flatMap fun o =>
      (b.outcomes (o.1.reverse ++ before) (text.drop o.1.length)).map o.andThen
  | .alt a b, before, text => a.outcomes before text ++ b.outcomes before text
  | .star a, before, text => roundOutcomes a.outcomes text.length before text
  | .group n a, before, text => (a.outcomes before text).map fun o => (o.1, (n, o.1) :: o.2)
  | .wordEdge, before, text => if (Cursor.mk before text 0).atWordEdge then [([], [])] else []
  | .lineStart, before, text => if (Cursor.mk before text 0).atLineStart then [([], [])] else []
  | .textStart, before, _ => if before.isEmpty then [([], [])] else []
  | .textEnd, _, text => if text.isEmpty then [([], [])] else []

variable {α : Type} {a b q : Pattern} {p : Char → Bool} {before text u v w rest : List Char}
  {caught : Captures} {o : Outcome} {d : Char}

/-! ### Outcomes are readings -/

/-- What rounds read, if each outcome of their body is a reading of it. -/
lemma rounds_of_mem_roundOutcomes {body : (before text : List Char) → List Outcome}
    {R : List Char → List Char → List Char → Prop}
    (hbody : ∀ before text, ∀ o ∈ body before text, ∃ rest, text = o.1 ++ rest ∧ R before o.1 rest)
    {fuel : Nat} (h : o ∈ roundOutcomes body fuel before text) :
    ∃ rest, text = o.1 ++ rest ∧ Rounds R before o.1 rest := by
  induction fuel generalizing before text o with
  | zero =>
      obtain rfl := List.mem_singleton.mp h
      exact ⟨text, rfl, .stop _ _⟩
  | succ fuel ih =>
      rw [roundOutcomes, List.mem_append, List.mem_singleton] at h
      rcases h with h | rfl
      · obtain ⟨first, hfirst, h⟩ := List.mem_flatMap.mp h
        split at h
        · simp at h
        · obtain ⟨second, hsecond, rfl⟩ := List.mem_map.mp h
          obtain ⟨rest, rfl, hread⟩ := hbody _ _ _ hfirst
          rw [List.drop_left] at hsecond
          obtain ⟨rest, rfl, hrounds⟩ := ih hsecond
          exact ⟨rest, by simp [Outcome.andThen], .round hread hrounds⟩
      · exact ⟨text, rfl, .stop _ _⟩

/-- An outcome is a reading of the beginning of the text. -/
lemma reads_of_mem_outcomes (q : Pattern) (h : o ∈ q.outcomes before text) :
    ∃ rest, text = o.1 ++ rest ∧ q.Reads before o.1 rest := by
  induction q generalizing before text o with
  | empty =>
      obtain rfl := List.mem_singleton.mp h
      exact ⟨text, rfl, rfl⟩
  | one p =>
      cases text with
      | nil => simp [outcomes] at h
      | cons c rest =>
          simp only [outcomes] at h
          split at h
          · next hc =>
              obtain rfl := List.mem_singleton.mp h
              exact ⟨rest, rfl, c, hc, rfl⟩
          · simp at h
  | many p =>
      obtain ⟨w, hw, rfl⟩ := List.mem_map.mp h
      obtain ⟨v, hv⟩ := (List.mem_inits _ _).mp (List.mem_reverse.mp hw)
      refine ⟨v ++ text.dropWhile p, ?_, fun c hc => ?_⟩
      · rw [← List.append_assoc, hv, List.takeWhile_append_dropWhile]
      · have hmem : c ∈ text.takeWhile p := hv ▸ List.mem_append_left v hc
        exact List.all_eq_true.mp List.all_takeWhile c hmem
  | seq a b iha ihb =>
      obtain ⟨first, hfirst, h⟩ := List.mem_flatMap.mp h
      obtain ⟨second, hsecond, rfl⟩ := List.mem_map.mp h
      obtain ⟨rest, rfl, ha⟩ := iha hfirst
      rw [List.drop_left] at hsecond
      obtain ⟨rest, rfl, hb⟩ := ihb hsecond
      exact ⟨rest, by simp [Outcome.andThen], _, _, rfl, ha, hb⟩
  | alt a b iha ihb =>
      rcases List.mem_append.mp h with h | h
      · obtain ⟨rest, htext, ha⟩ := iha h
        exact ⟨rest, htext, Or.inl ha⟩
      · obtain ⟨rest, htext, hb⟩ := ihb h
        exact ⟨rest, htext, Or.inr hb⟩
  | star a ih => exact rounds_of_mem_roundOutcomes (fun _ _ _ => ih) h
  | group n a ih =>
      obtain ⟨inner, hinner, rfl⟩ := List.mem_map.mp h
      exact ih (o := inner) hinner
  | wordEdge | lineStart | textStart | textEnd =>
      simp only [outcomes] at h
      split at h
      · next hplace =>
          obtain rfl := List.mem_singleton.mp h
          exact ⟨text, rfl, rfl, by simpa using hplace⟩
      · simp at h

/-- Rounds are read in as many rounds as they have characters. -/
lemma exists_mem_roundOutcomes {body : (before text : List Char) → List Outcome}
    {R : List Char → List Char → List Char → Prop}
    (hbody : ∀ before w rest, R before w rest → ∃ caught, (w, caught) ∈ body before (w ++ rest))
    (h : Rounds R before w rest) {fuel : Nat} (hfuel : w.length ≤ fuel) :
    ∃ caught, (w, caught) ∈ roundOutcomes body fuel before (w ++ rest) := by
  induction h generalizing fuel with
  | stop => cases fuel <;> exact ⟨[], by simp [roundOutcomes]⟩
  | @round before u v rest hread _ ih =>
      cases u with
      | nil => exact ih hfuel
      | cons c u =>
          obtain ⟨fuel, rfl⟩ : ∃ n, fuel = n + 1 :=
            Nat.exists_eq_succ_of_ne_zero (by rintro rfl; simp at hfuel)
          obtain ⟨caught₁, hfirst⟩ := hbody _ _ _ hread
          have hshort : v.length ≤ fuel := by
            simp at hfuel
            omega
          obtain ⟨caught₂, hsecond⟩ := ih hshort
          refine ⟨caught₂ ++ caught₁, List.mem_append_left _ (List.mem_flatMap.mpr ?_)⟩
          rw [List.append_assoc]
          refine ⟨_, hfirst, ?_⟩
          rw [if_neg (List.cons_ne_nil c u), List.drop_left]
          exact List.mem_map.mpr ⟨_, hsecond, rfl⟩

/-- A reading is an outcome. -/
lemma exists_mem_outcomes (q : Pattern) (h : q.Reads before w rest) :
    ∃ caught, (w, caught) ∈ q.outcomes before (w ++ rest) := by
  induction q generalizing before w rest with
  | empty =>
      obtain rfl := h
      exact ⟨[], List.mem_singleton_self _⟩
  | one p =>
      obtain ⟨c, hc, rfl⟩ := h
      exact ⟨[], by simp [outcomes, hc]⟩
  | many p =>
      refine ⟨[], List.mem_map.mpr ⟨w, List.mem_reverse.mpr ((List.mem_inits _ _).mpr ?_), rfl⟩⟩
      rw [List.takeWhile_append_of_pos h]
      exact List.prefix_append _ _
  | seq a b iha ihb =>
      obtain ⟨u, v, rfl, ha, hb⟩ := h
      obtain ⟨caught₁, hfirst⟩ := iha ha
      obtain ⟨caught₂, hsecond⟩ := ihb hb
      refine ⟨caught₂ ++ caught₁, List.mem_flatMap.mpr ?_⟩
      rw [List.append_assoc]
      refine ⟨_, hfirst, ?_⟩
      rw [List.drop_left]
      exact List.mem_map.mpr ⟨_, hsecond, rfl⟩
  | alt a b iha ihb =>
      rcases h with h | h
      · exact (iha h).imp fun _ => List.mem_append_left _
      · exact (ihb h).imp fun _ => List.mem_append_right _
  | star a ih =>
      refine exists_mem_roundOutcomes (fun _ _ _ hread => ih hread) h ?_
      rw [List.length_append]
      exact Nat.le_add_right _ _
  | group n a ih =>
      obtain ⟨caught, hcaught⟩ := ih h
      exact ⟨(n, w) :: caught, List.mem_map.mpr ⟨_, hcaught, rfl⟩⟩
  | wordEdge | lineStart | textStart | textEnd =>
      obtain ⟨rfl, hplace⟩ := h
      exact ⟨[], by simp [outcomes, hplace]⟩

/-- The outcomes of a pattern are its readings. -/
theorem mem_outcomes_iff : (∃ caught, (w, caught) ∈ q.outcomes before text) ↔
    ∃ rest, text = w ++ rest ∧ q.Reads before w rest := by
  constructor
  · rintro ⟨caught, h⟩
    exact reads_of_mem_outcomes q h
  · rintro ⟨rest, rfl, h⟩
    exact exists_mem_outcomes q h

lemma outcomes_eq_nil_iff : q.outcomes before text = [] ↔ q.Fails before text := by
  rw [List.eq_nil_iff_forall_not_mem]
  constructor
  · rintro h w rest rfl hread
    obtain ⟨caught, hmem⟩ := exists_mem_outcomes q hread
    exact h _ hmem
  · intro h o ho
    obtain ⟨rest, htext, hread⟩ := reads_of_mem_outcomes q ho
    exact h _ _ htext hread

/-! ### Matching tries the outcomes in their order -/

/-- Goes on behind an outcome. -/
def resume (k : Continuation α) (before text : List Char) (n : Nat) (m : Captures) (o : Outcome) :
    Option α :=
  k ⟨o.1.reverse ++ before, text.drop o.1.length, n + o.1.length⟩ (o.2 ++ m)

lemma resume_nothing (k : Continuation α) (n : Nat) (m : Captures) :
    resume k before text n m ([], []) = k ⟨before, text, n⟩ m := rfl

/-- To go on behind two outcomes is to go on behind the second one behind the first. -/
lemma resume_andThen (k : Continuation α) (n : Nat) (m : Captures) (first second : Outcome) :
    resume k before text n m (first.andThen second)
      = resume k (first.1.reverse ++ before) (text.drop first.1.length) (n + first.1.length)
          (first.2 ++ m) second := by
  simp [resume, Outcome.andThen, List.drop_drop, Nat.add_assoc]

lemma findSome?_flatMap {β γ : Type} (xs : List β) (f : β → List γ) (g : γ → Option α) :
    (xs.flatMap f).findSome? g = xs.findSome? fun x => (f x).findSome? g := by
  induction xs with
  | nil => rfl
  | cons x xs ih =>
      rw [List.flatMap_cons, List.findSome?_append, ih, List.findSome?_cons]
      cases (f x).findSome? g <;> rfl

lemma findSome?_congr {β : Type} {xs : List β} {f g : β → Option α} (h : ∀ x ∈ xs, f x = g x) :
    xs.findSome? f = xs.findSome? g := by
  induction xs with
  | nil => rfl
  | cons x xs ih =>
      rw [List.forall_mem_cons] at h
      rw [List.findSome?_cons, List.findSome?_cons, h.1, ih h.2]

/-- A condition on a place, read as the pattern of nothing. -/
lemma findSome?_ite_resume (c : Prop) [Decidable c] (k : Continuation α) (n : Nat) (m : Captures) :
    (if c then [([], [])] else []).findSome? (resume k before text n m)
      = if c then k ⟨before, text, n⟩ m else none := by
  split
  · rw [List.findSome?_singleton, resume_nothing]
  · rfl

/-- Giving back goes through the beginnings of what was read, the longest one first. -/
lemma giveBack_eq (k : Cursor → Option α) (before w rest : List Char) (n : Nat) :
    giveBack k w.length ⟨w.reverse ++ before, rest, n + w.length⟩
      = w.inits.reverse.findSome? fun u =>
          k ⟨u.reverse ++ before, (w ++ rest).drop u.length, n + u.length⟩ := by
  induction w using List.reverseRecOn generalizing rest with
  | nil => cases h : k ⟨before, rest, n⟩ <;> simp [giveBack, h]
  | append_singleton w c ih =>
      have hback : Cursor.back ⟨(w ++ [c]).reverse ++ before, rest, n + (w.length + 1)⟩
          = ⟨w.reverse ++ before, c :: rest, n + w.length⟩ := by
        simp [Cursor.back, ← Nat.add_assoc]
      have hinits : (w ++ [c]).inits.reverse = (w ++ [c]) :: w.inits.reverse := by
        simp [List.inits_append]
      have htext : w ++ [c] ++ rest = w ++ c :: rest := by simp
      rw [List.length_append, List.length_singleton, giveBack, hback, ih, hinits,
        List.findSome?_cons, List.drop_left, List.length_append, List.length_singleton, htext]
      rfl

lemma repeatBody_eq {body : Continuation α → Continuation α}
    {bodyOutcomes : (before text : List Char) → List Outcome}
    (hbody : ∀ (k : Continuation α) before text n m, body k ⟨before, text, n⟩ m
      = (bodyOutcomes before text).findSome? (resume k before text n m))
    (k : Continuation α) (fuel : Nat) (before text : List Char) (n : Nat) (m : Captures) :
    repeatBody body k fuel ⟨before, text, n⟩ m
      = (roundOutcomes bodyOutcomes fuel before text).findSome? (resume k before text n m) := by
  induction fuel generalizing before text n m with
  | zero =>
      rw [repeatBody, roundOutcomes, List.findSome?_cons, resume_nothing]
      cases k ⟨before, text, n⟩ m <;> rfl
  | succ fuel ih =>
      have hround : resume (fun t m' => if t.offset = n then none
          else repeatBody body k fuel t m') before text n m
            = fun o => (if o.1 = [] then [] else (roundOutcomes bodyOutcomes fuel
                (o.1.reverse ++ before) (text.drop o.1.length)).map o.andThen).findSome?
                  (resume k before text n m) := by
        funext o
        by_cases ho : o.1 = []
        · simp [resume, ho]
        · have hlength : n + o.1.length ≠ n := by
            have := List.length_pos_iff.mpr ho
            omega
          rw [resume, if_neg hlength, if_neg ho, ih, List.findSome?_map]
          simp only [Function.comp_def, resume_andThen]
      rw [repeatBody, roundOutcomes, List.findSome?_append, findSome?_flatMap, hbody, ← hround,
        List.findSome?_singleton, resume_nothing]
      cases (bodyOutcomes before text).findSome? _ <;> rfl

/-- Matching tries the continuation behind one outcome after the other. -/
theorem run_eq (q : Pattern) (k : Continuation α) (before text : List Char) (n : Nat)
    (m : Captures) : q.run k ⟨before, text, n⟩ m
      = (q.outcomes before text).findSome? (resume k before text n m) := by
  induction q generalizing k before text n m with
  | empty => simp [run, outcomes, resume_nothing]
  | one p =>
      cases text with
      | nil => rfl
      | cons c rest =>
          simp only [run, outcomes]
          split <;> simp [resume, Cursor.advance]
  | many p =>
      simp only [run, Cursor.skipWhile, skipWhileLoop_eq, Nat.add_sub_cancel_left, outcomes,
        giveBack_eq, List.takeWhile_append_dropWhile, List.findSome?_map]
      rfl
  | seq a b iha ihb =>
      simp only [run, outcomes, iha, findSome?_flatMap, List.findSome?_map, Function.comp_def,
        resume_andThen]
      exact congrArg (List.findSome? · _) (funext fun o => ihb _ _ _ _ _)
  | alt a b iha ihb =>
      simp only [run, outcomes, iha, ihb, List.findSome?_append]
      cases (a.outcomes before text).findSome? (resume k before text n m) <;> rfl
  | star a ih => exact repeatBody_eq (fun k before text n m => ih k before text n m) k _ _ _ _ _
  | group i a ih =>
      simp only [run, outcomes, ih, List.findSome?_map]
      refine findSome?_congr fun o ho => ?_
      obtain ⟨rest, rfl, -⟩ := reads_of_mem_outcomes a ho
      simp [resume, Cursor.textTo]
  | wordEdge | lineStart | textStart | textEnd => exact (findSome?_ite_resume _ k n m).symm

/-! ### The preferred outcome -/

/-- Where a pattern takes a text, it reads it. -/
lemma Takes.reads (h : q.Takes before w rest caught) : q.Reads before w rest := by
  have hrun := h Cursor (fun t _ => some t) 0 [] rfl
  obtain ⟨v, rest', -, htext, hread, hstop⟩ := q.reads_of_run hrun
  obtain ⟨-, rfl, -⟩ := Cursor.mk.inj (Option.some.inj hstop)
  obtain rfl := List.append_cancel_right htext
  exact hread

/-- At one place, a pattern takes one text. -/
lemma Takes.unique {rest' : List Char} {caught' : Captures} (h : q.Takes before w rest caught)
    (h' : q.Takes before v rest' caught') (htext : w ++ rest = v ++ rest') :
    w = v ∧ caught = caught' := by
  have hmatch := matchAt?_of_takes h 0
  rw [htext, matchAt?_of_takes h' 0] at hmatch
  simp only [Option.some.injEq, Match.mk.injEq, Cursor.mk.injEq, true_and] at hmatch
  obtain ⟨⟨-, rfl, -⟩, rfl⟩ := hmatch
  exact ⟨List.append_cancel_right htext, rfl⟩

lemma takes_of_head? (h : (q.outcomes before (w ++ rest)).head? = some (w, caught)) :
    q.Takes before w rest caught := by
  intro α k n m hk
  obtain ⟨os, hos⟩ := List.head?_eq_some_iff.mp h
  obtain ⟨r, hr⟩ := Option.isSome_iff_exists.mp hk
  have hfirst : resume k before (w ++ rest) n m (w, caught) = some r := by
    rw [resume, List.drop_left, hr]
  rw [run_eq, hos, List.findSome?_cons, hfirst, hr]

/-- At the start of a text, a pattern takes something or reads nothing. -/
theorem fails_or_takes (q : Pattern) (before text : List Char) :
    q.Fails before text ∨ ∃ w rest caught, text = w ++ rest ∧ q.Takes before w rest caught := by
  cases houtcomes : q.outcomes before text with
  | nil => exact Or.inl (outcomes_eq_nil_iff.mp houtcomes)
  | cons o os =>
      obtain ⟨rest, rfl, -⟩ := reads_of_mem_outcomes q (houtcomes ▸ List.mem_cons_self)
      refine Or.inr ⟨o.1, rest, o.2, rfl, takes_of_head? ?_⟩
      rw [houtcomes, List.head?_cons]

/-- A pattern takes the first of its outcomes. -/
theorem takes_iff : q.Takes before w rest caught ↔
    (q.outcomes before (w ++ rest)).head? = some (w, caught) := by
  refine ⟨fun h => ?_, takes_of_head?⟩
  cases houtcomes : q.outcomes before (w ++ rest) with
  | nil => exact absurd h.reads (outcomes_eq_nil_iff.mp houtcomes w rest rfl)
  | cons o os =>
      obtain ⟨rest', htext, -⟩ := reads_of_mem_outcomes q (houtcomes ▸ List.mem_cons_self)
      have hfirst : q.Takes before o.1 rest' o.2 := by
        refine takes_of_head? ?_
        rw [← htext, houtcomes, List.head?_cons]
      obtain ⟨rfl, rfl⟩ := h.unique hfirst htext
      rw [List.head?_cons]

/-- A repetition gives its last character back to what needs it. -/
lemma takes_many_append_back (hw : ∀ c ∈ w ++ [d], p c = true)
    (hfails : q.Fails ((w ++ [d]).reverse ++ before) [])
    (hq : q.Takes (w.reverse ++ before) [d] [] caught)
    (i : Nat) : (group i (many p) ++ q).Takes before (w ++ [d]) [] (caught ++ [(i, w)]) := by
  have hinits : ∃ shorter, (w ++ [d]).inits.reverse = (w ++ [d]) :: w :: shorter := by
    obtain ⟨shorter, hshorter⟩ : ∃ shorter, w.inits.reverse = w :: shorter := by
      induction w using List.reverseRecOn with
      | nil => exact ⟨[], rfl⟩
      | append_singleton w c _ => exact ⟨w.inits.reverse, by simp [List.inits_append]⟩
    exact ⟨shorter, by simp [List.inits_append, hshorter]⟩
  obtain ⟨shorter, hshorter⟩ := hinits
  have htake : (w ++ [d]).takeWhile p = w ++ [d] := by
    simpa using Text.takeWhile_append_of_stops hw Text.stops_nil
  rw [takes_iff, List.append_nil] at hq ⊢
  obtain ⟨others, hothers⟩ := List.head?_eq_some_iff.mp hq
  have houtcomes : (group i (many p)).outcomes before (w ++ [d])
      = (w ++ [d], [(i, w ++ [d])]) :: (w, [(i, w)]) :: shorter.map fun v => (v, [(i, v)]) := by
    rw [outcomes, outcomes, htake, hshorter]
    simp
  change ((Pattern.seq (group i (many p)) q).outcomes before (w ++ [d])).head? = _
  rw [outcomes, houtcomes]
  simp only [List.flatMap_cons, List.drop_length, outcomes_eq_nil_iff.mpr hfails,
    List.drop_left, hothers, List.map_cons, List.map_nil, List.nil_append, List.cons_append,
    List.head?_cons, Outcome.andThen]

/-! ### Patterns that occur -/

/-- A pattern occurs in a text exactly where it reads a piece of it. -/
theorem occursIn_iff_reads : q.occursIn text = true ↔
    ∃ u w rest, text = u ++ (w ++ rest) ∧ q.Reads u.reverse w rest := by
  constructor
  · contrapose!
    intro h
    have hfails : ∀ u rest, text = u ++ rest → q.Fails u.reverse rest := by
      rintro u rest rfl w rest' rfl
      exact h u w rest' rfl
    have hsilent : Silent q [] text [] := silent_of_forall fun u c v htext => by
      simpa using hfails u (c :: v) htext
    simp [not_occursIn hsilent (hfails text [] (by simp))]
  · rintro ⟨u, w, rest, rfl, hread⟩
    rcases fails_or_takes q u.reverse (w ++ rest) with hfails | ⟨v, rest', caught, htext, htakes⟩
    · exact absurd hread (hfails w rest rfl)
    · rw [htext]
      exact occursIn_of_takes htakes

end SchemaReader.Pattern
