/-
What a pattern can read.

* `Pattern.Reads`: a pattern reads a piece of text that stands between two others, in any order of
  preference;
* `Pattern.reads_of_run`: where matching comes to a result, its continuation came to it after some
  text that the pattern reads;
* `Pattern.Fails`: a pattern reads nothing at the start of a text, and `Pattern.run_of_fails`:
  matching finds nothing there; with rules for sequences, which are read from the left.
-/
import Mathlib.Data.List.Induction
import Mathlib.Tactic.Lemma
import SchemaReader.Pattern.Search

namespace SchemaReader

/-- Rounds of a reading, one after the other. -/
inductive Rounds (R : List Char → List Char → List Char → Prop) :
    List Char → List Char → List Char → Prop where
  | stop (before rest : List Char) : Rounds R before [] rest
  | round {before w v rest : List Char} : R before w (v ++ rest) →
      Rounds R (w.reverse ++ before) v rest → Rounds R before (w ++ v) rest

namespace Pattern

/-- A pattern reads the text `w` between `before`, nearest character first, and `rest`. -/
def Reads : Pattern → (before w rest : List Char) → Prop
  | .empty => fun _ w _ => w = []
  | .one p => fun _ w _ => ∃ c, p c ∧ w = [c]
  | .many p => fun _ w _ => ∀ c ∈ w, p c
  | .seq a b => fun before w rest =>
      ∃ u v, w = u ++ v ∧ a.Reads before u (v ++ rest) ∧ b.Reads (u.reverse ++ before) v rest
  | .alt a b => fun before w rest => a.Reads before w rest ∨ b.Reads before w rest
  | .star a => Rounds a.Reads
  | .group _ a => a.Reads
  | .wordEdge => fun before w rest => w = [] ∧ (Cursor.mk before rest 0).atWordEdge
  | .lineStart => fun before w rest => w = [] ∧ (Cursor.mk before rest 0).atLineStart
  | .textStart => fun before w _ => w = [] ∧ before = []
  | .textEnd => fun _ w rest => w = [] ∧ rest = []

/-! ### Matching reads -/

variable {α : Type}

lemma skipWhileLoop_eq (p : Char → Bool) (before text : List Char) (n : Nat) :
    skipWhileLoop p before n text = ⟨(text.takeWhile p).reverse ++ before, text.dropWhile p,
      n + (text.takeWhile p).length⟩ := by
  induction text generalizing before n with
  | nil => rfl
  | cons c rest ih =>
      rw [skipWhileLoop]
      split
      · next h => simp [ih, h, Nat.add_assoc, Nat.add_comm 1]
      · next h => simp [h]

/-- What is given back is the end of what was read. -/
lemma giveBack_eq_some {k : Cursor → Option α} {before w rest : List Char} {n : Nat} {r : α}
    (h : giveBack k w.length ⟨w.reverse ++ before, rest, n + w.length⟩ = some r) :
    ∃ u v, w = u ++ v ∧ k ⟨u.reverse ++ before, v ++ rest, n + u.length⟩ = some r := by
  induction w using List.reverseRecOn generalizing rest with
  | nil => exact ⟨[], [], rfl, by simpa [giveBack] using h⟩
  | append_singleton w c ih =>
      rw [List.length_append, List.length_singleton, giveBack] at h
      split at h
      · next hk =>
          obtain rfl := Option.some.inj h
          exact ⟨w ++ [c], [], by simp, by simpa using hk⟩
      · have hback : Cursor.back ⟨(w ++ [c]).reverse ++ before, rest, n + (w.length + 1)⟩
            = ⟨w.reverse ++ before, c :: rest, n + w.length⟩ := by
          simp [Cursor.back, ← Nat.add_assoc]
        rw [hback] at h
        obtain ⟨u, v, rfl, hk⟩ := ih h
        exact ⟨u, v ++ [c], by simp, by simpa using hk⟩

/-- A result of a repetition comes from its continuation, after rounds of its body. -/
lemma repeatBody_eq_some {body : Continuation α → Continuation α}
    {R : List Char → List Char → List Char → Prop}
    (hbody : ∀ (k : Continuation α) before text n m r, body k ⟨before, text, n⟩ m = some r →
      ∃ w rest m', text = w ++ rest ∧ R before w rest ∧
        k ⟨w.reverse ++ before, rest, n + w.length⟩ m' = some r)
    {k : Continuation α} {fuel : Nat} {before text : List Char} {n : Nat} {m : Captures} {r : α}
    (h : repeatBody body k fuel ⟨before, text, n⟩ m = some r) :
    ∃ w rest m', text = w ++ rest ∧ Rounds R before w rest ∧
      k ⟨w.reverse ++ before, rest, n + w.length⟩ m' = some r := by
  induction fuel generalizing before text n m with
  | zero => exact ⟨[], text, m, rfl, .stop _ _, h⟩
  | succ fuel ih =>
      rw [repeatBody] at h
      split at h
      · next hround =>
          obtain rfl := Option.some.inj h
          obtain ⟨u, rest, m', rfl, hu, hk⟩ := hbody _ _ _ _ _ _ hround
          split at hk
          · simp at hk
          · obtain ⟨v, rest, m'', rfl, hv, hk⟩ := ih hk
            refine ⟨u ++ v, rest, m'', by simp, .round hu hv, ?_⟩
            simpa [Nat.add_assoc] using hk
      · exact ⟨[], text, m, rfl, .stop _ _, h⟩

/-- Where matching comes to a result, its continuation came to it after some text that the pattern
reads. -/
theorem reads_of_run (p : Pattern) {k : Continuation α} {before text : List Char} {n : Nat}
    {m : Captures} {r : α} (h : p.run k ⟨before, text, n⟩ m = some r) :
    ∃ w rest m', text = w ++ rest ∧ p.Reads before w rest ∧
      k ⟨w.reverse ++ before, rest, n + w.length⟩ m' = some r := by
  induction p generalizing k before text n m r with
  | empty => exact ⟨[], text, m, rfl, rfl, h⟩
  | one q =>
      cases text with
      | nil => simp [run] at h
      | cons c rest =>
          simp only [run] at h
          split at h
          · next hc => exact ⟨[c], rest, m, rfl, ⟨c, hc, rfl⟩, h⟩
          · simp at h
  | many q =>
      simp only [run, Cursor.skipWhile, skipWhileLoop_eq, Nat.add_sub_cancel_left] at h
      obtain ⟨u, v, huv, hk⟩ := giveBack_eq_some h
      refine ⟨u, v ++ text.dropWhile q, m, ?_, fun c hc => ?_, hk⟩
      · rw [← List.append_assoc, ← huv, List.takeWhile_append_dropWhile]
      · have hmem : c ∈ text.takeWhile q := huv ▸ List.mem_append_left v hc
        exact List.all_eq_true.mp List.all_takeWhile c hmem
  | seq a b iha ihb =>
      obtain ⟨u, rest, m', rfl, hu, hk⟩ := iha h
      obtain ⟨v, rest, m'', rfl, hv, hk⟩ := ihb hk
      refine ⟨u ++ v, rest, m'', by simp, ⟨u, v, rfl, hu, hv⟩, ?_⟩
      simpa [Nat.add_assoc] using hk
  | alt a b iha ihb =>
      simp only [run] at h
      split at h
      · next ha =>
          obtain rfl := Option.some.inj h
          obtain ⟨w, rest, m', htext, hw, hk⟩ := iha ha
          exact ⟨w, rest, m', htext, Or.inl hw, hk⟩
      · obtain ⟨w, rest, m', htext, hw, hk⟩ := ihb h
        exact ⟨w, rest, m', htext, Or.inr hw, hk⟩
  | star a ih => exact repeatBody_eq_some (fun k before text n m r h => ih h) h
  | group i a ih =>
      obtain ⟨w, rest, m', htext, hw, hk⟩ := ih h
      exact ⟨w, rest, _, htext, hw, hk⟩
  | wordEdge =>
      simp only [run] at h
      split at h
      · next hedge => exact ⟨[], text, m, rfl, ⟨rfl, hedge⟩, h⟩
      · simp at h
  | lineStart =>
      simp only [run] at h
      split at h
      · next hstart => exact ⟨[], text, m, rfl, ⟨rfl, hstart⟩, h⟩
      · simp at h
  | textStart =>
      simp only [run] at h
      split at h
      · next hstart => exact ⟨[], text, m, rfl, ⟨rfl, by simpa using hstart⟩, h⟩
      · simp at h
  | textEnd =>
      simp only [run] at h
      split at h
      · next hend => exact ⟨[], text, m, rfl, ⟨rfl, by simpa using hend⟩, h⟩
      · simp at h

/-! ### Where a pattern reads nothing -/

/-- A pattern reads nothing at the start of `text`, behind `before`. -/
def Fails (p : Pattern) (before text : List Char) : Prop :=
  ∀ w rest, text = w ++ rest → ¬ p.Reads before w rest

lemma run_of_fails {p : Pattern} {k : Continuation α} {before text : List Char} {n : Nat}
    {m : Captures} (h : p.Fails before text) : p.run k ⟨before, text, n⟩ m = none := by
  cases hrun : p.run k ⟨before, text, n⟩ m with
  | none => rfl
  | some r =>
      obtain ⟨w, rest, -, htext, hw, -⟩ := p.reads_of_run hrun
      exact absurd hw (h w rest htext)

variable {a b c q : Pattern} {p : Char → Bool} {before text : List Char}

lemma reads_append {w rest : List Char} : (a ++ b).Reads before w rest ↔
    ∃ u v, w = u ++ v ∧ a.Reads before u (v ++ rest) ∧ b.Reads (u.reverse ++ before) v rest :=
  Iff.rfl

lemma fails_append : (a ++ b).Fails before text ↔ ∀ u rest, text = u ++ rest →
    a.Reads before u rest → b.Fails (u.reverse ++ before) rest := by
  constructor
  · rintro h u rest rfl hu v rest' rfl hv
    exact h (u ++ v) rest' (by simp) ⟨u, v, rfl, hu, hv⟩
  · rintro h w rest rfl ⟨u, v, rfl, hu, hv⟩
    exact h u (v ++ rest) (by simp) hu v rest rfl hv

lemma Fails.append (h : a.Fails before text) (q : Pattern) : (a ++ q).Fails before text :=
  fails_append.mpr fun u rest htext hu => absurd hu (h u rest htext)

lemma fails_assoc : (a ++ b ++ c).Fails before text ↔ (a ++ (b ++ c)).Fails before text := by
  simp only [fails_append]
  constructor
  · rintro h u rest rfl hu v rest' rfl hv
    have := h (u ++ v) rest' (by simp) ⟨u, v, rfl, hu, hv⟩
    simpa using this
  · rintro h w rest rfl ⟨u, v, rfl, hu, hv⟩
    have := h u (v ++ rest) (by simp) hu v rest rfl hv
    simpa using this

lemma fails_empty_append : (Pattern.empty ++ q).Fails before text ↔ q.Fails before text := by
  rw [fails_append]
  constructor
  · intro h
    exact h [] text rfl rfl
  · rintro h u rest rfl rfl
    exact h

lemma fails_alt : (a ||| b).Fails before text ↔ a.Fails before text ∧ b.Fails before text :=
  ⟨fun h => ⟨fun w rest ht hw => h w rest ht (Or.inl hw),
    fun w rest ht hw => h w rest ht (Or.inr hw)⟩,
    fun h w rest ht hw => hw.elim (h.1 w rest ht) (h.2 w rest ht)⟩

lemma fails_alt_append : ((a ||| b) ++ q).Fails before text ↔
    (a ++ q).Fails before text ∧ (b ++ q).Fails before text := by
  simp only [fails_append]
  exact ⟨fun h => ⟨fun u rest ht hu => h u rest ht (Or.inl hu),
    fun u rest ht hu => h u rest ht (Or.inr hu)⟩,
    fun h u rest ht hu => hu.elim (h.1 u rest ht) (h.2 u rest ht)⟩

lemma fails_opt_append : (opt a ++ q).Fails before text ↔
    (a ++ q).Fails before text ∧ q.Fails before text :=
  fails_alt_append.trans (and_congr_right' fails_empty_append)

lemma fails_group_append {n : Nat} : (group n a ++ q).Fails before text ↔
    (a ++ q).Fails before text := Iff.rfl

lemma fails_one_nil : (one p).Fails before [] := by
  rintro w rest hnil ⟨c, -, rfl⟩
  simp at hnil

lemma fails_one_cons {c : Char} {rest : List Char} :
    (one p).Fails before (c :: rest) ↔ p c = false := by
  constructor
  · intro h
    cases hc : p c with
    | false => rfl
    | true => exact absurd ⟨c, hc, rfl⟩ (h [c] rest rfl)
  · rintro h w rest' hcons ⟨d, hd, rfl⟩
    obtain ⟨rfl, -⟩ := List.cons.inj hcons
    simp [h] at hd

lemma fails_one_append_cons {c : Char} {rest : List Char} :
    (one p ++ q).Fails before (c :: rest) ↔ (p c = true → q.Fails (c :: before) rest) := by
  rw [fails_append]
  constructor
  · intro h hc
    exact h [c] rest rfl ⟨c, hc, rfl⟩
  · rintro h u rest' hcons ⟨d, hd, rfl⟩
    obtain ⟨rfl, rfl⟩ := List.cons.inj hcons
    exact h hd

lemma fails_wordEdge_append : (wordEdge ++ q).Fails before text ↔
    ((Cursor.mk before text 0).atWordEdge = true → q.Fails before text) := by
  rw [fails_append]
  constructor
  · intro h hedge
    exact h [] text rfl ⟨rfl, hedge⟩
  · rintro h u rest rfl ⟨rfl, hedge⟩
    exact h hedge

lemma fails_lineStart_append : (lineStart ++ q).Fails before text ↔
    ((Cursor.mk before text 0).atLineStart = true → q.Fails before text) := by
  rw [fails_append]
  constructor
  · intro h hstart
    exact h [] text rfl ⟨rfl, hstart⟩
  · rintro h u rest rfl ⟨rfl, hstart⟩
    exact h hstart

lemma fails_textStart_append : (textStart ++ q).Fails before text ↔
    (before = [] → q.Fails before text) := by
  rw [fails_append]
  constructor
  · intro h hstart
    exact h [] text rfl ⟨rfl, hstart⟩
  · rintro h u rest rfl ⟨rfl, hstart⟩
    exact h hstart

end Pattern

end SchemaReader
