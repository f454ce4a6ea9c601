/-
What a pattern takes.

* `Pattern.Takes`: where the continuation then comes to a result, a pattern takes a piece of text
  and remembers certain captures, whatever else it could read;
* one rule for every kind of pattern.  A choice takes its right side where its left side reads
  nothing, alone or together with what follows it;
* `Pattern.matchAt?_of_takes`: the match that this gives.
-/
import SchemaReader.Proofs.Pattern.Reads
import SchemaReader.Proofs.Text.Words

namespace SchemaReader.Pattern

open Text (Stops)

/-- A pattern takes the text `w` between `before`, nearest character first, and `rest`: where a
continuation comes to a result behind `w`, it is that result. -/
def Takes (p : Pattern) (before w rest : List Char) (caught : Captures) : Prop :=
  ∀ (α : Type) (k : Continuation α) (n : Nat) (m : Captures),
    (k ⟨w.reverse ++ before, rest, n + w.length⟩ (caught ++ m)).isSome = true →
      p.run k ⟨before, w ++ rest, n⟩ m = k ⟨w.reverse ++ before, rest, n + w.length⟩ (caught ++ m)

variable {a b q : Pattern} {p : Char → Bool} {before u v w rest : List Char}
  {caught caught₁ caught₂ : Captures}

/-! ### Simple patterns -/

lemma takes_empty : Pattern.empty.Takes before [] rest [] := fun _ _ _ _ _ => rfl

lemma takes_one {c : Char} (hc : p c = true) : (one p).Takes before [c] rest [] := by
  intro α k n m _
  simp [run, hc, Cursor.advance]

lemma takes_char {c : Char} : (char c).Takes before [c] rest [] := takes_one (by simp)

/-- Where a continuation comes to a result, nothing is given back. -/
lemma giveBack_of_isSome {α : Type} {k : Cursor → Option α} {s : Cursor}
    (h : (k s).isSome = true) (count : Nat) : giveBack k count s = k s := by
  obtain ⟨r, hr⟩ := Option.isSome_iff_exists.mp h
  cases count with
  | zero => rfl
  | succ count => rw [giveBack, hr]

lemma takes_many (hw : ∀ c ∈ w, p c = true) (hrest : Stops p rest) :
    (many p).Takes before w rest [] := by
  intro α k n m hk
  simp only [run, Cursor.skipWhile, skipWhileLoop_eq, Text.takeWhile_append_of_stops hw hrest,
    Text.dropWhile_append_of_stops hw hrest, Nat.add_sub_cancel_left]
  exact giveBack_of_isSome hk _

lemma takes_wordEdge (h : (Cursor.mk before rest 0).atWordEdge = true) :
    wordEdge.Takes before [] rest [] := by
  intro α k n m _
  have hedge : (Cursor.mk before rest n).atWordEdge = true := h
  simp [run, hedge]

lemma takes_lineStart (h : (Cursor.mk before rest 0).atLineStart = true) :
    lineStart.Takes before [] rest [] := by
  intro α k n m _
  have hstart : (Cursor.mk before rest n).atLineStart = true := h
  simp [run, hstart]

lemma takes_textStart : textStart.Takes [] [] rest [] := fun _ _ _ _ _ => rfl

lemma takes_textEnd : textEnd.Takes before [] [] [] := fun _ _ _ _ _ => rfl

/-! ### Sequences and groups -/

lemma Takes.append (ha : a.Takes before u (v ++ rest) caught₁)
    (hb : b.Takes (u.reverse ++ before) v rest caught₂) :
    (a ++ b).Takes before (u ++ v) rest (caught₂ ++ caught₁) := by
  intro α k n m hk
  have hk' := hk
  simp only [List.reverse_append, List.append_assoc, List.length_append, ← Nat.add_assoc] at hk' ⊢
  have hrun := hb α k (n + u.length) (caught₁ ++ m) hk'
  have ha' := ha α (fun t m' => b.run k t m') n m
  simp only [hrun] at ha'
  exact ha' hk'

/-- A pattern that takes nothing, before another one. -/
lemma Takes.after_nothing (ha : a.Takes before [] (w ++ rest) [])
    (hb : b.Takes before w rest caught) : (a ++ b).Takes before w rest caught := by
  simpa using Takes.append (u := []) ha hb

/-- A pattern that takes nothing, behind another one. -/
lemma Takes.append_nothing (ha : a.Takes before w rest caught)
    (hb : b.Takes (w.reverse ++ before) [] rest []) : (a ++ b).Takes before w rest caught := by
  simpa using Takes.append (v := []) ha hb

/-- A pattern that remembers nothing, before another one. -/
lemma Takes.seq (ha : a.Takes before u (v ++ rest) [])
    (hb : b.Takes (u.reverse ++ before) v rest caught) :
    (a ++ b).Takes before (u ++ v) rest caught := by
  simpa using ha.append hb

/-- A pattern before another one that remembers nothing. -/
lemma Takes.seq_last (ha : a.Takes before u (v ++ rest) caught)
    (hb : b.Takes (u.reverse ++ before) v rest []) :
    (a ++ b).Takes before (u ++ v) rest caught := by
  simpa using ha.append hb

lemma takes_assoc : (a ++ b ++ q).Takes before w rest caught ↔
    (a ++ (b ++ q)).Takes before w rest caught := Iff.rfl

lemma Takes.group (h : a.Takes before w rest caught) (i : Nat) :
    (Pattern.group i a).Takes before w rest ((i, w) :: caught) := by
  intro α k n m hk
  have ha := h α (fun t m' => k t ((i, (Cursor.mk before (w ++ rest) n).textTo t) :: m')) n m
  simp only [Cursor.textTo, Nat.add_sub_cancel_left, List.take_left] at ha
  exact ha hk

/-! ### Choices -/

/-- A choice gives what its left side gives, or else what its right side gives. -/
lemma run_alt {α : Type} (a b : Pattern) (k : Continuation α) (s : Cursor) (m : Captures) :
    (a ||| b).run k s m = (a.run k s m).or (b.run k s m) := by
  change (Pattern.alt a b).run k s m = _
  rw [run]
  cases a.run k s m <;> rfl

lemma Takes.alt_left (h : a.Takes before w rest caught) (b : Pattern) :
    (a ||| b).Takes before w rest caught := by
  intro α k n m hk
  obtain ⟨r, hr⟩ := Option.isSome_iff_exists.mp hk
  have ha := h α k n m hk
  rw [hr] at ha ⊢
  rw [run_alt, ha, Option.some_or]

lemma Takes.alt_right (h : b.Takes before w rest caught) (ha : a.Fails before (w ++ rest)) :
    (a ||| b).Takes before w rest caught := by
  intro α k n m hk
  rw [run_alt, run_of_fails ha, Option.none_or]
  exact h α k n m hk

/-- A choice takes its right side where its left side fails together with what follows. -/
lemma Takes.alt_append_right (h : (b ++ q).Takes before w rest caught)
    (ha : (a ++ q).Fails before (w ++ rest)) : ((a ||| b) ++ q).Takes before w rest caught := by
  intro α k n m hk
  have hrun : ∀ s, ((a ||| b) ++ q).run k s m = ((a ++ q).run k s m).or ((b ++ q).run k s m) :=
    fun s => run_alt a b _ s m
  rw [hrun, run_of_fails ha, Option.none_or]
  exact h α k n m hk

lemma Takes.opt (h : a.Takes before w rest caught) : (opt a).Takes before w rest caught :=
  h.alt_left empty

lemma takes_opt_skip (ha : a.Fails before rest) : (opt a).Takes before [] rest [] :=
  takes_empty.alt_right ha

/-- What is optional is left out where it fails together with what follows. -/
lemma Takes.opt_append_skip (h : q.Takes before w rest caught)
    (ha : (a ++ q).Fails before (w ++ rest)) : (Pattern.opt a ++ q).Takes before w rest caught :=
  Takes.alt_append_right (b := empty) h ha

/-! ### Repetitions -/

lemma takes_star_stop (ha : a.Fails before rest) : (star a).Takes before [] rest [] := by
  intro α k n m _
  change repeatBody (fun k' t m' => a.run k' t m') k rest.length ⟨before, rest, n⟩ m = _
  cases rest.length with
  | zero => rfl
  | succ fuel => rw [repeatBody, run_of_fails ha]; rfl

/-- A repetition takes texts that the pattern takes wherever they stand, up to where it fails. -/
lemma takes_star_flatten {ws : List (List Char)}
    (hws : ∀ w ∈ ws, w ≠ [] ∧ ∀ before rest, a.Takes before w rest [])
    (hstop : ∀ before, a.Fails before rest) : (star a).Takes before ws.flatten rest [] := by
  suffices hrounds : ∀ {α : Type} {k : Continuation α} {fuel n m before},
      (k ⟨ws.flatten.reverse ++ before, rest, n + ws.flatten.length⟩ m).isSome = true →
      ws.flatten.length ≤ fuel →
        repeatBody (fun k' t m' => a.run k' t m') k fuel ⟨before, ws.flatten ++ rest, n⟩ m
          = k ⟨ws.flatten.reverse ++ before, rest, n + ws.flatten.length⟩ m from
    fun _ k n m hk => hrounds hk (by simp)
  intro α k fuel n m before hk hfuel
  induction ws generalizing fuel n before with
  | nil =>
      cases fuel with
      | zero => rfl
      | succ fuel =>
          rw [repeatBody, List.flatten_nil, List.nil_append, run_of_fails (hstop before)]
          rfl
  | cons w ws ih =>
      rw [List.forall_mem_cons] at hws
      obtain ⟨⟨hne, htakes⟩, hws⟩ := hws
      have hlength := List.length_pos_iff.mpr hne
      rw [List.flatten_cons, List.length_append] at hfuel
      obtain ⟨fuel, rfl⟩ : ∃ n, fuel = n + 1 := Nat.exists_eq_succ_of_ne_zero (by omega)
      have hplace : ws.flatten.reverse ++ (w.reverse ++ before)
          = (w :: ws).flatten.reverse ++ before ∧
          n + w.length + ws.flatten.length = n + (w :: ws).flatten.length := by
        simp [Nat.add_assoc]
      have hmoved : n + w.length ≠ n := by omega
      have hmore := @ih hws fuel (n + w.length) (w.reverse ++ before)
        (by rw [hplace.1, hplace.2]; exact hk) (by omega)
      rw [hplace.1, hplace.2] at hmore
      have hround := htakes before (ws.flatten ++ rest) α (fun t m' => if t.offset = n then none
        else repeatBody (fun k' t m' => a.run k' t m') k fuel t m') n m
      simp only [hmoved, ite_false, List.nil_append, hmore] at hround
      have htext : (w :: ws).flatten ++ rest = w ++ (ws.flatten ++ rest) := by simp
      obtain ⟨r, hr⟩ := Option.isSome_iff_exists.mp hk
      rw [htext, repeatBody, hround hk, hr]

/-! ### The match -/

lemma matchAt?_of_takes (h : a.Takes before w rest caught) (n : Nat) :
    a.matchAt? ⟨before, w ++ rest, n⟩ =
      some ⟨⟨before, w ++ rest, n⟩, ⟨w.reverse ++ before, rest, n + w.length⟩, caught⟩ := by
  rw [matchAt?, h _ _ n [] rfl, List.append_nil]

lemma matchAt?_of_fails (h : a.Fails before rest) (n : Nat) :
    a.matchAt? ⟨before, rest, n⟩ = none := run_of_fails h

end SchemaReader.Pattern
