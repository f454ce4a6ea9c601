/-
Readings by byte offsets, which can go wrong.

* `Slip`, `Checked`: what can go wrong, and a reading that may;
* `slice`, `sliceFrom`: pieces of a text between byte offsets;
* `decrement`, `counted`: counters of 64 bits without a sign, and of 32 bits with one;
* `groupOf`: the text of a group that is taken to be there;
* `slice_append`, `sliceFrom_append`, `groupOf_of_find?`, `groupOf_of_mem_findAll`: where nothing
  goes wrong;
* `brackets`: how many brackets a text has;
* `GoesWell`: a reading gives a value, unless a depth of brackets leaves its 32 bits, for which it
  takes `2 ^ 31` brackets; with `GoesWell.bind`, `GoesWell.mapM`, `GoesWell.foldlM` for readings one
  after the other.
-/
import Mathlib.Algebra.Group.Int.Defs
import Mathlib.Algebra.Group.Nat.Defs
import SchemaReader.Lexical.Brackets
import SchemaReader.Proofs.Pattern.Groups
import SchemaReader.Proofs.Text.Slices

namespace SchemaReader.ByOffset

/-- What can go wrong. -/
inductive Slip where
  /-- A slice that ends before it begins, that leaves the text or that cuts a character. -/
  | slice
  /-- A group that was taken to be there and took no part in the match. -/
  | group
  /-- A number without a sign that was to fall below zero. -/
  | counter
  /-- A depth of brackets, a number with a sign, that left its 32 bits. -/
  | depth
  deriving DecidableEq, Repr

/-- A reading in which something may go wrong. -/
abbrev Checked := Except Slip

/-- The piece of a text from one byte offset to another. -/
def slice (text : List Char) (start stop : Nat) : Checked (List Char) :=
  (Text.slice? text start stop).elim (.error .slice) .ok

/-- The piece of a text from a byte offset to its end. -/
def sliceFrom (text : List Char) (start : Nat) : Checked (List Char) :=
  (Text.dropBytes? start text).elim (.error .slice) .ok

/-- One less, for a number that has no negative values.  Such a number counts or measures a piece of
a text in memory, so it is never too large for its 64 bits. -/
def decrement : Nat → Checked Nat
  | 0 => .error .counter
  | n + 1 => .ok n

/-- A depth of brackets, a number with a sign in 32 bits. -/
def counted (depth : Int) : Checked Int :=
  if -2 ^ 31 ≤ depth ∧ depth < 2 ^ 31 then .ok depth else .error .depth

/-- The text of a group that is taken to be there. -/
def groupOf (found : Match) (n : Nat) : Checked (List Char) :=
  (found.group? n).elim (.error .group) .ok

/-- How many brackets a text has, opening and closing ones, in literals too. -/
def brackets (text : List Char) : Nat := text.countP fun c => isOpening c || isClosing c

/-- A reading goes well with `n` brackets: it gives a value, or else a depth of brackets leaves its
32 bits, for which it takes `2 ^ 31` brackets. -/
def GoesWell {α : Type} (n : Nat) (reading : Checked α) (a : α) : Prop :=
  reading = .ok a ∨ reading = .error .depth ∧ 2 ^ 31 ≤ n

variable {α β : Type} {xs : List α} {reading : Checked α} {f : α → Checked β} {a : α} {b : β}
  {q : Pattern} {text u v : List Char} {found : Match} {depth : Int} {m n : Nat}

/-! ### Slices, counters and groups -/

@[simp] lemma ok_bind (a : α) (f : α → Checked β) : (Except.ok a >>= f) = f a := rfl

@[simp] lemma error_bind (slip : Slip) (f : α → Checked β) :
    ((.error slip : Checked α) >>= f) = .error slip := rfl

@[simp] lemma pure_eq (a : α) : (pure a : Checked α) = .ok a := rfl

lemma slice_append (u v w : List Char) :
    slice (u ++ (v ++ w)) (Text.byteLength u) (Text.byteLength u + Text.byteLength v) = .ok v := by
  rw [slice, Text.slice?_append, Option.elim_some]

lemma sliceFrom_append (u v : List Char) : sliceFrom (u ++ v) (Text.byteLength u) = .ok v := by
  rw [sliceFrom, Text.dropBytes?_append, Option.elim_some]

lemma counted_eq (h : -2 ^ 31 ≤ depth ∧ depth < 2 ^ 31) : counted depth = .ok depth := if_pos h

lemma counted_eq_error (h : depth < -2 ^ 31) : counted depth = .error .depth := if_neg (by omega)

lemma groupOf_of_find? (h : q.find? text = some found) (hnull : q.nullable = false)
    (hq : q.remembers n = true) : groupOf found n = .ok (found.group n) := by
  rw [groupOf, (Pattern.makes_of_find? hnull h).group?_eq hq, Option.elim_some]

lemma groupOf_of_mem_findAll (h : found ∈ q.findAll text) (hnull : q.nullable = false)
    (hq : q.remembers n = true) : groupOf found n = .ok (found.group n) := by
  rw [groupOf, (Pattern.makes_of_mem_findAll hnull h).group?_eq hq, Option.elim_some]

/-! ### Brackets of a text and of its parts -/

lemma brackets_append (u v : List Char) : brackets (u ++ v) = brackets u + brackets v :=
  List.countP_append

lemma brackets_le (h : u.Sublist v) (hv : brackets v ≤ n) : brackets u ≤ n :=
  h.countP_le.trans hv

/-! ### Readings that go well -/

lemma GoesWell.ok : GoesWell n (.ok a) a := Or.inl rfl

lemma GoesWell.of_eq (h : reading = .ok a) : GoesWell n reading a := Or.inl h

/-- Without so many brackets the reading gives its value. -/
lemma GoesWell.eq_ok (h : GoesWell n reading a) (hn : n < 2 ^ 31) : reading = .ok a :=
  h.resolve_right fun hslip => by omega

/-- Nothing but a depth goes wrong in a reading that goes well. -/
lemma GoesWell.eq_depth {slip : Slip} (h : GoesWell n reading a) (hslip : reading = .error slip) :
    slip = .depth := by
  obtain h | ⟨h, -⟩ := h
  · simp [h] at hslip
  · rw [h] at hslip
    exact (Except.error.inj hslip).symm

/-- A depth that is at most the number of brackets. -/
lemma counted_goesWell (h : depth.natAbs ≤ n) : GoesWell n (counted depth) depth := by
  by_cases hrange : -2 ^ 31 ≤ depth ∧ depth < 2 ^ 31
  · exact .of_eq (counted_eq hrange)
  · exact Or.inr ⟨if_neg hrange, by omega⟩

/-- A reading goes well that goes on well with what another one gives. -/
lemma GoesWell.bind (h : GoesWell n reading a) (hf : GoesWell n (f a) b) :
    GoesWell n (reading >>= f) b := by
  obtain rfl | ⟨rfl, hn⟩ := h
  · exact hf
  · exact Or.inr ⟨rfl, hn⟩

/-- Readings in a row go well if each one does. -/
lemma GoesWell.mapM {g : α → β} (h : ∀ x ∈ xs, GoesWell n (f x) (g x)) :
    GoesWell n (xs.mapM f) (xs.map g) := by
  induction xs with
  | nil => exact .ok
  | cons x xs ih =>
      rw [List.forall_mem_cons] at h
      rw [List.mapM_cons]
      exact h.1.bind ((ih h.2).bind .ok)

/-- Steps one after the other go well if each one does. -/
lemma GoesWell.foldlM {f : β → α → Checked β} {g : β → α → β}
    (h : ∀ s, ∀ x ∈ xs, GoesWell n (f s x) (g s x)) (s : β) :
    GoesWell n (xs.foldlM f s) (xs.foldl g s) := by
  induction xs generalizing s with
  | nil => exact .ok
  | cons x xs ih =>
      rw [List.foldlM_cons]
      exact (h s x List.mem_cons_self).bind (ih (fun s y hy => h s y (List.mem_cons_of_mem x hy)) _)

end SchemaReader.ByOffset
