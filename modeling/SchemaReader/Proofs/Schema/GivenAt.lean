/-
What the members of a list give, place by place.

* `GivenAt`: what a member gives at a position; a place is the number of a member with a position,
  and `Earlier` is the order in which places are read;
* `FirstAt`: a place that is the first with a property, and what is given there;
* `find?_flatMap_iff`: a search through all that is given, one member after the other, ends at the
  first place with the property;
* `mem_firstBy_iff`: of what has one key, `firstBy` keeps what a search for the key finds.
-/
import SchemaReader.Proofs.Schema.Runs

namespace SchemaReader

variable {α β κ : Type}

/-! ### Places -/

/-- What a member of a list gives at a place: the number of the member, and a position in what it
gives. -/
def GivenAt (f : α → List β) (xs : List α) (place : Nat × Nat) (b : β) : Prop :=
  ∃ x, xs[place.1]? = some x ∧ (f x)[place.2]? = some b

/-- A place comes before another one: in an earlier member, or earlier in the same one. -/
def Earlier (place other : Nat × Nat) : Prop :=
  place.1 < other.1 ∨ place.1 = other.1 ∧ place.2 < other.2

/-- What is given at a place has a property that nothing has which is given at an earlier place. -/
structure FirstAt (f : α → List β) (xs : List α) (p : β → Prop) (place : Nat × Nat) (b : β) :
    Prop where
  given : GivenAt f xs place b
  holds : p b
  first : ∀ earlier, Earlier earlier place → ∀ c, GivenAt f xs earlier c → ¬ p c

variable {f : α → List β} {x : α} {xs : List α} {b : β} {i j : Nat}

@[simp]
lemma not_givenAt_nil {place : Nat × Nat} : ¬ GivenAt f [] place b := by
  simp [GivenAt]

@[simp]
lemma givenAt_cons_zero : GivenAt f (x :: xs) (0, j) b ↔ (f x)[j]? = some b := by
  simp [GivenAt]

@[simp]
lemma givenAt_cons_succ : GivenAt f (x :: xs) (i + 1, j) b ↔ GivenAt f xs (i, j) b := by
  simp [GivenAt]

lemma mem_flatMap_of_givenAt {place : Nat × Nat} (h : GivenAt f xs place b) : b ∈ xs.flatMap f := by
  obtain ⟨x, hx, hb⟩ := h
  exact List.mem_flatMap.mpr ⟨x, List.mem_of_getElem? hx, List.mem_of_getElem? hb⟩

/-! ### First places -/

/-- A first place lies in the first member where a search through what the member gives ends. -/
lemma exists_firstAt_cons_zero {p : β → Bool} :
    (∃ j, FirstAt f (x :: xs) (fun c => p c) (0, j) b) ↔ (f x).find? p = some b := by
  rw [List.find?_eq_some_iff_getElem]
  constructor
  · rintro ⟨j, h⟩
    obtain ⟨hj, rfl⟩ := List.getElem?_eq_some_iff.mp (givenAt_cons_zero.mp h.given)
    refine ⟨h.holds, j, hj, rfl, fun k hk => ?_⟩
    have hgiven : GivenAt f (x :: xs) (0, k) (f x)[k] :=
      givenAt_cons_zero.mpr (List.getElem?_eq_getElem (Nat.lt_trans hk hj))
    simpa using h.first (0, k) (Or.inr ⟨rfl, hk⟩) _ hgiven
  · rintro ⟨hp, j, hj, rfl, hfirst⟩
    refine ⟨j, givenAt_cons_zero.mpr (List.getElem?_eq_getElem hj), hp,
      fun earlier hearlier c hc => ?_⟩
    obtain ⟨i, k⟩ := earlier
    obtain ⟨rfl, hk⟩ : i = 0 ∧ k < j := by simpa [Earlier] using hearlier
    obtain ⟨_, rfl⟩ := List.getElem?_eq_some_iff.mp (givenAt_cons_zero.mp hc)
    simpa using hfirst k hk

/-- A first place lies behind the first member if nothing that the member gives has the property. -/
lemma firstAt_cons_succ {p : β → Prop} : FirstAt f (x :: xs) p (i + 1, j) b
    ↔ (∀ c ∈ f x, ¬ p c) ∧ FirstAt f xs p (i, j) b := by
  constructor
  · intro h
    refine ⟨fun c hc => ?_, givenAt_cons_succ.mp h.given, h.holds, fun earlier hearlier c hc => ?_⟩
    · obtain ⟨k, hk⟩ := List.mem_iff_getElem?.mp hc
      exact h.first (0, k) (Or.inl (Nat.succ_pos i)) c (givenAt_cons_zero.mpr hk)
    · refine h.first (earlier.1 + 1, earlier.2) ?_ c (givenAt_cons_succ.mpr hc)
      simpa [Earlier] using hearlier
  · rintro ⟨hnone, h⟩
    refine ⟨givenAt_cons_succ.mpr h.given, h.holds, fun earlier hearlier c hc => ?_⟩
    obtain ⟨k | k, l⟩ := earlier
    · exact hnone c (List.mem_of_getElem? (givenAt_cons_zero.mp hc))
    · exact h.first (k, l) (by simpa [Earlier] using hearlier) c (givenAt_cons_succ.mp hc)

/-- A search through all that the members of a list give ends at the first place with the
property. -/
theorem find?_flatMap_iff {p : β → Bool} :
    (xs.flatMap f).find? p = some b ↔ ∃ place, FirstAt f xs (fun c => p c) place b := by
  induction xs with
  | nil => exact ⟨by simp, fun ⟨_, h⟩ => absurd h.given not_givenAt_nil⟩
  | cons x xs ih =>
      rw [List.flatMap_cons, List.find?_append, Option.or_eq_some_iff, ih, List.find?_eq_none,
        ← exists_firstAt_cons_zero]
      constructor
      · rintro (⟨j, h⟩ | ⟨hnone, place, h⟩)
        · exact ⟨(0, j), h⟩
        · exact ⟨(place.1 + 1, place.2), firstAt_cons_succ.mpr ⟨hnone, h⟩⟩
      · rintro ⟨⟨i | i, j⟩, h⟩
        · exact Or.inl ⟨j, h⟩
        · obtain ⟨hnone, h⟩ := firstAt_cons_succ.mp h
          exact Or.inr ⟨hnone, (i, j), h⟩

/-- The first member under a key of a list of pairs. -/
lemma lookup_eq_some_iff_find? [BEq κ] [LawfulBEq κ] {k : κ} {entries : List (κ × β)} :
    entries.lookup k = some b ↔ entries.find? (fun entry => entry.1 == k) = some (k, b) := by
  induction entries with
  | nil => simp
  | cons entry entries ih =>
      obtain ⟨l, c⟩ := entry
      by_cases hl : l = k
      · simp [hl]
      · have hbeq : (l == k) = false := by simpa using hl
        have hbeq' : (k == l) = false := by simpa using fun h : k = l => hl h.symm
        rw [List.lookup_cons, hbeq', List.find?_cons, hbeq]
        exact ih

/-- What is kept of a list is for each key what a search for the key finds. -/
lemma mem_firstBy_iff [DecidableEq κ] {key : β → κ} {ys : List β} :
    b ∈ firstBy key ys ↔ ys.find? (fun c => key c == key b) = some b := by
  induction ys using List.reverseRecOn with
  | nil => simp [firstBy]
  | append_singleton ys y ih =>
      rw [firstBy_concat, List.mem_append, ih, List.find?_append, Option.or_eq_some_iff]
      refine or_congr_right ?_
      have hkeys : (ys.find? fun c => key c == key b) = none ↔ key b ∉ ys.map key := by
        simp [List.find?_eq_none]
      rw [hkeys]
      constructor
      · intro h
        obtain ⟨hy, rfl⟩ : key y ∉ ys.map key ∧ b = y := by
          split at h
          · simp at h
          · next hy => exact ⟨hy, by simpa using h⟩
        exact ⟨hy, by simp⟩
      · rintro ⟨hkey, hy⟩
        obtain rfl := List.mem_singleton.mp (List.mem_of_find?_eq_some hy)
        rw [if_neg hkey]
        exact List.mem_singleton_self b

end SchemaReader
