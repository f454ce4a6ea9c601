/-
What the groups of a pattern remember.

* `Pattern.groups`, `Pattern.remembers`: the groups of a pattern with their bodies, and whether
  every reading of the pattern passes through a group of a number;
* `Pattern.exists_reads_of_mem_captures`: a group remembers what its body has read;
* `Pattern.isInfix_of_mem_captures`: and that is a piece of what the pattern has read, with
  `isInfix_group_of_find?` and `isInfix_group_of_mem_findAll`: so the groups of a match are pieces
  of the text;
* `Pattern.Makes`: a match remembers what the pattern reads somewhere, with `makes_of_find?` and
  `makes_of_mem_findAll`, and `Makes.group?_eq`, `Makes.exists_reads`: that a group takes part in
  such a match, and what it is.
-/
import SchemaReader.Proofs.Pattern.Joining

namespace SchemaReader.Pattern

/-- The groups of a pattern, each with its number and its body. -/
def groups : Pattern → List (Nat × Pattern)
  | .seq a b | .alt a b => a.groups ++ b.groups
  | .star a => a.groups
  | .group n a => (n, a) :: a.groups
  | .empty | .one _ | .many _ | .wordEdge | .lineStart | .textStart | .textEnd => []

/-- Whether every reading of a pattern passes through a group of a number. -/
def remembers (n : Nat) : Pattern → Bool
  | .seq a b => a.remembers n || b.remembers n
  | .alt a b => a.remembers n && b.remembers n
  | .group m a => m == n || a.remembers n
  | .empty | .one _ | .many _ | .star _ | .wordEdge | .lineStart | .textStart | .textEnd => false

variable {q : Pattern} {before text : List Char} {o : Outcome} {m : Nat × List Char} {n : Nat}
  {found : Match}

/-! ### Captures of outcomes -/

/-- What rounds of a body remember was remembered in one of them. -/
lemma exists_outcome_of_mem_rounds {body : (before text : List Char) → List Outcome} {fuel : Nat}
    (h : o ∈ roundOutcomes body fuel before text) (hm : m ∈ o.2) :
    ∃ before text, ∃ round ∈ body before text, m ∈ round.2 := by
  induction fuel generalizing before text o with
  | zero =>
      obtain rfl := List.mem_singleton.mp h
      simp at hm
  | succ fuel ih =>
      rw [roundOutcomes, List.mem_append, List.mem_singleton] at h
      obtain h | rfl := h
      · obtain ⟨first, hfirst, h⟩ := List.mem_flatMap.mp h
        split at h
        · simp at h
        · obtain ⟨second, hsecond, rfl⟩ := List.mem_map.mp h
          obtain hm | hm := List.mem_append.mp hm
          · exact ih hsecond hm
          · exact ⟨before, text, first, hfirst, hm⟩
      · simp at hm

/-- A group remembers what its body has read. -/
theorem exists_reads_of_mem_captures (q : Pattern) (h : o ∈ q.outcomes before text)
    (hm : m ∈ o.2) : ∃ body ∈ q.groups, body.1 = m.1 ∧
    ∃ before rest, body.2.Reads before m.2 rest := by
  induction q generalizing before text o with
  | empty =>
      obtain rfl := List.mem_singleton.mp h
      simp at hm
  | one p =>
      cases text with
      | nil => simp [outcomes] at h
      | cons c rest =>
          simp only [outcomes] at h
          split at h
          · obtain rfl := List.mem_singleton.mp h
            simp at hm
          · simp at h
  | many p =>
      obtain ⟨w, -, rfl⟩ := List.mem_map.mp h
      simp at hm
  | seq a b iha ihb =>
      obtain ⟨first, hfirst, h⟩ := List.mem_flatMap.mp h
      obtain ⟨second, hsecond, rfl⟩ := List.mem_map.mp h
      obtain hm | hm := List.mem_append.mp hm
      · obtain ⟨body, hbody, hread⟩ := ihb hsecond hm
        exact ⟨body, List.mem_append_right _ hbody, hread⟩
      · obtain ⟨body, hbody, hread⟩ := iha hfirst hm
        exact ⟨body, List.mem_append_left _ hbody, hread⟩
  | alt a b iha ihb =>
      obtain h | h := List.mem_append.mp h
      · obtain ⟨body, hbody, hread⟩ := iha h hm
        exact ⟨body, List.mem_append_left _ hbody, hread⟩
      · obtain ⟨body, hbody, hread⟩ := ihb h hm
        exact ⟨body, List.mem_append_right _ hbody, hread⟩
  | star a ih =>
      obtain ⟨_, _, round, hround, hm⟩ := exists_outcome_of_mem_rounds h hm
      exact ih hround hm
  | group i a ih =>
      obtain ⟨inner, hinner, rfl⟩ := List.mem_map.mp h
      obtain rfl | hm := List.mem_cons.mp hm
      · obtain ⟨rest, -, hread⟩ := reads_of_mem_outcomes a hinner
        exact ⟨(i, a), List.mem_cons_self, rfl, before, rest, hread⟩
      · obtain ⟨body, hbody, hread⟩ := ih hinner hm
        exact ⟨body, List.mem_cons_of_mem _ hbody, hread⟩
  | wordEdge | lineStart | textStart | textEnd =>
      simp only [outcomes] at h
      split at h
      · obtain rfl := List.mem_singleton.mp h
        simp at hm
      · simp at h

/-- What rounds of a body remember are pieces of what they have read. -/
lemma isInfix_of_mem_rounds {body : (before text : List Char) → List Outcome} {fuel : Nat}
    (hbody : ∀ before text, ∀ o ∈ body before text, ∀ m ∈ o.2, m.2 <:+: o.1)
    (h : o ∈ roundOutcomes body fuel before text) : ∀ m ∈ o.2, m.2 <:+: o.1 := by
  induction fuel generalizing before text o with
  | zero =>
      obtain rfl := List.mem_singleton.mp h
      simp
  | succ fuel ih =>
      rw [roundOutcomes, List.mem_append, List.mem_singleton] at h
      obtain h | rfl := h
      · obtain ⟨first, hfirst, h⟩ := List.mem_flatMap.mp h
        split at h
        · simp at h
        · obtain ⟨second, hsecond, rfl⟩ := List.mem_map.mp h
          refine fun m hm => (List.mem_append.mp hm).elim (fun hm => ?_) fun hm => ?_
          · exact (ih hsecond m hm).trans (List.suffix_append _ _).isInfix
          · exact (hbody _ _ _ hfirst m hm).trans (List.prefix_append _ _).isInfix
      · simp

/-- What the groups of a pattern remember are pieces of what the pattern has read. -/
theorem isInfix_of_mem_captures (q : Pattern) (h : o ∈ q.outcomes before text) :
    ∀ m ∈ o.2, m.2 <:+: o.1 := by
  induction q generalizing before text o with
  | empty =>
      obtain rfl := List.mem_singleton.mp h
      simp
  | one p =>
      cases text with
      | nil => simp [outcomes] at h
      | cons c rest =>
          simp only [outcomes] at h
          split at h
          · obtain rfl := List.mem_singleton.mp h
            simp
          · simp at h
  | many p =>
      obtain ⟨w, -, rfl⟩ := List.mem_map.mp h
      simp
  | seq a b iha ihb =>
      obtain ⟨first, hfirst, h⟩ := List.mem_flatMap.mp h
      obtain ⟨second, hsecond, rfl⟩ := List.mem_map.mp h
      refine fun m hm => (List.mem_append.mp hm).elim (fun hm => ?_) fun hm => ?_
      · exact (ihb hsecond m hm).trans (List.suffix_append _ _).isInfix
      · exact (iha hfirst m hm).trans (List.prefix_append _ _).isInfix
  | alt a b iha ihb => exact (List.mem_append.mp h).elim iha ihb
  | star a ih => exact isInfix_of_mem_rounds (fun _ _ _ => ih) h
  | group i a ih =>
      obtain ⟨inner, hinner, rfl⟩ := List.mem_map.mp h
      exact List.forall_mem_cons.mpr ⟨List.infix_rfl, ih hinner⟩
  | wordEdge | lineStart | textStart | textEnd =>
      simp only [outcomes] at h
      split at h
      · obtain rfl := List.mem_singleton.mp h
        simp
      · simp at h

/-- A number that no group of a pattern has is not remembered. -/
lemma Takes.lookup_eq_none {w rest : List Char} {caught : Captures}
    (h : q.Takes before w rest caught) (hq : ∀ body ∈ q.groups, body.1 ≠ n) :
    caught.lookup n = none := by
  have hmem : (w, caught) ∈ q.outcomes before (w ++ rest) := List.mem_of_mem_head? (takes_iff.mp h)
  refine List.lookup_eq_none_iff.mpr fun m hm => ?_
  obtain ⟨body, hbody, hnumber, -⟩ := exists_reads_of_mem_captures q hmem hm
  simpa [hnumber] using (hq body hbody).symm

/-- A pattern without groups remembers nothing. -/
lemma Takes.caught_eq_nil {w rest : List Char} {caught : Captures}
    (h : q.Takes before w rest caught) (hq : q.groups = []) : caught = [] := by
  have hmem : (w, caught) ∈ q.outcomes before (w ++ rest) := List.mem_of_mem_head? (takes_iff.mp h)
  refine List.eq_nil_iff_forall_not_mem.mpr fun m hm => ?_
  obtain ⟨body, hbody, -⟩ := exists_reads_of_mem_captures q hmem hm
  simp [hq] at hbody

/-- A group that every reading passes through remembers something. -/
lemma exists_mem_captures (q : Pattern) (hq : q.remembers n = true)
    (h : o ∈ q.outcomes before text) : ∃ u, (n, u) ∈ o.2 := by
  induction q generalizing before text o with
  | seq a b iha ihb =>
      simp only [remembers, Bool.or_eq_true] at hq
      obtain ⟨first, hfirst, h⟩ := List.mem_flatMap.mp h
      obtain ⟨second, hsecond, rfl⟩ := List.mem_map.mp h
      obtain hq | hq := hq
      · exact (iha hq hfirst).imp fun _ => List.mem_append_right _
      · exact (ihb hq hsecond).imp fun _ => List.mem_append_left _
  | alt a b iha ihb =>
      simp only [remembers, Bool.and_eq_true] at hq
      exact (List.mem_append.mp h).elim (iha hq.1) (ihb hq.2)
  | group i a ih =>
      simp only [remembers, Bool.or_eq_true, beq_iff_eq] at hq
      obtain ⟨inner, hinner, rfl⟩ := List.mem_map.mp h
      obtain rfl | hq := hq
      · exact ⟨inner.1, List.mem_cons_self⟩
      · exact (ih hq hinner).imp fun _ => List.mem_cons_of_mem _
  | empty | one _ | many _ | star _ | wordEdge | lineStart | textStart | textEnd =>
      simp [remembers] at hq

/-! ### Captures of matches -/

/-- A match remembers what a pattern reads at some place. -/
def Makes (q : Pattern) (found : Match) : Prop :=
  ∃ before text, ∃ o ∈ q.outcomes before text, o.2 = found.captures

/-- What a scan comes upon is what the pattern reads where it stands. -/
lemma Finds.makes {yields : List (List Char × Captures)} (h : Finds q before text yields) :
    ∀ found : Match, found.yield ∈ yields → q.Makes found := by
  induction h with
  | stop => simp
  | @found before v w rest caught yields _ htakes _ _ ih =>
      intro found hfound
      obtain hyield | hfound := List.mem_cons.mp hfound
      · have hcaptures : found.captures = caught := congrArg Prod.snd hyield
        exact ⟨_, _, (w, caught), List.mem_of_head? (takes_iff.mp htakes), hcaptures.symm⟩
      · exact ih found hfound

/-- A match is one of those that a scan of the text comes upon. -/
lemma exists_finds_of_mem_findAll (hq : q.nullable = false) (h : found ∈ q.findAll text) :
    ∃ yields, Finds q [] text yields ∧ found.yield ∈ yields := by
  obtain ⟨yields, hyields⟩ := exists_finds hq [] text
  refine ⟨yields, hyields, ?_⟩
  rw [← findAll_of_finds hyields]
  exact List.mem_map_of_mem h

lemma exists_finds_of_find? (hq : q.nullable = false) (h : q.find? text = some found) :
    ∃ yields, Finds q [] text yields ∧ found.yield ∈ yields := by
  obtain ⟨yields, hyields⟩ := exists_finds hq [] text
  have hfirst : some found.yield = yields.head? := by
    rw [← find?_of_finds hyields, h]
    rfl
  exact ⟨yields, hyields, List.mem_of_head? hfirst.symm⟩

lemma makes_of_mem_findAll (hq : q.nullable = false) (h : found ∈ q.findAll text) :
    q.Makes found := by
  obtain ⟨yields, hyields, hmem⟩ := exists_finds_of_mem_findAll hq h
  exact hyields.makes found hmem

lemma makes_of_find? (hq : q.nullable = false) (h : q.find? text = some found) : q.Makes found := by
  obtain ⟨yields, hyields, hmem⟩ := exists_finds_of_find? hq h
  exact hyields.makes found hmem

/-- What the matches of a scan remember are pieces of the text. -/
lemma Finds.isInfix {yields : List (List Char × Captures)} (h : Finds q before text yields) :
    ∀ found : Match, found.yield ∈ yields → ∀ m ∈ found.captures, m.2 <:+: text := by
  induction h with
  | stop => simp
  | @found before v w rest caught yields _ htakes _ _ ih =>
      intro found hfound m hm
      obtain hyield | hfound := List.mem_cons.mp hfound
      · have hcaptures : found.captures = caught := congrArg Prod.snd hyield
        have hread : m.2 <:+: w := isInfix_of_mem_captures q
          (List.mem_of_head? (takes_iff.mp htakes)) m (hcaptures ▸ hm)
        exact hread.trans ⟨v, rest, by simp⟩
      · exact (ih found hfound m hm).trans ⟨v ++ w, [], by simp⟩

/-- A group of a match that remembers pieces of a text is a piece of the text, or empty. -/
lemma isInfix_group (h : ∀ m ∈ found.captures, m.2 <:+: text) (n : Nat) :
    found.group n <:+: text := by
  rw [Match.group]
  cases hgroup : found.group? n with
  | none => exact List.nil_infix
  | some u =>
      obtain ⟨newer, older, hsplit, -⟩ := List.lookup_eq_some_iff.mp hgroup
      exact h (n, u) (by simp [hsplit])

lemma isInfix_group_of_mem_findAll (hq : q.nullable = false)
    (h : found ∈ q.findAll text) (n : Nat) :
    found.group n <:+: text := by
  obtain ⟨yields, hyields, hmem⟩ := exists_finds_of_mem_findAll hq h
  exact isInfix_group (hyields.isInfix found hmem) n

lemma isInfix_group_of_find? (hq : q.nullable = false) (h : q.find? text = some found) (n : Nat) :
    found.group n <:+: text := by
  obtain ⟨yields, hyields, hmem⟩ := exists_finds_of_find? hq h
  exact isInfix_group (hyields.isInfix found hmem) n

/-- A group that every reading passes through takes part in every match. -/
theorem Makes.group?_eq (h : q.Makes found) (hq : q.remembers n = true) :
    found.group? n = some (found.group n) := by
  obtain ⟨before, text, o, ho, hcaptures⟩ := h
  obtain ⟨u, hu⟩ := exists_mem_captures q hq ho
  cases hv : found.group? n with
  | some v => rw [Match.group, hv, Option.getD_some]
  | none =>
      have hne := List.lookup_eq_none_iff.mp hv (n, u) (hcaptures ▸ hu)
      simp at hne

/-- A group that every reading passes through is what the body of such a group has read. -/
theorem Makes.exists_reads (h : q.Makes found) (hq : q.remembers n = true) :
    ∃ body ∈ q.groups, body.1 = n ∧ ∃ before rest, body.2.Reads before (found.group n) rest := by
  have hgroup : found.captures.lookup n = some (found.group n) := h.group?_eq hq
  obtain ⟨before, text, o, ho, hcaptures⟩ := h
  obtain ⟨newer, older, hsplit, -⟩ := List.lookup_eq_some_iff.mp hgroup
  have hmem : (n, found.group n) ∈ o.2 := by simp [hcaptures, hsplit]
  exact exists_reads_of_mem_captures q ho hmem

end SchemaReader.Pattern
