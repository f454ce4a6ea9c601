/-
Brackets that match, and partners.

* `unquoted`: the characters of a text outside of its literals;
* `openings`, `closings`: how many brackets a text opens and closes outside of its literals;
* `Matched`: the brackets and literals of a text match, by counting, with `matched_iff_balanced`: so
  the count of open brackets comes through the text and ends at none;
* `forall_prefix_iff`: the count comes through if no beginning of the text closes more brackets than
  it opens;
* `level`: how many more brackets a text opens than it closes, which may be less than none;
* `enclosed?_eq_some_iff`: the text from a bracket to its partner is the one whose brackets match;
* `Text.charAt?`: the character of a text at a byte offset;
* `Encloses`: brackets at two byte offsets with a text between them whose brackets match, with
  `bracketBodyAt?_eq_some_iff` and `findMatching?_eq_some_iff`;
* `findMatching?_exact`: the partner is found exactly where there is one.
-/
import SchemaReader.Proofs.Lexical.Stripping
import SchemaReader.Proofs.Text.Slices

namespace SchemaReader

variable {dialect : Dialect} {literal : Literal} {s : Nat × Literal} {n start stop : Nat} {c : Char}
  {b body inner rest text u v : List Char}

/-! ### Outside of literals -/

/-- The characters of a text outside of its literals, for a reading that begins at a place. -/
def unquoted (dialect : Dialect) : Literal → List Char → List Char
  | _, [] => []
  | literal, c :: rest =>
    if literal.covers c then unquoted dialect (literal.step dialect c) rest
    else c :: unquoted dialect (literal.step dialect c) rest

lemma unquoted_append (literal : Literal) (u v : List Char) : unquoted dialect literal (u ++ v)
    = unquoted dialect literal u ++ unquoted dialect (literal.after dialect u) v := by
  induction u generalizing literal with
  | nil => rfl
  | cons c u ih =>
      rw [List.cons_append, unquoted, unquoted, Literal.after_cons, ih]
      split <;> rfl

/-- The brackets that a text opens outside of its literals. -/
def openings (dialect : Dialect) (text : List Char) : Nat :=
  (unquoted dialect .outside text).countP isOpening

/-- The brackets that a text closes outside of its literals, of any kind. -/
def closings (dialect : Dialect) (text : List Char) : Nat :=
  (unquoted dialect .outside text).countP isClosing

/-- The brackets and literals of a text match, by counting: no beginning of the text closes more
brackets than it opens, the whole text closes as many as it opens, and it ends outside of
literals. -/
structure Matched (dialect : Dialect) (text : List Char) : Prop where
  prefix_le : ∀ u, u <+: text → closings dialect u ≤ openings dialect u
  whole : closings dialect text = openings dialect text
  outside : Literal.outside.after dialect text = .outside

/-! ### Counting step by step -/

/-- How many more brackets a text opens than it closes, for a reading that begins at a place. -/
def level (dialect : Dialect) (literal : Literal) (text : List Char) : Int :=
  (unquoted dialect literal text).countP isOpening
    - (unquoted dialect literal text).countP isClosing

@[simp] lemma level_nil : level dialect literal [] = 0 := rfl

lemma level_append (literal : Literal) (u v : List Char) : level dialect literal (u ++ v)
    = level dialect literal u + level dialect (literal.after dialect u) v := by
  simp only [level, unquoted_append, List.countP_append]
  omega

lemma level_cons (literal : Literal) (c : Char) (rest : List Char) :
    level dialect literal (c :: rest)
      = level dialect literal [c] + level dialect (literal.step dialect c) rest :=
  level_append literal [c] rest

/-- Within a literal nothing counts. -/
lemma level_of_covers (h : literal.covers c = true) : level dialect literal [c] = 0 := by
  simp [level, unquoted, h]

lemma level_outside (hc : isQuote c = false) : level dialect .outside [c]
    = if isOpening c then 1 else if isClosing c then -1 else 0 := by
  have hcovers : Literal.outside.covers c = false := hc
  rw [level, unquoted, hcovers, if_neg Bool.false_ne_true, unquoted, List.countP_singleton,
    List.countP_singleton]
  by_cases ho : isOpening c = true
  · have hclose : isClosing c = false := by
      by_contra h
      simp [not_isOpening_of_isClosing (by simpa using h)] at ho
    simp [ho, hclose]
  · by_cases hclose : isClosing c = true <;> simp [ho, hclose]

lemma level_eq_zero_iff :
    level dialect .outside text = 0 ↔ closings dialect text = openings dialect text := by
  rw [level, openings, closings]
  omega

lemma level_nonneg_iff :
    0 ≤ level dialect .outside text ↔ closings dialect text ≤ openings dialect text := by
  rw [level, openings, closings]
  omega

/-- A step of the count of open brackets adds what the character opens or closes; there is none
where the count would fall below zero. -/
lemma bracketStep?_eq (dialect : Dialect) (n : Nat) (literal : Literal) (c : Char) :
    bracketStep? dialect n literal c
      = if 0 ≤ (n : Int) + level dialect literal [c] then
          some ((n + level dialect literal [c]).toNat, literal.step dialect c)
        else none := by
  cases hcovers : literal.covers c with
  | true => simp [bracketStep?, level_of_covers hcovers, hcovers]
  | false =>
      obtain ⟨rfl, hquote, hstep⟩ := Literal.step_of_not_covers dialect hcovers
      rw [level_outside hquote, hstep]
      simp only [bracketStep?, hcovers, Bool.false_eq_true, ite_false]
      split
      · rw [if_pos (by omega)]
        rfl
      · split
        · cases n with
          | zero => rfl
          | succ n =>
              have hless : ((n + 1 : Nat) : Int) + -1 = n := by omega
              rw [hless, if_pos (Int.natCast_nonneg n), Int.toNat_natCast]
        · simp

/-- The count of open brackets comes through a text if it never falls below zero, and then it has
grown by what the text opens and does not close. -/
theorem depthAfter?_eq_some_iff : depthAfter? dialect n literal text = some s ↔
    (∀ u, u <+: text → 0 ≤ (n : Int) + level dialect literal u) ∧
      (s.1 : Int) = n + level dialect literal text ∧ s.2 = literal.after dialect text := by
  induction text generalizing n literal with
  | nil =>
      rw [depthAfter?, Option.some_inj, Prod.ext_iff]
      simp only [List.prefix_nil, forall_eq, level_nil, Int.add_zero, Literal.after_nil]
      exact ⟨fun h => ⟨Int.natCast_nonneg n, by rw [h.1], h.2.symm⟩,
        fun h => ⟨(Int.ofNat_inj.mp h.2.1).symm, h.2.2.symm⟩⟩
  | cons c text ih =>
      rw [depthAfter?, bracketStep?_eq]
      split
      · next hge =>
          rw [Option.bind_some, ih, Int.toNat_of_nonneg hge, level_cons literal c text,
            Literal.after_cons, ← Int.add_assoc]
          refine and_congr_left' ⟨fun h u hu => ?_, fun h u hu => ?_⟩
          · obtain rfl | ⟨w, rfl, hw⟩ := List.prefix_cons_iff.mp hu
            · simp
            · rw [level_cons, ← Int.add_assoc]
              exact h w hw
          · have hcons := h (c :: u) (List.cons_prefix_cons.mpr ⟨rfl, hu⟩)
            rwa [level_cons, ← Int.add_assoc] at hcons
      · next hlt =>
          refine ⟨fun h => by simp at h, fun h => absurd ?_ hlt⟩
          exact h.1 [c] (List.cons_prefix_cons.mpr ⟨rfl, List.nil_prefix⟩)

/-- No beginning of a text closes more brackets than it opens if and only if the count of open
brackets comes through the text. -/
lemma forall_prefix_iff : (∀ u, u <+: text → closings dialect u ≤ openings dialect u) ↔
    ∃ s, depthAfter? dialect 0 .outside text = some s := by
  simp only [depthAfter?_eq_some_iff, Int.natCast_zero, Int.zero_add, level_nonneg_iff]
  refine ⟨fun h => ?_, fun ⟨_, h, _⟩ => h⟩
  have hlevel := level_nonneg_iff.mpr (h text (List.prefix_refl text))
  exact ⟨((level dialect .outside text).toNat, Literal.outside.after dialect text), h,
    Int.toNat_of_nonneg hlevel, rfl⟩

/-- The brackets of a text match if and only if the count of open brackets comes through the text
and ends at none. -/
theorem matched_iff_balanced : Matched dialect text ↔ Balanced dialect text := by
  rw [Balanced, depthAfter?_eq_some_iff]
  simp only [Int.natCast_zero, Int.zero_add, level_nonneg_iff]
  constructor
  · rintro ⟨hle, hwhole, houtside⟩
    exact ⟨hle, (level_eq_zero_iff.mpr hwhole).symm, houtside.symm⟩
  · rintro ⟨hle, hwhole, houtside⟩
    exact ⟨hle, level_eq_zero_iff.mp hwhole.symm, houtside.symm⟩

instance (dialect : Dialect) (text : List Char) : Decidable (Matched dialect text) :=
  decidable_of_iff _ matched_iff_balanced.symm

/-! ### Partners -/

/-- A bracket and its partner enclose the text whose brackets match. -/
theorem enclosed?_eq_some_iff : enclosed? dialect text = some (inner, rest) ↔
    ∃ c, text = inner ++ c :: rest ∧ isClosing c = true ∧ Matched dialect inner := by
  constructor
  · intro h
    obtain ⟨u, c, rfl, hc, rfl, hu⟩ := exists_of_enclosedLoop h
    exact ⟨c, by simp, hc, matched_iff_balanced.mpr hu⟩
  · rintro ⟨c, rfl, hc, hinner⟩
    exact enclosed?_of_balanced (matched_iff_balanced.mp hinner) hc

/-! ### Offsets -/

/-- The character of a text at a byte offset, if one begins there. -/
def Text.charAt? (text : List Char) (offset : Nat) : Option Char :=
  (dropBytes? offset text).bind List.head?

lemma Text.charAt?_byteLength (u v : List Char) : charAt? (u ++ v) (byteLength u) = v.head? := by
  rw [charAt?, dropBytes?_append]
  rfl

lemma Text.charAt?_append (u : List Char) (c : Char) (v : List Char) :
    charAt? (u ++ c :: v) (byteLength u) = some c := charAt?_byteLength u (c :: v)

/-- An opening bracket at the byte offset `start` of a text and a closing one at the offset `stop`,
with a text between them whose brackets match. -/
def Encloses (dialect : Dialect) (text : List Char) (start stop : Nat) (body : List Char) : Prop :=
  ∃ p o c s, text = p ++ o :: (body ++ c :: s) ∧ isOpening o = true ∧ isClosing c = true ∧
    Matched dialect body ∧ Text.byteLength p = start ∧ stop = start + 1 + Text.byteLength body

/-- What stands between the bracket at an offset and its partner is the text whose brackets
match. -/
theorem bracketBodyAt?_eq_some_iff : bracketBodyAt? dialect text start = some body ↔
    Encloses dialect text start (start + 1 + Text.byteLength body) body := by
  constructor
  · intro h
    obtain ⟨found, hdrop, hbody⟩ := Option.bind_eq_some_iff.mp h
    obtain ⟨p, rfl, rfl⟩ := Text.dropBytes?_eq_some_iff.mp hdrop
    cases found with
    | nil => simp [bracketBody?] at hbody
    | cons o found =>
        rw [bracketBody?] at hbody
        split at hbody
        · next ho =>
            obtain ⟨⟨inner, s⟩, hinner, rfl⟩ := Option.map_eq_some_iff.mp hbody
            obtain ⟨c, rfl, hc, hmatched⟩ := enclosed?_eq_some_iff.mp hinner
            exact ⟨p, o, c, s, rfl, ho, hc, hmatched, rfl, rfl⟩
        · simp at hbody
  · rintro ⟨p, o, c, s, rfl, ho, hc, hmatched, rfl, -⟩
    have hinner : enclosed? dialect (body ++ c :: s) = some (body, s) :=
      enclosed?_eq_some_iff.mpr ⟨c, rfl, hc, hmatched⟩
    rw [bracketBodyAt?, Text.dropBytes?_append, Option.bind_some, bracketBody?, if_pos ho, hinner]
    rfl

theorem findMatching?_eq_some_iff : findMatching? dialect text start = some stop ↔
    ∃ body, Encloses dialect text start stop body := by
  rw [findMatching?, Option.map_eq_some_iff]
  refine exists_congr fun body => ?_
  rw [bracketBodyAt?_eq_some_iff]
  constructor
  · rintro ⟨h, rfl⟩
    exact h
  · intro h
    obtain ⟨-, -, -, -, -, -, -, -, -, rfl⟩ := id h
    exact ⟨h, rfl⟩

/-- Brackets that enclose a text, as the characters and the piece at their offsets. -/
lemma Encloses.places (h : Encloses dialect text start stop body) : start < stop ∧
    (∃ o, Text.charAt? text start = some o ∧ isOpening o = true) ∧
    (∃ c, Text.charAt? text stop = some c ∧ isClosing c = true) ∧
    Text.slice? text (start + 1) stop = some body ∧ Matched dialect body := by
  obtain ⟨p, o, c, s, rfl, ho, hc, hmatched, rfl, rfl⟩ := h
  have hfront : Text.byteLength (p ++ [o]) = Text.byteLength p + 1 := by
    rw [Text.byteLength_concat, utf8Size_of_isOpening ho]
  have htext : p ++ o :: (body ++ c :: s) = (p ++ [o]) ++ (body ++ c :: s) := by simp
  refine ⟨by omega, ⟨o, Text.charAt?_append p o _, ho⟩, ⟨c, ?_, hc⟩, ?_, hmatched⟩
  · rw [htext, ← List.append_assoc, ← hfront, ← Text.byteLength_append]
    exact Text.charAt?_append _ c s
  · rw [htext, ← hfront]
    exact Text.slice?_append (p ++ [o]) body (c :: s)

/-- **A partner is found exactly where there is one.**  Behind any text, an opening bracket, a text
whose brackets match and a closing bracket are found as a bracket, what it encloses and its partner;
what is found is of this kind; and nothing is found only where no opening bracket stands or no
closing one stands behind a text whose brackets match. -/
theorem findMatching?_exact (dialect : Dialect) :
    (∀ p o b c s, isOpening o = true → isClosing c = true → Matched dialect b →
      findMatching? dialect (p ++ [o] ++ b ++ [c] ++ s) (Text.byteLength p)
          = some (Text.byteLength p + 1 + Text.byteLength b) ∧
        bracketBodyAt? dialect (p ++ [o] ++ b ++ [c] ++ s) (Text.byteLength p) = some b) ∧
      (∀ text start stop, findMatching? dialect text start = some stop →
        (∃ o, Text.charAt? text start = some o ∧ isOpening o = true) ∧ start < stop ∧
          (∃ c, Text.charAt? text stop = some c ∧ isClosing c = true) ∧
          ∃ b, Text.slice? text (start + 1) stop = some b ∧ Matched dialect b ∧
            bracketBodyAt? dialect text start = some b) ∧
      ∀ text start, findMatching? dialect text start = none ↔
        (¬ ∃ o, Text.charAt? text start = some o ∧ isOpening o = true) ∨
          ¬ ∃ p o b c s, text = p ++ [o] ++ b ++ [c] ++ s ∧ Text.byteLength p = start ∧
            isOpening o = true ∧ isClosing c = true ∧ Matched dialect b := by
  refine ⟨fun p o b c s ho hc hb => ?_, fun text start stop h => ?_, fun text start => ?_⟩
  · have hencloses : Encloses dialect (p ++ [o] ++ b ++ [c] ++ s) (Text.byteLength p)
        (Text.byteLength p + 1 + Text.byteLength b) b :=
      ⟨p, o, c, s, by simp, ho, hc, hb, rfl, rfl⟩
    exact ⟨findMatching?_eq_some_iff.mpr ⟨b, hencloses⟩, bracketBodyAt?_eq_some_iff.mpr hencloses⟩
  · obtain ⟨b, hencloses⟩ := findMatching?_eq_some_iff.mp h
    obtain ⟨hlt, hopening, hclosing, hslice, hmatched⟩ := hencloses.places
    obtain ⟨-, -, -, -, -, -, -, -, -, rfl⟩ := id hencloses
    exact ⟨hopening, hlt, hclosing, b, hslice, hmatched, bracketBodyAt?_eq_some_iff.mpr hencloses⟩
  · constructor
    · refine fun h => Or.inr ?_
      rintro ⟨p, o, b, c, s, rfl, rfl, ho, hc, hb⟩
      have hfound : findMatching? dialect (p ++ [o] ++ b ++ [c] ++ s)
          (Text.byteLength p) = some _ :=
        findMatching?_eq_some_iff.mpr ⟨b, p, o, c, s, by simp, ho, hc, hb, rfl, rfl⟩
      exact Option.some_ne_none _ (hfound.symm.trans h)
    · intro h
      by_contra hsome
      obtain ⟨stop, hstop⟩ := Option.ne_none_iff_exists'.mp hsome
      obtain ⟨b, hencloses⟩ := findMatching?_eq_some_iff.mp hstop
      obtain hnone | hnone := h
      · exact hnone hencloses.places.2.1
      · obtain ⟨p, o, c, s, rfl, ho, hc, hb, rfl, -⟩ := hencloses
        exact hnone ⟨p, o, b, c, s, by simp, rfl, ho, hc, hb⟩

/-- The arguments of a call, with brackets of two kinds and a bracket in a literal. -/
def sampleArguments : List Char := "a, [b, (c\u00E9)], \")\"".toList

/-- They are found behind the name of the call, and their brackets are found at the offsets around
them. -/
theorem findMatching?_exact_sampleArguments :
    isOpening '(' = true ∧ isClosing ')' = true ∧ Matched .code sampleArguments ∧
      findMatching? .code (['f'] ++ ['('] ++ sampleArguments ++ [')'] ++ " + 1".toList) 1
        = some 20 ∧
      bracketBodyAt? .code (['f'] ++ ['('] ++ sampleArguments ++ [')'] ++ " + 1".toList) 1
        = some sampleArguments ∧
      ∃ c, Text.charAt? (['f'] ++ ['('] ++ sampleArguments ++ [')'] ++ " + 1".toList) 20 = some c ∧
        isClosing c = true := by
  have hmatched : Matched .code sampleArguments := by decide
  obtain ⟨hfinds, hfound, -⟩ := findMatching?_exact .code
  obtain ⟨hstop, hbody⟩ := hfinds ['f'] '(' sampleArguments ')' " + 1".toList rfl rfl hmatched
  exact ⟨rfl, rfl, hmatched, hstop, hbody, (hfound _ _ _ hstop).2.2.1⟩

end SchemaReader
