/-
Texts with balanced brackets.

* `bracketStep?`: what a character does to the number of open brackets, with `BracketStep`: the
  steps there are, and `enclosedLoop_cons`: the search for a bracket's partner goes by them;
* `depthAfter?`: the number of open brackets behind a text, with `Balanced`: none, and no literal;
* `enclosed?_of_balanced`: a balanced text is what stands between a bracket and its partner;
* `enclosed?_append`: what follows a bracket and its partner does not matter to them;
* `isSome_enclosed?`: a bracket is closed in a text behind which fewer are open;
* `ClosesParens`: every parenthesis that a script opens is closed in it.
-/
import SchemaReader.Lexical.Brackets
import SchemaReader.Proofs.Lexical.Closed

namespace SchemaReader

/-! ### Open brackets -/

/-- The number of open brackets and the place with respect to literals behind one more character.
Brackets of all kinds count alike, and brackets in literals do not count.  Nothing if a bracket
closes that none has opened. -/
def bracketStep? (dialect : Dialect) (depth : Nat) (literal : Literal) (c : Char) :
    Option (Nat × Literal) :=
  if literal.covers c then some (depth, literal.step dialect c)
  else if isOpening c then some (depth + 1, .outside)
  else if isClosing c then
    match depth with
    | 0 => none
    | depth + 1 => some (depth, .outside)
  else some (depth, .outside)

/-- The same behind a text. -/
def depthAfter? (dialect : Dialect) : (depth : Nat) → Literal → List Char → Option (Nat × Literal)
  | depth, literal, [] => some (depth, literal)
  | depth, literal, c :: rest =>
    (bracketStep? dialect depth literal c).bind fun s => depthAfter? dialect s.1 s.2 rest

/-- A text closes the brackets and literals that it opens, and no others. -/
def Balanced (dialect : Dialect) (text : List Char) : Prop :=
  depthAfter? dialect 0 .outside text = some (0, .outside)

instance (dialect : Dialect) (text : List Char) : Decidable (Balanced dialect text) :=
  inferInstanceAs (Decidable (_ = _))

variable {dialect : Dialect} {n depth : Nat} {literal : Literal} {s : Nat × Literal} {c : Char}
  {body inner rest text u v : List Char}

/-- The search for a partner ends with the bracket that closes what the search did not see open. -/
lemma enclosedLoop_cons (dialect : Dialect) (depth : Nat) (literal : Literal) (body : List Char)
    (c : Char) (rest : List Char) : enclosedLoop dialect depth literal body (c :: rest)
      = match bracketStep? dialect depth literal c with
        | none => some (body.reverse, rest)
        | some s => enclosedLoop dialect s.1 s.2 (c :: body) rest := by
  simp only [enclosedLoop, bracketStep?]
  split
  · rfl
  · split
    · rfl
    · split
      · cases depth <;> rfl
      · rfl

/-- A step of the count of open brackets.  An opening bracket raises the count and a closing one
lowers it; the characters of literals and all others leave it. -/
inductive BracketStep (dialect : Dialect) (c : Char) : Nat → Literal → Nat × Literal → Prop
  | covered {depth : Nat} {literal : Literal} : literal.covers c = true →
      BracketStep dialect c depth literal (depth, literal.step dialect c)
  | opening {depth : Nat} : isOpening c = true →
      BracketStep dialect c depth .outside (depth + 1, .outside)
  | closing {depth : Nat} : isClosing c = true →
      BracketStep dialect c (depth + 1) .outside (depth, .outside)
  | plain {depth : Nat} : isPlain c = true →
      BracketStep dialect c depth .outside (depth, .outside)

/-- These are all the steps there are. -/
theorem bracketStep?_eq_some_iff :
    bracketStep? dialect depth literal c = some s ↔ BracketStep dialect c depth literal s := by
  constructor
  · intro h
    simp only [bracketStep?] at h
    split at h
    · next hcovers =>
        obtain rfl := Option.some.inj h
        exact .covered hcovers
    · next hcovers =>
        obtain ⟨rfl, hquote, -⟩ := Literal.step_of_not_covers dialect (by simpa using hcovers)
        split at h
        · next hopening =>
            obtain rfl := Option.some.inj h
            exact .opening hopening
        · next hopening =>
            split at h
            · next hclosing =>
                cases depth with
                | zero => cases h
                | succ depth =>
                    obtain rfl := Option.some.inj h
                    exact .closing hclosing
            · next hclosing =>
                obtain rfl := Option.some.inj h
                exact .plain
                  (isPlain_iff.mpr ⟨hquote, by simpa using hopening, by simpa using hclosing⟩)
  · rintro (hcovers | hopening | hclosing | hplain)
    · exact if_pos hcovers
    · simp [bracketStep?, Literal.covers, not_isQuote_of_isOpening hopening, hopening]
    · simp [bracketStep?, Literal.covers, not_isQuote_of_isClosing hclosing,
        not_isOpening_of_isClosing hclosing, hclosing]
    · obtain ⟨hquote, hopening, hclosing⟩ := isPlain_iff.mp hplain
      simp [bracketStep?, Literal.covers, hquote, hopening, hclosing]

/-- Brackets that are open beyond those that a step sees stay open. -/
lemma bracketStep?_add (h : bracketStep? dialect depth literal c = some s) (n : Nat) :
    bracketStep? dialect (depth + n) literal c = some (s.1 + n, s.2) := by
  rw [bracketStep?_eq_some_iff] at h ⊢
  cases h with
  | covered hcovers => exact .covered hcovers
  | opening hopening =>
      rw [Nat.add_right_comm]
      exact .opening hopening
  | closing hclosing =>
      rw [Nat.add_right_comm]
      exact .closing hclosing
  | plain hplain => exact .plain hplain

/-- The count of open brackets ends only where a bracket closes that none has opened. -/
lemma of_bracketStep?_eq_none (h : bracketStep? dialect depth literal c = none) :
    depth = 0 ∧ literal = .outside ∧ isClosing c = true := by
  have hnone : ∀ s, ¬ BracketStep dialect c depth literal s := fun s hs => by
    rw [bracketStep?_eq_some_iff.mpr hs] at h
    cases h
  have hcovers : literal.covers c = false := Bool.eq_false_iff.mpr fun h => hnone _ (.covered h)
  obtain ⟨rfl, hquote, -⟩ := Literal.step_of_not_covers dialect hcovers
  have hopening : isOpening c = false := Bool.eq_false_iff.mpr fun h => hnone _ (.opening h)
  have hclosing : isClosing c = true := by
    by_contra hnot
    exact hnone _ (.plain (isPlain_iff.mpr ⟨hquote, hopening, by simpa using hnot⟩))
  refine ⟨?_, rfl, hclosing⟩
  cases depth with
  | zero => rfl
  | succ depth => exact absurd (.closing hclosing) (hnone _)

lemma bracketStep?_closing (hc : isClosing c = true) :
    bracketStep? dialect 0 .outside c = none := by
  simp [bracketStep?, Literal.covers, not_isQuote_of_isClosing hc, not_isOpening_of_isClosing hc,
    hc]

/-- A plain character opens and closes no bracket. -/
lemma bracketStep?_of_isPlain (hc : isPlain c = true) : bracketStep? dialect depth literal c
    = some (depth, literal.step dialect c) := by
  rw [bracketStep?_eq_some_iff]
  cases hcovers : literal.covers c with
  | true => exact .covered hcovers
  | false =>
      obtain ⟨rfl, -, houtside⟩ := Literal.step_of_not_covers dialect hcovers
      rw [houtside]
      exact .plain hc

/-- Without a quote no literal is opened. -/
lemma outside_of_bracketStep? (hc : isQuote c = false)
    (h : bracketStep? dialect depth .outside c = some s) : s.2 = .outside := by
  cases bracketStep?_eq_some_iff.mp h with
  | covered hcovers => exact absurd (hc.symm.trans hcovers) Bool.false_ne_true
  | _ => rfl

lemma depthAfter?_append (depth : Nat) (literal : Literal) (u v : List Char) :
    depthAfter? dialect depth literal (u ++ v)
      = (depthAfter? dialect depth literal u).bind fun s => depthAfter? dialect s.1 s.2 v := by
  induction u generalizing depth literal with
  | nil => rfl
  | cons c u ih =>
      rw [List.cons_append, depthAfter?, depthAfter?, Option.bind_assoc]
      exact Option.bind_congr fun s _ => ih s.1 s.2

lemma exists_depthAfter? (h : depthAfter? dialect depth literal (u ++ v) = some s) :
    ∃ n l, depthAfter? dialect depth literal u = some (n, l) ∧
      depthAfter? dialect n l v = some s := by
  rw [depthAfter?_append] at h
  obtain ⟨⟨n, l⟩, hu, hv⟩ := Option.bind_eq_some_iff.mp h
  exact ⟨n, l, hu, hv⟩

lemma outside_of_depthAfter? (hu : ∀ c ∈ u, isQuote c = false)
    (h : depthAfter? dialect depth .outside u = some s) : s.2 = .outside := by
  induction u generalizing depth with
  | nil => rw [← Option.some.inj h]
  | cons c u ih =>
      rw [List.forall_mem_cons] at hu
      obtain ⟨⟨n, l⟩, hstep, h⟩ := Option.bind_eq_some_iff.mp h
      obtain rfl : l = .outside := outside_of_bracketStep? hu.1 hstep
      exact ih hu.2 h

/-- Plain characters open and close nothing. -/
lemma depthAfter?_plain (hu : ∀ c ∈ u, isPlain c = true) :
    depthAfter? dialect depth .outside u = some (depth, .outside) := by
  induction u with
  | nil => rfl
  | cons c u ih =>
      rw [List.forall_mem_cons] at hu
      have hcovers : Literal.outside.covers c = false := (isPlain_iff.mp hu.1).1
      rw [depthAfter?, bracketStep?_of_isPlain hu.1, Option.bind_some,
        (Literal.step_of_not_covers dialect hcovers).2.2]
      exact ih hu.2

/-! ### Brackets and their partners -/

lemma enclosedLoop_of_depthAfter? (h : depthAfter? dialect depth literal u = some s)
    (body rest : List Char) : enclosedLoop dialect depth literal body (u ++ rest)
      = enclosedLoop dialect s.1 s.2 (u.reverse ++ body) rest := by
  induction u generalizing depth literal body with
  | nil =>
      rw [← Option.some.inj h]
      rfl
  | cons c u ih =>
      obtain ⟨s', hstep, h⟩ := Option.bind_eq_some_iff.mp h
      rw [List.cons_append, enclosedLoop_cons, hstep, List.reverse_cons, List.append_assoc]
      exact ih h _

/-- A balanced text is what stands between a bracket and its partner. -/
theorem enclosed?_of_balanced (h : Balanced dialect u) (hc : isClosing c = true) :
    enclosed? dialect (u ++ c :: rest) = some (u, rest) := by
  rw [enclosed?, enclosedLoop_of_depthAfter? h, enclosedLoop_cons, bracketStep?_closing hc]
  simp

/-- Where the search for a partner ends, the partner stands, and all brackets that were open are
closed in front of it. -/
lemma exists_of_enclosedLoop (h : enclosedLoop dialect depth literal body text
    = some (inner, rest)) :
    ∃ u c, text = u ++ c :: rest ∧ isClosing c = true ∧ inner = body.reverse ++ u ∧
      depthAfter? dialect depth literal u = some (0, .outside) := by
  induction text generalizing depth literal body with
  | nil => simp [enclosedLoop] at h
  | cons c text ih =>
      rw [enclosedLoop_cons] at h
      cases hstep : bracketStep? dialect depth literal c with
      | none =>
          rw [hstep] at h
          obtain ⟨rfl, rfl⟩ := Prod.mk.inj (Option.some.inj h)
          obtain ⟨rfl, rfl, hclosing⟩ := of_bracketStep?_eq_none hstep
          exact ⟨[], c, rfl, hclosing, by simp, rfl⟩
      | some d =>
          rw [hstep] at h
          obtain ⟨u, e, rfl, he, rfl, hu⟩ := ih h
          exact ⟨c :: u, e, rfl, he, by simp, by rw [depthAfter?, hstep, Option.bind_some, hu]⟩

lemma enclosedLoop_append (h : enclosedLoop dialect depth literal body text = some (inner, rest))
    (more : List Char) :
    enclosedLoop dialect depth literal body (text ++ more) = some (inner, rest ++ more) := by
  induction text generalizing depth literal body with
  | nil => simp [enclosedLoop] at h
  | cons c text ih =>
      rw [List.cons_append, enclosedLoop_cons]
      rw [enclosedLoop_cons] at h
      cases hstep : bracketStep? dialect depth literal c with
      | none =>
          rw [hstep] at h
          obtain ⟨rfl, rfl⟩ := Prod.mk.inj (Option.some.inj h)
          rfl
      | some s =>
          rw [hstep] at h
          exact ih h

/-- What follows a bracket and its partner does not matter to them. -/
theorem enclosed?_append (h : enclosed? dialect text = some (inner, rest)) (more : List Char) :
    enclosed? dialect (text ++ more) = some (inner, rest ++ more) := enclosedLoop_append h more

/-- The text so far stands before what is still to come. -/
lemma enclosedLoop_body (body : List Char) : enclosedLoop dialect depth literal body text
    = (enclosedLoop dialect depth literal [] text).map fun found =>
      (body.reverse ++ found.1, found.2) := by
  induction text generalizing depth literal body with
  | nil => rfl
  | cons c text ih =>
      rw [enclosedLoop_cons, enclosedLoop_cons]
      cases hstep : bracketStep? dialect depth literal c with
      | none => simp
      | some s =>
          simp only
          rw [ih (c :: body), ih [c], Option.map_map]
          congr 1
          funext found
          simp

/-- A text either closes a bracket that was open before it, or the brackets can be counted behind
it. -/
lemma exists_enclosedLoop_or_depthAfter? (dialect : Dialect) (depth : Nat) (literal : Literal)
    (body text : List Char) :
    (∃ inner rest, enclosedLoop dialect depth literal body text = some (inner, rest)) ∨
      ∃ s, depthAfter? dialect depth literal text = some s := by
  induction text generalizing depth literal body with
  | nil => exact Or.inr ⟨_, rfl⟩
  | cons c text ih =>
      rw [enclosedLoop_cons, depthAfter?]
      cases hstep : bracketStep? dialect depth literal c with
      | none => exact Or.inl ⟨_, _, rfl⟩
      | some s => exact ih s.1 s.2 (c :: body)

/-- The same for the text between the two. -/
lemma map_enclosed?_append (h : (enclosed? dialect text).isSome = true) (more : List Char) :
    (enclosed? dialect (text ++ more)).map (·.1) = (enclosed? dialect text).map (·.1) := by
  obtain ⟨⟨inner, rest⟩, h⟩ := Option.isSome_iff_exists.mp h
  rw [enclosed?_append h, h]
  rfl

/-- The search ends where fewer brackets are open than before the one whose partner is sought. -/
lemma isSome_enclosedLoop (h : depthAfter? dialect (n + (depth + 1)) literal text = some s)
    (hdepth : s.1 ≤ depth) (body : List Char) :
    (enclosedLoop dialect n literal body text).isSome = true := by
  induction text generalizing n literal body with
  | nil =>
      rw [← Option.some.inj h] at hdepth
      omega
  | cons c text ih =>
      rw [enclosedLoop_cons]
      cases hstep : bracketStep? dialect n literal c with
      | none => rfl
      | some s' =>
          rw [depthAfter?, bracketStep?_add hstep] at h
          exact ih h _

/-- A bracket is closed in the text behind it if fewer brackets are open behind that text. -/
theorem isSome_enclosed? (h : depthAfter? dialect (depth + 1) .outside text = some s)
    (hdepth : s.1 ≤ depth) : (enclosed? dialect text).isSome = true :=
  isSome_enclosedLoop ((Nat.zero_add (depth + 1)).symm ▸ h) hdepth []

lemma exists_isClosing (h : (enclosedLoop dialect depth literal body text).isSome = true) :
    ∃ c ∈ text, isClosing c = true := by
  induction text generalizing depth literal body with
  | nil => simp [enclosedLoop] at h
  | cons c text ih =>
      rw [enclosedLoop_cons] at h
      cases hstep : bracketStep? dialect depth literal c with
      | none => exact ⟨c, List.mem_cons_self, (of_bracketStep?_eq_none hstep).2.2⟩
      | some s =>
          rw [hstep] at h
          obtain ⟨d, hd, hclosing⟩ := ih h
          exact ⟨d, List.mem_cons_of_mem c hd, hclosing⟩

/-! ### Parentheses of scripts -/

/-- Every parenthesis that a script opens is closed in it: a closing one follows, and among the
brackets of all kinds it has a partner. -/
def ClosesParens (text : List Char) : Prop :=
  ∀ a b, text = a ++ '(' :: b → ')' ∈ b ∧ (enclosed? .script b).isSome = true

/-- A quote, or a bracket other than a parenthesis. -/
def isQuoteOrBracket (c : Char) : Bool :=
  isQuote c || c == '[' || c == ']' || c == '{' || c == '}'

/-- Balanced parentheses are closed, where there are no quotes and no other brackets. -/
theorem closesParens_of_balanced (h : Balanced .script text)
    (hplain : ∀ c ∈ text, isQuoteOrBracket c = false) : ClosesParens text := by
  rintro a b rfl
  have hquote : ∀ c ∈ a, isQuote c = false := fun c hc => by
    have := hplain c (List.mem_append_left _ hc)
    simp_all [isQuoteOrBracket]
  obtain ⟨depth, l, ha, hb⟩ := exists_depthAfter? h
  obtain rfl : l = .outside := outside_of_depthAfter? hquote ha
  have hopen : bracketStep? .script depth .outside '(' = some (depth + 1, .outside) := rfl
  rw [depthAfter?, hopen, Option.bind_some] at hb
  have hsome : (enclosed? .script b).isSome = true := isSome_enclosed? hb (Nat.zero_le _)
  obtain ⟨c, hc, hclosing⟩ := exists_isClosing hsome
  refine ⟨?_, hsome⟩
  have := hplain c (by simp [hc])
  obtain rfl : c = ')' := by simp_all [isQuoteOrBracket, isClosing]
  exact hc

end SchemaReader
