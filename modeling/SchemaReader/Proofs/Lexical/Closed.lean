/-
Texts in which brackets and literals are closed.

* `Closed`: plain characters of a class, brackets around a closed text and literals;
* `enclosed?_of_closed`: a closed text is what stands between a bracket and its partner;
* `splitTopLevel_cons`, `splitTopLevel_of_closed`: the pieces of a text between separators, for
  pieces that are closed without a separator outside of brackets.
-/
import Mathlib.Data.List.Basic
import Mathlib.Tactic.Lemma
import SchemaReader.Lexical.TopLevel

namespace SchemaReader

/-! ### Closed texts -/

/-- A character that neither opens nor closes anything. -/
def isPlain (c : Char) : Bool := !isQuote c && !isOpening c && !isClosing c

/-- A character that stands for itself inside a literal: it neither ends the literal nor takes the
meaning of the next character away. -/
def Dialect.Keeps (dialect : Dialect) (quote c : Char) : Prop :=
  c ≠ quote ∧ (dialect.backslashEscapes = true → c ≠ '\\')

/-- A text that closes what it opens, with only characters of a class outside of it. -/
inductive Closed (dialect : Dialect) : (Char → Prop) → List Char → Prop
  | nil (P : Char → Prop) : Closed dialect P []
  | plain {P : Char → Prop} {c : Char} : isPlain c = true → P c → Closed dialect P [c]
  | append {P : Char → Prop} {u v : List Char} : Closed dialect P u → Closed dialect P v →
      Closed dialect P (u ++ v)
  | bracket (P : Char → Prop) {o c : Char} {u : List Char} : isOpening o = true →
      isClosing c = true → Closed dialect (fun _ => True) u → Closed dialect P (o :: (u ++ [c]))
  | literal (P : Char → Prop) {q : Char} {u : List Char} : isQuote q = true →
      (∀ c ∈ u, dialect.Keeps q c) → Closed dialect P (q :: (u ++ [q]))

variable {P Q : Char → Prop} {u v rest : List Char} {dialect : Dialect} {separator : Char}

lemma Closed.cons {c : Char} (hc : isPlain c = true) (hP : P c) (h : Closed dialect P u) :
    Closed dialect P (c :: u) := (Closed.plain hc hP).append h

lemma closed_of_forall (h : ∀ c ∈ u, isPlain c = true ∧ P c) : Closed dialect P u := by
  induction u with
  | nil => exact .nil P
  | cons c u ih =>
      rw [List.forall_mem_cons] at h
      exact .cons h.1.1 h.1.2 (ih h.2)

lemma Closed.mono (hPQ : ∀ c, P c → Q c) (h : Closed dialect P u) : Closed dialect Q u := by
  induction h with
  | nil => exact .nil Q
  | plain hc hP => exact .plain hc (hPQ _ hP)
  | append _ _ ihu ihv => exact (ihu hPQ).append (ihv hPQ)
  | bracket _ ho hc hu => exact .bracket Q ho hc hu
  | literal _ hq hu => exact .literal Q hq hu

lemma not_isQuote_of_isOpening {c : Char} (h : isOpening c = true) : isQuote c = false := by
  simp only [isOpening, Bool.or_eq_true, beq_iff_eq] at h
  rcases h with (rfl | rfl) | rfl <;> rfl

lemma not_isQuote_of_isClosing {c : Char} (h : isClosing c = true) : isQuote c = false := by
  simp only [isClosing, Bool.or_eq_true, beq_iff_eq] at h
  rcases h with (rfl | rfl) | rfl <;> rfl

lemma not_isOpening_of_isClosing {c : Char} (h : isClosing c = true) : isOpening c = false := by
  simp only [isClosing, Bool.or_eq_true, beq_iff_eq] at h
  rcases h with (rfl | rfl) | rfl <;> rfl

/-- A bracket is one byte long. -/
lemma utf8Size_of_isOpening {c : Char} (h : isOpening c = true) : c.utf8Size = 1 := by
  simp only [isOpening, Bool.or_eq_true, beq_iff_eq] at h
  rcases h with (rfl | rfl) | rfl <;> rfl

lemma utf8Size_of_isClosing {c : Char} (h : isClosing c = true) : c.utf8Size = 1 := by
  simp only [isClosing, Bool.or_eq_true, beq_iff_eq] at h
  rcases h with (rfl | rfl) | rfl <;> rfl

lemma isPlain_iff {c : Char} : isPlain c = true ↔
    isQuote c = false ∧ isOpening c = false ∧ isClosing c = false := by
  simp [isPlain, and_assoc]

lemma ne_of_isPlain {c d : Char} (hc : isPlain c = true) (hd : isPlain d = false) : c ≠ d := by
  rintro rfl
  simp [hc] at hd

lemma Literal.step_of_not_covers (dialect : Dialect) {literal : Literal} {c : Char}
    (h : literal.covers c = false) :
    literal = .outside ∧ isQuote c = false ∧ literal.step dialect c = .outside := by
  cases literal with
  | outside =>
      have hc : isQuote c = false := h
      simp [Literal.step, hc]
  | inside q e => simp [Literal.covers] at h

/-- A character that stands for itself leaves the reading inside a literal, and the quote leads
out. -/
lemma Literal.step_inside {q c : Char} (hc : dialect.Keeps q c) :
    (Literal.inside q false).step dialect c = .inside q false := by
  have hback : ¬ (dialect.backslashEscapes = true ∧ c = '\\') := fun h => hc.2 h.1 h.2
  simp [Literal.step, hc.1, hback]

lemma Literal.step_quote {q : Char} (hq : isQuote q = true) :
    (Literal.inside q false).step dialect q = .outside := by
  have hne : q ≠ '\\' := by rintro rfl; simp [isQuote] at hq
  simp [Literal.step, hne]

/-! ### Partners of brackets -/

lemma enclosedLoop_of_literal {q : Char} (hq : isQuote q = true)
    (hu : ∀ c ∈ u, dialect.Keeps q c) (depth : Nat) (body rest : List Char) :
    enclosedLoop dialect depth (.inside q false) body (u ++ q :: rest)
      = enclosedLoop dialect depth .outside (q :: (u.reverse ++ body)) rest := by
  induction u generalizing body with
  | nil => simp [enclosedLoop, Literal.covers, Literal.step_quote hq]
  | cons c u ih =>
      rw [List.forall_mem_cons] at hu
      simp [enclosedLoop, Literal.covers, Literal.step_inside hu.1, ih hu.2]

/-- Reading a closed text adds it to the body, at any depth. -/
lemma enclosedLoop_of_closed (h : Closed dialect P u) (depth : Nat) (body rest : List Char) :
    enclosedLoop dialect depth .outside body (u ++ rest)
      = enclosedLoop dialect depth .outside (u.reverse ++ body) rest := by
  induction h generalizing depth body rest with
  | nil => rfl
  | plain hc =>
      obtain ⟨hq, ho, hc⟩ := isPlain_iff.mp hc
      simp [enclosedLoop, Literal.covers, hq, ho, hc]
  | append _ _ ihu ihv => simp [ihu, ihv]
  | bracket _ ho hc _ ih =>
      simp [enclosedLoop, Literal.covers, not_isQuote_of_isOpening ho, ho, ih,
        not_isQuote_of_isClosing hc, not_isOpening_of_isClosing hc, hc]
  | literal _ hq hu =>
      simp [enclosedLoop, Literal.covers, Literal.step, hq, enclosedLoop_of_literal hq hu]

theorem enclosed?_of_closed (h : Closed dialect P u) {c : Char} (hc : isClosing c = true) :
    enclosed? dialect (u ++ c :: rest) = some (u, rest) := by
  simp [enclosed?, enclosedLoop_of_closed h, enclosedLoop, Literal.covers,
    not_isQuote_of_isClosing hc, not_isOpening_of_isClosing hc, hc]

lemma bracketBody?_of_closed (h : Closed dialect P u) {o c : Char} (ho : isOpening o = true)
    (hc : isClosing c = true) : bracketBody? dialect (o :: (u ++ c :: rest)) = some u := by
  simp [bracketBody?, ho, enclosed?_of_closed h hc]

/-! ### Pieces between separators -/

lemma topLevelPiecesLoop_of_literal {q : Char} (hq : isQuote q = true)
    (hu : ∀ c ∈ u, dialect.Keeps q c) (depth : Int) (done : List (List Char))
    (piece rest : List Char) :
    topLevelPiecesLoop dialect separator depth (.inside q false) done piece (u ++ q :: rest)
      = topLevelPiecesLoop dialect separator depth .outside done (q :: (u.reverse ++ piece))
          rest := by
  induction u generalizing piece with
  | nil => simp [topLevelPiecesLoop, Literal.covers, Literal.step_quote hq]
  | cons c u ih =>
      rw [List.forall_mem_cons] at hu
      simp [topLevelPiecesLoop, Literal.covers, Literal.step_inside hu.1, ih hu.2]

/-- Reading a closed text adds it to the piece, if it has no separator or if a bracket is open. -/
lemma topLevelPiecesLoop_of_closed (h : Closed dialect P u) {depth : Int} (hdepth : 0 ≤ depth)
    (hP : depth = 0 → ∀ c, P c → c ≠ separator) (done : List (List Char))
    (piece rest : List Char) :
    topLevelPiecesLoop dialect separator depth .outside done piece (u ++ rest)
      = topLevelPiecesLoop dialect separator depth .outside done (u.reverse ++ piece) rest := by
  induction h generalizing depth piece rest with
  | nil => rfl
  | @plain P c hc hPc =>
      obtain ⟨hq, ho, hc⟩ := isPlain_iff.mp hc
      have hsep : ¬ (c = separator ∧ depth = 0) := fun h => hP h.2 c hPc h.1
      simp [topLevelPiecesLoop, Literal.covers, hq, ho, hc, hsep]
  | append _ _ ihu ihv => simp [ihu hdepth hP, ihv hdepth hP]
  | @bracket P o c u ho hc _ ih =>
      have hinside : 0 ≤ depth + 1 := by omega
      have ih := ih hinside (by omega)
      simp [topLevelPiecesLoop, Literal.covers, not_isQuote_of_isOpening ho, ho, ih,
        not_isQuote_of_isClosing hc, not_isOpening_of_isClosing hc, hc]
  | literal _ hq hu =>
      simp [topLevelPiecesLoop, Literal.covers, Literal.step, hq,
        topLevelPiecesLoop_of_literal hq hu]

lemma topLevelPiecesLoop_done (depth : Int) (literal : Literal) (done : List (List Char))
    (piece text : List Char) :
    topLevelPiecesLoop dialect separator depth literal done piece text
      = done.reverse ++ topLevelPiecesLoop dialect separator depth literal [] piece text := by
  induction text generalizing depth literal done piece with
  | nil => simp [topLevelPiecesLoop]
  | cons c text ih =>
      simp only [topLevelPiecesLoop]
      split
      · exact ih ..
      · split
        · exact ih ..
        · split
          · exact ih ..
          · split
            · rw [ih _ _ (piece.reverse :: done), ih _ _ [piece.reverse]]
              simp
            · exact ih ..

lemma topLevelPieces_of_closed (h : Closed dialect (· ≠ separator) u) :
    topLevelPieces dialect separator u = [u] := by
  have hloop : topLevelPiecesLoop dialect separator 0 .outside [] [] (u ++ [])
      = topLevelPiecesLoop dialect separator 0 .outside [] (u.reverse ++ []) [] :=
    topLevelPiecesLoop_of_closed h (Int.le_refl 0) (fun _ _ => id) [] [] []
  rw [List.append_nil] at hloop
  simp [topLevelPieces, hloop, topLevelPiecesLoop]

/-- What stands behind a bracket that is never closed belongs to one piece. -/
lemma topLevelPieces_of_open (h : Closed dialect (· ≠ separator) u) {o : Char}
    (ho : isOpening o = true) (hv : Closed dialect P v) :
    topLevelPieces dialect separator (u ++ o :: v) = [u ++ o :: v] := by
  have hdeep : topLevelPiecesLoop dialect separator 1 .outside [] (o :: u.reverse) (v ++ [])
      = topLevelPiecesLoop dialect separator 1 .outside [] (v.reverse ++ o :: u.reverse) [] :=
    topLevelPiecesLoop_of_closed hv (by decide) (fun h => absurd h (by decide)) [] _ []
  rw [List.append_nil] at hdeep
  rw [topLevelPieces, topLevelPiecesLoop_of_closed h (Int.le_refl 0) (fun _ _ => id)]
  simp [topLevelPiecesLoop, Literal.covers, not_isQuote_of_isOpening ho, ho, hdeep]

/-- The piece before the first separator, for a separator that is a plain character. -/
lemma topLevelPieces_cons (hsep : isPlain separator = true) (h : Closed dialect (· ≠ separator) u) :
    topLevelPieces dialect separator (u ++ separator :: rest)
      = u :: topLevelPieces dialect separator rest := by
  obtain ⟨hq, ho, hc⟩ := isPlain_iff.mp hsep
  rw [topLevelPieces, topLevelPiecesLoop_of_closed h (Int.le_refl 0) (fun _ _ => id)]
  simp only [topLevelPiecesLoop, Literal.covers, hq, ho, hc, beq_self_eq_true, Bool.and_self,
    Bool.false_eq_true, ite_false, ite_true]
  rw [topLevelPiecesLoop_done]
  simp [topLevelPieces]

theorem splitTopLevel_cons (hsep : isPlain separator = true) (h : Closed dialect (· ≠ separator) u)
    (hu : Text.trim u ≠ []) :
    splitTopLevel dialect separator (u ++ separator :: rest)
      = Text.trim u :: splitTopLevel dialect separator rest := by
  simp [splitTopLevel, topLevelPieces_cons hsep h, hu]

theorem splitTopLevel_of_closed (h : Closed dialect (· ≠ separator) u) (hu : Text.trim u ≠ []) :
    splitTopLevel dialect separator u = [Text.trim u] := by
  simp [splitTopLevel, topLevelPieces_of_closed h, hu]

lemma splitTopLevel_of_open (h : Closed dialect (· ≠ separator) u) {o : Char}
    (ho : isOpening o = true) (hv : Closed dialect P v) (hne : Text.trim (u ++ o :: v) ≠ []) :
    splitTopLevel dialect separator (u ++ o :: v) = [Text.trim (u ++ o :: v)] := by
  simp [splitTopLevel, topLevelPieces_of_open h ho hv, hne]

lemma splitTopLevel_of_blank (h : Closed dialect (· ≠ separator) u) (hu : Text.trim u = []) :
    splitTopLevel dialect separator u = [] := by
  simp [splitTopLevel, topLevelPieces_of_closed h, hu]

end SchemaReader
