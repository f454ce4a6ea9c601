/-
Texts without comments.

* `NoCommentSign`: a text in which nothing looks like the beginning of a comment, with
  `stripComments_of_noCommentSign`: it is left as it is, whatever its literals are;
* `stripComments_script`, `stripComments_code`: so is a text without the characters that open
  comments;
* `Uncommented`: the same for a part of a text, with `uncommented_of_bare` for characters that open
  nothing and `uncommented_quoted`: a literal may hold these characters.
-/
import Mathlib.Data.List.Infix
import Mathlib.Tactic.Lemma
import SchemaReader.Lexical.Comments
import SchemaReader.Proofs.Lexical.Closed
import SchemaReader.Proofs.Text.Words

namespace SchemaReader

open Text (IsWord IsGap isWordChar isBlank)

variable {dialect : Dialect} {text u v w g : List Char}

lemma ofText_of_no_sign {literal : Literal} {c : Char} {rest : List Char}
    (hline : dialect.lineComment.isPrefixOf (c :: rest) = false)
    (hblock : ['/', '*'].isPrefixOf (c :: rest) = false) :
    CommentMode.ofText dialect literal c rest
      = (.text (if literal.covers c then literal.step dialect c else .outside), [c]) := by
  rw [CommentMode.ofText]
  split
  · rfl
  · simp [hline, hblock]

lemma ofText_of_no_comment {literal : Literal} {c : Char} {rest : List Char}
    (hline : dialect.lineComment.isPrefixOf (c :: rest) = false) (hblock : c ≠ '/') :
    CommentMode.ofText dialect literal c rest
      = (.text (if literal.covers c then literal.step dialect c else .outside), [c]) :=
  ofText_of_no_sign hline (by simp [List.isPrefixOf, hblock.symm])

/-! ### Texts without signs of comments -/

/-- Nothing in a text looks like the beginning of a comment. -/
structure NoCommentSign (dialect : Dialect) (text : List Char) : Prop where
  line : ¬ dialect.lineComment <:+: text
  block : ¬ ['/', '*'] <:+: text

instance (dialect : Dialect) (text : List Char) : Decidable (NoCommentSign dialect text) :=
  decidable_of_iff (¬ dialect.lineComment <:+: text ∧ ¬ ['/', '*'] <:+: text)
    ⟨fun h => ⟨h.1, h.2⟩, fun h => ⟨h.1, h.2⟩⟩

lemma NoCommentSign.suffix (h : NoCommentSign dialect text) (hu : u <:+ text) :
    NoCommentSign dialect u :=
  ⟨fun hline => h.line (hline.trans hu.isInfix), fun hblock => h.block (hblock.trans hu.isInfix)⟩

/-- A text in which nothing looks like a comment has none, inside of literals and outside. -/
theorem stripComments_of_noCommentSign (h : NoCommentSign dialect text) :
    stripComments dialect text = text := by
  suffices hloop : ∀ literal out, stripCommentsLoop dialect (.text literal) out text
      = out.reverse ++ text from hloop .outside []
  induction text with
  | nil => simp [stripCommentsLoop, CommentMode.atEnd]
  | cons c text ih =>
      have hline : dialect.lineComment.isPrefixOf (c :: text) = false := by
        by_contra hsign
        rw [Bool.not_eq_false, List.isPrefixOf_iff_prefix] at hsign
        exact h.line hsign.isInfix
      have hblock : ['/', '*'].isPrefixOf (c :: text) = false := by
        by_contra hsign
        rw [Bool.not_eq_false, List.isPrefixOf_iff_prefix] at hsign
        exact h.block hsign.isInfix
      intro literal out
      rw [stripCommentsLoop, CommentMode.step, ofText_of_no_sign hline hblock]
      simp [ih (h.suffix (List.suffix_cons c text))]

/-- A piece of two texts with a character between them that is not in the piece lies in one of
them. -/
lemma infix_or_of_infix_append {piece : List Char} {c : Char} (hc : c ∉ piece)
    (h : piece <:+: u ++ c :: v) : piece <:+: u ∨ piece <:+: v := by
  obtain ⟨a, b, h⟩ := h
  rw [List.append_assoc] at h
  obtain ⟨x, rfl, hx⟩ | ⟨x, rfl, hx⟩ := List.append_eq_append_iff.mp h
  · obtain ⟨y, rfl, -⟩ | ⟨y, rfl, hy⟩ := List.append_eq_append_iff.mp hx
    · exact Or.inl ⟨a, y, by simp⟩
    · cases y with
      | nil => exact Or.inl ⟨a, [], by simp⟩
      | cons d y =>
          obtain ⟨rfl, -⟩ := List.cons.inj hy
          simp at hc
  · cases x with
    | nil =>
        cases piece with
        | nil => exact Or.inl ⟨[], u, rfl⟩
        | cons d piece =>
            obtain ⟨rfl, -⟩ := List.cons.inj hx
            simp at hc
    | cons d x =>
        obtain ⟨rfl, rfl⟩ := List.cons.inj hx
        exact Or.inr ⟨x, b, by simp⟩

/-- A character that no sign of a comment holds parts what looks like a comment. -/
lemma NoCommentSign.append {c : Char} (hline : c ∉ dialect.lineComment) (hblock : c ∉ ['/', '*'])
    (hu : NoCommentSign dialect u) (hv : NoCommentSign dialect v) :
    NoCommentSign dialect (u ++ c :: v) where
  line h := (infix_or_of_infix_append hline h).elim hu.line hv.line
  block h := (infix_or_of_infix_append hblock h).elim hu.block hv.block

/-- As a line feed does. -/
lemma NoCommentSign.append_lineFeed (hdialect : '\n' ∉ dialect.lineComment)
    (hu : NoCommentSign dialect u) (hv : NoCommentSign dialect v) :
    NoCommentSign dialect (u ++ '\n' :: v) := hu.append hdialect (by decide) hv

lemma noCommentSign_code (h : ∀ c ∈ text, c ≠ '/') : NoCommentSign .code text where
  line hsign := h '/' (hsign.subset (by simp [Dialect.code])) rfl
  block hsign := h '/' (hsign.subset (by simp)) rfl

lemma noCommentSign_script (h : ∀ c ∈ text, c ≠ '-' ∧ c ≠ '/') : NoCommentSign .script text where
  line hsign := (h '-' (hsign.subset (by simp [Dialect.script]))).1 rfl
  block hsign := (h '/' (hsign.subset (by simp))).2 rfl

lemma stripComments_code (h : ∀ c ∈ text, c ≠ '/') : stripComments .code text = text :=
  stripComments_of_noCommentSign (noCommentSign_code h)

lemma stripComments_script (h : ∀ c ∈ text, c ≠ '-' ∧ c ≠ '/') :
    stripComments .script text = text := stripComments_of_noCommentSign (noCommentSign_script h)

/-! ### Parts of texts -/

/-- The removal of comments copies a part of a text, whatever follows it. -/
def Uncommented (dialect : Dialect) (text : List Char) : Prop :=
  ∀ out rest, stripCommentsLoop dialect (.text .outside) out (text ++ rest)
    = stripCommentsLoop dialect (.text .outside) (text.reverse ++ out) rest

lemma Uncommented.stripComments_eq (h : Uncommented dialect text) :
    stripComments dialect text = text := by
  have hloop := h [] []
  rw [List.append_nil, List.append_nil] at hloop
  rw [stripComments, hloop, stripCommentsLoop]
  simp [CommentMode.atEnd]

lemma uncommented_nil : Uncommented dialect [] := fun _ _ => rfl

lemma Uncommented.append (hu : Uncommented dialect u) (hv : Uncommented dialect v) :
    Uncommented dialect (u ++ v) := by
  intro out rest
  rw [List.append_assoc, hu, hv, List.reverse_append, List.append_assoc]

lemma uncommented_flatMap {α : Type} {xs : List α} {f : α → List Char}
    (h : ∀ x ∈ xs, Uncommented dialect (f x)) : Uncommented dialect (xs.flatMap f) := by
  induction xs with
  | nil => exact uncommented_nil
  | cons x xs ih =>
      rw [List.forall_mem_cons] at h
      exact h.1.append (ih h.2)

/-- Characters that open neither a literal nor a comment are copied. -/
lemma uncommented_of_bare (h : ∀ c ∈ text, isQuote c = false ∧ c ≠ '/' ∧
    ∀ rest, dialect.lineComment.isPrefixOf (c :: rest) = false) : Uncommented dialect text := by
  induction text with
  | nil => exact uncommented_nil
  | cons c text ih =>
      rw [List.forall_mem_cons] at h
      obtain ⟨⟨hquote, hslash, hline⟩, h⟩ := h
      intro out rest
      rw [List.cons_append, stripCommentsLoop, CommentMode.step,
        ofText_of_no_comment (hline _) hslash]
      simp [Literal.covers, hquote, ih h (c :: out) rest]

/-- In a literal everything stays, signs of comments too. -/
lemma uncommented_inside {q : Char} (hq : isQuote q = true) (hu : ∀ c ∈ u, dialect.Keeps q c)
    (out rest : List Char) :
    stripCommentsLoop dialect (.text (.inside q false)) out (u ++ q :: rest)
      = stripCommentsLoop dialect (.text .outside) (q :: (u.reverse ++ out)) rest := by
  induction u generalizing out with
  | nil =>
      simp [stripCommentsLoop, CommentMode.step, CommentMode.ofText, Literal.covers,
        Literal.step_quote hq]
  | cons c u ih =>
      rw [List.forall_mem_cons] at hu
      rw [List.cons_append, stripCommentsLoop]
      simp only [CommentMode.step, CommentMode.ofText, Literal.covers, Literal.step_inside hu.1,
        ite_true, List.reverseAux, ih hu.2]
      simp

lemma uncommented_quoted {q : Char} (hq : isQuote q = true) (hu : ∀ c ∈ u, dialect.Keeps q c) :
    Uncommented dialect (q :: (u ++ [q])) := by
  intro out rest
  have hopen : CommentMode.step dialect q (u ++ q :: rest) (.text .outside)
      = (.text (.inside q false), [q]) := by
    simp [CommentMode.step, CommentMode.ofText, Literal.covers, Literal.step, hq]
  have htext : q :: (u ++ [q]) ++ rest = q :: (u ++ q :: rest) := by simp
  rw [htext, stripCommentsLoop, hopen]
  simpa using uncommented_inside hq hu (q :: out) rest

/-- A character of a script that neither opens a comment nor a literal. -/
def isScriptText (c : Char) : Bool := !isQuote c && c != '-' && c != '/'

lemma uncommented_of_forall (h : ∀ c ∈ text, isScriptText c = true) : Uncommented .script text := by
  refine uncommented_of_bare fun c hc => ?_
  obtain ⟨⟨hquote, hdash⟩, hslash⟩ := by simpa [isScriptText] using h c hc
  exact ⟨hquote, hslash, fun rest => by simp [Dialect.script, List.isPrefixOf, Ne.symm hdash]⟩

lemma uncommented_code (h : ∀ c ∈ text, isQuote c = false ∧ c ≠ '/') : Uncommented .code text :=
  uncommented_of_bare fun c hc =>
    ⟨(h c hc).1, (h c hc).2, fun rest => by simp [Dialect.code, List.isPrefixOf, (h c hc).2.symm]⟩

/-- In a script nothing but its own quote ends a literal. -/
lemma uncommented_literal {q : Char} (hq : isQuote q = true) (hu : ∀ c ∈ u, c ≠ q) :
    Uncommented .script (q :: (u ++ [q])) :=
  uncommented_quoted hq fun c hc => ⟨hu c hc, fun h => absurd h Bool.false_ne_true⟩

lemma isScriptText_of_isWordChar {c : Char} (h : isWordChar c = true) : isScriptText c = true := by
  have hne : ∀ d, isWordChar d = false → c ≠ d := fun d => Text.ne_of_isWordChar h
  have hquote : isQuote c = false := by
    simp only [isQuote, Bool.or_eq_false_iff, beq_eq_false_iff_ne]
    exact ⟨⟨hne _ (by decide), hne _ (by decide)⟩, hne _ (by decide)⟩
  simp [isScriptText, hquote, hne '-' (by decide), hne '/' (by decide)]

lemma isScriptText_of_isBlank {c : Char} (h : isBlank c = true) : isScriptText c = true := by
  have hnot := Text.not_of_isBlank (fun c => !isScriptText c) (by decide) h
  simpa using hnot

lemma uncommented_word (hw : IsWord w) : Uncommented .script w :=
  uncommented_of_forall fun c hc => isScriptText_of_isWordChar (hw.chars c hc)

lemma uncommented_gap (hg : IsGap g) : Uncommented .script g :=
  uncommented_of_forall fun c hc => isScriptText_of_isBlank (hg c hc)

end SchemaReader
