/-
Texts put together.

* `CommentMode.run`: the removal of comments as a run over the text, with `stripComments_eq_run`;
* `run_append`: behind a character at which no comment begins the run goes on in its mode;
* `EndsLine`: a text ends in a line feed that is part of no literal and no comment, with
  `EndsLine.stripComments_append`: behind such a text comments are removed as at the start;
* `map_enclosed?_append_closed`: a closed text without quotes changes nothing between a bracket
  before it and the bracket's partner.
-/
import SchemaReader.Proofs.Lexical.Balance
import SchemaReader.Proofs.Lexical.Comments

namespace SchemaReader

variable {dialect : Dialect} {mode : CommentMode} {depth : Nat} {literal : Literal} {c : Char}
  {body u v : List Char}

/-! ### Comments -/

/-- The mode behind a text, and what the output gains in the text. -/
def CommentMode.run (dialect : Dialect) (mode : CommentMode) : List Char → CommentMode × List Char
  | [] => (mode, [])
  | c :: rest =>
    let next := mode.step dialect c rest
    let behind := CommentMode.run dialect next.1 rest
    (behind.1, next.2 ++ behind.2)

lemma stripCommentsLoop_eq_run (out text : List Char) : stripCommentsLoop dialect mode out text
    = out.reverse ++ ((mode.run dialect text).2 ++ (mode.run dialect text).1.atEnd) := by
  induction text generalizing mode out with
  | nil => simp [stripCommentsLoop, CommentMode.run]
  | cons c text ih => simp [stripCommentsLoop, CommentMode.run, ih]

/-- The text without its comments is what the output gains, with what the end of the text adds. -/
theorem stripComments_eq_run (dialect : Dialect) (text : List Char) : stripComments dialect text
    = (CommentMode.run dialect (.text .outside) text).2 ++
        (CommentMode.run dialect (.text .outside) text).1.atEnd :=
  stripCommentsLoop_eq_run [] text

/-- Whether a character may stand at the beginning of the sign of a comment. -/
def Dialect.BeginsComment (dialect : Dialect) (c : Char) : Prop :=
  c = '/' ∨ dialect.lineComment.head? = some c

instance (dialect : Dialect) (c : Char) : Decidable (dialect.BeginsComment c) :=
  inferInstanceAs (Decidable (_ ∨ _))

/-- Where line comments open with two characters, what follows the next character does not show
whether a comment opens with this one. -/
lemma step_append (hline : dialect.lineComment.length = 2) (mode : CommentMode) (d : Char)
    (rest : List Char) :
    mode.step dialect c (d :: rest ++ v) = mode.step dialect c (d :: rest) := by
  obtain ⟨a, b, hsign⟩ := List.length_eq_two.mp hline
  cases mode <;> simp [CommentMode.step, CommentMode.ofText, hsign]

/-- A character at which no comment begins is read alike whatever follows it. -/
lemma step_of_not_beginsComment (hline : dialect.lineComment ≠ [])
    (hc : ¬ dialect.BeginsComment c) (mode : CommentMode) (rest : List Char) :
    mode.step dialect c rest = mode.step dialect c [] := by
  obtain ⟨a, sign, hsign⟩ := List.exists_cons_of_ne_nil hline
  have hslash : c ≠ '/' := fun h => hc (Or.inl h)
  have hne : a ≠ c := fun h => hc (Or.inr (by rw [hsign, h, List.head?_cons]))
  cases mode <;>
    simp [CommentMode.step, CommentMode.ofText, hsign, List.isPrefixOf, hslash.symm, hne]

/-- A run over a text behind a character at which no comment begins goes on in the mode behind that
character. -/
lemma run_append (hline : dialect.lineComment.length = 2)
    (hlast : ∀ c ∈ u.getLast?, ¬ dialect.BeginsComment c) (v : List Char) :
    mode.run dialect (u ++ v) = (((mode.run dialect u).1.run dialect v).1,
      (mode.run dialect u).2 ++ ((mode.run dialect u).1.run dialect v).2) := by
  induction u generalizing mode with
  | nil => rfl
  | cons c u ih =>
      have hstep : mode.step dialect c (u ++ v) = mode.step dialect c u := by
        cases u with
        | nil =>
            have hne : dialect.lineComment ≠ [] := List.ne_nil_of_length_pos (by omega)
            exact step_of_not_beginsComment hne (hlast c rfl) mode v
        | cons d rest => exact step_append hline mode d rest
      have hlast' : ∀ c ∈ u.getLast?, ¬ dialect.BeginsComment c := by
        intro d hd
        refine hlast d ?_
        rw [List.getLast?_cons, Option.mem_def.mp hd]
        rfl
      simp only [List.cons_append, CommentMode.run]
      rw [hstep, ih hlast', List.append_assoc]

/-- A line feed behind which the text proper goes on is part of the output. -/
lemma exists_run_lineFeed (h : (mode.run .code (u ++ ['\n'])).1 = .text .outside) :
    ∃ w, (mode.run .code (u ++ ['\n'])).2 = w ++ ['\n'] := by
  induction u generalizing mode with
  | nil =>
      refine ⟨[], ?_⟩
      cases mode with
      | text literal =>
          simp [CommentMode.run, CommentMode.step, CommentMode.ofText, Dialect.code]
          split <;> rfl
      | line => rfl
      | blockSign | block star => simp [CommentMode.run, CommentMode.step] at h
  | cons c u ih =>
      obtain ⟨w, hw⟩ := ih h
      refine ⟨(mode.step .code c (u ++ ['\n'])).2 ++ w, ?_⟩
      rw [List.append_assoc, ← hw]
      rfl

/-- A text ends in a line feed that is part of no literal and no comment. -/
def EndsLine (text : List Char) : Prop :=
  text.getLast? = some '\n' ∧ (CommentMode.run .code (.text .outside) text).1 = .text .outside

instance (text : List Char) : Decidable (EndsLine text) := inferInstanceAs (Decidable (_ ∧ _))

namespace EndsLine

lemma exists_concat (h : EndsLine u) : ∃ w, u = w ++ ['\n'] :=
  List.getLast?_eq_some_iff.mp h.1

/-- The line feed stays. -/
lemma exists_stripComments (h : EndsLine u) : ∃ w, stripComments .code u = w ++ ['\n'] := by
  obtain ⟨v, rfl⟩ := h.exists_concat
  rw [stripComments_eq_run, h.2]
  simpa [CommentMode.atEnd] using exists_run_lineFeed h.2

/-- Behind such a text comments are removed as they are at the start. -/
theorem stripComments_append (h : EndsLine u) (v : List Char) :
    stripComments .code (u ++ v) = stripComments .code u ++ stripComments .code v := by
  obtain ⟨w, rfl⟩ := h.exists_concat
  have hlast : ∀ c ∈ (w ++ ['\n']).getLast?, ¬ Dialect.code.BeginsComment c := by
    simp [Dialect.BeginsComment, Dialect.code]
  rw [stripComments_eq_run, stripComments_eq_run, stripComments_eq_run, run_append rfl hlast, h.2]
  simp [CommentMode.atEnd]

end EndsLine

/-! ### Brackets -/

/-- A literal is opened by a quote. -/
def Literal.Quoted : Literal → Prop
  | .outside => True
  | .inside quote _ => isQuote quote = true

lemma Literal.Quoted.step (h : literal.Quoted) (hc : literal.covers c = true) :
    (literal.step dialect c).Quoted := by
  cases literal with
  | outside =>
      have hquote : isQuote c = true := hc
      simp [Literal.step, Literal.Quoted, hquote]
  | inside quote escaped =>
      cases escaped with
      | true => exact h
      | false =>
          simp only [Literal.step]
          split
          · exact h
          · split
            · trivial
            · exact h

lemma Literal.Quoted.bracketStep? {s : Nat × Literal} (h : literal.Quoted)
    (hstep : bracketStep? dialect depth literal c = some s) : s.2.Quoted := by
  simp only [SchemaReader.bracketStep?] at hstep
  split at hstep
  · next hc =>
      rw [← Option.some.inj hstep]
      exact h.step hc
  · split at hstep
    · rw [← Option.some.inj hstep]
      trivial
    · split at hstep
      · cases depth with
        | zero => simp at hstep
        | succ depth =>
            rw [← Option.some.inj hstep]
            trivial
      · rw [← Option.some.inj hstep]
        trivial

/-- No quote ends a literal in a text without quotes. -/
lemma enclosedLoop_inside {quote : Char} (hquote : isQuote quote = true)
    (hv : ∀ c ∈ v, isQuote c = false) (escaped : Bool) (body : List Char) :
    enclosedLoop dialect depth (.inside quote escaped) body v = none := by
  induction v generalizing escaped body with
  | nil => rfl
  | cons c v ih =>
      rw [List.forall_mem_cons] at hv
      have hne : c ≠ quote := by
        rintro rfl
        simp [hquote] at hv
      obtain ⟨e, hstep⟩ : ∃ e, (Literal.inside quote escaped).step dialect c = .inside quote e := by
        cases escaped with
        | true => exact ⟨false, rfl⟩
        | false =>
            by_cases hback : (dialect.backslashEscapes && c == '\\') = true
            · exact ⟨true, if_pos hback⟩
            · exact ⟨false, by simp [Literal.step, hback, hne]⟩
      simp only [enclosedLoop, Literal.covers, ite_true, hstep]
      exact ih hv.2 e _

section Closed

variable {P : Char → Prop} (hclosed : Closed dialect P v) (hquotes : ∀ c ∈ v, isQuote c = false)

include hclosed hquotes

lemma enclosedLoop_append_closed (hliteral : literal.Quoted)
    (h : enclosedLoop dialect depth literal body u = none) :
    enclosedLoop dialect depth literal body (u ++ v) = none := by
  induction u generalizing depth literal body with
  | nil =>
      cases literal with
      | inside quote escaped => exact enclosedLoop_inside hliteral hquotes escaped body
      | outside => simpa [enclosedLoop] using enclosedLoop_of_closed hclosed depth body []
  | cons c u ih =>
      rw [List.cons_append, enclosedLoop_cons]
      rw [enclosedLoop_cons] at h
      cases hstep : bracketStep? dialect depth literal c with
      | none => simp [hstep] at h
      | some s =>
          rw [hstep] at h
          exact ih (hliteral.bracketStep? hstep) h

/-- What stands between a bracket and its partner is the same with a closed text behind, also if
the bracket has no partner. -/
theorem map_enclosed?_append_closed (u : List Char) :
    (enclosed? dialect (u ++ v)).map (·.1) = (enclosed? dialect u).map (·.1) := by
  cases h : enclosed? dialect u with
  | none =>
      have hliteral : Literal.Quoted .outside := trivial
      rw [enclosed?, enclosedLoop_append_closed hclosed hquotes hliteral h]
  | some inner => rw [enclosed?_append h]; rfl

end Closed

end SchemaReader
