/-
Line ends with and without carriage returns.

* `Text.withReturns`: a text with a carriage return before each line feed;
* `Returned`: a text and the same with carriage returns before some of its line feeds, with
  `Returned.exists_append` and `Returned.exists_append_right`: a cut of one is a cut of the other;
* `Returned.lines`: the lines of the one are those of the other up to a carriage return at the end;
* `Returned.stripComments`: the removal of comments may take the carriage returns away, and adds
  none;
* `Returned.enclosed?`: a bracket has its partner in both texts or in none of them.
-/
import SchemaReader.Proofs.Lexical.Lists
import SchemaReader.Proofs.Lexical.Stripping
import SchemaReader.Proofs.Text.Segments

namespace SchemaReader

open Text (IsGap)

/-! ### Carriage returns -/

/-- A text with a carriage return before each line feed. -/
def Text.withReturns (text : List Char) : List Char :=
  text.flatMap fun c => if c = '\n' then ['\r', '\n'] else [c]

/-- The second text is the first one with a carriage return more before some of its line feeds. -/
inductive Returned : List Char → List Char → Prop
  | nil : Returned [] []
  | keep {u v : List Char} (c : Char) : Returned u v → Returned (c :: u) (c :: v)
  | line {u v : List Char} : Returned u v → Returned ('\n' :: u) ('\r' :: '\n' :: v)

variable {dialect : Dialect} {mode : CommentMode} {depth : Nat} {literal : Literal} {c : Char}
  {u v w x y : List Char}

lemma returned_withReturns (text : List Char) : Returned text (Text.withReturns text) := by
  induction text with
  | nil => exact .nil
  | cons c text ih =>
      rw [Text.withReturns, List.flatMap_cons]
      split
      · next hc =>
          subst hc
          exact .line ih
      · exact .keep c ih

namespace Returned

lemma append (h : Returned u v) (h' : Returned x y) : Returned (u ++ x) (v ++ y) := by
  induction h with
  | nil => exact h'
  | keep c _ ih => exact .keep c ih
  | line _ ih => exact .line ih

/-- A text that is cut is the other one cut. -/
lemma exists_append (h : Returned (x ++ y) v) :
    ∃ x' y', v = x' ++ y' ∧ Returned x x' ∧ Returned y y' := by
  induction x generalizing v with
  | nil => exact ⟨[], v, rfl, .nil, h⟩
  | cons c x ih =>
      cases h with
      | keep _ h =>
          obtain ⟨x', y', rfl, hx, hy⟩ := ih h
          exact ⟨c :: x', y', rfl, .keep c hx, hy⟩
      | line h =>
          obtain ⟨x', y', rfl, hx, hy⟩ := ih h
          exact ⟨'\r' :: '\n' :: x', y', rfl, .line hx, hy⟩

/-- So is a text that is cut anywhere but between a carriage return and a line feed. -/
lemma exists_append_right (h : Returned u (x ++ y))
    (hcut : x.getLast? = some '\r' → y.head? ≠ some '\n') :
    ∃ x' y', u = x' ++ y' ∧ Returned x' x ∧ Returned y' y := by
  generalize htext : x ++ y = text at h
  induction h generalizing x with
  | nil =>
      obtain ⟨rfl, rfl⟩ := List.append_eq_nil_iff.mp htext
      exact ⟨[], [], rfl, .nil, .nil⟩
  | @keep u v c h ih =>
      cases x with
      | nil =>
          obtain rfl : y = c :: v := htext
          exact ⟨[], c :: u, rfl, .nil, .keep c h⟩
      | cons d x =>
          obtain ⟨rfl, hrest⟩ := List.cons.inj htext
          have hcut' : x.getLast? = some '\r' → y.head? ≠ some '\n' := fun hx => hcut (by
            simp [List.getLast?_cons, hx])
          obtain ⟨x', y', rfl, hx, hy⟩ := ih hcut' hrest
          exact ⟨d :: x', y', rfl, .keep d hx, hy⟩
  | @line u v h ih =>
      obtain _ | ⟨d, _ | ⟨e, x⟩⟩ := x
      · obtain rfl : y = '\r' :: '\n' :: v := htext
        exact ⟨[], '\n' :: u, rfl, .nil, .line h⟩
      · obtain ⟨rfl, rfl⟩ := List.cons.inj htext
        exact absurd rfl (hcut rfl)
      · obtain ⟨rfl, hbehind⟩ := List.cons.inj htext
        obtain ⟨rfl, hrest⟩ := List.cons.inj hbehind
        have hcut' : x.getLast? = some '\r' → y.head? ≠ some '\n' := fun hx => hcut (by
          simp [List.getLast?_cons, hx])
        obtain ⟨x', y', rfl, hx, hy⟩ := ih hcut' hrest
        exact ⟨'\n' :: x', y', rfl, .line hx, hy⟩

/-- Where the lines do not end, the texts are the same. -/
lemma eq_of_not_mem (h : Returned u v) (hv : '\n' ∉ v) : u = v := by
  induction h with
  | nil => rfl
  | keep c _ ih =>
      rw [List.mem_cons, not_or] at hv
      rw [ih hv.2]
  | line _ _ => simp at hv

lemma lineFeed_mem_iff (h : Returned u v) : '\n' ∈ u ↔ '\n' ∈ v := by
  induction h with
  | nil => rfl
  | keep c _ ih => rw [List.mem_cons, List.mem_cons, ih]
  | line _ _ => simp

lemma eq_nil_iff (h : Returned u v) : u = [] ↔ v = [] := by
  cases h <;> simp

/-- Carriage returns are white space, as line feeds are. -/
lemma isGap_iff (h : Returned u v) : IsGap u ↔ IsGap v := by
  induction h with
  | nil => rfl
  | keep c _ ih => simp only [IsGap, List.forall_mem_cons] at ih ⊢; rw [ih]
  | line _ ih =>
      have hreturn : Text.isBlank '\r' = true := by decide
      simp only [IsGap, List.forall_mem_cons, hreturn, true_and] at ih ⊢
      rw [ih]

/-! ### Lines -/

/-- The lines of the one text are those of the other, some with a carriage return at the end. -/
theorem lines (h : Returned u v) :
    List.Forall₂ (fun line line' => line' = line ∨ line' = line ++ ['\r']) (Text.lines u)
      (Text.lines v) := by
  have hfeed : ∀ text, Text.lines ('\n' :: text) = [] :: Text.lines text := fun text =>
    Text.segments_append_cons (u := []) (by simp) (by simp)
  have hother : ∀ {c} text, c ≠ '\n' →
      Text.lines (c :: text) = (Text.lines text).modifyHead (c :: ·) := fun {c} text hc =>
    Text.segments_prepend (u := [c]) (by simpa using hc) text
  induction h with
  | nil => exact .cons (Or.inl rfl) .nil
  | @keep u v c h ih =>
      by_cases hc : c = '\n'
      · subst hc
        rw [hfeed, hfeed]
        exact .cons (Or.inl rfl) ih
      · rw [hother u hc, hother v hc]
        generalize Text.lines u = lines at ih ⊢
        generalize Text.lines v = lines' at ih ⊢
        cases ih with
        | nil => exact .nil
        | cons hline hlines => exact .cons (by simpa using hline) hlines
  | @line u v h ih =>
      rw [hfeed, hother _ (by decide), hfeed]
      exact .cons (Or.inr rfl) ih

end Returned

/-! ### Literals and brackets -/

/-- Behind a line feed a literal goes on as behind a carriage return and a line feed. -/
lemma Literal.Quoted.step_return (h : literal.Quoted) :
    (literal.step dialect '\r').step dialect '\n' = literal.step dialect '\n' := by
  cases literal with
  | outside => rfl
  | inside quote escaped =>
      have hquote : isQuote quote = true := h
      have hfeed : '\n' ≠ quote := by
        rintro rfl
        simp [isQuote] at hquote
      have hreturn : '\r' ≠ quote := by
        rintro rfl
        simp [isQuote] at hquote
      cases escaped <;> simp [Literal.step, hfeed, hreturn]

lemma Returned.enclosedLoop {body body' : List Char} (h : Returned u v) (hliteral : literal.Quoted)
    (hbody : Returned body.reverse body'.reverse) :
    Option.Rel (fun inner inner' => Returned inner.1 inner'.1 ∧ Returned inner.2 inner'.2)
      (SchemaReader.enclosedLoop dialect depth literal body u)
      (SchemaReader.enclosedLoop dialect depth literal body' v) := by
  induction h generalizing depth literal body body' with
  | nil => exact .none
  | @keep u v c h ih =>
      rw [enclosedLoop_cons, enclosedLoop_cons]
      cases hstep : bracketStep? dialect depth literal c with
      | none => exact .some ⟨hbody, h⟩
      | some s =>
          refine ih (hliteral.bracketStep? hstep) ?_
          simpa using hbody.append (.keep c .nil)
  | @line u v h ih =>
      have hreturn : ∀ literal, bracketStep? dialect depth literal '\r'
          = some (depth, literal.step dialect '\r') := fun _ => bracketStep?_of_isPlain (by decide)
      have hfeed : ∀ literal, bracketStep? dialect depth literal '\n'
          = some (depth, literal.step dialect '\n') := fun _ => bracketStep?_of_isPlain (by decide)
      simp only [enclosedLoop_cons, hreturn, hfeed, hliteral.step_return]
      refine ih (hliteral.bracketStep? (hfeed literal)) ?_
      simpa using hbody.append (.line .nil)

/-- A bracket has its partner in both texts or in none of them, and what it encloses and what stands
behind it are the same up to carriage returns. -/
theorem Returned.enclosed? (h : Returned u v) :
    Option.Rel (fun inner inner' => Returned inner.1 inner'.1 ∧ Returned inner.2 inner'.2)
      (SchemaReader.enclosed? dialect u) (SchemaReader.enclosed? dialect v) :=
  h.enclosedLoop trivial .nil

/-! ### Comments -/

/-- Whether a comment opens does not depend on the carriage returns behind. -/
lemma Returned.ofText_eq (h : Returned u v) (literal : Literal) (c : Char) :
    CommentMode.ofText .code literal c u = CommentMode.ofText .code literal c v := by
  cases h with
  | nil => rfl
  | keep d _ => simp [CommentMode.ofText, Dialect.code, List.isPrefixOf]
  | line _ => simp [CommentMode.ofText, Dialect.code, List.isPrefixOf]

lemma Returned.step_eq (h : Returned u v) (mode : CommentMode) (c : Char) :
    mode.step .code c u = mode.step .code c v := by
  cases mode with
  | text literal => exact h.ofText_eq literal c
  | line => rw [CommentMode.step, CommentMode.step, h.ofText_eq]
  | blockSign | block star => rfl

/-- White space opens no comment. -/
lemma ofText_of_isBlank (hc : Text.isBlank c = true) (literal : Literal) (rest : List Char) :
    CommentMode.ofText .code literal c rest = (.text (literal.step .code c), [c]) := by
  have hslash : c ≠ '/' := by
    rintro rfl
    simp [Text.isBlank] at hc
  obtain ⟨-, hstep⟩ | ⟨-, hsign, -⟩ | ⟨-, hsign, -⟩ := ofText_cases ordinary_code literal c rest
  · exact hstep
  · exact absurd hsign hslash
  · exact absurd hsign hslash

/-- The outputs stay the same up to carriage returns, from each mode in which the sign of a block
comment goes on as it has begun. -/
lemma Returned.output (h : Returned u v) (hmode : mode.place.Quoted)
    (hsign : mode = .blockSign → u.head? = some '*') :
    Returned (mode.output .code u) (mode.output .code v) := by
  induction h generalizing mode with
  | nil =>
      rw [output_nil]
      cases mode with
      | text _ | line => exact .nil
      | blockSign | block _ => exact .keep ' ' .nil
  | @keep u v c h ih =>
      have hstep := commentStep ordinary_code mode c u
      rw [output_cons, output_cons, ← h.step_eq]
      generalize mode.step .code c u = next at hstep ⊢
      cases hstep with
      | copied _ => exact .keep c (ih (hmode.after [c]) (by simp))
      | removed _ hnext hsign => exact ih (by simp [hnext, Literal.Quoted]) hsign
      | blank _ hnext hsign _ =>
          exact .keep _ (ih (by simp [hnext, Literal.Quoted]) fun hnext => absurd hnext hsign)
  | @line u v h ih =>
      have hreturn : Text.isBlank '\r' = true := by decide
      have hfeed : Text.isBlank '\n' = true := by decide
      cases mode with
      | text literal =>
          have hliteral : literal.Quoted := hmode
          have hnext : Returned ((CommentMode.text (literal.step .code '\n')).output .code u)
              ((CommentMode.text (literal.step .code '\n')).output .code v) :=
            ih (hliteral.after ['\n']) (by simp)
          simp only [output_cons, CommentMode.step, ofText_of_isBlank hreturn,
            ofText_of_isBlank hfeed, hliteral.step_return]
          exact .line hnext
      | line =>
          -- the carriage return belongs to the comment
          simp only [output_cons, CommentMode.step, ofText_of_isBlank hfeed]
          exact .keep '\n' (ih trivial (by simp))
      | blockSign => simp at hsign
      | block star =>
          have hnext : Returned ((CommentMode.block false).output .code u)
              ((CommentMode.block false).output .code v) := ih trivial (by simp)
          simpa [output_cons, CommentMode.step] using Returned.keep '\n' hnext

theorem Returned.stripComments (h : Returned u v) :
    Returned (SchemaReader.stripComments .code u) (SchemaReader.stripComments .code v) := by
  rw [stripComments_eq_output, stripComments_eq_output]
  exact h.output trivial (by simp)

end SchemaReader
