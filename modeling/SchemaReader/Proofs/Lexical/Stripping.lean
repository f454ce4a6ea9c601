/-
What the removal of comments leaves.

* `Literal.after`: where a reading stands behind a text with respect to literals;
* `CommentFree`: nowhere outside the literals of a text a comment opens, with
  `commentFree_output` and `output_of_commentFree`: what the removal leaves is such a text, and such
  a text is left as it is;
* `stripComments_settled`: so the removal is idempotent, and extraction does not see whether
  comments were removed before;
* `LiteralContent`, `Quotable`: what a literal holds, and what can be written between its quotes;
* `stripComments_block`, `stripComments_line`, `LiteralContent.stripComments_eq`: what the removal
  makes of a comment and of a literal, whatever follows;
* `stripComments_piecewise`: comments and literals behind a text are read on their own, and no line
  feed is lost or gained.
-/
import SchemaReader.Extraction
import SchemaReader.Proofs.Lexical.Joining

namespace SchemaReader

/-! ### Dialects -/

/-- The dialect of the texts of a source. -/
def Source.dialect : Source → Dialect
  | .prisma | .drizzle | .unknown => .code
  | .sql => .script

/-- Comments as both dialects write them: line comments open with two of one sign, and there are
block comments. -/
structure Dialect.Ordinary (dialect : Dialect) (sign : Char) : Prop where
  line : dialect.lineComment = [sign, sign]
  block : dialect.blockComment = true
  ne_lineFeed : sign ≠ '\n'
  ne_space : sign ≠ ' '
  not_quote : isQuote sign = false

lemma ordinary_code : Dialect.code.Ordinary '/' := ⟨rfl, rfl, by decide, by decide, by decide⟩

lemma ordinary_script : Dialect.script.Ordinary '-' := ⟨rfl, rfl, by decide, by decide, by decide⟩

lemma Source.ordinary_dialect (source : Source) : ∃ sign, source.dialect.Ordinary sign := by
  cases source with
  | prisma | drizzle | unknown => exact ⟨'/', ordinary_code⟩
  | sql => exact ⟨'-', ordinary_script⟩

variable {dialect : Dialect} {mode : CommentMode} {literal : Literal} {c sign quote : Char}
  {rest text u v s x y : List Char}

/-- A comment opens at the beginning of a text. -/
def OpensComment (dialect : Dialect) (text : List Char) : Prop :=
  dialect.lineComment <+: text ∨ ['/', '*'] <+: text

lemma not_opensComment_nil (h : dialect.Ordinary sign) : ¬ OpensComment dialect [] := by
  simp [OpensComment, h.line]

lemma opensComment_cons_iff (h : dialect.Ordinary sign) : OpensComment dialect (c :: rest) ↔
    (c = sign ∧ rest.head? = some sign) ∨ (c = '/' ∧ rest.head? = some '*') := by
  cases rest with
  | nil => simp [OpensComment, h.line]
  | cons d rest => simp [OpensComment, h.line, eq_comm]

/-- A quote, a line feed and a space do not belong to what opens a comment. -/
lemma not_opensComment_of_ne (h : dialect.Ordinary sign) (hsign : c ≠ sign) (hslash : c ≠ '/') :
    ¬ OpensComment dialect (c :: rest) := by
  simp [opensComment_cons_iff h, hsign, hslash]

lemma not_opensComment_of_isQuote (h : dialect.Ordinary sign) (hc : isQuote c = true) :
    ¬ OpensComment dialect (c :: rest) := by
  refine not_opensComment_of_ne h ?_ ?_ <;> rintro rfl
  · simp [h.not_quote] at hc
  · simp [isQuote] at hc

/-! ### Literals -/

/-- Where a reading that stood at a place stands behind a text. -/
def Literal.after (dialect : Dialect) (literal : Literal) (text : List Char) : Literal :=
  text.foldl (fun l c => l.step dialect c) literal

@[simp] lemma Literal.after_nil : literal.after dialect [] = literal := rfl

@[simp] lemma Literal.after_cons :
    literal.after dialect (c :: text) = (literal.step dialect c).after dialect text := rfl

lemma Literal.after_append (u v : List Char) :
    literal.after dialect (u ++ v) = (literal.after dialect u).after dialect v :=
  List.foldl_append

lemma Literal.covers_of_ne_outside (h : literal ≠ .outside) (c : Char) :
    literal.covers c = true := by
  cases literal with
  | outside => exact absurd rfl h
  | inside q e => rfl

lemma Literal.Quoted.after (h : literal.Quoted) (text : List Char) :
    (literal.after dialect text).Quoted := by
  induction text generalizing literal with
  | nil => exact h
  | cons c text ih =>
      rw [Literal.after_cons]
      refine ih ?_
      cases hcovers : literal.covers c with
      | true => exact h.step hcovers
      | false =>
          rw [(Literal.step_of_not_covers dialect hcovers).2.2]
          trivial

/-- A step of a count of brackets goes on with literals as a reading does. -/
lemma step_of_bracketStep? {depth : Nat} {d : Nat × Literal}
    (h : bracketStep? dialect depth literal c = some d) : literal.step dialect c = d.2 := by
  have houtside : isQuote c = false → Literal.outside.step dialect c = .outside := fun hquote => by
    simp [Literal.step, hquote]
  cases bracketStep?_eq_some_iff.mp h with
  | covered _ => rfl
  | opening hopening => exact houtside (not_isQuote_of_isOpening hopening)
  | closing hclosing => exact houtside (not_isQuote_of_isClosing hclosing)
  | plain hplain => exact houtside (isPlain_iff.mp hplain).1

lemma after_of_depthAfter? {depth : Nat} {d : Nat × Literal}
    (h : depthAfter? dialect depth literal text = some d) : literal.after dialect text = d.2 := by
  induction text generalizing depth literal with
  | nil => rw [← Option.some.inj h, Literal.after_nil]
  | cons c text ih =>
      obtain ⟨s, hstep, h⟩ := Option.bind_eq_some_iff.mp h
      rw [Literal.after_cons, step_of_bracketStep? hstep, ih h]

/-! ### The removal of comments -/

/-- What the output gains in a text and at its end. -/
def CommentMode.output (dialect : Dialect) (mode : CommentMode) (text : List Char) : List Char :=
  (mode.run dialect text).2 ++ (mode.run dialect text).1.atEnd

lemma stripComments_eq_output (dialect : Dialect) (text : List Char) :
    stripComments dialect text = CommentMode.output dialect (.text .outside) text :=
  stripComments_eq_run dialect text

lemma output_nil : mode.output dialect [] = mode.atEnd := rfl

lemma output_cons : mode.output dialect (c :: rest)
    = (mode.step dialect c rest).2 ++ (mode.step dialect c rest).1.output dialect rest := by
  simp [CommentMode.output, CommentMode.run]

/-- A character of the text proper is copied, or opens a line comment, or a block comment. -/
lemma ofText_cases (h : dialect.Ordinary sign) (literal : Literal) (c : Char) (rest : List Char) :
    ((literal.covers c = true ∨ ¬ OpensComment dialect (c :: rest)) ∧
        CommentMode.ofText dialect literal c rest = (.text (literal.step dialect c), [c])) ∨
      (literal = .outside ∧ c = sign ∧ CommentMode.ofText dialect literal c rest = (.line, [])) ∨
      (literal = .outside ∧ c = '/' ∧ rest.head? = some '*' ∧
        CommentMode.ofText dialect literal c rest = (.blockSign, [])) := by
  cases hcovers : literal.covers c with
  | true => exact Or.inl ⟨Or.inl rfl, by simp [CommentMode.ofText, hcovers]⟩
  | false =>
      obtain ⟨rfl, -, hstep⟩ := Literal.step_of_not_covers dialect hcovers
      cases hline : dialect.lineComment.isPrefixOf (c :: rest) with
      | true =>
          obtain ⟨rfl, -⟩ : sign = c ∧ _ := by simpa [h.line, List.isPrefixOf] using hline
          exact Or.inr (Or.inl ⟨rfl, rfl, by simp [CommentMode.ofText, hcovers, hline]⟩)
      | false =>
          cases hblock : ['/', '*'].isPrefixOf (c :: rest) with
          | true =>
              have hstep : CommentMode.ofText dialect .outside c rest = (.blockSign, []) := by
                rw [CommentMode.ofText, hcovers, hline, h.block, hblock]
                rfl
              obtain ⟨rfl, w, rfl⟩ :=
                List.cons_prefix_cons.mp (List.isPrefixOf_iff_prefix.mp hblock)
              exact Or.inr (Or.inr ⟨rfl, rfl, rfl, hstep⟩)
          | false =>
              refine Or.inl ⟨Or.inr ?_, ?_⟩
              · rintro (hopens | hopens) <;> simp_all [← List.isPrefixOf_iff_prefix]
              · rw [ofText_of_no_sign hline hblock, hcovers, hstep]
                rfl

/-- Behind a line comment the output goes on with a line feed. -/
lemma head_output_line (h : dialect.Ordinary sign) :
    ∀ d ∈ (CommentMode.line.output dialect text).head?, d = '\n' := by
  induction text with
  | nil => simp [output_nil, CommentMode.atEnd]
  | cons c text ih =>
      by_cases hc : c = '\n'
      · subst hc
        have hsign := h.ne_lineFeed
        simp [output_cons, CommentMode.step, CommentMode.ofText, h.line, Literal.covers, isQuote,
          hsign]
      · simpa [output_cons, CommentMode.step, hc] using ih

/-- A block comment leaves a line feed or a space first. -/
lemma head_output_block (star : Bool) :
    ∀ d ∈ ((CommentMode.block star).output dialect text).head?, d = '\n' ∨ d = ' ' := by
  induction text generalizing star with
  | nil => simp [output_nil, CommentMode.atEnd]
  | cons c text ih =>
      rw [output_cons, CommentMode.step]
      split
      · simp
      · by_cases hc : c = '\n'
        · simp [hc]
        · simpa [hc] using ih (c == '*')

/-- The output of the text proper goes on like the text, or with what a comment leaves. -/
lemma head_output_text (h : dialect.Ordinary sign) (literal : Literal) :
    ∀ d ∈ ((CommentMode.text literal).output dialect text).head?,
      d = '\n' ∨ d = ' ' ∨ text.head? = some d := by
  cases text with
  | nil => simp [output_nil, CommentMode.atEnd]
  | cons c rest =>
      rw [output_cons, CommentMode.step]
      obtain ⟨-, hstep⟩ | ⟨-, -, hstep⟩ | ⟨-, -, hrest, hstep⟩ := ofText_cases h literal c rest
      · simp [hstep]
      · rw [hstep, List.nil_append]
        exact fun d hd => Or.inl (head_output_line h d hd)
      · obtain ⟨w, rfl⟩ := List.head?_eq_some_iff.mp hrest
        rw [hstep, List.nil_append, output_cons, CommentMode.step, List.nil_append]
        exact fun d hd => (head_output_block false d hd).imp_right Or.inl

/-! ### Texts without comments -/

/-- In a text that begins at a place, no comment opens outside of literals. -/
def CommentFree (dialect : Dialect) (literal : Literal) (text : List Char) : Prop :=
  ∀ u v, text = u ++ v → literal.after dialect u = .outside → ¬ OpensComment dialect v

lemma commentFree_nil (h : dialect.Ordinary sign) : CommentFree dialect literal [] := by
  intro u v htext _
  obtain ⟨rfl, rfl⟩ := List.append_eq_nil_iff.mp htext.symm
  exact not_opensComment_nil h

lemma commentFree_cons_iff : CommentFree dialect literal (c :: rest) ↔
    (literal = .outside → ¬ OpensComment dialect (c :: rest)) ∧
      CommentFree dialect (literal.step dialect c) rest := by
  constructor
  · exact fun h => ⟨h [] _ rfl, fun u v htext => h (c :: u) v (by rw [htext, List.cons_append])⟩
  · rintro ⟨hhead, hrest⟩ u v htext hafter
    cases u with
    | nil =>
        obtain rfl : c :: rest = v := htext
        exact hhead hafter
    | cons d u =>
        obtain ⟨rfl, rfl⟩ := List.cons.inj htext
        exact hrest u v rfl hafter

/-- No comment opens in two texts one after the other, if none opens in either or between them. -/
lemma CommentFree.append {next : Literal} (h : dialect.Ordinary sign)
    (hu : CommentFree dialect literal u) (hafter : literal.after dialect u = next)
    (hv : CommentFree dialect next v)
    (hborder : ∀ c ∈ u.getLast?, ∀ d ∈ v.head?, ¬ OpensComment dialect [c, d]) :
    CommentFree dialect literal (u ++ v) := by
  induction u generalizing literal with
  | nil =>
      rw [Literal.after_nil] at hafter
      rwa [List.nil_append, hafter]
  | cons c u ih =>
      rw [commentFree_cons_iff] at hu
      rw [List.cons_append, commentFree_cons_iff]
      refine ⟨fun houtside hopens => ?_, ?_⟩
      · rw [opensComment_cons_iff h] at hopens
        cases u with
        | nil =>
            obtain ⟨d, hd⟩ : ∃ d, v.head? = some d := by
              rcases hopens with ⟨-, hhead⟩ | ⟨-, hhead⟩ <;> exact ⟨_, hhead⟩
            refine hborder c rfl d hd ((opensComment_cons_iff h).mpr ?_)
            simpa [hd] using hopens
        | cons d u => exact hu.1 houtside ((opensComment_cons_iff h).mpr (by simpa using hopens))
      · refine ih hu.2 hafter fun d hd => ?_
        cases u with
        | nil => cases hd
        | cons e u => exact hborder d (by simpa using hd)

/-- Nothing without a quote opens a literal. -/
lemma Literal.after_of_not_quote (hu : ∀ c ∈ u, isQuote c = false) :
    Literal.outside.after dialect u = .outside := by
  induction u with
  | nil => rfl
  | cons c u ih =>
      rw [List.forall_mem_cons] at hu
      have hcovers : Literal.outside.covers c = false := hu.1
      rw [Literal.after_cons, (Literal.step_of_not_covers dialect hcovers).2.2, ih hu.2]

/-- No comment opens in a text without the characters that open one. -/
lemma commentFree_of_forall_ne (h : dialect.Ordinary sign) (hu : ∀ c ∈ u, c ≠ sign ∧ c ≠ '/') :
    CommentFree dialect literal u := by
  rintro x (_ | ⟨c, y⟩) rfl _
  · exact not_opensComment_nil h
  · exact not_opensComment_of_ne h (hu c (by simp)).1 (hu c (by simp)).2

/-- White space of the output opens nothing. -/
lemma CommentFree.cons_blank (h : dialect.Ordinary sign) (hc : c = '\n' ∨ c = ' ')
    (hrest : CommentFree dialect .outside rest) : CommentFree dialect .outside (c :: rest) := by
  obtain rfl | rfl := hc
  · exact commentFree_cons_iff.mpr
      ⟨fun _ => not_opensComment_of_ne h h.ne_lineFeed.symm (by decide), hrest⟩
  · exact commentFree_cons_iff.mpr
      ⟨fun _ => not_opensComment_of_ne h h.ne_space.symm (by decide), hrest⟩

/-- The place with respect to literals where the output goes on. -/
def CommentMode.place : CommentMode → Literal
  | .text literal => literal
  | .line | .blockSign | .block _ => .outside

/-- What a step of the removal does with a character: it copies the character, or takes it away, or
leaves a blank in its place; the last two only outside of literals.  Where the sign of a block
comment has begun, it goes on. -/
inductive CommentStep (dialect : Dialect) (mode : CommentMode) (c : Char) (rest : List Char) :
    CommentMode × List Char → Prop
  | copied : mode.place.covers c = true ∨ ¬ OpensComment dialect (c :: rest) →
      CommentStep dialect mode c rest (.text (mode.place.step dialect c), [c])
  | removed {next : CommentMode} : mode.place = .outside → next.place = .outside →
      (next = .blockSign → rest.head? = some '*') → CommentStep dialect mode c rest (next, [])
  | blank {next : CommentMode} {b : Char} : mode.place = .outside → next.place = .outside →
      next ≠ .blockSign → b = '\n' ∨ b = ' ' → CommentStep dialect mode c rest (next, [b])

lemma commentStep_ofText (h : dialect.Ordinary sign) (mode : CommentMode) (c : Char)
    (rest : List Char) :
    CommentStep dialect mode c rest (CommentMode.ofText dialect mode.place c rest) := by
  obtain ⟨hplain, hstep⟩ | ⟨hplace, -, hstep⟩ | ⟨hplace, -, hrest, hstep⟩ :=
    ofText_cases h mode.place c rest
  · exact hstep ▸ .copied hplain
  · exact hstep ▸ .removed hplace rfl (by simp)
  · exact hstep ▸ .removed hplace rfl fun _ => hrest

lemma commentStep (h : dialect.Ordinary sign) (mode : CommentMode) (c : Char) (rest : List Char) :
    CommentStep dialect mode c rest (mode.step dialect c rest) := by
  cases mode with
  | text literal => exact commentStep_ofText h (.text literal) c rest
  | line =>
      rw [CommentMode.step]
      split
      · exact commentStep_ofText h .line c rest
      · exact .removed rfl rfl (by simp)
  | blockSign => exact .removed rfl rfl (by simp)
  | block star =>
      rw [CommentMode.step]
      split
      · exact .blank rfl rfl (by simp) (Or.inr rfl)
      · split
        · exact .blank rfl rfl (by simp) (Or.inl rfl)
        · exact .removed rfl rfl (by simp)

/-- What would open a comment in the output opens one in the text. -/
lemma not_opensComment_output (h : dialect.Ordinary sign)
    (hplain : ¬ OpensComment dialect (c :: rest)) :
    ¬ OpensComment dialect (c :: (CommentMode.text literal).output dialect rest) := by
  rw [opensComment_cons_iff h] at hplain ⊢
  rintro (⟨rfl, hhead⟩ | ⟨rfl, hhead⟩)
  · obtain hd | hd | hd := head_output_text h _ _ hhead
    · exact h.ne_lineFeed hd
    · exact h.ne_space hd
    · exact hplain (Or.inl ⟨rfl, hd⟩)
  · obtain hd | hd | hd := head_output_text h _ _ hhead
    · simp at hd
    · simp at hd
    · exact hplain (Or.inr ⟨rfl, hd⟩)

/-- No comment opens in the output. -/
theorem commentFree_output (h : dialect.Ordinary sign) (mode : CommentMode) (text : List Char) :
    CommentFree dialect mode.place (mode.output dialect text) := by
  induction text generalizing mode with
  | nil =>
      cases mode with
      | text literal => exact commentFree_nil h
      | line => exact commentFree_nil h
      | blockSign | block star => exact (commentFree_nil h).cons_blank h (Or.inr rfl)
  | cons c rest ih =>
      have hstep := commentStep h mode c rest
      rw [output_cons]
      generalize mode.step dialect c rest = next at hstep ⊢
      cases hstep with
      | copied hplain =>
          refine commentFree_cons_iff.mpr ⟨fun houtside => ?_, ih (.text _)⟩
          rcases hplain with hquote | hplain
          · rw [houtside] at hquote
            exact not_opensComment_of_isQuote h hquote
          · exact not_opensComment_output h hplain
      | removed hplace hnext _ =>
          rw [hplace, ← hnext]
          exact ih _
      | blank hplace hnext _ hb =>
          rw [hplace]
          exact CommentFree.cons_blank h hb (hnext ▸ ih _)

/-- A text in which no comment opens is left as it is. -/
theorem output_of_commentFree (h : CommentFree dialect literal text) :
    (CommentMode.text literal).output dialect text = text := by
  induction text generalizing literal with
  | nil => rfl
  | cons c rest ih =>
      obtain ⟨hhead, hrest⟩ := commentFree_cons_iff.mp h
      have hstep : CommentMode.ofText dialect literal c rest
          = (.text (literal.step dialect c), [c]) := by
        cases hcovers : literal.covers c with
        | true => simp [CommentMode.ofText, hcovers]
        | false =>
            obtain ⟨rfl, -, hstep⟩ := Literal.step_of_not_covers dialect hcovers
            obtain ⟨hline, hblock⟩ := not_or.mp (hhead rfl)
            rw [← List.isPrefixOf_iff_prefix, Bool.not_eq_true] at hline hblock
            rw [ofText_of_no_sign hline hblock, hcovers, hstep]
            rfl
      rw [output_cons, CommentMode.step, hstep, ih hrest]
      rfl

/-- The texts in which no comment opens are those that are left as they are. -/
lemma commentFree_iff (h : dialect.Ordinary sign) :
    CommentFree dialect .outside text ↔ stripComments dialect text = text := by
  rw [stripComments_eq_output]
  refine ⟨output_of_commentFree, fun hsame => ?_⟩
  have hfree := commentFree_output h (.text .outside) text
  rwa [hsame] at hfree

/-- Without comments a text is left as it is. -/
lemma stripComments_stripComments (h : dialect.Ordinary sign) (text : List Char) :
    stripComments dialect (stripComments dialect text) = stripComments dialect text := by
  rw [stripComments_eq_output, stripComments_eq_output]
  exact output_of_commentFree (commentFree_output h (.text .outside) text)

/-- **The removal of comments settles a text.**  In what it leaves no comment opens outside of
literals; so a second removal changes nothing, and extraction gives the same schema and the same
notices whether or not the comments of a text were removed before. -/
theorem stripComments_settled (source : Source) (text : List Char) (rawPath : String) :
    CommentFree source.dialect .outside (stripComments source.dialect text) ∧
      stripComments source.dialect (stripComments source.dialect text)
        = stripComments source.dialect text ∧
      Schema.ofTextNoted source (stripComments source.dialect text) rawPath
        = Schema.ofTextNoted source text rawPath := by
  obtain ⟨sign, h⟩ := source.ordinary_dialect
  have hagain := stripComments_stripComments h text
  refine ⟨?_, hagain, ?_⟩
  · rw [stripComments_eq_output]
    exact commentFree_output h (.text .outside) text
  · have hdraft : source.draft? (stripComments source.dialect text) = source.draft? text := by
      cases source with
      | prisma => exact congrArg (some ∘ ModelFile.Contents.draft ∘ .ofStripped) hagain
      | drizzle => exact congrArg (some ∘ TableModule.Contents.draft ∘ .ofStripped) hagain
      | sql => exact congrArg (some ∘ Ddl.Script.draft ∘ .ofStripped) hagain
      | unknown => rfl
    rw [Schema.ofTextNoted, Schema.ofTextNoted, hdraft]

/-! ### Comments and literals one by one -/

/-- A text ends in the text proper, and not with a character at which a comment may begin. -/
structure EndsInText (dialect : Dialect) (text : List Char) : Prop where
  outside : (CommentMode.run dialect (.text .outside) text).1 = .text .outside
  last : ∀ c ∈ text.getLast?, ¬ dialect.BeginsComment c

/-- The output goes on with literals as the text does. -/
lemma after_run (h : dialect.Ordinary sign) (mode : CommentMode) (text : List Char) :
    mode.place.after dialect (mode.run dialect text).2 = (mode.run dialect text).1.place := by
  induction text generalizing mode with
  | nil => rfl
  | cons c rest ih =>
      have hstep := commentStep h mode c rest
      rw [CommentMode.run]
      generalize mode.step dialect c rest = next at hstep ⊢
      cases hstep with
      | copied _ => exact ih (.text _)
      | removed hplace hnext _ =>
          rw [hplace, ← hnext]
          exact ih _
      | @blank next b hplace hnext _ hb =>
          have hstays : Literal.outside.step dialect b = .outside := by
            rcases hb with rfl | rfl <;> rfl
          rw [hplace, List.singleton_append, Literal.after_cons, hstays, ← hnext]
          exact ih _

/-- A text that ends in the text proper leaves no literal open when its comments are removed. -/
lemma EndsInText.after_stripComments (hu : EndsInText dialect u) (h : dialect.Ordinary sign) :
    Literal.outside.after dialect (stripComments dialect u) = .outside := by
  have hend := hu.outside
  have hplace : Literal.outside.after dialect (CommentMode.run dialect (.text .outside) u).2
      = (CommentMode.run dialect (.text .outside) u).1.place := after_run h (.text .outside) u
  rw [stripComments_eq_output, CommentMode.output, hend, CommentMode.atEnd,
    List.append_nil, hplace, hend]
  rfl

/-- A literal that a quote opens goes on over a content and is closed by the quote behind it. -/
structure LiteralContent (dialect : Dialect) (quote : Char) (content : List Char) : Prop where
  opens : isQuote quote = true
  stays : ∀ u, u <+: content → (Literal.inside quote false).after dialect u ≠ .outside
  closes : (Literal.inside quote false).after dialect (content ++ [quote]) = .outside

/-- What can be written between two quotes: characters that stand for themselves and, where a
backslash escapes, backslashes each with the character behind it. -/
inductive Quotable (dialect : Dialect) (quote : Char) : List Char → Prop
  | nil : Quotable dialect quote []
  | keep {c : Char} {s : List Char} : dialect.Keeps quote c → Quotable dialect quote s →
      Quotable dialect quote (c :: s)
  | escape {c : Char} {s : List Char} : dialect.backslashEscapes = true →
      Quotable dialect quote s → Quotable dialect quote ('\\' :: c :: s)

/-- The line feeds of a text. -/
def lineFeeds (text : List Char) : List Char := List.replicate (text.count '\n') '\n'

lemma lineFeeds_cons :
    lineFeeds (c :: text) = (if c == '\n' then ['\n'] else []) ++ lineFeeds text := by
  by_cases hc : c = '\n'
  · simp [lineFeeds, hc, List.replicate_succ]
  · simp [lineFeeds, hc]

lemma LiteralContent.step (h : LiteralContent dialect quote (x ++ s))
    (hx : (Literal.inside quote false).after dialect x = .inside quote false) :
    LiteralContent dialect quote s := by
  have hafter : ∀ u, (Literal.inside quote false).after dialect (x ++ u)
      = (Literal.inside quote false).after dialect u := fun u => by rw [Literal.after_append, hx]
  refine ⟨h.opens, fun u hu => ?_, ?_⟩
  · rw [← hafter]
    exact h.stays _ ((List.prefix_append_right_inj x).mpr hu)
  · rw [← hafter, ← List.append_assoc]
    exact h.closes

/-- A character that does not stand for itself in a literal that goes on is a backslash that
escapes. -/
lemma LiteralContent.escapes_of_not_keeps (h : LiteralContent dialect quote (c :: s))
    (hkeeps : ¬ dialect.Keeps quote c) : dialect.backslashEscapes = true ∧ c = '\\' := by
  have hstay : (Literal.inside quote false).step dialect c ≠ .outside :=
    h.stays [c] (List.cons_prefix_cons.mpr ⟨rfl, List.nil_prefix⟩)
  by_contra hplain
  -- a quote would end the literal
  have hquote : c ≠ quote := by
    rintro rfl
    exact hstay (Literal.step_quote h.opens)
  exact hkeeps ⟨hquote, fun he hc => hplain ⟨he, hc⟩⟩

lemma LiteralContent.quotable (h : LiteralContent dialect quote s) : Quotable dialect quote s := by
  induction hn : s.length using Nat.strong_induction_on generalizing s with
  | _ n ih =>
    cases s with
    | nil => exact .nil
    | cons c s =>
        by_cases hkeeps : dialect.Keeps quote c
        · have hstep := h.step (x := [c]) (Literal.step_inside hkeeps)
          exact .keep hkeeps (ih s.length (by simp [← hn]) hstep rfl)
        · obtain ⟨hescapes, rfl⟩ := h.escapes_of_not_keeps hkeeps
          cases s with
          | nil =>
              have hclose := h.closes
              simp [Literal.step, hescapes] at hclose
          | cons d s =>
              have hstep := h.step (x := ['\\', d]) (s := s) (by simp [Literal.step, hescapes])
              have hshorter : s.length < n := by
                rw [← hn, List.length_cons, List.length_cons]
                omega
              exact .escape hescapes (ih s.length hshorter hstep rfl)

lemma Quotable.after_inside (h : Quotable dialect quote s) :
    (Literal.inside quote false).after dialect s = .inside quote false := by
  induction h with
  | nil => rfl
  | keep hkeeps _ ih => rwa [Literal.after_cons, Literal.step_inside hkeeps]
  | escape hescapes _ ih => simpa [Literal.step, hescapes] using ih

lemma Quotable.stays (h : Quotable dialect quote s) :
    ∀ u, u <+: s → (Literal.inside quote false).after dialect u ≠ .outside := by
  induction h with
  | nil => simp
  | keep hkeeps _ ih =>
      rintro (_ | ⟨d, u⟩) hu
      · simp
      · obtain ⟨rfl, htail⟩ := List.cons_prefix_cons.mp hu
        rw [Literal.after_cons, Literal.step_inside hkeeps]
        exact ih u htail
  | escape hescapes _ ih =>
      rintro (_ | ⟨d, _ | ⟨e, u⟩⟩) hu
      · simp
      · obtain ⟨rfl, -⟩ := List.cons_prefix_cons.mp hu
        simp [Literal.step, hescapes]
      · obtain ⟨rfl, htail⟩ := List.cons_prefix_cons.mp hu
        simpa [Literal.step, hescapes] using ih u (List.cons_prefix_cons.mp htail).2

/-- What a literal holds is what can be written between its quotes. -/
theorem literalContent_iff :
    LiteralContent dialect quote s ↔ isQuote quote = true ∧ Quotable dialect quote s := by
  refine ⟨fun h => ⟨h.opens, h.quotable⟩, fun ⟨hquote, h⟩ => ⟨hquote, h.stays, ?_⟩⟩
  rw [Literal.after_append, h.after_inside]
  exact Literal.step_quote hquote

/-- Behind a text that ends in the text proper comments are removed as at the start. -/
lemma EndsInText.stripComments_append (h : EndsInText dialect u) (hdialect : dialect.Ordinary sign)
    (v : List Char) :
    stripComments dialect (u ++ v) = stripComments dialect u ++ stripComments dialect v := by
  have hline : dialect.lineComment.length = 2 := by simp [hdialect.line]
  rw [stripComments_eq_run, stripComments_eq_run, stripComments_eq_run, run_append hline h.last,
    h.outside]
  simp [CommentMode.atEnd]

/-- A block comment leaves its line feeds and a space. -/
lemma output_of_block {star : Bool} (hx : ¬ ['*', '/'] <:+: x)
    (hstar : star = true → x.head? ≠ some '/') (v : List Char) :
    (CommentMode.block star).output dialect (x ++ '*' :: '/' :: v)
      = lineFeeds x ++ ' ' :: stripComments dialect v := by
  induction x generalizing star with
  | nil => cases star <;> simp [output_cons, CommentMode.step, lineFeeds, stripComments_eq_output]
  | cons c x ih =>
      have hclose : (star && c == '/') = false := by
        cases star with
        | false => rfl
        | true => simpa using hstar rfl
      have hx' : ¬ ['*', '/'] <:+: x := fun h => hx (h.trans (List.suffix_cons c x).isInfix)
      have hstar' : (c == '*') = true → x.head? ≠ some '/' := by
        intro hc hhead
        obtain ⟨w, rfl⟩ := List.head?_eq_some_iff.mp hhead
        exact hx ⟨[], w, by simpa using (beq_iff_eq.mp hc).symm⟩
      have hstep : (CommentMode.block star).step dialect c (x ++ '*' :: '/' :: v)
          = (.block (c == '*'), if c == '\n' then ['\n'] else []) := by
        rw [CommentMode.step, hclose]
        rfl
      rw [List.cons_append, output_cons, hstep, ih hx' hstar', lineFeeds_cons, List.append_assoc]

lemma stripComments_block (h : dialect.Ordinary sign) (hx : ¬ ['*', '/'] <:+: x) (v : List Char) :
    stripComments dialect ('/' :: '*' :: (x ++ '*' :: '/' :: v))
      = lineFeeds x ++ ' ' :: stripComments dialect v := by
  have hopen : CommentMode.ofText dialect .outside '/' ('*' :: (x ++ '*' :: '/' :: v))
      = (.blockSign, []) := by
    have hsign : ¬ (sign = '/' ∧ sign = '*') := fun h => absurd (h.1.symm.trans h.2) (by decide)
    simp [CommentMode.ofText, Literal.covers, isQuote, h.line, h.block, List.isPrefixOf, hsign]
  rw [stripComments_eq_output, output_cons, CommentMode.step, hopen, List.nil_append, output_cons,
    CommentMode.step, List.nil_append, output_of_block hx (by simp)]

/-- A line comment goes up to the end of its line. -/
lemma output_of_line (h : dialect.Ordinary sign) (hy : '\n' ∉ y) (v : List Char) :
    CommentMode.line.output dialect (y ++ '\n' :: v) = '\n' :: stripComments dialect v := by
  induction y with
  | nil =>
      have hline : dialect.lineComment.isPrefixOf ('\n' :: v) = false := by
        simp [h.line, List.isPrefixOf, h.ne_lineFeed]
      rw [List.nil_append, output_cons, CommentMode.step, if_pos (by rfl),
        ofText_of_no_comment hline (by decide), stripComments_eq_output]
      rfl
  | cons c y ih =>
      rw [List.mem_cons, not_or] at hy
      have hc : ¬ (c == '\n') = true := by simpa using Ne.symm hy.1
      rw [List.cons_append, output_cons, CommentMode.step, if_neg hc, ih hy.2]
      rfl

lemma stripComments_line (h : dialect.Ordinary sign) (hy : '\n' ∉ y) (v : List Char) :
    stripComments dialect (dialect.lineComment ++ (y ++ '\n' :: v))
      = '\n' :: stripComments dialect v := by
  have hopen : CommentMode.ofText dialect .outside sign (sign :: (y ++ '\n' :: v))
      = (.line, []) := by
    simp [CommentMode.ofText, Literal.covers, h.not_quote, h.line, List.isPrefixOf]
  have hrest : '\n' ∉ sign :: y := by simp [hy, h.ne_lineFeed.symm]
  rw [h.line, List.cons_append, List.singleton_append, stripComments_eq_output, output_cons,
    CommentMode.step, hopen, List.nil_append, ← List.cons_append, output_of_line h hrest]

/-- A literal is copied as far as it goes on. -/
lemma output_of_literal (hs : ∀ u, u <+: s → literal.after dialect u ≠ .outside) (v : List Char) :
    (CommentMode.text literal).output dialect (s ++ v)
      = s ++ (CommentMode.text (literal.after dialect s)).output dialect v := by
  induction s generalizing literal with
  | nil => rfl
  | cons c s ih =>
      have hcovers : literal.covers c = true :=
        Literal.covers_of_ne_outside (hs [] (List.nil_prefix)) c
      have hs' : ∀ u, u <+: s → (literal.step dialect c).after dialect u ≠ .outside := fun u hu =>
        hs (c :: u) (List.cons_prefix_cons.mpr ⟨rfl, hu⟩)
      rw [List.cons_append, output_cons, CommentMode.step, CommentMode.ofText, if_pos hcovers,
        ih hs']
      rfl

lemma LiteralContent.stripComments_eq (h : LiteralContent dialect quote s) (v : List Char) :
    stripComments dialect (quote :: (s ++ quote :: v))
      = quote :: (s ++ quote :: stripComments dialect v) := by
  have hend : ((Literal.inside quote false).after dialect s).covers quote = true :=
    Literal.covers_of_ne_outside (h.stays s List.prefix_rfl) quote
  have hclose : ((Literal.inside quote false).after dialect s).step dialect quote = .outside := by
    simpa [Literal.after_append] using h.closes
  have hopen : CommentMode.ofText dialect .outside quote (s ++ quote :: v)
      = (.text (.inside quote false), [quote]) := by
    simp [CommentMode.ofText, Literal.covers, Literal.step, h.opens]
  rw [stripComments_eq_output, output_cons, CommentMode.step, hopen, output_of_literal h.stays,
    output_cons, CommentMode.step, CommentMode.ofText, if_pos hend, hclose, stripComments_eq_output]
  rfl

/-! ### Line feeds -/

/-- A line feed of the text is one of the output, if the sign of a block comment goes on as it has
begun. -/
lemma count_output (h : dialect.Ordinary sign)
    (hmode : mode = .blockSign → text.head? ≠ some '\n') :
    (mode.output dialect text).count '\n' = text.count '\n' := by
  induction text generalizing mode with
  | nil => cases mode <;> simp [output_nil, CommentMode.atEnd]
  | cons c rest ih =>
      have htext : ∀ literal, ((CommentMode.ofText dialect literal c rest).2 ++
          (CommentMode.ofText dialect literal c rest).1.output dialect rest).count '\n'
            = (c :: rest).count '\n' := by
        intro literal
        obtain ⟨-, hstep⟩ | ⟨-, rfl, hstep⟩ | ⟨-, rfl, hrest, hstep⟩ :=
          ofText_cases h literal c rest
        · rw [hstep, List.count_append, ih (by simp), List.count_singleton, List.count_cons,
            Nat.add_comm]
        · rw [hstep, List.nil_append, ih (by simp), List.count_cons_of_ne h.ne_lineFeed]
        · rw [hstep, List.nil_append, ih (by simp [hrest]), List.count_cons_of_ne (by decide)]
      rw [output_cons]
      cases mode with
      | text literal => exact htext literal
      | line =>
          rw [CommentMode.step]
          split
          · exact htext .outside
          · next hc => rw [List.nil_append, ih (by simp), List.count_cons_of_ne (by simpa using hc)]
      | blockSign =>
          rw [CommentMode.step, List.nil_append, ih (by simp),
            List.count_cons_of_ne (by simpa using hmode rfl)]
      | block star =>
          rw [CommentMode.step]
          split
          · next hclose =>
              have hc : c = '/' := (by simpa using hclose : _ ∧ _).2
              rw [List.count_append, ih (by simp), hc, List.count_cons_of_ne (by decide)]
              simp
          · rw [List.count_append, ih (by simp), List.count_cons, Nat.add_comm]
            split <;> rfl

lemma count_stripComments (h : dialect.Ordinary sign) (text : List Char) :
    (stripComments dialect text).count '\n' = text.count '\n' := by
  rw [stripComments_eq_output]
  exact count_output h (by simp)

/-- **Comments are removed piece by piece.**  Behind a text that ends in the text proper, a block
comment leaves its line feeds and a space, a line comment its line feed, and a literal stays what it
is; what follows is read as at the start.  So every text keeps its lines. -/
theorem stripComments_piecewise (hdialect : dialect = .code ∨ dialect = .script)
    (hu : EndsInText dialect u) (v : List Char) :
    (∀ x, ¬ ['*', '/'] <:+: x → stripComments dialect (u ++ ['/', '*'] ++ x ++ ['*', '/'] ++ v)
        = stripComments dialect u ++ lineFeeds x ++ [' '] ++ stripComments dialect v) ∧
      (∀ y, '\n' ∉ y → stripComments dialect (u ++ dialect.lineComment ++ y ++ ['\n'] ++ v)
        = stripComments dialect u ++ ['\n'] ++ stripComments dialect v) ∧
      (∀ quote s, LiteralContent dialect quote s →
        stripComments dialect (u ++ [quote] ++ s ++ [quote] ++ v)
          = stripComments dialect u ++ [quote] ++ s ++ [quote] ++ stripComments dialect v) ∧
      ∀ text, (stripComments dialect text).count '\n' = text.count '\n' := by
  obtain ⟨sign, h⟩ : ∃ sign, dialect.Ordinary sign := by
    obtain rfl | rfl := hdialect
    · exact ⟨'/', ordinary_code⟩
    · exact ⟨'-', ordinary_script⟩
  refine ⟨fun x hx => ?_, fun y hy => ?_, fun quote s hs => ?_, count_stripComments h⟩
  · simpa [hu.stripComments_append h] using stripComments_block h hx v
  · simpa [hu.stripComments_append h] using stripComments_line h hy v
  · simpa [hu.stripComments_append h] using hs.stripComments_eq v

/-- A text with a comment that ends in the text proper. -/
def sampleAssignment : List Char := "x // key\n= ".toList

lemma endsInText_sampleAssignment : EndsInText .code sampleAssignment :=
  ⟨by decide, by decide⟩

/-- Behind it, a block comment with the beginning of another one and two asterisks at its end, a
line comment, and a literal with its own quote and the sign of a comment. -/
theorem stripComments_piecewise_sampleAssignment :
    EndsInText .code sampleAssignment ∧
      stripComments .code (sampleAssignment ++ ['/', '*'] ++ "/*\n*".toList ++ ['*', '/'] ++ ['1'])
        = "x \n= \n 1".toList ∧
      stripComments .code
          (sampleAssignment ++ Dialect.code.lineComment ++ "/ */".toList ++ ['\n'] ++ ['1'])
        = "x \n= \n1".toList ∧
      LiteralContent .code '"' "\\\" //".toList ∧
      stripComments .code (sampleAssignment ++ ['"'] ++ "\\\" //".toList ++ ['"'] ++ ['1'])
        = "x \n= \"\\\" //\"1".toList ∧
      (stripComments .code sampleAssignment).count '\n' = 1 := by
  have hliteral : LiteralContent .code '"' "\\\" //".toList :=
    literalContent_iff.mpr ⟨rfl, .escape rfl (.keep ⟨by decide, by decide⟩
      (.keep ⟨by decide, by decide⟩ (.keep ⟨by decide, by decide⟩ .nil)))⟩
  obtain ⟨hblock, hline, hquoted, hcount⟩ :=
    stripComments_piecewise (Or.inl rfl) endsInText_sampleAssignment ['1']
  refine ⟨endsInText_sampleAssignment, ?_, ?_, hliteral, ?_, hcount sampleAssignment⟩
  · rw [hblock "/*\n*".toList (by decide)]
    decide +kernel
  · rw [hline "/ */".toList (by decide)]
    decide +kernel
  · rw [hquoted _ _ hliteral]
    decide +kernel

end SchemaReader
