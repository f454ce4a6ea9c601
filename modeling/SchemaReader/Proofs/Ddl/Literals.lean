/-
Literals of scripts.

* `Settled`: the statements of a text are over at its end;
* `Inert`: a text in which no statement begins, if it stands in a literal;
* `ofText_literal`: a literal behind statements that are over, in one that is none of the three
  kinds, may hold any inert text without changing the schema;
* `literal_creates_table`: a literal that is not inert creates a table, since statements are looked
  for in literals too.
-/
import SchemaReader.Proofs.Ddl.JoinedDrafts

namespace SchemaReader.Ddl

open Text (Mentions Stops isWordChar)
open Pattern

variable {earlier current literal literal' behind text stripped : List Char}

/-! ### Comments around literals -/

/-- A quote behind a text stands outside of comments and literals; without its comments, the text is
`stripped`. -/
def StripsBefore (text stripped : List Char) : Prop :=
  ∀ out rest, stripCommentsLoop .script (.text .outside) out (text ++ '\'' :: rest)
    = stripCommentsLoop .script (.text .outside) (stripped.reverse ++ out) ('\'' :: rest)

lemma stripsBefore_of_uncommented (h : Uncommented .script text) : StripsBefore text text :=
  fun out rest => h out ('\'' :: rest)

lemma stripCommentsLoop_out (dialect : Dialect) (mode : CommentMode) (out text : List Char) :
    stripCommentsLoop dialect mode out text
      = out.reverse ++ stripCommentsLoop dialect mode [] text := by
  induction text generalizing mode out with
  | nil => simp [stripCommentsLoop]
  | cons c text ih =>
      simp only [stripCommentsLoop]
      rw [ih, ih _ ((mode.step dialect c text).2.reverseAux [])]
      simp

/-- The text of a literal stays as it is, and what stands behind it does not depend on it. -/
lemma stripComments_literal (h : StripsBefore text stripped) (hliteral : ∀ c ∈ literal, c ≠ '\'') :
    stripComments .script (text ++ '\'' :: (literal ++ '\'' :: behind))
      = stripped ++ '\'' :: (literal ++ '\'' :: stripComments .script behind) := by
  have hquoted := uncommented_literal (by decide) hliteral stripped.reverse behind
  have htext : '\'' :: (literal ++ '\'' :: behind) = '\'' :: (literal ++ ['\'']) ++ behind := by
    simp
  rw [stripComments, h, List.append_nil, htext, hquoted, stripCommentsLoop_out, stripComments]
  simp

/-! ### Statements around literals -/

/-- The statements of a text are over at its end: none goes on behind it, and every list is closed
that one of them opens. -/
structure Settled (text : List Char) : Prop where
  stays : ∀ q ∈ heads, ∀ next, q.StaysIn text next
  closed : ClosesLists text

lemma Complete.settled (h : Complete text) : Settled text :=
  ⟨fun _ => h.staysIn, h.closed⟩

/-- No statement begins in a text, whatever stands behind the quote after it. -/
def Inert (text : List Char) : Prop := ∀ rest, Still text ('\'' :: rest)

lemma inert_of_not_mentions (h : ∀ K ∈ leadingWords, ¬ Mentions K text) : Inert text :=
  fun _ => still_of_not_mentions h (Or.inr (by simp; decide))

/-- The statements before a literal and behind it do not depend on its text. -/
theorem exists_ofStripped_literal (hsettled : Settled earlier) (hcurrent : Inert current)
    (behind : List Char) : ∃ script, ∀ literal, Inert literal →
      Script.ofStripped (earlier ++ (current ++ '\'' :: (literal ++ '\'' :: behind))) = script := by
  obtain ⟨found, hfound⟩ := exists_scanned [] earlier
  obtain ⟨found', hbehind⟩ := exists_scanned ['\''] behind
  refine ⟨found.script.append found'.script, fun literal hliteral => ?_⟩
  have hquote : ∀ rest, Still ['\''] rest := fun rest => still_outside (by simp; decide)
  have hskipped : Scanned (earlier.reverse ++ [])
      (current ++ (['\''] ++ (literal ++ (['\''] ++ behind)))) found' := by
    refine .skip (hcurrent _) (.skip (hquote _) (.skip (hliteral _) (.skip (hquote _) ?_)))
    exact hbehind.alike (alike_cons '\'' _ _)
  have hscanned :=
    Scanned.append (Alike.refl []) (fun q hq => hsettled.stays q hq _) hfound hskipped
  rw [List.singleton_append, List.singleton_append] at hscanned
  rw [hscanned.ofStripped, Findings.script_append,
    Findings.script_extend (hfound.closed hsettled.closed)]

/-- The text of a literal does not matter, if statements of the three kinds are over before it, the
statement around it is none of them and no statement begins within the literal. -/
theorem ofText_literal (htext : StripsBefore text (earlier ++ current)) (hsettled : Settled earlier)
    (hcurrent : Inert current) (hliteral : Inert literal) (hliteral' : Inert literal')
    (hquote : ∀ c ∈ literal, c ≠ '\'') (hquote' : ∀ c ∈ literal', c ≠ '\'') (rawPath : String) :
    Schema.ofText .sql (text ++ '\'' :: (literal ++ '\'' :: behind)) rawPath
      = Schema.ofText .sql (text ++ '\'' :: (literal' ++ '\'' :: behind)) rawPath := by
  obtain ⟨script, hscript⟩ := exists_ofStripped_literal hsettled hcurrent
    (stripComments .script behind)
  have hread : ∀ literal, Inert literal → (∀ c ∈ literal, c ≠ '\'') →
      Script.ofText (text ++ '\'' :: (literal ++ '\'' :: behind)) = script := by
    intro literal hinert hplain
    rw [Script.ofText, stripComments_literal htext hplain, List.append_assoc, hscript _ hinert]
  rw [schema_of_script (hread _ hliteral hquote), schema_of_script (hread _ hliteral' hquote')]

/-- A value without statements, behind a created table. -/
theorem ofText_literal_sampleUsers :
    Schema.ofText .sql ((sampleUsers ++ "INSERT INTO users VALUES (".toList) ++ '\'' ::
        ("a (b".toList ++ '\'' :: ");".toList)) "a.sql"
      = Schema.ofText .sql ((sampleUsers ++ "INSERT INTO users VALUES (".toList) ++ '\'' ::
        ("-- [c]; index".toList ++ '\'' :: ");".toList)) "a.sql" := by
  have hcomments : Uncommented .script (sampleUsers ++ "INSERT INTO users VALUES (".toList) :=
    uncommented_of_forall (by decide +kernel)
  exact ofText_literal (stripsBefore_of_uncommented hcomments) complete_sampleUsers.settled
    (inert_of_not_mentions (by decide)) (inert_of_not_mentions (by decide))
    (inert_of_not_mentions (by decide)) (by decide) (by decide) "a.sql"

/-- A literal with the text of a statement creates a table, which an empty literal does not. -/
theorem literal_creates_table :
    Schema.ofText .sql "INSERT INTO notes VALUES ('CREATE TABLE ghost (id INT)');".toList "inline"
      = ⟨.sql, [⟨"ghost", [⟨"id", "INT", true, false, none⟩], []⟩], [], "inline"⟩ ∧
    Schema.ofText .sql "INSERT INTO notes VALUES ('');".toList "inline"
      = ⟨.sql, [], [], "inline"⟩ := by
  decide +kernel

end SchemaReader.Ddl
