/-
Statements and constraints as their forms take them.

* `createTableTail`, `addForeignKeyTail`: the forms of statements behind their keywords;
* `takes_createTableHead`, `takes_createIndexHead`, `takes_addForeignKeyForm`: the statements;
* `takes_foreignKeyForm`, `takes_primaryKeyForm`, `takes_uniqueForm`, `takes_indexForm`: the
  constraints, with and without what is optional in them.

A text is given as its parts: keywords with the white space behind them, names, white space, and
what stands in parentheses.
-/
import SchemaReader.Proofs.Ddl.Identifier

namespace SchemaReader.Ddl

open Text (IsWord IsGap IsKeyword Spells Stops isWordChar isBlank)
open Pattern

variable {before t t₁ t₂ t₃ r s u v w g g₁ g₂ rest : List Char} {caught : Captures} {n : Nat}
  {R : WrittenName}

/-! ### Forms behind their keywords -/

/-- The form of a created table from its second word on. -/
def createTableTail : Pattern :=
  opt ((keyword "GLOBAL" ||| keyword "LOCAL") ++ someBlanks) ++
    (opt ((keyword "TEMPORARY" ||| keyword "TEMP" ||| keyword "UNLOGGED") ++ someBlanks) ++
      (keywordBefore "TABLE" ++ (opt ifNotExists ++ (.group 1 identifier ++ (blanks ++ char '(')))))

/-- The form of an added foreign key from its second word on. -/
def addForeignKeyTail : Pattern :=
  keywordBefore "TABLE" ++ (opt (keywordBefore "ONLY") ++
    (opt (keywordBefore "IF" ++ keywordBefore "EXISTS") ++ (.group 1 identifier ++ (someBlanks ++
      (keywordBefore "ADD" ++ (opt constraintName ++ foreignKeyBody 2))))))

lemma keywordThen_createTableHead : KeywordThen createTableHead "CREATE" createTableTail where
  isKeyword := by decide
  avoidsBlanks := by decide
  fails before text h := by
    simp only [createTableHead, fails_assoc]
    exact h

lemma keywordThen_addForeignKeyForm :
    KeywordThen addForeignKeyForm "ALTER" addForeignKeyTail where
  isKeyword := by decide
  avoidsBlanks := by decide
  fails before text h := by
    simp only [addForeignKeyForm, fails_assoc]
    exact h

/-! ### Before a parenthesis -/

lemma stops_isBlank_parenthesis : Stops isBlank ('(' :: rest) := by simp; decide

lemma noPeriod_parenthesis (hg : IsGap g) : NoPeriod (g ++ '(' :: rest) :=
  noPeriod_of_gap hg stops_isBlank_parenthesis (by simp)

lemma stops_isNameChar_parenthesis (hg : IsGap g) : Stops isNameChar (g ++ '(' :: rest) :=
  hg.stops (fun _ => Text.not_isNameChar_of_isBlank) (by simp [isNameChar]; decide)

lemma stops_isWordChar_gap (hg : IsGap g) (hne : g ≠ []) : Stops isWordChar (g ++ rest) :=
  hg.stops_of_ne_nil hne (fun _ => Text.not_isWordChar_of_isBlank) rest

lemma stops_isWordChar_parenthesis (hg : IsGap g) : Stops isWordChar (g ++ '(' :: rest) :=
  hg.stops (fun _ => Text.not_isWordChar_of_isBlank) (by simp; decide)

lemma stops_isNameChar_gap (hg : IsGap g) (hne : g ≠ []) : Stops isNameChar (g ++ rest) :=
  hg.stops_of_ne_nil hne (fun _ => Text.not_isNameChar_of_isBlank) rest

lemma noPeriod_keyword {K : String} (h : SpacedKeyword K t) (hg : IsGap g) :
    NoPeriod (g ++ (t ++ rest)) :=
  noPeriod_of_gap hg (h.stops_isBlank _)
    (h.stops (fun _ => Text.beq_of_isWordChar (by decide)) _)

/-! ### Created tables -/

lemma takes_createTableHead (h₁ : SpacedKeyword "CREATE" t₁) (h₂ : SpacedKeyword "TABLE" t₂)
    (hw : IsWord w) (hg : IsGap g) (hbefore : Stops isWordChar before) :
    createTableHead.Takes before (t₁ ++ (t₂ ++ (w ++ (g ++ ['('])))) rest [(1, w)] := by
  have hskip : ∀ K : String, IsKeyword K.toList → K ≠ "TABLE" → ∀ before rest,
      (keyword K ++ someBlanks).Fails before (t₂ ++ rest) := fun K hK hne _ _ =>
    fails_keyword_of_ne h₂ hK hne someBlanks_avoids_isWordChar
  simp only [createTableHead, takes_assoc]
  refine (takes_wordEdge_before hbefore (by simpa using h₁.not_stops _)).after_nothing ?_
  refine (takes_keywordBefore h₁ (by simpa using h₂.stops_isBlank _)).seq ?_
  refine (takes_opt_skip ?_).after_nothing ?_
  · simp only [List.append_assoc, fails_alt_append]
    exact ⟨hskip _ (by decide) (by decide) _ _, hskip _ (by decide) (by decide) _ _⟩
  refine (takes_opt_skip ?_).after_nothing ?_
  · simp only [List.append_assoc, fails_alt_append]
    exact ⟨⟨hskip _ (by decide) (by decide) _ _, hskip _ (by decide) (by decide) _ _⟩,
      hskip _ (by decide) (by decide) _ _⟩
  refine (takes_keywordBefore h₂ (by simpa using hw.stops_isBlank _)).seq ?_
  refine (takes_opt_skip ?_).after_nothing ?_
  · -- a table may be called `IF`, but no `NOT` follows it
    simp only [List.append_assoc, ifNotExists, fails_assoc]
    refine fails_keywordBefore_append (by decide) (by decide) hw.chars hg
      stops_isBlank_parenthesis (fun _ => by simp; decide) fun _ _ => ?_
    exact fails_of_not_mayBegin rfl (by decide)
  refine ((takes_plain hw ?_ ?_).group 1).seq_last ?_
  · simpa using noPeriod_parenthesis hg
  · simpa using stops_isNameChar_parenthesis hg
  exact (takes_blanks hg stops_isBlank_parenthesis).seq takes_char

/-! ### Foreign keys -/

lemma takes_constraintName (h : SpacedKeyword "CONSTRAINT" t) (hw : IsWord w) (hg : IsGap g)
    (hne : g ≠ []) (hrest : Stops isBlank rest) (hperiod : Stops (· == '.') rest) :
    constraintName.Takes before (t ++ (w ++ g)) rest [] := by
  simp only [constraintName, takes_assoc]
  refine (takes_keywordBefore h (by simpa using hw.stops_isBlank _)).seq ?_
  refine (takes_plain hw (noPeriod_of_gap hg hrest hperiod) (stops_isNameChar_gap hg hne)).seq ?_
  exact takes_someBlanks hg hne hrest

/-- What a foreign key points at, with the list of columns. -/
lemma takes_referencesForm_listed (n : Nat) (h : SpacedKeyword "REFERENCES" t) (hR : R.Proper)
    (hg : IsGap g) (hu : ∀ c ∈ u, c ≠ ')') :
    (referencesForm n).Takes before (t ++ (R.text ++ (g ++ ('(' :: (u ++ [')']))))) rest
      ([(n + 1, u)] ++ [(n, R.text)]) := by
  simp only [referencesForm, takes_assoc]
  refine (takes_keywordBefore h ?_).seq ?_
  · simpa using stops_isBlank_text hR _
  refine ((takes_identifier hR ?_ fun _ => ?_).group n).append ?_
  · simpa using noPeriod_parenthesis hg
  · simpa using stops_isNameChar_parenthesis hg
  exact (takes_blanks hg stops_isBlank_parenthesis).seq (takes_inParens (n + 1) hu).opt

/-- What a foreign key points at, without a list of columns. -/
lemma takes_referencesForm_unlisted (n : Nat) (h : SpacedKeyword "REFERENCES" t) (hR : R.Proper)
    (hg : IsGap g) (hrest : Stops isBlank rest) (hperiod : Stops (· == '.') rest)
    (hopen : Stops (· == '(') rest) (hname : R.quoting = .plain → Stops isNameChar (g ++ rest)) :
    (referencesForm n).Takes before (t ++ (R.text ++ g)) rest [(n, R.text)] := by
  simp only [referencesForm, takes_assoc]
  refine (takes_keywordBefore h ?_).seq ?_
  · simpa using stops_isBlank_text hR _
  refine ((takes_identifier hR (noPeriod_of_gap hg hrest hperiod) hname).group n).seq_last ?_
  refine (takes_blanks hg hrest).append_nothing (takes_opt_skip ?_)
  simp only [inParens, fails_assoc]
  exact fails_one_append hopen

lemma takes_foreignKeyBody (n : Nat) (h : SpacedKeyword "FOREIGN" t)
    (hs : Spells "KEY".toList s) (hg₁ : IsGap g₁) (hu : ∀ c ∈ u, c ≠ ')') (hg₂ : IsGap g₂)
    (hr : ∀ before, (referencesForm (n + 1)).Takes before r rest caught)
    (hblank : Stops isBlank (r ++ rest)) :
    (foreignKeyBody n).Takes before
      (t ++ (s ++ (g₁ ++ (('(' :: (u ++ [')'])) ++ (g₂ ++ r))))) rest (caught ++ [(n, u)]) := by
  have hword := hs.isWord (show IsKeyword "KEY".toList by decide)
  simp only [foreignKeyBody, takes_assoc]
  refine (takes_keywordBefore h (by simpa using hword.stops_isBlank _)).seq ?_
  refine (takes_keyword hs).seq ?_
  refine (takes_blanks hg₁ stops_isBlank_parenthesis).seq ?_
  exact (takes_inParens n hu).append ((takes_blanks hg₂ hblank).seq (hr _))

/-- A foreign key whose constraint has no name. -/
lemma takes_unnamedKey (h : SpacedKeyword "FOREIGN" t)
    (hbody : (foreignKeyBody n).Takes before (t ++ r) rest caught) :
    (opt constraintName ++ foreignKeyBody n).Takes before (t ++ r) rest caught := by
  refine (takes_opt_skip ?_).after_nothing hbody
  simp only [List.append_assoc, constraintName, fails_assoc]
  exact fails_keywordBefore_of_ne h (by decide) (by decide)

/-- A foreign key among the constraints of a table. -/
lemma takes_foreignKeyForm
    (hkey : (opt constraintName ++ foreignKeyBody 1).Takes [] u rest caught) :
    foreignKeyForm.Takes [] u rest caught := by
  simp only [foreignKeyForm, takes_assoc]
  exact takes_textStart.after_nothing hkey

/-- A foreign key that is added to a table.  The table may be called `ONLY` or `IF`: neither word
would be followed by what it needs. -/
lemma takes_addForeignKeyForm {K : String} (h₁ : SpacedKeyword "ALTER" t₁)
    (h₂ : SpacedKeyword "TABLE" t₂) (hw : IsWord w) (hg : IsGap g) (hne : g ≠ [])
    (h₃ : SpacedKeyword "ADD" t₃) (ht : SpacedKeyword K t) (hK : "ADD" ≠ K)
    (hkey : ∀ before, (opt constraintName ++ foreignKeyBody 2).Takes before (t ++ r) rest caught)
    (hbefore : Stops isWordChar before) :
    addForeignKeyForm.Takes before (t₁ ++ (t₂ ++ (w ++ (g ++ (t₃ ++ (t ++ r)))))) rest
      (caught ++ [(1, w)]) := by
  have hadd : ∀ (before : List Char) (q : Pattern),
      (keywordBefore "ADD" ++ q).Fails before (t ++ (r ++ rest)) :=
    fun _ _ => fails_keywordBefore_of_ne ht (by decide) hK
  have hname := h₃.stops_isBlank (t ++ (r ++ rest))
  simp only [addForeignKeyForm, takes_assoc]
  refine (takes_wordEdge_before hbefore (by simpa using h₁.not_stops _)).after_nothing ?_
  refine (takes_keywordBefore h₁ (by simpa using h₂.stops_isBlank _)).seq ?_
  refine (takes_keywordBefore h₂ (by simpa using hw.stops_isBlank _)).seq ?_
  refine Takes.opt_append_skip (Takes.opt_append_skip ?_ ?_) ?_
  · refine ((takes_plain hw ?_ ?_).group 1).append ?_
    · simpa using noPeriod_keyword h₃ hg
    · simpa using stops_isNameChar_gap hg hne
    refine (takes_someBlanks hg hne (by simpa using hname)).seq ?_
    exact (takes_keywordBefore h₃ (by simpa using ht.stops_isBlank _)).seq (hkey _)
  · -- after `IF`, the word `EXISTS` is missing
    simp only [List.append_assoc, fails_assoc]
    refine fails_keywordBefore_append (by decide) (by decide) hw.chars hg hname
      (fun h => absurd h hne) fun _ _ => ?_
    exact fails_keywordBefore_of_ne h₃ (by decide) (by decide)
  · -- after `ONLY`, the word `ADD` would be the table, and is missing behind it
    simp only [List.append_assoc]
    refine fails_keywordBefore_append (by decide) (by decide) hw.chars hg hname
      (fun h => absurd h hne) fun _ _ => ?_
    rw [fails_opt_append]
    constructor
    · simp only [fails_assoc]
      exact fails_keywordBefore_of_ne h₃ (by decide) (by decide)
    · obtain ⟨s, g', rfl, hs, hg', hne'⟩ := h₃.split
      rw [List.append_assoc]
      refine fails_identifier_append ?_ (isPlainName_of_isWord (hs.isWord h₃.isKeyword))
        (noPeriod_keyword ht hg') (stops_isNameChar_gap hg' hne') ?_
      · exact (someBlanks_avoids isNameChar_not_isBlank).append _
      · exact fails_someBlanks_append (by decide) hg' (ht.stops_isBlank _) fun _ =>
          hadd _ _

end SchemaReader.Ddl
