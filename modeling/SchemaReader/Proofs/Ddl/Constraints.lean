/-
Keys and indexes as their forms take them.

* `takes_primaryKeyForm`, `takes_uniqueForm`, `takes_indexForm`, `takes_createIndexHead`: what each
  form takes, with and without the name of an index;
* `fails_foreignKeyForm`, `fails_primaryKeyForm`, `fails_uniqueForm`, `fails_indexForm`: the forms
  fail on an entry whose first word is none of theirs.
-/
import SchemaReader.Proofs.Ddl.Forms

namespace SchemaReader.Ddl

open Text (IsWord IsGap IsKeyword Spells Stops isWordChar isBlank)
open Pattern

variable {before t t₁ t₂ t₃ r s u v w g g₁ g₂ rest : List Char} {caught : Captures} {q : Pattern}

/-! ### Lists of columns -/

/-- What can begin with white space or a parenthesis only does not go on inside a word. -/
lemma avoids_isWordChar (hnull : q.nullable = false)
    (hq : ∀ c, q.mayBegin c = true → isBlank c = true ∨ c = '(') : q.Avoids isWordChar := by
  refine avoids_of_mayBegin hnull fun c hc => ?_
  cases hbegin : q.mayBegin c with
  | false => rfl
  | true =>
      rcases hq c hbegin with hblank | rfl
      · simp [Text.not_isWordChar_of_isBlank hblank] at hc
      · exact absurd hc (by decide)

lemma takes_primaryKeyForm (h : SpacedKeyword "PRIMARY" t) (hs : Spells "KEY".toList s)
    (hg : IsGap g) (hu : ∀ c ∈ u, c ≠ ')') :
    primaryKeyForm.Takes [] (t ++ (s ++ (g ++ ('(' :: (u ++ [')']))))) rest [(1, u)] := by
  have hword := hs.isWord (show IsKeyword "KEY".toList by decide)
  simp only [primaryKeyForm, takes_assoc]
  refine takes_textStart.after_nothing ((takes_opt_skip ?_).after_nothing ?_)
  · simp only [List.append_assoc, constraintName, fails_assoc]
    exact fails_keywordBefore_of_ne h (by decide) (by decide)
  refine (takes_keywordBefore h (by simpa using hword.stops_isBlank _)).seq ?_
  refine (takes_keyword hs).seq ?_
  exact (takes_blanks hg stops_isBlank_parenthesis).seq (takes_inParens 1 hu)

/-- The name of an index is left out where a parenthesis follows. -/
lemma takes_indexName_skip (i : Nat) (hg : IsGap g)
    (hq : ∀ before, q.Takes before (g ++ '(' :: v) rest caught) :
    (opt (someBlanks ++ group i identifier) ++ q).Takes before (g ++ '(' :: v) rest caught := by
  refine (takes_opt_skip ?_).after_nothing (hq _)
  rw [List.append_assoc]
  refine fails_someBlanks_append (show identifier.avoidsBlanks = true by decide) hg
    stops_isBlank_parenthesis fun _ => ?_
  exact fails_of_not_mayBegin rfl (show identifier.mayBegin '(' = false by decide)

/-- The name of an index before its columns. -/
lemma takes_indexName (i : Nat) (hg₁ : IsGap g₁) (hne : g₁ ≠ []) (hw : IsPlainName w)
    (hg₂ : IsGap g₂) (hq : ∀ before, q.Takes before (g₂ ++ '(' :: v) rest caught) :
    (opt (someBlanks ++ group i identifier) ++ q).Takes before (g₁ ++ (w ++ (g₂ ++ '(' :: v))) rest
      (caught ++ [(i, w)]) := by
  rw [← List.append_assoc]
  refine Takes.append ((takes_someBlanks hg₁ hne ?_).seq ((takes_plainName hw ?_ ?_).group i)).opt
    (hq _)
  · simpa using hw.stops_isBlank _
  · simpa using noPeriod_parenthesis hg₂
  · simpa using stops_isNameChar_parenthesis hg₂

/-! ### Uniqueness constraints -/

/-- What follows the word `UNIQUE` does not go on inside the word. -/
lemma uniqueTail_avoids :
    (opt (someBlanks ++ group 2 identifier) ++ (blanks ++ inParens 3)).Avoids isWordChar :=
  avoids_isWordChar rfl fun c hc => by
    simpa [someBlanks, blanks, many1, inParens, char, mayBegin, nullable] using hc

/-- A uniqueness constraint without a name in front. -/
lemma takes_uniqueForm_of_tail (hs : Spells "UNIQUE".toList s) (hr : Stops isWordChar (r ++ rest))
    (htail : ∀ before, (opt (someBlanks ++ (keyword "KEY" ||| keyword "INDEX")) ++
      (opt (someBlanks ++ group 2 identifier) ++ (blanks ++ inParens 3))).Takes before r rest
        caught) : uniqueForm.Takes [] (s ++ r) rest caught := by
  have hword := hs.isWord (show IsKeyword "UNIQUE".toList by decide)
  simp only [uniqueForm, takes_assoc]
  refine takes_textStart.after_nothing ((takes_opt_skip ?_).after_nothing ?_)
  · simp only [List.append_assoc, fails_assoc]
    refine fails_keywordBefore_of_not_spells (by decide) hword.chars hr fun h => ?_
    exact absurd (h.unique (by decide) (by decide) hs) (by decide)
  · exact (takes_keyword hs).seq (htail _)

lemma takes_uniqueForm (hs : Spells "UNIQUE".toList s) (hg : IsGap g) (hu : ∀ c ∈ u, c ≠ ')') :
    uniqueForm.Takes [] (s ++ (g ++ '(' :: (u ++ [')']))) rest [(3, u)] := by
  refine takes_uniqueForm_of_tail hs (by simpa using stops_isWordChar_parenthesis hg)
    fun before => Takes.opt_append_skip ?_ ?_
  · exact takes_indexName_skip 2 hg fun _ =>
      (takes_blanks hg stops_isBlank_parenthesis).seq (takes_inParens 3 hu)
  · rw [List.append_assoc, fails_assoc]
    refine fails_someBlanks_append (by decide) hg stops_isBlank_parenthesis fun _ => ?_
    exact fails_of_not_mayBegin rfl (by decide)

lemma takes_uniqueForm_named (hs : Spells "UNIQUE".toList s) (hg₁ : IsGap g₁) (hne : g₁ ≠ [])
    (hw : IsWord w) (hkey : ¬ Spells "KEY".toList w) (hindex : ¬ Spells "INDEX".toList w)
    (hg₂ : IsGap g₂) (hu : ∀ c ∈ u, c ≠ ')') :
    uniqueForm.Takes [] (s ++ (g₁ ++ (w ++ (g₂ ++ '(' :: (u ++ [')']))))) rest
      ([(3, u)] ++ [(2, w)]) := by
  refine takes_uniqueForm_of_tail hs (by simpa using stops_isWordChar_gap hg₁ hne)
    fun before => Takes.opt_append_skip ?_ ?_
  · exact takes_indexName 2 hg₁ hne (isPlainName_of_isWord hw) hg₂ fun _ =>
      (takes_blanks hg₂ stops_isBlank_parenthesis).seq (takes_inParens 3 hu)
  · -- the name of the index is neither of the words that could stand here
    simp only [List.append_assoc, fails_assoc]
    refine fails_someBlanks_append (by decide) hg₁ (hw.stops_isBlank _) fun _ => ?_
    rw [fails_alt_append]
    exact ⟨fails_keyword_append (by decide) uniqueTail_avoids hw.chars
        (stops_isWordChar_parenthesis hg₂) fun h => absurd h hkey,
      fails_keyword_append (by decide) uniqueTail_avoids hw.chars
        (stops_isWordChar_parenthesis hg₂) fun h => absurd h hindex⟩

/-! ### Indexes -/

/-- The list of columns of an index, without an access method. -/
lemma takes_indexColumns (i : Nat) (hg : IsGap g) (hu : ∀ c ∈ u, c ≠ ')') :
    (blanks ++ (opt (usingMethod ++ blanks) ++ inParens i)).Takes before
      (g ++ '(' :: (u ++ [')'])) rest [(i, u)] := by
  refine (takes_blanks hg stops_isBlank_parenthesis).seq ?_
  refine (takes_opt_skip ?_).after_nothing (takes_inParens i hu)
  exact fails_of_not_mayBegin rfl (by decide)

/-- An index begins with one of two words. -/
lemma takes_indexForm_of_tail (hs : Spells "INDEX".toList s ∨ Spells "KEY".toList s)
    (htail : ∀ before, (opt (someBlanks ++ group 1 identifier) ++
      (blanks ++ (opt (usingMethod ++ blanks) ++ inParens 2))).Takes before r rest caught) :
    indexForm.Takes [] (s ++ r) rest caught := by
  simp only [indexForm, takes_assoc]
  refine takes_textStart.after_nothing ?_
  rcases hs with hs | hs
  · exact ((takes_keyword hs).alt_left _).seq (htail _)
  · refine ((takes_keyword hs).alt_right ?_).seq (htail _)
    -- the two words differ in their first letters
    obtain ⟨c, s, hc, -, rfl⟩ := List.forall₂_cons_left_iff.mp hs
    refine fails_of_not_mayBegin rfl ?_
    cases hi : (keyword "INDEX").mayBegin c with
    | false => rfl
    | true =>
        have hi' : Text.isLetter 'I' c = true := by
          change (Text.isLetter 'I' c || (false && _)) = true at hi
          simpa using hi
        exact absurd (Text.isLetter_unique (by decide) (by decide) hc hi') (by decide)

lemma takes_indexForm (hs : Spells "INDEX".toList s ∨ Spells "KEY".toList s) (hg : IsGap g)
    (hu : ∀ c ∈ u, c ≠ ')') :
    indexForm.Takes [] (s ++ (g ++ '(' :: (u ++ [')']))) rest [(2, u)] :=
  takes_indexForm_of_tail hs fun _ =>
    takes_indexName_skip 1 hg fun _ => takes_indexColumns 2 hg hu

lemma takes_indexForm_named (hs : Spells "INDEX".toList s ∨ Spells "KEY".toList s)
    (hg₁ : IsGap g₁) (hne : g₁ ≠ []) (hw : IsWord w) (hg₂ : IsGap g₂) (hu : ∀ c ∈ u, c ≠ ')') :
    indexForm.Takes [] (s ++ (g₁ ++ (w ++ (g₂ ++ '(' :: (u ++ [')']))))) rest
      ([(2, u)] ++ [(1, w)]) :=
  takes_indexForm_of_tail hs fun _ =>
    takes_indexName 1 hg₁ hne (isPlainName_of_isWord hw) hg₂ fun _ => takes_indexColumns 2 hg₂ hu

/-! ### Created indexes -/

/-- The form of a created index from the word `INDEX` on. -/
def createIndexTail : Pattern :=
  keywordBefore "INDEX" ++ (opt (keywordBefore "CONCURRENTLY") ++ (opt ifNotExists ++
    (opt (group 2 identifier ++ someBlanks) ++ (keywordBefore "ON" ++
      (opt (keywordBefore "ONLY") ++ (group 3 identifier ++ (blanks ++
        (opt (usingMethod ++ blanks) ++ char '('))))))))

lemma keywordThen_createIndexHead : KeywordThen createIndexHead "CREATE"
    (opt (.group 1 (keywordBefore "UNIQUE")) ++ createIndexTail) where
  isKeyword := by decide
  avoidsBlanks := by decide
  fails before text h := by
    simp only [createIndexHead, fails_assoc]
    exact h

lemma takes_createIndexTail (h₂ : SpacedKeyword "INDEX" t₂) (hv : IsWord v)
    (hconcurrently : ¬ Spells "CONCURRENTLY".toList v) (hif : ¬ Spells "IF".toList v)
    (hg₁ : IsGap g₁) (hne : g₁ ≠ []) (h₃ : SpacedKeyword "ON" t₃) (hw : IsWord w)
    (honly : ¬ Spells "ONLY".toList w) (hg₂ : IsGap g₂) :
    createIndexTail.Takes before (t₂ ++ ((v ++ g₁) ++ (t₃ ++ (w ++ (g₂ ++ ['('])))))
      rest ([(3, w)] ++ [(2, v)]) := by
  have hskip : ∀ K : String, IsKeyword K.toList → ¬ Spells K.toList v → ∀ before q r,
      (keywordBefore K ++ q).Fails before (v ++ (g₁ ++ r)) := fun K hK h _ _ _ =>
    fails_keywordBefore_of_not_spells hK hv.chars (stops_isWordChar_gap hg₁ hne) h
  rw [createIndexTail]
  refine (takes_keywordBefore h₂ (by simpa using hv.stops_isBlank _)).seq ?_
  refine Takes.opt_append_skip ?_ (by simpa using hskip _ (by decide) hconcurrently _ _ _)
  refine (takes_opt_skip ?_).after_nothing ?_
  · simp only [List.append_assoc, ifNotExists, fails_assoc]
    exact hskip _ (by decide) hif _ _ _
  refine Takes.append (((takes_plain hv ?_ ?_).group 2).seq_last ?_).opt ?_
  · simpa using noPeriod_keyword h₃ hg₁
  · simpa using stops_isNameChar_gap hg₁ hne
  · exact takes_someBlanks hg₁ hne (by simpa using h₃.stops_isBlank _)
  refine (takes_keywordBefore h₃ (by simpa using hw.stops_isBlank _)).seq ?_
  refine Takes.opt_append_skip ?_ ?_
  · refine ((takes_plain hw ?_ ?_).group 3).seq_last ?_
    · simpa using noPeriod_parenthesis hg₂
    · simpa using stops_isNameChar_parenthesis hg₂
    refine (takes_blanks hg₂ stops_isBlank_parenthesis).seq ?_
    refine (takes_opt_skip ?_).after_nothing takes_char
    exact fails_of_not_mayBegin rfl (by decide)
  · simp only [List.append_assoc]
    exact fails_keywordBefore_of_not_spells (by decide) hw.chars
      (by simpa using stops_isWordChar_parenthesis hg₂) honly

lemma takes_createIndexHead (h₁ : SpacedKeyword "CREATE" t₁) (h₂ : SpacedKeyword "INDEX" t₂)
    (hr : ∀ before, createIndexTail.Takes before (t₂ ++ r) rest caught)
    (hbefore : Stops isWordChar before) :
    createIndexHead.Takes before (t₁ ++ (t₂ ++ r)) rest caught := by
  simp only [createIndexHead, takes_assoc]
  refine (takes_wordEdge_before hbefore (by simpa using h₁.not_stops _)).after_nothing ?_
  refine (takes_keywordBefore h₁ (by simpa using h₂.stops_isBlank _)).seq ?_
  refine Takes.opt_append_skip (hr _) ?_
  rw [fails_group_append, List.append_assoc]
  exact fails_keywordBefore_of_ne h₂ (by decide) (by decide)

/-- The same for a unique index, which is remembered as such. -/
lemma takes_createIndexHead_unique (h₁ : SpacedKeyword "CREATE" t₁)
    (h : SpacedKeyword "UNIQUE" t) (h₂ : SpacedKeyword "INDEX" t₂)
    (hr : ∀ before, createIndexTail.Takes before (t₂ ++ r) rest caught)
    (hbefore : Stops isWordChar before) :
    createIndexHead.Takes before (t₁ ++ (t ++ (t₂ ++ r))) rest (caught ++ [(1, t)]) := by
  simp only [createIndexHead, takes_assoc]
  refine (takes_wordEdge_before hbefore (by simpa using h₁.not_stops _)).after_nothing ?_
  refine (takes_keywordBefore h₁ (by simpa using h.stops_isBlank _)).seq ?_
  exact ((takes_keywordBefore h (by simpa using h₂.stops_isBlank _)).group 1).opt.append (hr _)

end SchemaReader.Ddl
