/-
Columns as their forms take them.

* `ColumnType`: a type as it can be written, a word and what may follow it in parentheses;
* `EndsType`: a text that goes on with no type, as the options of a column do, or a sign;
* `takes_columnForm_of_type`: the name and the type of a column, before its options.
-/
import SchemaReader.Proofs.Ddl.Forms

namespace SchemaReader.Ddl

open Text (IsWord IsGap IsKeyword Spells Stops isWordChar isBlank)
open Pattern

/-! ### Types -/

/-- A type as it can be written. -/
structure ColumnType where
  word : List Char
  /-- The white space before the parentheses and what stands in them. -/
  size : Option (List Char × List Char)
  deriving DecidableEq, Repr

/-- A type as it stands in a text. -/
def ColumnType.text (type : ColumnType) : List Char :=
  match type.size with
  | none => type.word
  | some (g, u) => type.word ++ (g ++ '(' :: (u ++ [')']))

/-- A character of the size of a type: a digit, the comma between two numbers, or white space. -/
def isSizeChar (c : Char) : Bool := Text.isAsciiDigit c || c == ',' || isBlank c

/-- A word with the numbers that may follow it. -/
structure ColumnType.Proper (type : ColumnType) : Prop where
  isWord : IsWord type.word
  size : ∀ p ∈ type.size, IsGap p.1 ∧ ∀ c ∈ p.2, isSizeChar c = true

instance (type : ColumnType) : Decidable type.Proper :=
  decidable_of_iff (IsWord type.word ∧ ∀ p ∈ type.size, IsGap p.1 ∧ ∀ c ∈ p.2, isSizeChar c = true)
    ⟨fun h => ⟨h.1, h.2⟩, fun h => ⟨h.1, h.2⟩⟩

/-- The options of a column: nothing, or a text whose first word begins none of the words that
can go on with a type. -/
def BeginsOptions (text : List Char) : Prop :=
  text = [] ∨ ∃ (g s v : List Char) (K : String), text = g ++ (s ++ v) ∧ IsGap g ∧
  IsKeyword K.toList ∧
    Spells K.toList s ∧ Stops isWordChar v ∧
    ∀ L ∈ ["PRECISION", "VARYING", "WITH"], ¬ L.toList <+: K.toList

variable {before u v w g r rest : List Char} {type : ColumnType} {q : Pattern}

lemma ne_parenthesis_of_isSizeChar {c : Char} (h : isSizeChar c = true) : c ≠ ')' := by
  rintro rfl
  exact absurd h (by decide)

lemma ColumnType.Proper.not_stops (htype : type.Proper) (v : List Char) :
    ¬ Stops isWordChar (type.text ++ v) := by
  obtain ⟨w, size⟩ := type
  cases size with
  | none => exact htype.isWord.not_stops v
  | some size =>
      rw [ColumnType.text, List.append_assoc]
      exact htype.isWord.not_stops _

/-- A text that goes on with no type: behind its white space stands neither a bracket nor one of the
words that can go on with a type. -/
def EndsType (text : List Char) : Prop :=
  (∀ c ∈ ['(', '['], Stops (· == c) (text.dropWhile isBlank)) ∧
    ∀ L ∈ ["PRECISION", "VARYING", "WITH"],
      ¬ Spells L.toList ((text.dropWhile isBlank).take L.toList.length)

instance (text : List Char) : Decidable (EndsType text) := inferInstanceAs (Decidable (_ ∧ _))

/-- A sign that is no bracket goes on with no type. -/
lemma endsType_sign {c : Char} (hg : IsGap g) (hblank : isBlank c = false)
    (hword : isWordChar c = false)
    (hbracket : c ∉ ['(', '[']) : EndsType (g ++ c :: rest) := by
  rw [EndsType, Text.dropWhile_append_of_stops hg (by simpa using hblank)]
  refine ⟨fun d hd => ?_, fun L hL hspells => ?_⟩
  · have hne : c ≠ d := fun heq => hbracket (heq ▸ hd)
    simpa using hne
  · have hkeyword : ∀ L ∈ ["PRECISION", "VARYING", "WITH"], IsKeyword L.toList := by decide
    obtain ⟨d, K, hK⟩ := List.exists_cons_of_ne_nil (hkeyword L hL).ne_nil
    rw [hK, List.length_cons, List.take_succ_cons, ← hK] at hspells
    have hc := (hspells.isWord (hkeyword L hL)).chars c List.mem_cons_self
    simp [hword] at hc

lemma BeginsOptions.endsType (h : BeginsOptions r) : EndsType r := by
  rcases h with rfl | ⟨g, s, v, K, rfl, hg, hK, hs, hv, hnot⟩
  · decide
  have hword := hs.isWord hK
  rw [EndsType, Text.dropWhile_append_of_stops hg (hword.stops_isBlank v)]
  refine ⟨fun c hc => ?_, fun L hL hspells => ?_⟩
  · have hsign : ∀ c ∈ ['(', '['], isWordChar c = false := by decide
    exact hword.stops (fun _ => Text.beq_of_isWordChar (hsign c hc)) v
  · have hkeyword : ∀ L ∈ ["PRECISION", "VARYING", "WITH"], IsKeyword L.toList := by decide
    have hfails : (keyword L).Fails [] (s ++ v) :=
      fails_keyword_of_not_prefix hK (hkeyword L hL) (hnot L hL) hs hv
    exact hfails _ _ (List.take_append_drop _ (s ++ v)).symm (reads_keyword.mpr hspells)

/-- None of the words that can go on with a type follows. -/
lemma EndsType.fails_keyword (h : EndsType r) {L : String}
    (hL : L ∈ ["PRECISION", "VARYING", "WITH"]) (havoids : (keyword L).avoidsBlanks = true) :
    (someBlanks ++ keyword L).Fails before r := by
  obtain ⟨g, x, rfl, hg, hblank⟩ := exists_run isBlank r
  rw [EndsType, Text.dropWhile_append_of_stops hg hblank] at h
  refine fails_someBlanks_append havoids hg hblank fun _ u rest htext hu => h.2 L hL ?_
  have hspells := reads_keyword.mp hu
  rw [htext, hspells.length_eq, List.take_left]
  exact hspells

/-- Behind white space, what wants a bracket fails where none stands. -/
lemma fails_bracket_of_stops {c : Char} (hc : c ∈ ['(', '['])
    (h : Stops (· == c) (r.dropWhile isBlank)) : (blanks ++ (char c ++ q)).Fails before r := by
  obtain ⟨g, x, rfl, hg, hblank⟩ := exists_run isBlank r
  rw [Text.dropWhile_append_of_stops hg hblank] at h
  have hnotBlank : ∀ c ∈ ['(', '['], isBlank c = false := by decide
  have havoids : (char c ++ q).Avoids isBlank := avoids_of_mayBegin rfl fun d hd => by
    change (d == c || (false && _)) = false
    have hne : d ≠ c := by
      rintro rfl
      simp [hnotBlank d hc] at hd
    simpa using hne
  exact fails_many_append havoids hg hblank (fails_one_append h)

/-- Neither does a bracket. -/
lemma EndsType.fails_bracket (h : EndsType r) {c : Char} (hc : c ∈ ['(', '[']) :
    (blanks ++ (char c ++ q)).Fails before r := fails_bracket_of_stops hc (h.1 c hc)

/-- A word is no bracket. -/
lemma fails_bracket_word (hg : IsGap g) (hw : IsWord w) {c : Char} (hc : c ∈ ['(', '[']) :
    (blanks ++ (char c ++ q)).Fails before (g ++ (w ++ v)) := by
  have hsign : ∀ c ∈ ['(', '['], isWordChar c = false := by decide
  refine fails_bracket_of_stops hc ?_
  rw [Text.dropWhile_append_of_stops hg (hw.stops_isBlank v)]
  exact hw.stops (fun _ => Text.beq_of_isWordChar (hsign c hc)) v

/-- The words of a type are its word alone, where the word that could follow it does not. -/
lemma takes_typeWords (hw : IsWord w) (hword : Stops isWordChar rest)
    (hprecision : Spells "DOUBLE".toList w →
      ∀ before, (someBlanks ++ keyword "PRECISION").Fails before rest)
    (hvarying : Spells "CHARACTER".toList w →
      ∀ before, (someBlanks ++ keyword "VARYING").Fails before rest) :
    typeWords.Takes before w rest [] := by
  have hfails : ∀ K L : String, IsKeyword K.toList →
      (Spells K.toList w → ∀ before, (someBlanks ++ keyword L).Fails before rest) →
        (keywordBefore K ++ keyword L).Fails before (w ++ rest) := by
    intro K L hK h
    rw [keywordBefore, fails_assoc]
    exact fails_keyword_append hK (someBlanks_avoids_isWordChar.append _) hw.chars hword
      fun hspells => h hspells _
  exact (takes_word hw hword).alt_right (fails_alt.mpr
    ⟨hfails _ _ (by decide) hprecision, hfails _ _ (by decide) hvarying⟩)

/-- The time zone and the array bounds of a type, which stand behind its arguments. -/
def typeSuffix : Pattern :=
  opt (someBlanks ++ keyword "WITH" ++ opt (keyword "OUT") ++ someBlanks ++
    keywordBefore "TIME" ++ keyword "ZONE") ++
    star (blanks ++ char '[' ++ blanks ++ many Text.isDigit ++ blanks ++ char ']')

/-- Options go on with neither. -/
lemma takes_typeSuffix (hr : EndsType r) : typeSuffix.Takes before [] r [] := by
  refine (takes_opt_skip ?_).after_nothing (takes_star_stop ?_)
  · have hwith : (someBlanks ++ keyword "WITH").Fails before r :=
      hr.fails_keyword (by decide) (by decide)
    exact (((hwith.append _).append _).append _).append _
  · simp only [fails_assoc]
    exact hr.fails_bracket (by decide)

/-- Of a word with arguments, those are taken up to the first closing parenthesis. -/
lemma takes_typeForm_arguments (hw : IsWord w) (hg : IsGap g) (hu : ∀ c ∈ u, c ≠ ')')
    (hv : typeSuffix.Takes ((g ++ '(' :: (u ++ [')'])).reverse ++ (w.reverse ++ before)) v r []) :
    typeForm.Takes before (w ++ ((g ++ '(' :: (u ++ [')'])) ++ v)) r [] := by
  have hopen : ∀ before (L : String), (keyword L).avoidsBlanks = true →
      (keyword L).nullable = false → (keyword L).mayBegin '(' = false →
        (someBlanks ++ keyword L).Fails before (g ++ '(' :: (u ++ ')' :: (v ++ r))) :=
    fun before L havoids hnull hbegin =>
      fails_someBlanks_append havoids hg stops_isBlank_parenthesis fun _ =>
        fails_of_not_mayBegin hnull hbegin
  simp only [typeForm, takes_assoc]
  refine (takes_typeWords hw ?_ (fun _ _ => ?_) fun _ _ => ?_).seq ?_
  · simpa using stops_isWordChar_parenthesis hg
  · simpa using hopen _ _ (by decide) rfl (by decide)
  · simpa using hopen _ _ (by decide) rfl (by decide)
  refine Takes.seq (Takes.opt ?_) hv
  simp only [takes_assoc]
  refine (takes_blanks hg stops_isBlank_parenthesis).seq (takes_char.seq (u := ['(']) ?_)
  exact (takes_many (fun c hc => by simpa using hu c hc) (by simp)).seq takes_char

/-- With nothing of the type behind them, all of the arguments are taken. -/
lemma takes_typeForm_parentheses (hw : IsWord w) (hg : IsGap g) (hu : ∀ c ∈ u, c ≠ ')')
    (hsuffix : ∀ before, typeSuffix.Takes before [] r []) :
    typeForm.Takes before (w ++ (g ++ '(' :: (u ++ [')']))) r [] := by
  have htakes : typeForm.Takes before _ r [] := takes_typeForm_arguments hw hg hu (hsuffix _)
  rwa [List.append_nil] at htakes

/-- A type is taken as a whole before the options of its column. -/
lemma takes_typeForm (htype : type.Proper) (hr : EndsType r)
    (hword : type.size = none → Stops isWordChar r) :
    typeForm.Takes before type.text r [] := by
  obtain ⟨w, size⟩ := type
  cases size with
  | none =>
      simp only [typeForm, takes_assoc]
      refine (takes_typeWords htype.isWord (hword rfl) (fun _ _ => ?_) fun _ _ =>
        ?_).append_nothing ?_
      · exact hr.fails_keyword (by decide) (by decide)
      · exact hr.fails_keyword (by decide) (by decide)
      refine (takes_opt_skip ?_).after_nothing (takes_typeSuffix hr)
      simp only [fails_assoc]
      exact hr.fails_bracket (by decide)
  | some size =>
      obtain ⟨g, u⟩ := size
      obtain ⟨hg, hu⟩ := htype.size _ rfl
      exact takes_typeForm_parentheses htype.isWord hg
        (fun c hc => ne_parenthesis_of_isSizeChar (hu c hc)) fun _ => takes_typeSuffix hr

/-- A word can be read as a type, whatever follows it. -/
lemma reads_typeForm (hw : IsWord w) : typeForm.Reads before w rest := by
  obtain ⟨c, v, rfl⟩ := List.exists_cons_of_ne_nil hw.ne_nil
  have hchars := List.forall_mem_cons.mp hw.chars
  have hwords : ∀ before rest, typeWords.Reads before (c :: v) rest := fun _ _ =>
    Or.inr ⟨[c], v, rfl, ⟨c, hchars.1, rfl⟩, hchars.2⟩
  have hskip : ∀ (q : Pattern) before rest, (opt q).Reads before [] rest := fun _ _ _ => Or.inr rfl
  exact ⟨c :: v, [], by simp, ⟨c :: v, [], by simp, ⟨c :: v, [], by simp, hwords _ _, hskip _ _ _⟩,
    hskip _ _ _⟩, .stop _ _⟩

/-- The name and the type of a column, where both are taken as a whole. -/
lemma takes_columnForm_of_type {t : List Char} (hw : identifier.Takes [] w (g ++ (t ++ r)) [])
    (hg : IsGap g) (hne : g ≠ []) (hblank : Stops isBlank (t ++ r))
    (ht : typeForm.Takes (g.reverse ++ w.reverse) t r []) :
    columnForm.Takes [] (w ++ (g ++ t)) r ([(2, t)] ++ [(1, w)]) := by
  simp only [columnForm, takes_assoc]
  have hname : identifier.Takes [] w ((g ++ t) ++ r) [] := by
    rw [List.append_assoc]
    exact hw
  refine takes_textStart.after_nothing ((hname.group 1).append ?_)
  exact (takes_someBlanks hg hne hblank).seq (by simpa using ht.group 2)

/-- A proper type and what follows it begin with no white space. -/
lemma ColumnType.Proper.stops_isBlank (htype : type.Proper) (v : List Char) :
    Stops isBlank (type.text ++ v) :=
  Text.stops_of_not_stops (htype.not_stops v) fun _ => Text.not_isBlank_of_isWordChar

end SchemaReader.Ddl
