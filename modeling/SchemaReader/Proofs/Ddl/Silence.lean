/-
Where the forms of statements read nothing.

* `Quiet`: a pattern reads nothing within the writings of some pieces before a comma or the end of
  a list;
* `PassesTypes`: a pattern reads nothing at a type, although the type may be called as the keyword
  that leads the pattern; `passesTypes_createTableHead` and its like;
* `quiet_column`, `quiet_separated`: a pattern that passes types reads nothing within the list of a
  created table.
-/
import SchemaReader.Proofs.Ddl.Pieces

namespace SchemaReader.Ddl

open Text (IsWord IsGap IsKeyword Spells Stops isWordChar isBlank)
open Pattern

variable {before s u w g o text rest : List Char} {ps qs : List Piece} {q b : Pattern} {K : String}
  {options : List ColumnOption} {column : ColumnDef} {table : TableDef} {type : ColumnType}

/-! ### Quiet pieces -/

/-- A text begins with a sign. -/
def AtSign (text : List Char) : Prop := ∃ c v, text = c :: v ∧ c ∈ scriptSigns

/-- A pattern reads nothing within the writings of some pieces before a sign. -/
def Quiet (q : Pattern) (ps : List Piece) : Prop :=
  ∀ before text rest, Writes ps text rest → AtSign rest → Silent q before text rest

lemma AtSign.stops {p : Char → Bool} (h : AtSign text) (hp : ∀ c ∈ scriptSigns, p c = false) :
    Stops p text := by
  obtain ⟨c, v, rfl, hc⟩ := h
  simpa using hp c hc

lemma quiet_separated (hq : q.WordLed) {entries : List (List Piece)}
    (h : ∀ entry ∈ entries, Quiet q entry) : Quiet q (separated entries) := by
  induction entries with
  | nil =>
      rintro before _ rest rfl -
      trivial
  | cons entry entries ih =>
      rw [List.forall_mem_cons] at h
      cases entries with
      | nil => exact h.1
      | cons next entries =>
          intro before text rest htext hrest
          obtain ⟨u, _, rfl, hu, _, g, v, rfl, rfl, hg, -, hv⟩ := writes_append.mp htext
          refine silent_append.mpr ⟨h.1 _ _ _ hu ⟨',', _, rfl, by decide⟩, ?_⟩
          refine silent_append.mpr ⟨hq.silent_outside (by simp; decide), ?_⟩
          exact silent_append.mpr ⟨hq.silent_gap hg, ih h.2 _ _ _ hv hrest⟩

/-- Within parentheses, quiet pieces are quiet whatever follows. -/
lemma silent_parenthesized (hq : q.WordLed) (hps : Quiet q ps)
    (h : Writes (parenthesized ps) text rest) : Silent q before text rest := by
  obtain ⟨g, u, g', rfl, hg, hg', hu⟩ := writes_parenthesized h
  have hsign : ∀ c ∈ scriptSigns, isWordChar c = false := fun c => not_isWordChar_of_mem_scriptSigns
  refine ⟨hq _ _ (by simp [hsign '(' (by decide)]), silent_append.mpr ⟨hq.silent_gap hg, ?_⟩⟩
  refine silent_append.mpr ⟨hps _ _ _ hu ⟨')', _, rfl, by decide⟩, ?_⟩
  exact ⟨hq _ _ (by simp [hsign ')' (by decide)]), hq.silent_gap hg'⟩

lemma AtSign.fails_keyword (h : AtSign text) (hK : IsKeyword K.toList) (hb : b.Avoids isWordChar) :
    (keyword K ++ b).Fails before text := by
  have hfails : (keyword K ++ b).Fails before ([] ++ text) :=
    fails_keyword_append hK hb (by simp) (h.stops fun _ => not_isWordChar_of_mem_scriptSigns)
      fun hspells => absurd (List.forall₂_nil_right_iff.mp hspells) hK.ne_nil
  exact hfails

/-! ### Behind a type -/

/-- What stands behind a type: a sign, or a word that an option begins with. -/
inductive BehindType : List Char → Prop
  | sign {text : List Char} : AtSign text → BehindType text
  | keyword {K : String} {s v : List Char} : K ∈ optionWords → Spells K.toList s →
      Stops isWordChar v → BehindType (s ++ v)

lemma behindType_of_writes (h : Writes (options.flatMap ColumnOption.pieces) text rest)
    (hrest : AtSign rest) : BehindType (text ++ rest) := by
  cases options with
  | nil =>
      obtain rfl := h
      exact .sign hrest
  | cons option options =>
      obtain ⟨K, ps, hpieces, hK⟩ := exists_keyword_option option
      rw [List.flatMap_cons, hpieces] at h
      obtain ⟨s, g, u, rfl, hs, -, hparted, -⟩ := h
      rw [List.append_assoc, List.append_assoc]
      refine .keyword hK (Text.Cased.spells hs) (hparted.stops ?_)
      exact Piece.isWord_of_spelled_keyword (isKeyword_of_mem_optionWords hK) hs

/-- Behind a type, no other keyword is read. -/
lemma BehindType.fails_keyword (h : BehindType text) (hK : IsKeyword K.toList)
    (hnot : K ∉ optionWords) (hb : b.Avoids isWordChar) :
    (Pattern.keyword K ++ b).Fails before text := by
  cases h with
  | sign hsign => exact hsign.fails_keyword hK hb
  | keyword hL hs hv =>
      have hkeyword := isKeyword_of_mem_optionWords hL
      refine fails_keyword_append hK hb (hs.isWord hkeyword).chars hv fun h => absurd hL ?_
      rwa [String.toList_injective (hs.unique hkeyword hK h)]

lemma BehindType.fails_keywordBefore (h : BehindType text) (hK : IsKeyword K.toList)
    (hnot : K ∉ optionWords) (b : Pattern) : (keywordBefore K ++ b).Fails before text := by
  rw [keywordBefore, fails_assoc]
  exact h.fails_keyword hK hnot (someBlanks_avoids_isWordChar.append b)

lemma BehindType.stops_isBlank (h : BehindType text) : Stops isBlank text := by
  cases h with
  | sign hsign => exact hsign.stops (by decide)
  | keyword hK hs _ => exact (hs.isWord (isKeyword_of_mem_optionWords hK)).stops_isBlank _

/-- An option may be the word that makes an index unique, but the index is missing behind it. -/
lemma fails_uniqueIndex (h : Writes (options.flatMap ColumnOption.pieces) text rest)
    (hrest : AtSign rest) (b : Pattern) :
    (keywordBefore "UNIQUE" ++ (keywordBefore "INDEX" ++ b)).Fails before (text ++ rest) := by
  have hU : IsKeyword "UNIQUE".toList := by decide
  cases options with
  | nil =>
      obtain rfl := h
      rw [keywordBefore, fails_assoc]
      exact hrest.fails_keyword hU (someBlanks_avoids_isWordChar.append _)
  | cons option options =>
      obtain ⟨K, ps, hpieces, hK⟩ := exists_keyword_option option
      rw [List.flatMap_cons] at h
      obtain ⟨u, v, rfl, hu, hv⟩ := writes_append.mp h
      have hkeyword := isKeyword_of_mem_optionWords hK
      have hbehind := behindType_of_writes hv hrest
      by_cases hKU : K = "UNIQUE"
      · obtain rfl : option = .unique := by
          cases option with
          | unique => rfl
          | notNull | primaryKey | references => simp [ColumnOption.pieces, hKU] at hpieces
        obtain ⟨s, g, _, rfl, hs, hg, hparted, rfl⟩ := hu
        have hword := Piece.isWord_of_spelled_keyword hU hs
        simp only [List.append_assoc, List.nil_append]
        refine fails_keywordBefore_append hU rfl hword.chars hg hbehind.stops_isBlank ?_ ?_
        · rintro rfl
          simpa using hparted.stops hword
        · exact fun _ _ => hbehind.fails_keywordBefore (by decide) (by decide) b
      · rw [hpieces] at hu
        obtain ⟨s, g, w, rfl, hs, -, hparted, -⟩ := hu
        have hword := Piece.isWord_of_spelled_keyword hkeyword hs
        simp only [List.append_assoc]
        refine fails_keywordBefore_of_not_spells hU hword.chars ?_ fun h => hKU ?_
        · simpa using hparted.stops hword
        · exact (String.toList_injective (h.unique hU hkeyword (Text.Cased.spells hs))).symm

/-! ### Types -/

/-- A pattern reads nothing at a type with options behind it. -/
def PassesTypes (q : Pattern) : Prop :=
  ∀ (before : List Char) (type : ColumnType) (options : List ColumnOption) (g o rest : List Char),
    type.Proper → IsGap g → Parted type.text (g ++ (o ++ rest)) →
      Writes (options.flatMap ColumnOption.pieces) o rest → AtSign rest →
        q.Fails before (type.text ++ (g ++ (o ++ rest)))

/-- A pattern that goes on behind a keyword passes types, if what follows the keyword fails on
options and on the size of a type. -/
lemma passesTypes_of_keywordThen (hq : KeywordThen q K b)
    (hsize : ∀ before v, b.Fails before ('(' :: v))
    (hoptions : ∀ (before : List Char) (options : List ColumnOption) (o rest : List Char),
      Writes (options.flatMap ColumnOption.pieces) o rest → AtSign rest →
        b.Fails before (o ++ rest)) : PassesTypes q := by
  intro before type options g o rest htype hg hparted ho hrest
  refine hq.fails _ _ ?_
  rw [fails_wordEdge_append]
  intro _
  obtain ⟨w, size⟩ := type
  have hw := htype.isWord
  cases size with
  | none =>
      have hstop : Stops isWordChar (g ++ (o ++ rest)) := hparted.stops hw
      refine fails_keywordBefore_append hq.isKeyword hq.avoidsBlanks hw.chars hg
        (behindType_of_writes ho hrest).stops_isBlank ?_ fun _ _ => hoptions _ _ _ _ ho hrest
      rintro rfl
      exact hstop
  | some size =>
      obtain ⟨g', u⟩ := size
      have hg' := (htype.size _ rfl).1
      simp only [ColumnType.text, List.append_assoc, List.cons_append]
      exact fails_keywordBefore_append hq.isKeyword hq.avoidsBlanks hw.chars hg'
        stops_isBlank_parenthesis
        (fun _ => by simp; decide) fun _ _ => hsize _ _

lemma passesTypes_createTableHead : PassesTypes createTableHead := by
  refine passesTypes_of_keywordThen keywordThen_createTableHead (fun _ _ => ?_)
    fun before options o rest ho hrest => ?_
  · exact fails_of_not_mayBegin rfl (by decide)
  · have hbehind := behindType_of_writes ho hrest
    have hblanks : ∀ b, (someBlanks ++ b).Avoids isWordChar := someBlanks_avoids_isWordChar.append
    simp only [createTableTail, fails_opt_append, fails_assoc, fails_alt_append]
    refine ⟨⟨?_, ?_⟩, ⟨⟨?_, ?_⟩, ?_⟩, ?_⟩
    all_goals first
      | exact hbehind.fails_keyword (by decide) (by decide) (hblanks _)
      | exact hbehind.fails_keywordBefore (by decide) (by decide) _

lemma passesTypes_createIndexHead : PassesTypes createIndexHead := by
  refine passesTypes_of_keywordThen keywordThen_createIndexHead (fun _ _ => ?_)
    fun before options o rest ho hrest => ?_
  · exact fails_of_not_mayBegin rfl (by decide)
  · rw [fails_opt_append, fails_group_append]
    refine ⟨fails_uniqueIndex ho hrest _, ?_⟩
    exact (behindType_of_writes ho hrest).fails_keywordBefore (by decide) (by decide) _

lemma passesTypes_addForeignKeyForm : PassesTypes addForeignKeyForm := by
  refine passesTypes_of_keywordThen keywordThen_addForeignKeyForm (fun _ _ => ?_)
    fun before options o rest ho hrest => ?_
  · exact fails_of_not_mayBegin rfl (by decide)
  · exact (behindType_of_writes ho hrest).fails_keywordBefore (by decide) (by decide) _

/-! ### Columns and clauses -/

lemma not_isLetter_of_isSizeChar {k c : Char} (hk : k.isUpper = true) (hc : isSizeChar c = true) :
    Text.isLetter k c = false := by
  by_contra hletter
  rw [Bool.not_eq_false] at hletter
  have hword := Text.isWordChar_of_isLetter hk hletter
  simp only [isSizeChar, Bool.or_eq_true, beq_iff_eq] at hc
  rcases hc with (hdigit | rfl) | hblank
  · simp only [Text.isLetter, Bool.or_eq_true, Bool.and_eq_true, beq_iff_eq] at hletter
    rcases hletter with (rfl | ⟨-, rfl⟩) | ⟨-, rfl⟩
    · exact Text.not_isAsciiLetter_of_isAsciiDigit hdigit
        (Text.isAsciiLetter_of_isUpper_toUpper hk)
    · exact absurd hdigit (by decide)
    · exact absurd hdigit (by decide)
  · exact absurd hword (by decide)
  · simp [Text.not_isWordChar_of_isBlank hblank] at hword

/-- The characters of a size begin no keyword. -/
lemma silent_size (hq : q.LedBy K) (hK : IsKeyword K.toList)
    (hu : ∀ c ∈ u, isSizeChar c = true) : Silent q before u rest := by
  induction u generalizing before with
  | nil => trivial
  | cons c u ih =>
      rw [List.forall_mem_cons] at hu
      refine ⟨hq _ _ fun w rest' htext hw _ hspells => ?_, ih hu.2⟩
      obtain ⟨k, ks, hk⟩ := List.exists_cons_of_ne_nil hK.ne_nil
      rw [hk] at hspells hK
      obtain ⟨d, w, hd, -, rfl⟩ := List.forall₂_cons_left_iff.mp hspells
      obtain ⟨rfl, -⟩ := List.cons.inj htext
      simp [not_isLetter_of_isSizeChar (hK.capitals k List.mem_cons_self) hu.1] at hd

/-- At a type, a pattern that passes types reads nothing. -/
lemma silent_type (hq : q.LedBy K) (hK : IsKeyword K.toList) (hpasses : PassesTypes q)
    (htype : type.Proper) (hg : IsGap g) (hparted : Parted type.text (g ++ (o ++ rest)))
    (ho : Writes (options.flatMap ColumnOption.pieces) o rest) (hrest : AtSign rest) :
    Silent q before type.text (g ++ (o ++ rest)) := by
  have hfails : ∀ before, q.Fails before (type.text ++ (g ++ (o ++ rest))) := fun before =>
    hpasses before type options g o rest htype hg hparted ho hrest
  obtain ⟨w, size⟩ := type
  cases size with
  | none => exact hq.wordLed.silent_word htype.isWord.chars (hfails _)
  | some size =>
      obtain ⟨g', u⟩ := size
      obtain ⟨hg', hu⟩ := htype.size _ rfl
      have hfails : ∀ before, q.Fails before (w ++ (g' ++ ('(' :: (u ++ [')'])) ++
          (g ++ (o ++ rest)))) := fun before => by simpa [ColumnType.text] using hfails before
      have hsign : ∀ c ∈ scriptSigns, isWordChar c = false := fun _ =>
        not_isWordChar_of_mem_scriptSigns
      refine silent_append.mpr ⟨hq.wordLed.silent_word htype.isWord.chars (hfails _), ?_⟩
      refine silent_append.mpr ⟨hq.wordLed.silent_gap hg', ?_⟩
      refine ⟨hq.wordLed _ _ (by simp [hsign '(' (by decide)]), silent_append.mpr ?_⟩
      exact ⟨silent_size hq hK hu, hq.wordLed _ _ (by simp [hsign ')' (by decide)]), trivial⟩

/-- A form of statements: a keyword leads it that stands in no option and no clause, and it passes
types. -/
structure IsStatementForm (q : Pattern) (K : String) : Prop where
  isKeyword : IsKeyword K.toList
  reserved : K ∈ reservedWords
  ledBy : q.LedBy K
  passesTypes : PassesTypes q
  not_mem_option : ∀ option : ColumnOption, .keyword K ∉ option.pieces
  not_mem_clause : ∀ clause : Clause, .keyword K ∉ clause.pieces

namespace IsStatementForm

lemma silent (hq : IsStatementForm q K) (hps : AllOrdinary ps) (hnot : .keyword K ∉ ps)
    (h : Writes ps text rest) : Silent q before text rest := by
  refine h.silent hq.ledBy fun piece hpiece =>
    (hps piece hpiece).avoids hq.isKeyword hq.reserved ?_
  rintro rfl
  exact hnot hpiece

lemma quiet_column (hq : IsStatementForm q K) (h : column.Proper) : Quiet q column.pieces := by
  rintro before _ rest ⟨_, g, _, rfl, rfl, hg, hparted, _, g', o, rfl, rfl, hg', hparted', ho⟩ hrest
  have hw := h.name.isWord
  have hstop := hparted.stops hw
  have htype : Silent q (g.reverse ++ (column.name.toList.reverse ++ before)) column.type.text
      (g' ++ (o ++ rest)) :=
    silent_type hq.ledBy hq.isKeyword hq.passesTypes h.type hg' hparted' ho hrest
  have hoptions : .keyword K ∉ column.options.flatMap ColumnOption.pieces := by
    intro hmem
    obtain ⟨option, -, hoption⟩ := List.mem_flatMap.mp hmem
    exact hq.not_mem_option option hoption
  refine silent_append.mpr ⟨hq.ledBy.silent_word hw (by simpa using hstop)
    (h.name.not_spells hq.reserved), ?_⟩
  refine silent_append.mpr ⟨hq.ledBy.wordLed.silent_gap hg, silent_append.mpr ⟨?_, ?_⟩⟩
  · simpa using htype
  · exact silent_append.mpr ⟨hq.ledBy.wordLed.silent_gap hg',
      hq.silent (allOrdinary_options h.options) hoptions ho⟩

/-- Within the list of a created table, a form of statements reads nothing. -/
lemma quiet_items (hq : IsStatementForm q K) (h : table.Proper) :
    Quiet q (separated (table.items.map Prod.fst)) := by
  refine quiet_separated hq.ledBy.wordLed (List.forall_mem_map.mpr (h.forall_mem_items ?_ ?_))
  · exact fun column hcolumn => hq.quiet_column hcolumn
  · exact fun clause hclause _ _ _ htext _ =>
      hq.silent (allOrdinary_clause hclause) (hq.not_mem_clause clause) htext

end IsStatementForm

lemma keyword_not_mem_namePieces (K : String) (names : List String) :
    .keyword K ∉ namePieces names := by
  intro hmem
  rcases mem_separated hmem with h | ⟨entry, hentry, hpiece⟩
  · simp [Piece.sign] at h
  · obtain ⟨name, -, rfl⟩ := List.mem_map.mp hentry
    simp [Piece.name] at hpiece

lemma keyword_not_mem_index {K : String} (hK : K ≠ "KEY" ∧ K ≠ "INDEX") (asKey : Bool)
    (name : Option String) (names : List String) :
    .keyword K ∉ (Clause.index asKey name names).pieces := by
  cases asKey <;>
    simp [Clause.pieces, indexPieces, parenthesized, Piece.sign, Piece.name,
      keyword_not_mem_namePieces, hK]

/-- The words that lead statements stand neither in options nor in clauses. -/
lemma isStatementForm (hq : KeywordThen q K b) (hpasses : PassesTypes q)
    (hK : K = "CREATE" ∨ K = "ALTER") :
    IsStatementForm q K where
  isKeyword := by rcases hK with rfl | rfl <;> decide
  reserved := by rcases hK with rfl | rfl <;> decide
  ledBy := hq.ledBy
  passesTypes := hpasses
  not_mem_option option := by
    rcases hK with rfl | rfl <;> cases option <;>
      simp [ColumnOption.pieces, parenthesized, Piece.sign, Piece.name]
  not_mem_clause clause := by
    cases clause with
    | index asKey name columns =>
        exact keyword_not_mem_index (by rcases hK with rfl | rfl <;> decide) asKey name columns
    | primaryKey | unique | foreignKey =>
        rcases hK with rfl | rfl <;>
          simp [Clause.pieces, indexPieces, constraintPieces, KeyDef.pieces, parenthesized,
            Piece.sign, Piece.name, keyword_not_mem_namePieces]

lemma isStatementForm_createTableHead : IsStatementForm createTableHead "CREATE" :=
  isStatementForm keywordThen_createTableHead passesTypes_createTableHead (Or.inl rfl)

lemma isStatementForm_createIndexHead : IsStatementForm createIndexHead "CREATE" :=
  isStatementForm keywordThen_createIndexHead passesTypes_createIndexHead (Or.inl rfl)

lemma isStatementForm_addForeignKeyForm : IsStatementForm addForeignKeyForm "ALTER" :=
  isStatementForm keywordThen_addForeignKeyForm passesTypes_addForeignKeyForm (Or.inr rfl)

end SchemaReader.Ddl
