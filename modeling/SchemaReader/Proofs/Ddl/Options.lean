/-
The options of a written column.

* `ColumnOption.shown`: the pieces of an option that are left when what stands in parentheses is
  masked, and `writes_shown`: the masked options write these;
* `occursIn_notNullForm`, `occursIn_inlinePrimaryKeyForm`, `occursIn_inlineUniqueForm`: an option is
  found where it is written, and only then;
* `inlineForeignKey?_of_writes`: the foreign key among the options is read as it is written.
-/
import SchemaReader.Proofs.Ddl.Entries
import SchemaReader.Proofs.Ddl.Texts

namespace SchemaReader.Ddl

open Text (IsWord IsGap IsKeyword Spells Stops isWordChar isBlank)
open Pattern

variable {before t s o u w g text rest rest' : List Char} {options : List ColumnOption}
  {option : ColumnOption}

/-! ### First words -/

/-- The keywords that options begin with. -/
def optionWords : List String := ["NOT", "PRIMARY", "UNIQUE", "REFERENCES"]

lemma isKeyword_of_mem_optionWords {K : String} (h : K ∈ optionWords) : IsKeyword K.toList := by
  have hall : ∀ K ∈ optionWords, IsKeyword K.toList := by decide
  exact hall K h

/-- The keyword that an option begins with. -/
lemma exists_keyword_option (option : ColumnOption) :
    ∃ K ps, option.pieces = .keyword K :: ps ∧ K ∈ optionWords := by
  cases option with
  | notNull => exact ⟨_, _, rfl, by decide⟩
  | primaryKey => exact ⟨_, _, rfl, by decide⟩
  | unique => exact ⟨_, _, rfl, by decide⟩
  | references => exact ⟨_, _, rfl, by decide⟩

/-! ### Masked options -/

/-- The pieces of an option that are left when what stands in parentheses is masked. -/
def ColumnOption.shown : ColumnOption → List Piece
  | .references table _ => [.keyword "REFERENCES", .name table]
  | option => option.pieces

/-- What is shown of an option are words. -/
lemma ordinary_of_mem_shown (h : option.Proper) {piece : Piece} (hpiece : piece ∈ option.shown) :
    Ordinary piece ∧ ∀ s, piece.Spelled s → IsWord s := by
  have hkeyword : ∀ {K : String}, IsKeyword K.toList →
      Ordinary (.keyword K) ∧ ∀ s, (Piece.keyword K).Spelled s → IsWord s := fun hK =>
    ⟨.keyword hK, fun _ => Piece.isWord_of_spelled_keyword hK⟩
  cases option with
  | references table column =>
      simp only [ColumnOption.shown, List.mem_cons, List.not_mem_nil, or_false] at hpiece
      rcases hpiece with rfl | rfl
      · exact hkeyword (by decide)
      · exact ⟨.name h.1, fun _ => Piece.isWord_of_spelled_name h.1.isWord⟩
  | notNull | primaryKey | unique =>
      simp only [ColumnOption.shown, ColumnOption.pieces, List.mem_cons, List.not_mem_nil,
        or_false] at hpiece
      rcases hpiece with rfl | rfl <;> exact hkeyword (by decide)

lemma isWord_of_mem_flatMap_shown (h : ∀ option ∈ options, option.Proper) {piece : Piece}
    (hpiece : piece ∈ options.flatMap ColumnOption.shown) : ∀ s, piece.Spelled s → IsWord s := by
  obtain ⟨option, hoption, hpiece⟩ := List.mem_flatMap.mp hpiece
  exact (ordinary_of_mem_shown (h option hoption) hpiece).2

lemma maskNested_of_words {ps : List Piece} (h : Writes ps text rest)
    (hps : ∀ piece ∈ ps, ∀ s, piece.Spelled s → IsWord s) (v : List Char) :
    maskNested .script (text ++ v) = text ++ maskNested .script v :=
  maskNested_of_plain (h.forall_mem
    (fun piece hpiece s hs c hc => isPlain_of_isWordChar ((hps piece hpiece s hs).chars c hc))
    fun _ => isPlain_of_isBlank) v

lemma closedPieces_option {P : Char → Prop} (hP : HoldsWords P) (h : option.Proper) :
    ClosedPieces P option.pieces := by
  have hkeyword : ∀ {K : String} {ps : List Piece}, IsKeyword K.toList → ClosedPieces P ps →
      ClosedPieces P (.keyword K :: ps) := fun hK hps =>
    closedPieces_word hP (fun _ => Piece.isWord_of_spelled_keyword hK) hps
  cases option with
  | references table column =>
      refine closedPieces_append (hkeyword (by decide) (closedPieces_word hP ?_ closedPieces_nil))
        (closedPieces_parenthesized hP (closedPieces_word holdsWords_true ?_ closedPieces_nil))
      · exact fun _ => Piece.isWord_of_spelled_name h.1.isWord
      · exact fun _ => Piece.isWord_of_spelled_name h.2.isWord
  | notNull => exact hkeyword (by decide) (hkeyword (by decide) closedPieces_nil)
  | primaryKey => exact hkeyword (by decide) (hkeyword (by decide) closedPieces_nil)
  | unique => exact hkeyword (by decide) closedPieces_nil

lemma closedPieces_options {P : Char → Prop} (hP : HoldsWords P)
    (h : ∀ option ∈ options, option.Proper) :
    ClosedPieces P (options.flatMap ColumnOption.pieces) := by
  induction options with
  | nil => exact closedPieces_nil
  | cons option options ih =>
      rw [List.forall_mem_cons] at h
      exact closedPieces_append (closedPieces_option hP h.1) (ih h.2)

lemma isGap_spaces (text : List Char) : IsGap (spaces text) := by
  intro c hc
  rw [List.eq_of_mem_replicate hc]
  decide

/-- A masked option writes what it shows. -/
lemma writes_shown_option (hoption : option.Proper) (h : Writes option.pieces text rest) :
    Writes option.shown (maskNested .script text) rest := by
  have hwords : ∀ piece ∈ option.shown, ∀ s, piece.Spelled s → IsWord s := fun _ hpiece =>
    (ordinary_of_mem_shown hoption hpiece).2
  cases option with
  | references table column =>
      obtain ⟨a, b, rfl, ha, hb⟩ := writes_append.mp h
      obtain ⟨g, u, g', rfl, hg, hg', hu⟩ := writes_parenthesized hb
      have hbody : Closed .script (fun _ => True) (g ++ u) :=
        (IsGap.closed hg fun _ _ => trivial).append
        (closedPieces_word holdsWords_true (fun _ => Piece.isWord_of_spelled_name hoption.2.isWord)
          closedPieces_nil u _ hu)
      have hmask : maskNested .script ('(' :: (g ++ (u ++ ')' :: g')))
          = spaces ('(' :: ((g ++ u) ++ [')'])) ++ g' := by
        have hbracket : maskNested .script ('(' :: ((g ++ u) ++ ')' :: g'))
            = spaces ('(' :: ((g ++ u) ++ [')'])) ++ maskNested .script g' :=
          maskNested_bracket (by decide) (by decide) hbody
        have hgap : maskNested .script (g' ++ []) = g' ++ [] :=
          maskNested_of_plain (fun c hc => isPlain_of_isBlank (hg' c hc)) []
        rw [List.append_nil] at hgap
        rw [← List.append_assoc, hbracket, hgap]
      rw [maskNested_of_words ha hwords, hmask]
      refine ha.append_gap (by simp) ?_ ?_
      · exact fun c hc => (List.mem_append.mp hc).elim (isGap_spaces _ c) (hg' c)
      · exact List.append_ne_nil_of_left_ne_nil (spaces_ne_nil _ _) _
  | notNull | primaryKey | unique =>
      have hmask := maskNested_of_words h hwords []
      rw [List.append_nil, maskNested_nil, List.append_nil] at hmask
      rw [hmask]
      exact h

/-- What follows a masked text begins with a word character only if the text did. -/
lemma stops_maskNested (h : Stops isWordChar (u ++ rest))
    (hrest : Stops isWordChar rest → Stops isWordChar rest') :
    Stops isWordChar (maskNested .script u ++ rest') := by
  cases u with
  | nil => exact hrest h
  | cons c u =>
      obtain ⟨m, hm | hm⟩ : ∃ m, maskNested .script (c :: u) = c :: m ∨
          maskNested .script (c :: u) = ' ' :: m := exists_maskNested_cons c u
      · rw [hm]
        simpa using h
      · rw [hm]
        simp
        decide

/-- Masked options write what they show. -/
lemma writes_shown (hoptions : ∀ option ∈ options, option.Proper)
    (h : Writes (options.flatMap ColumnOption.pieces) text rest)
    (hrest : Stops isWordChar rest → Stops isWordChar rest') :
    Writes (options.flatMap ColumnOption.shown) (maskNested .script text) rest' := by
  induction options generalizing text with
  | nil =>
      obtain rfl := h
      rfl
  | cons option options ih =>
      rw [List.forall_mem_cons] at hoptions
      rw [List.flatMap_cons] at h ⊢
      obtain ⟨u, v, rfl, hu, hv⟩ := writes_append.mp h
      rw [maskNested_append (closedPieces_option holdsWords_true hoptions.1 u _ hu)]
      refine writes_append.mpr ⟨_, _, rfl, ?_, ih hoptions.2 hv⟩
      exact (writes_shown_option hoptions.1 hu).congr_rest fun hstop =>
        stops_maskNested hstop hrest

/-! ### Flags -/

lemma ledBy_notNullForm : notNullForm.LedBy "NOT" :=
  ((ledBy_keywordBefore (by decide)).append _).append _

lemma ledBy_inlinePrimaryKeyForm : inlinePrimaryKeyForm.LedBy "PRIMARY" :=
  ((ledBy_keywordBefore (by decide)).append _).append _

lemma ledBy_inlineUniqueForm : inlineUniqueForm.LedBy "UNIQUE" :=
  ledBy_keyword_wordEdge (by decide)

lemma ledBy_inlineReferencesForm : inlineReferencesForm.LedBy "REFERENCES" :=
  ((((ledBy_keywordBefore (by decide)).append _).assoc.append _).assoc.append _).assoc

/-- A form takes a flag wherever the flag stands between words. -/
def TakesFlag (q : Pattern) (flag : ColumnOption) : Prop :=
  ∀ before text rest, Stops isWordChar before → Writes flag.shown text rest →
    ∃ u v, text = u ++ v ∧ q.Takes before u (v ++ rest) []

lemma takesFlag_of_two {K L : String} {flag : ColumnOption}
    (hflag : flag.shown = [.keyword K, .keyword L]) (hK : IsKeyword K.toList)
    (hL : IsKeyword L.toList) :
    TakesFlag (.wordEdge ++ keywordBefore K ++ keyword L ++ .wordEdge) flag := by
  intro before text rest hbefore h
  rw [hflag] at h
  obtain ⟨t, u, rfl, ht, s, g, _, rfl, hs, hg, hparted, rfl⟩ :=
    writes_spacedKeyword hK (fun _ => Piece.isWord_of_spelled_keyword hL) h
  have hword := Piece.isWord_of_spelled_keyword hL hs
  have hstop : Stops isWordChar (g ++ rest) := by simpa using hparted.stops hword
  refine ⟨t ++ s, g, by simp, ?_⟩
  simp only [takes_assoc]
  refine (takes_wordEdge_before hbefore (by simpa using ht.not_stops _)).after_nothing ?_
  refine (takes_keywordBefore ht (by simpa using hword.stops_isBlank _)).seq ?_
  exact (takes_keyword (Text.Cased.spells hs)).append_nothing (takes_wordEdge_behind hword hstop)

lemma takesFlag_unique : TakesFlag inlineUniqueForm .unique := by
  rintro before text rest hbefore ⟨s, g, _, rfl, hs, hg, hparted, rfl⟩
  have hK : IsKeyword "UNIQUE".toList := by decide
  have hword := Piece.isWord_of_spelled_keyword hK hs
  have hstop : Stops isWordChar (g ++ rest) := by simpa using hparted.stops hword
  refine ⟨s, g, by simp, ?_⟩
  simp only [inlineUniqueForm, takes_assoc]
  refine (takes_wordEdge_before hbefore (hword.not_stops _)).after_nothing ?_
  exact (takes_keyword (Text.Cased.spells hs)).append_nothing (takes_wordEdge_behind hword hstop)

/-- The options that do not show a keyword avoid it. -/
lemma avoids_of_mem_flatMap_shown {K : String} (hK : IsKeyword K.toList)
    (hreserved : K ∈ reservedWords) (hoptions : ∀ option ∈ options, option.Proper)
    (hnot : ∀ option ∈ options, .keyword K ∉ option.shown) :
    ∀ piece ∈ options.flatMap ColumnOption.shown, piece.Avoids K := by
  intro piece hpiece
  obtain ⟨option, hoption, hpiece⟩ := List.mem_flatMap.mp hpiece
  refine (ordinary_of_mem_shown (hoptions option hoption) hpiece).1.avoids hK hreserved ?_
  rintro rfl
  exact hnot option hoption hpiece

/-- Within options that do not show the keyword of a form, the form reads nothing. -/
lemma silent_shown {q : Pattern} {K : String} (hq : q.LedBy K) (hK : IsKeyword K.toList)
    (hreserved : K ∈ reservedWords) (hoptions : ∀ option ∈ options, option.Proper)
    (hnot : ∀ option ∈ options, .keyword K ∉ option.shown)
    (h : Writes (options.flatMap ColumnOption.shown) text rest) (hg : IsGap g) :
    Silent q before (g ++ text) rest :=
  silent_append.mpr ⟨hq.wordLed.silent_gap hg,
    h.silent hq (avoids_of_mem_flatMap_shown hK hreserved hoptions hnot)⟩

/-- No word goes on from options into the word behind them. -/
lemma stops_shown_reverse (h : Writes (options.flatMap ColumnOption.shown) text rest)
    (hrest : ¬ Stops isWordChar rest) (hg : IsGap g) : Stops isWordChar (g ++ text).reverse := by
  rw [List.reverse_append]
  exact (h.stops_reverse hrest).append fun c hc =>
    Text.not_isWordChar_of_isBlank (hg c (List.mem_reverse.mp (List.mem_of_mem_head? hc)))

/-- A form that takes a flag, and that the flag's own word leads, is found among options exactly
where the flag is one of them. -/
lemma occursIn_flag {q : Pattern} {K : String} {flag : ColumnOption} {ps : List Piece}
    (hq : q.LedBy K) (hK : IsKeyword K.toList) (hreserved : K ∈ reservedWords)
    (htakes : TakesFlag q flag) (hpieces : flag.shown = .keyword K :: ps)
    (hshown : ∀ option : ColumnOption, .keyword K ∈ option.shown ↔ option = flag)
    (hoptions : ∀ option ∈ options, option.Proper)
    (h : Writes (options.flatMap ColumnOption.shown) text []) (hg : IsGap g) :
    q.occursIn (g ++ text) = options.contains flag := by
  by_cases hmem : flag ∈ options
  · obtain ⟨l₁, l₂, rfl⟩ := List.append_of_mem hmem
    rw [List.flatMap_append, List.flatMap_cons] at h
    obtain ⟨a, b, rfl, ha, hb⟩ := writes_append.mp h
    obtain ⟨c, d, rfl, hc, -⟩ := writes_append.mp hb
    have hword : ¬ Stops isWordChar (c ++ d) :=
      (hpieces ▸ hc).not_stops (fun _ => Piece.isWord_of_spelled_keyword hK) d
    have hbefore := stops_shown_reverse ha (by simpa using hword) hg
    obtain ⟨u, v, rfl, hu⟩ := htakes _ c _ hbefore hc
    have hoccurs : q.occursIn ((g ++ a) ++ (u ++ (v ++ (d ++ [])))) = true :=
      occursIn_of_takes hu
    simpa using hoccurs
  · have hnot : ∀ option ∈ options, .keyword K ∉ option.shown := fun option hoption hshow =>
      hmem ((hshown option).mp hshow ▸ hoption)
    rw [not_occursIn (silent_shown hq hK hreserved hoptions hnot h hg) hq.wordLed.fails_nil]
    simp [hmem]

section Occurs

variable (hoptions : ∀ option ∈ options, option.Proper)
  (h : Writes (options.flatMap ColumnOption.shown) text []) (hg : IsGap g)

include hoptions h hg

lemma occursIn_notNullForm : notNullForm.occursIn (g ++ text) = options.contains .notNull := by
  refine occursIn_flag ledBy_notNullForm (by decide) (by decide)
    (takesFlag_of_two rfl (by decide) (by decide)) rfl (fun option => ?_) hoptions h hg
  cases option <;> simp [ColumnOption.shown, ColumnOption.pieces, Piece.name]

lemma occursIn_inlinePrimaryKeyForm :
    inlinePrimaryKeyForm.occursIn (g ++ text) = options.contains .primaryKey := by
  refine occursIn_flag ledBy_inlinePrimaryKeyForm (by decide) (by decide)
    (takesFlag_of_two rfl (by decide) (by decide)) rfl (fun option => ?_) hoptions h hg
  cases option <;> simp [ColumnOption.shown, ColumnOption.pieces, Piece.name]

lemma occursIn_inlineUniqueForm :
    inlineUniqueForm.occursIn (g ++ text) = options.contains .unique := by
  refine occursIn_flag ledBy_inlineUniqueForm (by decide) (by decide) takesFlag_unique rfl
    (fun option => ?_) hoptions h hg
  cases option <;> simp [ColumnOption.shown, ColumnOption.pieces, Piece.name]

end Occurs

/-! ### The foreign key of a column -/

lemma maskNested_gap (hg : IsGap g) (v : List Char) :
    maskNested .script (g ++ v) = g ++ maskNested .script v :=
  maskNested_of_plain (fun c hc => isPlain_of_isBlank (hg c hc)) v

/-- The form of a foreign key among options takes the keyword, the table and the columns. -/
lemma takes_inlineReferencesForm {table : List Char} (ht : SpacedKeyword "REFERENCES" t)
    (htable : IsWord table) (hg : IsGap g) (hu : ∀ c ∈ u, c ≠ ')') :
    inlineReferencesForm.Takes [] (t ++ (table ++ (g ++ ('(' :: (u ++ [')']))))) rest
      ([(2, u)] ++ [(1, table)]) := by
  refine (takes_wordEdge_before (by simp) ?_).after_nothing ?_
  · rw [List.append_assoc]
    exact ht.not_stops _
  · exact takes_referencesForm_listed 1 ht (WrittenName.plain_proper htable) hg hu

/-- Where the columns are masked, it takes the keyword and the table. -/
lemma takes_inlineReferencesForm_shown {table column : String} (htable : IsName table)
    (h : Writes (ColumnOption.references table column).shown text rest)
    (hrest : ∀ p : Char → Bool, (∀ c, isWordChar c = true → p c = false) → Stops p rest)
    (hbefore : Stops isWordChar before) :
    inlineReferencesForm.Takes before text rest [(1, table.toList)] := by
  have hsign : ∀ c : Char, isWordChar c = false → Stops (· == c) rest := fun c hc =>
    hrest (· == c) fun _ => Text.beq_of_isWordChar hc
  obtain ⟨t, u, rfl, ht, hu⟩ := writes_spacedKeyword (by decide)
    (fun _ => Piece.isWord_of_spelled_name htable.isWord) h
  obtain ⟨_, g, _, rfl, rfl, hg, hparted, rfl⟩ := hu
  have hstop : Stops isWordChar (g ++ rest) := by simpa using hparted.stops htable.isWord
  have hname : Stops isNameChar (g ++ rest) := by
    cases g with
    | cons => exact stops_isNameChar_gap hg (by simp)
    | nil =>
        intro c hc
        have hword : isWordChar c = false := hstop c hc
        have hdollar : (c == '$') = false := hsign '$' (by decide) c hc
        simp [isNameChar, hword, hdollar]
  rw [List.append_nil]
  refine (takes_wordEdge_before hbefore ?_).after_nothing ?_
  · rw [List.append_assoc]
    exact ht.not_stops _
  · refine takes_referencesForm_unlisted 1 ht (WrittenName.plain_proper htable.isWord) hg ?_ ?_ ?_
      fun _ => hname
    · exact hrest isBlank fun _ => Text.not_isBlank_of_isWordChar
    · exact hsign '.' (by decide)
    · exact hsign '(' (by decide)

lemma not_mem_shown_of_target? (hnone : ∀ option ∈ options, option.target? = none) :
    ∀ option ∈ options, .keyword "REFERENCES" ∉ option.shown := by
  intro option hoption
  have htarget := hnone option hoption
  cases option with
  | references => simp [ColumnOption.target?] at htarget
  | notNull | primaryKey | unique => simp [ColumnOption.shown, ColumnOption.pieces]

/-- Where the options point at nothing, no foreign key is found. -/
lemma find?_inlineReferencesForm_eq_none (hoptions : ∀ option ∈ options, option.Proper)
    (h : Writes (options.flatMap ColumnOption.shown) text []) (hg : IsGap g)
    (hnone : ∀ option ∈ options, option.target? = none) :
    inlineReferencesForm.find? (g ++ text) = none :=
  find?_eq_none (silent_shown ledBy_inlineReferencesForm (by decide) (by decide) hoptions
    (not_mem_shown_of_target? hnone) h hg) ledBy_inlineReferencesForm.wordLed.fails_nil

/-- An option that points at a column is read as a foreign key, if none of those before it does. -/
lemma inlineForeignKey?_of_options (name : String) {l₁ l₂ : List ColumnOption}
    {table column : String} {a c d : List Char} (hfirst : ∀ option ∈ l₁, option.Proper)
    (hnone : ∀ option ∈ l₁, option.target? = none) (htable : IsName table) (hcolumn : IsName column)
    (hlast : ∀ option ∈ l₂, option.Proper)
    (ha : Writes (l₁.flatMap ColumnOption.pieces) a (c ++ d))
    (hc : Writes (ColumnOption.references table column).pieces c d)
    (hd : Writes (l₂.flatMap ColumnOption.pieces) d []) (hg : IsGap g) :
    inlineForeignKey? name (g ++ (a ++ (c ++ d))) (maskNested .script (g ++ (a ++ (c ++ d))))
      = some ⟨[name], table, some [column]⟩ := by
  have hreferences : (ColumnOption.references table column).Proper := ⟨htable, hcolumn⟩
  have hkeyword : ∀ s, (Piece.keyword "REFERENCES").Spelled s → IsWord s := fun _ =>
    Piece.isWord_of_spelled_keyword (by decide)
  have hclosed : Closed .script (fun _ => True) (g ++ a) :=
    (IsGap.closed hg fun _ _ => trivial).append
      (closedPieces_options holdsWords_true hfirst a _ ha)
  -- what the mask leaves of the options before the foreign key, of it and behind it
  have hrest := writes_shown hlast hd id
  have hshown : Writes (ColumnOption.references table column).shown (maskNested .script c)
      (maskNested .script d) := (writes_shown_option hreferences hc).congr_rest fun hstop => by
    simpa using stops_maskNested (show Stops isWordChar (d ++ []) by simpa using hstop) id
  have hbefore : Writes (l₁.flatMap ColumnOption.shown) (maskNested .script a)
      (maskNested .script c ++ maskNested .script d) :=
    writes_shown hfirst ha fun hstop => absurd hstop (hc.not_stops hkeyword d)
  have hmask : maskNested .script (c ++ d) = maskNested .script c ++ maskNested .script d :=
    maskNested_append (closedPieces_option holdsWords_true hreferences c _ hc) d
  have hsilent : Silent inlineReferencesForm [] (maskNested .script (g ++ a))
      (maskNested .script c ++ maskNested .script d) := by
    rw [maskNested_gap hg]
    exact silent_shown ledBy_inlineReferencesForm (by decide) (by decide) hfirst
      (not_mem_shown_of_target? hnone) hbefore hg
  have hedge : Stops isWordChar (maskNested .script (g ++ a)).reverse := by
    rw [maskNested_gap hg]
    exact stops_shown_reverse hbefore (hshown.not_stops hkeyword _) hg
  have htakes := takes_inlineReferencesForm_shown htable hshown
    (fun p hp => hrest.stops (fun piece => isWord_of_mem_flatMap_shown hlast) hp) hedge
  obtain ⟨t, g₁, list, g₂, rfl, ht, hg₁, hg₂, hlist⟩ := exists_references_text htable
    (show ∀ name ∈ [column], IsName name by simpa using hcolumn) hc
  have hfound : inlineReferencesForm.Takes []
      (t ++ (table.toList ++ (g₁ ++ ('(' :: (list ++ [')']))))) (g₂ ++ d)
        ([(2, list)] ++ [(1, table.toList)]) :=
    takes_inlineReferencesForm ht htable.isWord hg₁ hlist.ne_closing
  have hassoc : t ++ (table.toList ++ (g₁ ++ ('(' :: (list ++ [')'])))) ++ (g₂ ++ d)
      = t ++ (table.toList ++ (g₁ ++ '(' :: (list ++ ')' :: g₂))) ++ d := by simp
  have hread := inlineForeignKey?_of_takes name hclosed hsilent (by rw [hassoc, hmask])
    htakes hfound
  rw [hassoc, List.append_assoc g] at hread
  rw [hread]
  simp [List.lookup_cons, nameOf_plain htable.isWord, hlist.namesOf_eq]

/-- The first option that points at a column is read as the foreign key of its column. -/
theorem inlineForeignKey?_of_writes (name : String) (hoptions : ∀ option ∈ options, option.Proper)
    (h : Writes (options.flatMap ColumnOption.pieces) text []) (hg : IsGap g) :
    inlineForeignKey? name (g ++ text) (maskNested .script (g ++ text))
      = (options.findSome? ColumnOption.target?).map fun target =>
          ⟨[name], target.table, some [target.column]⟩ := by
  cases htarget : options.findSome? ColumnOption.target? with
  | none =>
      rw [List.findSome?_eq_none_iff] at htarget
      have hmask := maskNested_gap hg text
      have hfind := find?_inlineReferencesForm_eq_none hoptions (writes_shown hoptions h id) hg
        htarget
      rw [inlineForeignKey?_eq_none (by rw [hmask, hfind]), Option.map_none]
  | some target =>
      obtain ⟨l₁, option, l₂, rfl, hoption, hl₁⟩ := List.findSome?_eq_some_iff.mp htarget
      obtain ⟨table, column, rfl⟩ : ∃ table column, option = .references table column := by
        cases option with
        | references table column => exact ⟨table, column, rfl⟩
        | notNull | primaryKey | unique => simp [ColumnOption.target?] at hoption
      obtain rfl : Reference.mk table column = target := Option.some.inj hoption
      simp only [List.forall_mem_append, List.forall_mem_cons] at hoptions
      obtain ⟨hfirst, ⟨htable, hcolumn⟩, hlast⟩ := hoptions
      rw [List.flatMap_append, List.flatMap_cons] at h
      obtain ⟨a, b, rfl, ha, hb⟩ := writes_append.mp h
      obtain ⟨c, d, rfl, hc, hd⟩ := writes_append.mp hb
      exact inlineForeignKey?_of_options name hfirst hl₁ htable hcolumn hlast (by simpa using ha)
        (by simpa using hc) hd hg

end SchemaReader.Ddl
