/-
What a spelled foreign key shows when brackets and literals are blanked out.

* `WrittenName.masked`: a written name with its quoted parts blanked out;
* `silent_text`, `silent_masked`: a form that goes on behind a keyword reads nothing within a
  written name, nor within a masked one;
* `occursIn_inlineUniqueForm_masked`: the word for a unique column is found where a plain part of
  the name spells it;
* `inlineForeignKey?_references`: the key is read from the options of its column exactly where the
  name begins with a plain part.
-/
import SchemaReader.Proofs.Ddl.Options
import SchemaReader.Proofs.Ddl.Spelling

namespace SchemaReader

open Text (IsWord IsGap IsKeyword Spells Stops isWordChar isBlank)

/-! ### Masked names -/

/-- A name as it is masked: as it stands if it is plain, and else as spaces. -/
def Quoting.masked (quoting : Quoting) (name : List Char) : List Char :=
  match quoting with
  | .plain => name
  | _ => spaces (quoting.around name)

namespace Ddl

open Pattern

/-- A written name with each of its parts in a form that its quoting gives. -/
def WrittenName.render (name : WrittenName) (part : Quoting → List Char → List Char) : List Char :=
  match name.qualifier with
  | none => part name.quoting name.name
  | some (quoting, qualifier, g, h) =>
      part quoting qualifier ++ (g ++ '.' :: (h ++ part name.quoting name.name))

/-- A written name as it is masked. -/
def WrittenName.masked (name : WrittenName) : List Char := name.render Quoting.masked

lemma WrittenName.text_eq (name : WrittenName) : name.text = name.render Quoting.around := by
  obtain ⟨qualifier, quoting, name⟩ := name
  cases qualifier <;> rfl

/-- The first part of a written name is plain. -/
def WrittenName.OpensPlain (name : WrittenName) : Prop :=
  match name.qualifier with
  | none => name.quoting = .plain
  | some (quoting, _) => quoting = .plain

instance (name : WrittenName) : Decidable name.OpensPlain := by
  unfold WrittenName.OpensPlain
  split <;> infer_instance

/-- The parts of a written name, each with its quoting. -/
def WrittenName.parts (name : WrittenName) : List (Quoting × List Char) :=
  (name.qualifier.toList.map fun q => (q.1, q.2.1)) ++ [(name.quoting, name.name)]

/-- A plain part of a written name spells a keyword. -/
def WrittenName.Shows (name : WrittenName) (K : String) : Prop :=
  ∃ part ∈ name.parts, part.1 = .plain ∧ Spells K.toList part.2

instance (name : WrittenName) (K : String) : Decidable (name.Shows K) :=
  inferInstanceAs (Decidable (∃ part ∈ name.parts, part.1 = .plain ∧ Spells K.toList part.2))

variable {key : SpelledKey} {R : WrittenName} {quoting : Quoting} {dialect : Dialect}
  {q b : Pattern} {K : String} {before w g u v rest : List Char}

lemma maskNested_around (hw : IsWord w) (rest : List Char) :
    maskNested dialect (quoting.around w ++ rest)
      = quoting.masked w ++ maskNested dialect rest := by
  have hne : ∀ d, isWordChar d = false → ∀ c ∈ w, dialect.Keeps d c := fun d hd c hc =>
    keeps_of_isWordChar (hw.chars c hc) hd
  cases quoting with
  | plain => exact maskNested_of_plain (fun c hc => isPlain_of_isWordChar (hw.chars c hc)) rest
  | double =>
      have hmask : maskNested dialect ('"' :: (w ++ '"' :: rest))
          = spaces ('"' :: (w ++ ['"'])) ++ maskNested dialect rest :=
        maskNested_literal (by decide) (hne _ (by decide))
      simpa [Quoting.around, Quoting.marks?, Quoting.masked] using hmask
  | back =>
      have hmask : maskNested dialect (Char.ofNat 0x60 :: (w ++ Char.ofNat 0x60 :: rest))
          = spaces (Char.ofNat 0x60 :: (w ++ [Char.ofNat 0x60])) ++ maskNested dialect rest :=
        maskNested_literal (by decide) (hne _ (by decide))
      simpa [Quoting.around, Quoting.marks?, Quoting.masked] using hmask
  | square =>
      have hclosed : Closed dialect (fun _ => True) w := IsWord.closed hw fun _ _ => trivial
      have hmask : maskNested dialect ('[' :: (w ++ ']' :: rest))
          = spaces ('[' :: (w ++ [']'])) ++ maskNested dialect rest :=
        maskNested_bracket (by decide) (by decide) hclosed
      simpa [Quoting.around, Quoting.marks?, Quoting.masked] using hmask

lemma maskNested_text (hR : R.Proper) (rest : List Char) :
    maskNested .script (R.text ++ rest) = R.masked ++ maskNested .script rest := by
  obtain ⟨qualifier, quoting, name⟩ := R
  cases qualifier with
  | none => exact maskNested_around hR.isWord rest
  | some qualifier =>
      obtain ⟨quoting', w, g, h⟩ := qualifier
      obtain ⟨hw, hg, hh⟩ := hR.qualifier _ rfl
      simp only [WrittenName.text, WrittenName.masked, WrittenName.render, List.append_assoc,
        List.cons_append]
      rw [maskNested_around hw, maskNested_gap hg, maskNested_cons (by decide), maskNested_gap hh,
        maskNested_around hR.isWord]

/-- A masked key shows its first word and what its table shows. -/
lemma maskNested_references (h : key.Proper) : maskNested .script key.references
    = "REFERENCES ".toList ++ (key.target.masked ++ spaces key.list) := by
  have hlist : maskNested .script key.list = spaces key.list := by
    obtain ⟨table, column, type, target, targetColumn⟩ := key
    cases targetColumn with
    | none => rfl
    | some c =>
        obtain ⟨quoting, c⟩ := c
        have hclosed : Closed .script (fun _ => True) (quoting.around c) :=
          closed_around (h.targetColumn _ rfl) fun _ _ => trivial
        have hmask : maskNested .script ('(' :: (quoting.around c ++ ')' :: []))
            = spaces ('(' :: (quoting.around c ++ [')'])) ++ maskNested .script [] :=
          maskNested_bracket (by decide) (by decide) hclosed
        simpa [SpelledKey.list, maskNested_nil] using hmask
  have hplain : ∀ c ∈ "REFERENCES ".toList, isPlain c = true := by decide
  rw [key.references_eq, maskNested_of_plain hplain, maskNested_text h.target, hlist]

/-! ### Patterns that read nothing in a name -/

lemma not_isWordChar_period : isWordChar '.' = false := by decide

lemma isWord_of_mem_parts (hR : R.Proper) {part : Quoting × List Char} (h : part ∈ R.parts) :
    IsWord part.2 := by
  rcases List.mem_append.mp h with h | h
  · obtain ⟨qualifier, hqualifier, rfl⟩ := List.mem_map.mp h
    exact (hR.qualifier _ (Option.mem_toList.mp hqualifier)).1
  · rw [List.mem_singleton.mp h]
    exact hR.isWord

/-- A pattern reads nothing within a name if it reads nothing within its parts, whatever may follow
a part. -/
lemma silent_render (hq : q.WordLed) (hR : R.Proper)
    {render : Quoting → List Char → List Char} {Ends : List Char → Prop}
    (hends : ∀ g v, IsGap g → Ends (g ++ '.' :: v))
    (hparts : ∀ part ∈ R.parts, ∀ before rest, Ends rest →
      Silent q before (render part.1 part.2) rest)
    (hrest : Ends rest) : Silent q before (R.render render) rest := by
  obtain ⟨qualifier, quoting, name⟩ := R
  have hname := hparts (quoting, name) (by simp [WrittenName.parts])
  cases qualifier with
  | none => exact hname before rest hrest
  | some qualifier =>
      obtain ⟨quoting', w, g, h⟩ := qualifier
      obtain ⟨-, hg, hh⟩ := hR.qualifier _ rfl
      have hqualifier := hparts (quoting', w) (by simp [WrittenName.parts])
      refine silent_append.mpr ⟨?_, silent_append.mpr ⟨hq.silent_gap hg, ?_⟩⟩
      · rw [List.append_assoc, List.cons_append]
        exact hqualifier before _ (hends g _ hg)
      · refine ⟨hq _ _ (by simp [not_isWordChar_period]), silent_append.mpr ⟨hq.silent_gap hh, ?_⟩⟩
        exact hname _ rest hrest

section KeywordThen

variable (hq : KeywordThen q K b) (hR : R.Proper) (hdot : ∀ before v, b.Fails before ('.' :: v))

include hq hR hdot

/-- A form that goes on behind a keyword reads nothing within a written name. -/
lemma silent_text (hrest : Blocks b rest) : Silent q before R.text rest := by
  rw [R.text_eq]
  refine silent_render hq.wordLed hR (fun g v hg => ?_) (fun part hpart before rest hrest => ?_)
    hrest
  · exact blocks_gap hg (by simp; decide) (by simp [not_isWordChar_period]) fun _ => hdot _ _
  obtain ⟨quoting, w⟩ := part
  have hw : IsWord w := isWord_of_mem_parts hR hpart
  -- a quoted word has its mark behind it
  have hmarked : ∀ o c, isWordChar o = false → isWordChar c = false → isBlank c = false →
      Silent q before (o :: (w ++ [c])) rest := by
    intro o c ho hc hblank
    refine ⟨hq.wordLed _ _ (by simp [ho]), silent_append.mpr ⟨?_, ?_⟩⟩
    · exact hq.silent_word hw (blocks_of_stops (by simpa using hblank) (by simpa using hc))
    · exact hq.wordLed.silent_outside (by simpa using hc)
  cases quoting with
  | plain => exact hq.silent_word hw hrest
  | double => exact hmarked _ _ (by decide) (by decide) (by decide)
  | back => exact hmarked _ _ (by decide) (by decide) (by decide)
  | square => exact hmarked _ _ (by decide) (by decide) (by decide)

/-- Neither does it within a masked one. -/
lemma silent_masked (hrest : Blocks b rest) : Silent q before R.masked rest := by
  refine silent_render hq.wordLed hR (fun g v hg => ?_) (fun part hpart before rest hrest => ?_)
    hrest
  · exact blocks_gap hg (by simp; decide) (by simp [not_isWordChar_period]) fun _ => hdot _ _
  obtain ⟨quoting, w⟩ := part
  cases quoting with
  | plain => exact hq.silent_word (isWord_of_mem_parts hR hpart) hrest
  | _ => exact hq.wordLed.silent_gap (isGap_spaces _)

end KeywordThen

/-! ### Flags -/

/-- The options of a column with a key, masked. -/
lemma maskNested_options (h : key.Proper) : maskNested .script (' ' :: key.references)
    = ' ' :: ("REFERENCES ".toList ++ (key.target.masked ++ spaces key.list)) := by
  rw [maskNested_cons (by decide), maskNested_references h]

lemma spacedKeyword_references : SpacedKeyword "REFERENCES" "REFERENCES ".toList :=
  spacedKeyword_space (by decide) rfl

/-- An option of two words is not found in a key. -/
lemma not_occursIn_masked (h : key.Proper) (hq : KeywordThen q K b) (hne : K ≠ "REFERENCES")
    (hdot : ∀ before v, b.Fails before ('.' :: v)) (hend : ∀ before, b.Fails before []) :
    q.occursIn (maskNested .script (' ' :: key.references)) = false := by
  have hgap := isGap_spaces key.list
  have hblocks : Blocks b (spaces key.list ++ []) :=
    blocks_gap hgap Text.stops_nil Text.stops_nil hend
  rw [maskNested_options h]
  refine not_occursIn ?_ hq.wordLed.fails_nil
  refine ⟨hq.wordLed _ _ (by simp; decide), silent_append.mpr ⟨?_, silent_append.mpr ⟨?_, ?_⟩⟩⟩
  · exact hq.silent_keyword spacedKeyword_references hne
  · exact silent_masked hq h.target hdot hblocks
  · exact hq.wordLed.silent_gap hgap

lemma keywordThen_notNullForm : KeywordThen notNullForm "NOT" (keyword "NULL" ++ .wordEdge) where
  isKeyword := by decide
  avoidsBlanks := by decide
  fails before text h := by simpa only [notNullForm, fails_assoc] using h

lemma keywordThen_inlinePrimaryKeyForm :
    KeywordThen inlinePrimaryKeyForm "PRIMARY" (keyword "KEY" ++ .wordEdge) where
  isKeyword := by decide
  avoidsBlanks := by decide
  fails before text h := by simpa only [inlinePrimaryKeyForm, fails_assoc] using h

lemma not_occursIn_notNullForm (h : key.Proper) :
    notNullForm.occursIn (maskNested .script (' ' :: key.references)) = false :=
  not_occursIn_masked h keywordThen_notNullForm (by decide)
    (fun _ _ => fails_of_not_mayBegin rfl (by decide)) fun _ => fails_nil rfl

lemma not_occursIn_inlinePrimaryKeyForm (h : key.Proper) :
    inlinePrimaryKeyForm.occursIn (maskNested .script (' ' :: key.references)) = false :=
  not_occursIn_masked h keywordThen_inlinePrimaryKeyForm (by decide)
    (fun _ _ => fails_of_not_mayBegin rfl (by decide)) fun _ => fails_nil rfl

/-- A part of a masked name, with what stands before and behind it. -/
lemma exists_masked_part (hR : R.Proper) {part : Quoting × List Char} (hpart : part ∈ R.parts) :
    ∃ u v, R.masked = u ++ (part.1.masked part.2 ++ v) ∧ Stops isWordChar u.reverse ∧
      ∀ rest, Stops isWordChar rest → Stops isWordChar (v ++ rest) := by
  obtain ⟨qualifier, quoting, name⟩ := R
  cases qualifier with
  | none =>
      obtain rfl : part = (quoting, name) := List.mem_singleton.mp hpart
      exact ⟨[], [], by simp [WrittenName.masked, WrittenName.render], by simp, fun _ => id⟩
  | some qualifier =>
      obtain ⟨quoting', w, g, h⟩ := qualifier
      obtain ⟨-, hg, hh⟩ := hR.qualifier _ rfl
      have hblank : ∀ c, isBlank c = true → isWordChar c = false := fun _ =>
        Text.not_isWordChar_of_isBlank
      rcases List.mem_pair.mp hpart with rfl | rfl
      · refine ⟨[], g ++ '.' :: (h ++ quoting.masked name), rfl, by simp, fun rest _ => ?_⟩
        rw [List.append_assoc]
        exact hg.stops hblank (by simp [not_isWordChar_period])
      · refine ⟨quoting'.masked w ++ (g ++ '.' :: h), [], ?_, ?_, fun _ => id⟩
        · simp [WrittenName.masked, WrittenName.render]
        · have hreverse : (quoting'.masked w ++ (g ++ '.' :: h)).reverse
              = h.reverse ++ '.' :: (g.reverse ++ (quoting'.masked w).reverse) := by simp
          have hgap : IsGap h.reverse := fun c hc => hh c (List.mem_reverse.mp hc)
          rw [hreverse]
          exact hgap.stops hblank (by simp [not_isWordChar_period])

/-- The word for a unique column is not found in a masked name of which no plain part spells it. -/
lemma silent_inlineUniqueForm_masked (hR : R.Proper) (hnot : ¬ R.Shows "UNIQUE")
    (hrest : Stops isWordChar rest) : Silent inlineUniqueForm before R.masked rest := by
  have hled := ledBy_inlineUniqueForm
  refine silent_render hled.wordLed hR (fun g v hg => ?_) (fun part hpart before rest hrest => ?_)
    hrest
  · exact hg.stops (fun _ => Text.not_isWordChar_of_isBlank) (by simp [not_isWordChar_period])
  obtain ⟨quoting, w⟩ := part
  cases quoting with
  | plain =>
      exact hled.silent_word (isWord_of_mem_parts hR hpart) hrest
        fun hspells => hnot ⟨_, hpart, rfl, hspells⟩
  | _ => exact hled.wordLed.silent_gap (isGap_spaces _)

/-- Nor is it in the keyword for the target. -/
lemma silent_inlineUniqueForm_references :
    Silent inlineUniqueForm before ("REFERENCES".toList ++ [' ']) rest := by
  have hled := ledBy_inlineUniqueForm
  have hR : IsKeyword "REFERENCES".toList := by decide
  have hspelled : Spells "REFERENCES".toList "REFERENCES".toList := hR.cased.spells
  refine silent_append.mpr ⟨?_, hled.wordLed.silent_gap (by decide)⟩
  refine hled.silent_word (hspelled.isWord hR) (by simp; decide) fun hspells => ?_
  exact absurd (hspells.unique (by decide) hR hspelled) (by decide)

/-- The word for a unique column is found where a plain part of the name spells it. -/
lemma occursIn_inlineUniqueForm_masked (h : key.Proper) :
    inlineUniqueForm.occursIn (maskNested .script (' ' :: key.references)) = true
      ↔ key.target.Shows "UNIQUE" := by
  have hgap := isGap_spaces key.list
  have hspaces : Stops isWordChar (spaces key.list) := by
    simpa using hgap.stops (fun _ => Text.not_isWordChar_of_isBlank) Text.stops_nil
  rw [maskNested_options h]
  constructor
  · intro hoccurs
    by_contra hnot
    have hled := ledBy_inlineUniqueForm
    have hsilent : Silent inlineUniqueForm [] (' ' :: ("REFERENCES ".toList ++
        (key.target.masked ++ spaces key.list))) [] := by
      refine ⟨hled.wordLed _ _ (by simp; decide),
        silent_append.mpr ⟨?_, silent_append.mpr ⟨?_, ?_⟩⟩⟩
      · exact silent_inlineUniqueForm_references
      · exact silent_inlineUniqueForm_masked h.target hnot (by simpa using hspaces)
      · exact hled.wordLed.silent_gap hgap
    rw [not_occursIn hsilent hled.wordLed.fails_nil] at hoccurs
    exact Bool.false_ne_true hoccurs
  · rintro ⟨⟨quoting, w⟩, hpart, rfl, hspells⟩
    obtain ⟨u, v, hmasked, hbefore, hbehind⟩ := exists_masked_part h.target hpart
    have hw : IsWord w := isWord_of_mem_parts h.target hpart
    have hrest : Stops isWordChar (v ++ spaces key.list) := hbehind _ hspaces
    have hreverse : "REFERENCES ".toList.reverse = ' ' :: "REFERENCES".toList.reverse := by decide
    have hblank : Stops isWordChar (u.reverse ++ ("REFERENCES ".toList.reverse ++ [' '])) := by
      rw [hreverse]
      exact hbefore.append (by simp; decide)
    have htakes : inlineUniqueForm.Takes (' ' :: ("REFERENCES ".toList ++ u)).reverse w
        (v ++ spaces key.list) [] := by
      simp only [inlineUniqueForm, takes_assoc]
      refine (takes_wordEdge_before (by simpa using hblank) (hw.not_stops _)).after_nothing ?_
      exact (takes_keyword hspells).append_nothing (takes_wordEdge_behind hw hrest)
    have hoccurs := occursIn_of_takes htakes
    rw [hmasked]
    simpa [Quoting.masked] using hoccurs

/-! ### The key of a column -/

lemma keywordThen_inlineReferencesForm : KeywordThen inlineReferencesForm "REFERENCES"
    (.group 1 identifier ++ (blanks ++ opt (inParens 2))) where
  isKeyword := by decide
  avoidsBlanks := by decide
  fails before text h := by
    rw [fails_wordEdge_append] at h
    rw [inlineReferencesForm, fails_wordEdge_append]
    simpa only [referencesForm, fails_assoc] using h

/-- A plain qualifier is taken for the name where the name itself is blanked out. -/
lemma takes_qualifier {h : List Char} (hw : IsWord w) (hg : IsGap g) (hh : IsGap h) :
    identifier.Takes before w (g ++ '.' :: h) [] := by
  have hname : Stops isNameChar (g ++ '.' :: h) := by
    refine hg.stops (fun _ => Text.not_isNameChar_of_isBlank) ?_
    simp [isNameChar]
    decide
  have hpart : namePart.Takes before w (g ++ '.' :: h) [] := by
    have hplain : namePart.Takes before (Quoting.plain.around w) (g ++ '.' :: h) [] :=
      takes_namePart hw fun _ => hname
    exact hplain
  refine hpart.append_nothing (takes_opt_skip ?_)
  simp only [fails_assoc]
  refine fails_blanks_append (by decide) hg (by simp; decide) ?_
  rw [char, fails_one_append_cons]
  intro _
  have hend : (blanks ++ namePart).Fails ('.' :: (g.reverse ++ (w.reverse ++ before))) (h ++ []) :=
    fails_blanks_append (by decide) hh Text.stops_nil (fails_nil rfl)
  simpa using hend

/-- Masked, a key that begins with a plain part is still taken for a key. -/
lemma exists_takes_masked (hR : R.Proper) (hplain : R.OpensPlain) (hg : IsGap g) :
    ∃ x y caught, "REFERENCES ".toList ++ (R.masked ++ g) = x ++ y ∧
      inlineReferencesForm.Takes [' '] x y caught := by
  have hform : ∀ {x y caught}, (referencesForm 1).Takes [' '] ("REFERENCES ".toList ++ x) y caught →
      inlineReferencesForm.Takes [' '] ("REFERENCES ".toList ++ x) y caught := by
    intro x y caught htakes
    refine (takes_wordEdge_before (by simp; decide) ?_).after_nothing htakes
    rw [List.append_assoc]
    exact spacedKeyword_references.not_stops _
  obtain ⟨qualifier, quoting, name⟩ := R
  cases qualifier with
  | none =>
      obtain rfl : quoting = .plain := hplain
      refine ⟨_, [], _, (List.append_nil _).symm, hform (takes_referencesForm_unlisted 1
        spacedKeyword_references hR hg (by simp) (by simp) (by simp) fun _ => ?_)⟩
      exact hg.stops (fun _ => Text.not_isNameChar_of_isBlank) (by simp)
  | some qualifier =>
      obtain ⟨quoting', w, g', h'⟩ := qualifier
      obtain rfl : quoting' = .plain := hplain
      obtain ⟨hw, hg', hh'⟩ := hR.qualifier _ rfl
      by_cases hquoting : quoting = .plain
      · subst hquoting
        refine ⟨_, [], _, (List.append_nil _).symm, hform (takes_referencesForm_unlisted 1
          spacedKeyword_references hR hg (by simp) (by simp) (by simp) fun _ => ?_)⟩
        exact hg.stops (fun _ => Text.not_isNameChar_of_isBlank) (by simp)
      · -- the name is blanked out, and only the qualifier is taken
        have hmasked : IsGap (quoting.masked name) := by
          cases quoting with
          | plain => exact absurd rfl hquoting
          | _ => exact isGap_spaces _
        have hend : IsGap (h' ++ (quoting.masked name ++ g)) := fun c hc => by
          simp only [List.mem_append] at hc
          exact hc.elim (hh' c) fun hc => hc.elim (hmasked c) (hg c)
        refine ⟨"REFERENCES ".toList ++ (w ++ g'), '.' :: (h' ++ (quoting.masked name ++ g)),
          [(1, w)], by simp [WrittenName.masked, WrittenName.render, Quoting.masked], hform ?_⟩
        simp only [referencesForm, takes_assoc]
        refine (takes_keywordBefore spacedKeyword_references ?_).seq ?_
        · rw [List.append_assoc]
          exact hw.stops_isBlank _
        refine ((takes_qualifier hw hg' hend).group 1).seq_last ?_
        refine (takes_blanks hg' (by simp; decide)).append_nothing (takes_opt_skip ?_)
        exact fails_of_not_mayBegin rfl (by decide)

/-- A key whose name begins with a plain part is read from the options of its column. -/
theorem inlineForeignKey?_references (h : key.Proper) (hplain : key.target.OpensPlain) :
    inlineForeignKey? (String.ofList key.column) (' ' :: key.references)
      (maskNested .script (' ' :: key.references)) = some key.foreignKey := by
  obtain ⟨x, y, shown, hmask, hshown⟩ :=
    exists_takes_masked h.target hplain (isGap_spaces key.list)
  have hspace : maskNested .script [' '] = [' '] := rfl
  have hclosed : Closed .script (fun _ => True) [' '] := .plain (by decide) trivial
  have hsilent : Silent inlineReferencesForm [] (maskNested .script [' ']) (x ++ y) :=
    ledBy_inlineReferencesForm.wordLed.silent_gap (by decide)
  have htakes : inlineReferencesForm.Takes [] key.references [] (key.captures 1) := by
    refine (takes_wordEdge_before (by simp) ?_).after_nothing
      (takes_references h (fun c hc => by simp at hc) 1)
    rw [key.references_eq, List.append_assoc]
    exact spacedKeyword_references.not_stops _
  have hread := inlineForeignKey?_of_takes (String.ofList key.column) hclosed hsilent
    (by rw [List.append_nil, maskNested_references h, hmask]) hshown htakes
  simp only [List.append_nil, List.singleton_append] at hread
  rw [hread]
  have hkey : ForeignKey.ofMatch [String.ofList key.column] 1
      ⟨⟨[], [], 0⟩, ⟨[], [], 0⟩, key.captures 1⟩ = key.foreignKey :=
    ofMatch_captures h (List.append_nil _).symm rfl
  exact congrArg some hkey

/-- What a name that begins with a quoted part shows: blanks, up to the period behind a
qualifier. -/
lemma blocks_masked (hR : R.Proper) (hquoted : ¬ R.OpensPlain) (hg : IsGap g)
    (hdot : ∀ before v, b.Fails before ('.' :: v)) (hend : ∀ before, b.Fails before []) :
    Blocks b (' ' :: (R.masked ++ g)) := by
  have hmasked : ∀ (quoting : Quoting) (w : List Char), quoting ≠ .plain →
      IsGap (' ' :: quoting.masked w) := by
    intro quoting w hne
    have hspaces : IsGap (' ' :: spaces (quoting.around w)) :=
      List.forall_mem_cons.mpr ⟨by decide, isGap_spaces _⟩
    cases quoting with
    | plain => exact absurd rfl hne
    | double | back | square => exact hspaces
  obtain ⟨qualifier, quoting, name⟩ := R
  cases qualifier with
  | none =>
      have hall : IsGap ((' ' :: quoting.masked name) ++ g) :=
        List.forall_mem_append.mpr ⟨hmasked quoting name hquoted, hg⟩
      have hblocks := blocks_gap (b := b) hall Text.stops_nil Text.stops_nil hend
      simpa [WrittenName.masked, WrittenName.render] using hblocks
  | some qualifier =>
      obtain ⟨quoting', w, g', h'⟩ := qualifier
      have hg' := (hR.qualifier _ rfl).2.1
      have hall : IsGap ((' ' :: quoting'.masked w) ++ g') :=
        List.forall_mem_append.mpr ⟨hmasked quoting' w hquoted, hg'⟩
      have hblocks : Blocks b ((' ' :: quoting'.masked w) ++ g' ++
          '.' :: (h' ++ (quoting.masked name ++ g))) :=
        blocks_gap hall (by simp; decide) (by simp [not_isWordChar_period]) fun before =>
          hdot before _
      simpa [WrittenName.masked, WrittenName.render] using hblocks

/-- A key whose name begins with a quoted part is not. -/
theorem inlineForeignKey?_eq_none_of_quoted (h : key.Proper) (hquoted : ¬ key.target.OpensPlain) :
    inlineForeignKey? (String.ofList key.column) (' ' :: key.references)
      (maskNested .script (' ' :: key.references)) = none := by
  have hq := keywordThen_inlineReferencesForm
  have hgap := isGap_spaces key.list
  have hdot : ∀ before v, (Pattern.group 1 identifier ++ (blanks ++ opt (inParens 2))).Fails before
      ('.' :: v) := fun _ _ => fails_of_not_mayBegin rfl (by decide)
  have hend : ∀ before, (Pattern.group 1 identifier ++ (blanks ++ opt (inParens 2))).Fails before
      [] := fun _ => fails_nil rfl
  have hblocks : Blocks (Pattern.group 1 identifier ++ (blanks ++ opt (inParens 2)))
      (spaces key.list ++ []) := blocks_gap hgap Text.stops_nil Text.stops_nil hend
  have hword : IsWord "REFERENCES".toList := by decide
  have hsilent : Silent inlineReferencesForm [] (' ' :: ("REFERENCES".toList ++
      (' ' :: (key.target.masked ++ spaces key.list)))) [] := by
    refine ⟨hq.wordLed _ _ (by simp; decide), silent_append.mpr ⟨?_, ?_⟩⟩
    · rw [List.append_nil]
      exact hq.silent_word hword (blocks_masked h.target hquoted hgap hdot hend)
    · refine ⟨hq.wordLed _ _ (by simp; decide), silent_append.mpr ⟨?_, hq.wordLed.silent_gap hgap⟩⟩
      exact silent_masked hq h.target hdot hblocks
  refine inlineForeignKey?_eq_none ?_
  rw [maskNested_options h]
  exact find?_eq_none hsilent hq.wordLed.fails_nil

end Ddl

end SchemaReader
