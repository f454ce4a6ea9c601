/-
How an entry of a table is taken.

* `firstWord_plainName`, `secondWordIsType_plainName`: the two words that tell a constraint from a
  column;
* `find?_foreignKeyForm_eq_none` and its like: the forms of constraints find nothing in an entry
  whose first word is none of theirs;
* `constraint?_of_primaryKeyForm` and its like: a form that finds something is what a constraint is
  read by, since its keyword (`BeginsKeyword`) is none of those sought before it;
* `ofText?_column`, `ofText?_eq_none`: what a written column is read as, from the options behind its
  type, and where an entry is read as no column.
-/
import SchemaReader.Proofs.Ddl.Columns
import SchemaReader.Proofs.Ddl.Constraints
import SchemaReader.Proofs.Lexical.Masking

namespace SchemaReader.Ddl

open Text (IsWord IsGap IsKeyword Spells Stops isWordChar isBlank)
open Pattern

variable {before w v g r u rest : List Char} {type : ColumnType}

/-! ### The first two words -/

lemma not_endsFirstWord_of_isNameChar {c : Char} (h : isNameChar c = true) :
    endsFirstWord c = false := by
  rw [endsFirstWord, isNameChar_not_isBlank c h, beq_of_isNameChar (by decide) h, Bool.or_self]

/-- The first word of an entry goes to the first white space or parenthesis. -/
lemma firstWord_plainName (hw : IsPlainName w) (hr : Stops (fun c => !endsFirstWord c) r) :
    firstWord (w ++ r) = String.ofList (Text.upper w) := by
  have hchars : ∀ c ∈ w, (!endsFirstWord c) = true := fun c hc => by
    simp [not_endsFirstWord_of_isNameChar (hw.chars c hc)]
  rw [firstWord, Text.firstSegment, Text.takeWhile_append_of_stops hchars hr]

lemma firstWord_append (hw : IsWord w) (hr : Stops (fun c => !endsFirstWord c) r) :
    firstWord (w ++ r) = String.ofList (Text.upper w) :=
  firstWord_plainName (isPlainName_of_isWord hw) hr

lemma textLed_secondWordForm : secondWordForm.TextLed :=
  (textLed_textStart.append _).append _

lemma secondWordIsType_append (hw : IsWord w) (hg : IsGap g) (hne : g ≠ []) (hv : IsWord v)
    (hr : Stops isWordChar r) :
    secondWordIsType (w ++ (g ++ (v ++ r)))
      = typeNames.contains (String.ofList (Text.upper v)) := by
  have htakes : secondWordForm.Takes [] (w ++ (g ++ v)) r [(1, v)] := by
    simp only [secondWordForm, takes_assoc]
    refine takes_textStart.after_nothing ((takes_many1 hw.ne_nil
      (fun c hc => isNameChar_of_isWordChar (hw.chars c hc)) ?_).seq ?_)
    · simpa using stops_isNameChar_gap hg hne
    exact (takes_someBlanks hg hne (hv.stops_isBlank r)).seq ((takes_word hv hr).group 1)
  have hfind := find?_of_takes htakes
  simp only [List.append_assoc] at hfind
  simp [secondWordIsType, hfind, Match.group, Match.group?]

/-- Where no word follows the first one, there is no type. -/
lemma secondWordIsType_of_stops (hw : IsWord w) (hg : IsGap g) (hname : Stops isNameChar (g ++ r))
    (hblank : Stops isBlank r) (hword : Stops isWordChar r) :
    secondWordIsType (w ++ (g ++ r)) = false := by
  have hfails : secondWordForm.Fails [] (w ++ (g ++ r)) := by
    simp only [secondWordForm, fails_assoc, fails_textStart_append]
    intro _
    refine fails_many1_append ((someBlanks_avoids isNameChar_not_isBlank).append _)
      (fun c hc => isNameChar_of_isWordChar (hw.chars c hc)) hname fun _ => ?_
    refine fails_someBlanks_append (show word.avoidsBlanks = true by decide) hg hblank fun _ => ?_
    exact fails_of_stops rfl fun c hc => by simp [word, mayBegin, many1, hword c hc]
  rw [secondWordIsType, textLed_secondWordForm.find?_eq_none hfails, Option.any_none]

/-- Where a parenthesis follows the first word, there is no second one. -/
lemma secondWordIsType_parenthesis (hw : IsWord w) (hg : IsGap g) :
    secondWordIsType (w ++ (g ++ '(' :: r)) = false :=
  secondWordIsType_of_stops hw hg (stops_isNameChar_parenthesis hg) stops_isBlank_parenthesis
    (by simp; decide)

/-- Of a plain name, the word counts that it begins with. -/
lemma secondWordIsType_plainName (hw : IsWord w) (hg : IsGap g) (hne : g ≠ []) (hv : IsPlainName v)
    (hr : Stops isWordChar r) : secondWordIsType (w ++ (g ++ (v ++ r)))
      = typeNames.contains (String.ofList (Text.upper (v.takeWhile isWordChar))) := by
  have hsplit : v ++ r = v.takeWhile isWordChar ++ (v.dropWhile isWordChar ++ r) := by
    rw [← List.append_assoc, List.takeWhile_append_dropWhile]
  have hstop : Stops isWordChar (v.dropWhile isWordChar ++ r) :=
    (Text.stops_dropWhile isWordChar v).append hr
  have hchars : ∀ c ∈ v.takeWhile isWordChar, isWordChar c = true :=
    List.all_eq_true.mp List.all_takeWhile
  by_cases hnil : v.takeWhile isWordChar = []
  · -- a name that begins with a dollar sign
    rw [hnil, List.nil_append] at hsplit
    rw [secondWordIsType_of_stops hw hg (stops_isNameChar_gap hg hne) (hv.stops_isBlank r)
      (hsplit ▸ hstop), hnil]
    decide
  · rw [hsplit, secondWordIsType_append hw hg hne ⟨hnil, hchars⟩ hstop]

/-! ### Forms that find nothing -/

lemma textLed_foreignKeyForm : foreignKeyForm.TextLed := textLed_textStart.append _

lemma textLed_primaryKeyForm : primaryKeyForm.TextLed :=
  (((textLed_textStart.append _).append _).append _).append _

lemma textLed_uniqueForm : uniqueForm.TextLed :=
  ((((textLed_textStart.append _).append _).append _).append _).append _

lemma find?_foreignKeyForm_eq_none (hw : IsWord w) (hr : Stops isWordChar r)
    (hconstraint : ¬ Spells "CONSTRAINT".toList w) (hforeign : ¬ Spells "FOREIGN".toList w) :
    foreignKeyForm.find? (w ++ r) = none := by
  refine textLed_foreignKeyForm.find?_eq_none ?_
  simp only [foreignKeyForm, constraintName, foreignKeyBody, fails_assoc, fails_textStart_append,
    fails_opt_append]
  exact fun _ => ⟨fails_keywordBefore_of_not_spells (by decide) hw.chars hr hconstraint,
    fails_keywordBefore_of_not_spells (by decide) hw.chars hr hforeign⟩

lemma find?_primaryKeyForm_eq_none (hw : IsWord w) (hr : Stops isWordChar r)
    (hconstraint : ¬ Spells "CONSTRAINT".toList w) (hprimary : ¬ Spells "PRIMARY".toList w) :
    primaryKeyForm.find? (w ++ r) = none := by
  refine textLed_primaryKeyForm.find?_eq_none ?_
  simp only [primaryKeyForm, constraintName, fails_assoc, fails_textStart_append,
    fails_opt_append]
  exact fun _ => ⟨fails_keywordBefore_of_not_spells (by decide) hw.chars hr hconstraint,
    fails_keywordBefore_of_not_spells (by decide) hw.chars hr hprimary⟩

lemma find?_uniqueForm_eq_none (hw : IsWord w) (hr : Stops isWordChar r)
    (hconstraint : ¬ Spells "CONSTRAINT".toList w) (hunique : ¬ Spells "UNIQUE".toList w) :
    uniqueForm.find? (w ++ r) = none := by
  refine textLed_uniqueForm.find?_eq_none ?_
  simp only [uniqueForm, fails_assoc, fails_textStart_append, fails_opt_append]
  refine fun _ => ⟨fails_keywordBefore_of_not_spells (by decide) hw.chars hr hconstraint,
    fails_keyword_append (by decide) ?_ hw.chars hr fun h => absurd h hunique⟩
  exact avoids_isWordChar rfl fun c hc => by
    simpa [someBlanks, blanks, many1, inParens, char, mayBegin, nullable] using hc

/-! ### Constraints by their keyword -/

/-- A text begins with a keyword, in any spelling of it. -/
structure BeginsKeyword (K : String) (text : List Char) : Prop where
  isKeyword : IsKeyword K.toList
  split : ∃ w r, text = w ++ r ∧ Spells K.toList w ∧ Stops isWordChar r

namespace BeginsKeyword

variable {K : String} {text : List Char}

/-- The first word is no other keyword. -/
lemma exists_word (h : BeginsKeyword K text) :
    ∃ w r, text = w ++ r ∧ IsWord w ∧ Stops isWordChar r ∧
      ∀ L : String, IsKeyword L.toList → L ≠ K → ¬ Spells L.toList w := by
  obtain ⟨w, r, rfl, hw, hr⟩ := h.split
  refine ⟨w, r, rfl, hw.isWord h.isKeyword, hr, fun L hL hne hspells => ?_⟩
  exact hne (String.toList_injective (hspells.unique hL h.isKeyword hw))

lemma find?_foreignKeyForm (h : BeginsKeyword K text) (hconstraint : "CONSTRAINT" ≠ K)
    (hforeign : "FOREIGN" ≠ K) : foreignKeyForm.find? text = none := by
  obtain ⟨w, r, rfl, hw, hr, hnot⟩ := h.exists_word
  exact find?_foreignKeyForm_eq_none hw hr (hnot _ (by decide) hconstraint)
    (hnot _ (by decide) hforeign)

lemma find?_primaryKeyForm (h : BeginsKeyword K text) (hconstraint : "CONSTRAINT" ≠ K)
    (hprimary : "PRIMARY" ≠ K) : primaryKeyForm.find? text = none := by
  obtain ⟨w, r, rfl, hw, hr, hnot⟩ := h.exists_word
  exact find?_primaryKeyForm_eq_none hw hr (hnot _ (by decide) hconstraint)
    (hnot _ (by decide) hprimary)

lemma find?_uniqueForm (h : BeginsKeyword K text) (hconstraint : "CONSTRAINT" ≠ K)
    (hunique : "UNIQUE" ≠ K) : uniqueForm.find? text = none := by
  obtain ⟨w, r, rfl, hw, hr, hnot⟩ := h.exists_word
  exact find?_uniqueForm_eq_none hw hr (hnot _ (by decide) hconstraint) (hnot _ (by decide) hunique)

end BeginsKeyword

section Constraints

-- The forms are tried one after the other: a form counts where those before it find nothing, which
-- the keyword in front shows.
variable {K : String} {text : List Char} {found : Match}

lemma constraint?_of_foreignKeyForm (hfind : foreignKeyForm.find? text = some found) :
    constraint? text = some (.foreignKey (.ofMatch (namesOf (found.group 1)) 2 found)) := by
  rw [constraint?, hfind]

lemma constraint?_of_primaryKeyForm (h : BeginsKeyword "PRIMARY" text)
    (hfind : primaryKeyForm.find? text = some found) :
    constraint? text = some (.primaryKey (namesOf (found.group 1))) := by
  rw [constraint?, h.find?_foreignKeyForm (by decide) (by decide), hfind]

lemma constraint?_of_uniqueForm (h : BeginsKeyword "UNIQUE" text)
    (hfind : uniqueForm.find? text = some found) :
    constraint? text = some (.unique (((found.group? 2).or (found.group? 1)).map nameOf)
      (namesOf (found.group 3))) := by
  rw [constraint?, h.find?_foreignKeyForm (by decide) (by decide),
    h.find?_primaryKeyForm (by decide) (by decide), hfind]

lemma constraint?_of_indexForm (h : BeginsKeyword K text) (hK : K ∈ ["INDEX", "KEY"])
    (hfind : indexForm.find? text = some found) :
    constraint? text = some (.index ((found.group? 1).map nameOf) (namesOf (found.group 2))) := by
  have hothers : ∀ K ∈ ["INDEX", "KEY"], "CONSTRAINT" ≠ K ∧ "FOREIGN" ≠ K ∧ "PRIMARY" ≠ K ∧
      "UNIQUE" ≠ K := by decide
  obtain ⟨hconstraint, hforeign, hprimary, hunique⟩ := hothers K hK
  rw [constraint?, h.find?_foreignKeyForm hconstraint hforeign,
    h.find?_primaryKeyForm hconstraint hprimary, h.find?_uniqueForm hconstraint hunique, hfind]

end Constraints

/-! ### Columns -/

lemma ColumnType.Proper.stops_isBlank_reverse (htype : type.Proper) :
    Stops isBlank type.text.reverse := by
  obtain ⟨v, size⟩ := type
  cases size with
  | none => exact htype.isWord.stops_reverse fun _ => Text.not_isBlank_of_isWordChar
  | some size => simp [ColumnType.text]; decide

lemma ColumnType.Proper.trim_text (htype : type.Proper) : Text.trim type.text = type.text := by
  have hstart : Stops isBlank type.text := by simpa using htype.stops_isBlank []
  exact Text.trimWhere_self hstart htype.stops_isBlank_reverse

/-- A column with a type and with options.  These are sought where they show at the top level. -/
def ColumnEntry.ofParts (name : String) (type options : List Char) : ColumnEntry where
  name
  type := String.ofList type
  nullable := !notNullForm.occursIn (maskNested .script options)
  primaryKey := inlinePrimaryKeyForm.occursIn (maskNested .script options)
  unique := inlineUniqueForm.occursIn (maskNested .script options)
  references := inlineForeignKey? name options (maskNested .script options)

/-- What a column is read as, where its name and its type are taken as a whole. -/
lemma ofText?_of_takes_type {t : List Char} (hw : identifier.Takes [] w (g ++ (t ++ r)) [])
    (hg : IsGap g) (hne : g ≠ []) (hblank : Stops isBlank (t ++ r))
    (ht : typeForm.Takes (g.reverse ++ w.reverse) t r []) :
    ColumnEntry.ofText? (w ++ (g ++ (t ++ r))) = some (.ofParts (nameOf w) (Text.trim t) r) := by
  have hfind := find?_of_takes (takes_columnForm_of_type hw hg hne hblank ht)
  simp only [List.append_assoc] at hfind
  simp [ColumnEntry.ofText?, ColumnEntry.ofParts, hfind, Match.group, Match.group?,
    List.lookup_cons]

/-- What a column is read as, where its name is taken as a whole.  Its options are sought where they
show at the top level. -/
theorem ofText?_column_of_takes (hw : identifier.Takes [] w (g ++ (type.text ++ r)) [])
    (hg : IsGap g) (hne : g ≠ []) (htype : type.Proper) (hr : EndsType r)
    (hword : type.size = none → Stops isWordChar r) :
    ColumnEntry.ofText? (w ++ (g ++ (type.text ++ r))) = some {
      name := nameOf w
      type := String.ofList type.text
      nullable := !notNullForm.occursIn (maskNested .script r)
      primaryKey := inlinePrimaryKeyForm.occursIn (maskNested .script r)
      unique := inlineUniqueForm.occursIn (maskNested .script r)
      references := inlineForeignKey? (nameOf w) r (maskNested .script r) } := by
  rw [ofText?_of_takes_type hw hg hne (htype.stops_isBlank r) (takes_typeForm htype hr hword),
    htype.trim_text]
  rfl

lemma textLed_columnForm : columnForm.TextLed :=
  (textLed_textStart.append _).append _

lemma ofText?_eq_none {text : List Char} (h : columnForm.Fails [] text) :
    ColumnEntry.ofText? text = none := by
  simp [ColumnEntry.ofText?, textLed_columnForm.find?_eq_none h]

/-- What a written column is read as. -/
theorem ofText?_column (hw : IsWord w) (hg : IsGap g) (hne : g ≠ []) (htype : type.Proper)
    (hr : BeginsOptions r) (hword : type.size = none → Stops isWordChar r) :
    ColumnEntry.ofText? (w ++ (g ++ (type.text ++ r))) = some {
      name := String.ofList w
      type := String.ofList type.text
      nullable := !notNullForm.occursIn (maskNested .script r)
      primaryKey := inlinePrimaryKeyForm.occursIn (maskNested .script r)
      unique := inlineUniqueForm.occursIn (maskNested .script r)
      references := inlineForeignKey? (String.ofList w) r (maskNested .script r) } := by
  have hperiod : Stops (· == '.') (type.text ++ r) := Text.stops_of_not_stops (htype.not_stops r)
    fun _ => Text.beq_of_isWordChar (by decide)
  have hname : identifier.Takes [] w (g ++ (type.text ++ r)) [] :=
    takes_plain hw (noPeriod_of_gap hg (htype.stops_isBlank r) hperiod)
      (stops_isNameChar_gap hg hne)
  rw [ofText?_column_of_takes hname hg hne htype hr.endsType hword, nameOf_plain hw]

/-- An entry that looks like no constraint is a column, if it can be read as one. -/
lemma ofText_of_ofText? {text : List Char} {entry : ColumnEntry}
    (hcolumn : looksLikeConstraint text = false) (h : ColumnEntry.ofText? text = some entry) :
    TableEntry.ofText text = .column entry := by
  rw [TableEntry.ofText, hcolumn, if_neg Bool.false_ne_true, TableEntry.ofColumnText, h]

/-- One that cannot is not recognized. -/
lemma ofText_of_ofText?_eq_none {text : List Char} (hcolumn : looksLikeConstraint text = false)
    (h : ColumnEntry.ofText? text = none) : TableEntry.ofText text = .unrecognized := by
  rw [TableEntry.ofText, hcolumn, if_neg Bool.false_ne_true, TableEntry.ofColumnText, h]

/-- The foreign key of a column is read where its form shows first at the top level. -/
lemma inlineForeignKey?_of_takes {P : Char → Prop} {x y : List Char} {shown caught : Captures}
    (name : String) (hu : Closed .script P u)
    (hsilent : Silent inlineReferencesForm [] (maskNested .script u) (x ++ y))
    (hmask : maskNested .script (v ++ rest) = x ++ y)
    (hshown : inlineReferencesForm.Takes (maskNested .script u).reverse x y shown)
    (htakes : inlineReferencesForm.Takes [] v rest caught) :
    inlineForeignKey? name (u ++ (v ++ rest)) (maskNested .script (u ++ (v ++ rest)))
      = some ⟨[name], nameOf ((caught.lookup 1).getD []), (caught.lookup 2).map namesOf⟩ := by
  rw [maskNested_append hu, hmask, inlineForeignKey?, find?_of_silent hsilent hshown]
  simp only [Option.bind_eq_bind, Option.bind_some, Text.byteLength_reverse,
    (masks_maskNested .script u).byteLength_eq, Text.dropBytes?_append, find?_of_takes htakes,
    Option.pure_def]
  rfl

lemma inlineForeignKey?_eq_none {name : String} {options masked : List Char}
    (h : inlineReferencesForm.find? masked = none) :
    inlineForeignKey? name options masked = none := by
  simp [inlineForeignKey?, h]

end SchemaReader.Ddl
