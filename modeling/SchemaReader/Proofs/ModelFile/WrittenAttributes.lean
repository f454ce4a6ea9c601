/-
Attributes of fields as they are written.

* `WrittenAttribute`: an attribute with the white space before it and its arguments;
* `occursIn_attributesText`: an attribute is found among attributes if it is found in one of them;
* `relationArguments?_attributesText`: the arguments of a relation are those of the first attribute
  that has some;
* `withoutMarks`: without the attribute of uniqueness, the same other attributes and arguments are
  found;
* `FieldDef`: a field attribute by attribute, with `Proper.sameButUnique`.
-/
import SchemaReader.Proofs.ModelFile.AlikeModels
import SchemaReader.Proofs.ModelFile.AttributeLiterals
import SchemaReader.Proofs.ModelFile.WrittenFields

namespace SchemaReader.ModelFile

open Pattern
open Text (IsWord IsGap Stops isWordChar isBlank)

variable {before rest next u v w g : List Char} {name : String}

/-! ### Written attributes -/

/-- An attribute as it is written: the white space before it, its name and its arguments, which
stand in parentheses. -/
structure WrittenAttribute where
  gap : List Char
  name : List Char
  argument : Option (List Char)
  deriving DecidableEq, Repr

namespace WrittenAttribute

/-- The attribute behind its white space. -/
def body (part : WrittenAttribute) : List Char :=
  '@' :: (part.name ++ WrittenField.argumentText part.argument)

def text (part : WrittenAttribute) : List Char := part.gap ++ part.body

/-- Whether it is the attribute of uniqueness. -/
def isMark (part : WrittenAttribute) : Bool :=
  part.name == "unique".toList && part.argument.isNone

/-- There is white space before the attribute, its name has word characters and periods, it stands
in one line, and no other attribute holds that of uniqueness. -/
structure Proper (part : WrittenAttribute) : Prop where
  gap : IsGap part.gap ∧ part.gap ≠ []
  name : ∀ c ∈ part.name, isWordChar c = true ∨ c = '.'
  line : '\n' ∉ part.text
  mark : part.isMark = false → (attributeWord "@unique").occursIn part.text = false

instance (part : WrittenAttribute) : Decidable part.Proper :=
  decidable_of_iff ((IsGap part.gap ∧ part.gap ≠ []) ∧
      (∀ c ∈ part.name, isWordChar c = true ∨ c = '.') ∧ '\n' ∉ part.text ∧
      (part.isMark = false → (attributeWord "@unique").occursIn part.text = false))
    ⟨fun ⟨gap, name, line, mark⟩ => ⟨gap, name, line, mark⟩,
      fun h => ⟨h.gap, h.name, h.line, h.mark⟩⟩

end WrittenAttribute

variable {part : WrittenAttribute} {attributes : List WrittenAttribute}

/-- Attributes one after the other. -/
def attributesText (attributes : List WrittenAttribute) : List Char :=
  attributes.flatMap WrittenAttribute.text

lemma attributesText_cons (part : WrittenAttribute) (attributes : List WrittenAttribute) :
    attributesText (part :: attributes) = part.text ++ attributesText attributes :=
  List.flatMap_cons

lemma not_lineFeed_mem_attributesText (h : ∀ part ∈ attributes, part.Proper) :
    '\n' ∉ attributesText attributes := by
  intro hmem
  obtain ⟨part, hpart, hfeed⟩ := List.mem_flatMap.mp hmem
  exact (h part hpart).line hfeed

/-- A text is empty, or white space stands at its beginning and a sign for an attribute behind
it. -/
def OpensAttribute (text : List Char) : Prop :=
  text = [] ∨ ∃ g v, text = g ++ '@' :: v ∧ IsGap g ∧ g ≠ []

lemma opensAttribute_attributesText (h : ∀ part ∈ attributes, part.Proper) :
    OpensAttribute (attributesText attributes) := by
  cases attributes with
  | nil => exact Or.inl rfl
  | cons part attributes =>
      have hproper := h part List.mem_cons_self
      refine Or.inr ⟨part.gap, part.name ++ (WrittenField.argumentText part.argument ++
        attributesText attributes), ?_, hproper.gap⟩
      simp [attributesText_cons, WrittenAttribute.text, WrittenAttribute.body]

lemma OpensAttribute.stops {p : Char → Bool} (h : OpensAttribute next)
    (hp : ∀ c, isBlank c = true → p c = false) : Stops p next := by
  obtain rfl | ⟨g, v, rfl, hg, hne⟩ := h
  · exact Text.stops_nil
  · exact hg.stops_of_ne_nil hne hp _

lemma OpensAttribute.unmodified (h : OpensAttribute next) : Unmodified next := by
  have hstops : Stops (fun c => c == '[' || c == '?') next := h.stops fun _ =>
    Text.not_of_isBlank (fun c => c == '[' || c == '?') (by decide)
  rintro m ⟨v, rfl⟩
  cases m <;> simp [Modifier.text] at hstops

/-- Attributes do not end with white space. -/
lemma stops_reverse_attributesText (h : ∀ part ∈ attributes, part.Proper) :
    Stops isBlank (attributesText attributes).reverse := by
  obtain rfl | ⟨attributes, part, rfl⟩ := List.eq_nil_or_concat attributes
  · exact Text.stops_nil
  have hproper := h part (by simp)
  have hbody : Stops isBlank part.body.reverse := by
    rw [WrittenAttribute.body]
    cases part.argument with
    | some argument =>
        simp [WrittenField.argumentText]
        decide
    | none =>
        obtain hnil | ⟨name, c, hname⟩ := List.eq_nil_or_concat part.name
        · simp [hnil, WrittenField.argumentText]
          decide
        · have hplain := hproper.name c (by simp [hname])
          have hblank : isBlank c = false :=
            hplain.elim Text.not_isBlank_of_isWordChar (by rintro rfl; decide)
          simpa [hname, WrittenField.argumentText] using hblank
  have htext : attributesText (attributes.concat part)
      = (attributesText attributes ++ part.gap) ++ part.body := by
    simp [attributesText, WrittenAttribute.text]
  rw [htext, List.reverse_append]
  exact hbody.append_of_ne_nil (by simp [WrittenAttribute.body]) _

/-! ### Attributes that are found -/

lemma not_blank_mem (hname : name ∈ attributeNames) {c : Char} (hc : isBlank c = true) :
    c ∉ name.toList := by
  have hall : ∀ name ∈ attributeNames, ∀ c ∈ name.toList, isBlank c = false := by decide
  intro hmem
  simp [hall name hname c hmem] at hc

lemma not_occursIn_nil (hname : name ∈ attributeNames) :
    (attributeWord name).occursIn [] = false := by
  have hall : ∀ name ∈ attributeNames, (attributeWord name).occursIn [] = false := by decide
  exact hall name hname

/-- No attribute is found in white space before a text. -/
lemma occursIn_gap_append (hname : name ∈ attributeNames) (hg : IsGap g) :
    (attributeWord name).occursIn (g ++ u) = (attributeWord name).occursIn u := by
  induction g with
  | nil => rfl
  | cons c g ih =>
      rw [IsGap, List.forall_mem_cons] at hg
      have hsplit := occursIn_append_sign (u := []) (v := g ++ u) hname (not_blank_mem hname hg.1)
        (Text.not_isWordChar_of_isBlank hg.1)
      rw [List.nil_append, not_occursIn_nil hname, Bool.false_or, ih hg.2] at hsplit
      exact hsplit

/-- Before further attributes the same is found as at the end. -/
lemma occursIn_append_attributes (hname : name ∈ attributeNames) (h : OpensAttribute next) :
    (attributeWord name).occursIn (u ++ next)
      = ((attributeWord name).occursIn u || (attributeWord name).occursIn next) := by
  obtain rfl | ⟨g, v, rfl, hg, hne⟩ := h
  · simp [not_occursIn_nil hname]
  · obtain ⟨c, g, rfl⟩ := List.exists_cons_of_ne_nil hne
    have hc := hg c List.mem_cons_self
    have hbehind : IsGap g := fun d hd => hg d (List.mem_cons_of_mem c hd)
    rw [List.cons_append, occursIn_append_sign hname (not_blank_mem hname hc)
      (Text.not_isWordChar_of_isBlank hc), ← List.cons_append, occursIn_gap_append hname hg,
      occursIn_gap_append hname hbehind]

/-- An attribute is found among attributes if it is found in one of them. -/
theorem occursIn_attributesText (hname : name ∈ attributeNames)
    (h : ∀ part ∈ attributes, part.Proper) :
    (attributeWord name).occursIn (attributesText attributes)
      = attributes.any fun part => (attributeWord name).occursIn part.text := by
  induction attributes with
  | nil => exact not_occursIn_nil hname
  | cons part attributes ih =>
      rw [List.forall_mem_cons] at h
      rw [attributesText_cons, occursIn_append_attributes hname (opensAttribute_attributesText h.2),
        ih h.2, List.any_cons]

/-! ### The arguments of a relation -/

/-- The arguments of the first relation in a text. -/
def relationArguments? (text : List Char) : Option (List Char) :=
  (relationForm.find? text).map (·.group 1)

lemma relationLists?_eq_map (field : Field) :
    field.relationLists? = (relationArguments? field.attributes).map listsIn := by
  rw [Field.relationLists?, relationArguments?, Option.map_map]
  rfl

/-- No relation opens in one attribute and has its parenthesis in the next one. -/
lemma staysIn_relationOpening (h : OpensAttribute next) (u : List Char) :
    relationOpening.StaysIn u next := by
  obtain rfl | ⟨g, v, rfl, hg, hne⟩ := h
  · exact staysIn_nil u
  have hfails : ∀ before, (blanks ++ char '(').Fails before (g ++ '@' :: v) := fun before => by
    refine fails_blanks_char (by decide) ?_
    rw [Text.dropWhile_append_of_stops hg (by simp; decide)]
    simp
  obtain ⟨c, g, rfl⟩ := List.exists_cons_of_ne_nil hne
  have hc := hg c List.mem_cons_self
  have hnever : (lit "@relation").neverReads c = true ∧ (char '(').neverReads c = true := by
    have hreads := Text.not_of_isBlank (fun c => !(lit "@relation").neverReads c ||
      !(char '(').neverReads c)
      (by decide) hc
    simpa using hreads
  exact staysIn_assoc.mpr (StaysIn.append (staysIn_of_neverReads_next hnever.1)
    ((staysIn_of_neverReads_next hnever.2).many_append hfails) hfails)

/-- What a relation opens within an attribute is closed within it. -/
lemma close_mem_behind (h : part.Proper) {w v : List Char} {before : List Char}
    (htext : part.text = u ++ (w ++ v)) (hread : relationOpening.Reads before w v) : ')' ∈ v := by
  have hopen : '(' ∈ w := by
    obtain ⟨_, _, rfl, -, c, hc, rfl⟩ := hread
    obtain rfl : c = '(' := by simpa using hc
    simp
  have hclose : ')' ∉ w := fun hmem => ne_of_reads relationOpening (by decide) hread _ hmem rfl
  have hmem : '(' ∈ part.text := htext ▸ by simp [hopen]
  have hsigns : isBlank '(' = false ∧ isWordChar '(' = false := by decide
  cases hargument : part.argument with
  | none =>
      simp only [WrittenAttribute.text, WrittenAttribute.body, hargument, WrittenField.argumentText,
        List.append_nil, List.mem_append, List.mem_cons] at hmem
      obtain hgap | hat | hname := hmem
      · simp [h.gap.1 '(' hgap] at hsigns
      · simp at hat
      · have hplain := h.name '(' hname
        simp [hsigns.2] at hplain
  | some argument =>
      have hsuffix : w ++ v <:+ (part.gap ++ '@' :: (part.name ++ '(' :: argument)) ++ [')'] :=
        ⟨u, by simp [← htext, WrittenAttribute.text, WrittenAttribute.body, hargument,
          WrittenField.argumentText]⟩
      obtain ⟨x, hx, -⟩ := exists_of_suffix_concat (by simp [List.ne_nil_of_mem hopen]) hsuffix
      have hends : ')' ∈ w ++ v := hx ▸ by simp
      exact (List.mem_append.mp hends).resolve_left hclose

/-- The arguments of a relation are those of the first attribute that has some. -/
theorem relationArguments?_attributesText (h : ∀ part ∈ attributes, part.Proper) :
    relationArguments? (attributesText attributes)
      = attributes.findSome? fun part => relationArguments? part.text := by
  induction attributes with
  | nil => decide
  | cons part attributes ih =>
      rw [List.forall_mem_cons] at h
      obtain ⟨found, hfound⟩ := exists_finds (q := relationOpening) (by decide) [] part.text
      obtain ⟨found', hfound'⟩ :=
        exists_finds (q := relationOpening) (by decide) [] (attributesText attributes)
      have hall := hfound.append (by decide) (Alike.refl [])
        (staysIn_relationOpening (opensAttribute_attributesText h.2) _)
          (hfound'.of_isFree (by decide) _)
      rw [attributesText_cons, List.findSome?_cons, ← ih h.2, relationArguments?,
        relationArguments?, relationArguments?, group_find?_relationForm hall,
        group_find?_relationForm hfound,
        group_find?_relationForm hfound']
      cases found with
      | nil => rfl
      | cons yield found =>
          obtain ⟨u, w, htext, hread⟩ := hfound.exists_reads _ List.mem_cons_self
          have hclose : ')' ∈ yield.1 := close_mem_behind h.1 htext hread
          simp only [extend, List.map_cons, List.cons_append, List.head?_cons, Option.bind_some,
            argumentsBehind?_of_mem hclose]
          rw [argumentsBehind?, if_pos hclose]

/-! ### The attribute of uniqueness -/

lemma text_of_isMark (hmark : part.isMark = true) : part.text = part.gap ++ "@unique".toList := by
  obtain ⟨gap, name, argument⟩ := part
  simp only [WrittenAttribute.isMark, Bool.and_eq_true, beq_iff_eq,
    Option.isNone_iff_eq_none] at hmark
  obtain ⟨rfl, rfl⟩ := hmark
  rfl

/-- The attribute of uniqueness is found in itself, and no other one is. -/
lemma occursIn_of_isMark (h : part.Proper) (hmark : part.isMark = true)
    (hname : name ∈ attributeNames) :
    (attributeWord name).occursIn part.text = (name == "@unique") := by
  have hall : ∀ name ∈ attributeNames,
      (attributeWord name).occursIn "@unique".toList = (name == "@unique") := by decide
  rw [text_of_isMark hmark, occursIn_gap_append hname h.gap.1, hall name hname]

lemma relationArguments?_of_isMark (h : part.Proper) (hmark : part.isMark = true) :
    relationArguments? part.text = none := by
  have hclose : ')' ∉ part.text := by
    rw [text_of_isMark hmark, List.mem_append, not_or]
    exact ⟨fun hgap => absurd (h.gap.1 _ hgap) (by decide), by decide⟩
  rw [relationArguments?, relationForm, (endsWith_append_char _ ')').find?_eq_none hclose]
  rfl

/-- A field is unique if the attribute of uniqueness is among its attributes. -/
theorem occursIn_unique_attributesText (h : ∀ part ∈ attributes, part.Proper) :
    (attributeWord "@unique").occursIn (attributesText attributes)
      = attributes.any WrittenAttribute.isMark := by
  have hname : "@unique" ∈ attributeNames := by decide
  rw [occursIn_attributesText hname h, Bool.eq_iff_iff, List.any_eq_true, List.any_eq_true]
  refine exists_congr fun part => and_congr_right fun hmem => ?_
  cases hmark : part.isMark with
  | true => simp [occursIn_of_isMark (h part hmem) hmark hname]
  | false => simp [(h part hmem).mark hmark]

/-- Without the attributes of uniqueness. -/
def withoutMarks (attributes : List WrittenAttribute) : List WrittenAttribute :=
  attributes.filter fun part => !part.isMark

/-- Without them the same other attributes are found. -/
lemma occursIn_withoutMarks (hname : name ∈ attributeNames) (hne : name ≠ "@unique")
    (h : ∀ part ∈ attributes, part.Proper) :
    (attributeWord name).occursIn (attributesText (withoutMarks attributes))
      = (attributeWord name).occursIn (attributesText attributes) := by
  have hkept : ∀ part ∈ withoutMarks attributes, part.Proper := fun part hpart =>
    h part (List.mem_of_mem_filter hpart)
  rw [occursIn_attributesText hname h, occursIn_attributesText hname hkept, withoutMarks,
    List.any_filter, Bool.eq_iff_iff, List.any_eq_true, List.any_eq_true]
  refine exists_congr fun part => and_congr_right fun hmem => ?_
  cases hmark : part.isMark with
  | true => simp [occursIn_of_isMark (h part hmem) hmark hname, hne]
  | false => simp

lemma relationArguments?_withoutMarks (h : ∀ part ∈ attributes, part.Proper) :
    relationArguments? (attributesText (withoutMarks attributes))
      = relationArguments? (attributesText attributes) := by
  have hkept : ∀ part ∈ withoutMarks attributes, part.Proper := fun part hpart =>
    h part (List.mem_of_mem_filter hpart)
  rw [relationArguments?_attributesText h, relationArguments?_attributesText hkept, withoutMarks]
  refine findSome?_filter fun part hmem hmark => ?_
  exact relationArguments?_of_isMark (h part hmem) (by simpa using hmark)

/-! ### Fields -/

/-- A field as it is written, attribute by attribute. -/
structure FieldDef where
  name : List Char
  gap : List Char
  type : List Char
  argument : Option (List Char)
  modifiers : List Modifier
  attributes : List WrittenAttribute
  deriving DecidableEq, Repr

variable {field : FieldDef}

namespace FieldDef

def written (field : FieldDef) : WrittenField :=
  ⟨field.name, field.gap, field.type, field.argument, field.modifiers,
    attributesText field.attributes⟩

/-- The field without the attributes of uniqueness. -/
def unmarked (field : FieldDef) : FieldDef :=
  { field with attributes := withoutMarks field.attributes }

/-- Whether the field has the attribute of uniqueness. -/
def isMarked (field : FieldDef) : Bool := field.attributes.any WrittenAttribute.isMark

/-- The name and the type are words, white space stands between them, and the argument of the type
ends with it, all in one line. -/
structure Proper (field : FieldDef) : Prop where
  name : IsWord field.name
  gap : IsGap field.gap ∧ field.gap ≠ [] ∧ '\n' ∉ field.gap
  type : IsWord field.type
  argument : ∀ argument ∈ field.argument, ')' ∉ argument ∧ '\n' ∉ argument
  attributes : ∀ part ∈ field.attributes, part.Proper

instance (field : FieldDef) : Decidable field.Proper :=
  decidable_of_iff (IsWord field.name ∧ (IsGap field.gap ∧ field.gap ≠ [] ∧ '\n' ∉ field.gap) ∧
      IsWord field.type ∧ (∀ argument ∈ field.argument, ')' ∉ argument ∧ '\n' ∉ argument) ∧
      ∀ part ∈ field.attributes, part.Proper)
    ⟨fun ⟨name, gap, type, argument, attributes⟩ => ⟨name, gap, type, argument, attributes⟩,
    fun h => ⟨h.name, h.gap, h.type, h.argument, h.attributes⟩⟩

lemma Proper.unmarked (h : field.Proper) : field.unmarked.Proper :=
  { h with attributes := fun part hpart => h.attributes part (List.mem_of_mem_filter hpart) }

lemma Proper.written (h : field.Proper) : field.written.Proper where
  name := h.name
  gap := ⟨h.gap.1, h.gap.2.1⟩
  type := h.type
  argument argument hargument := (h.argument argument hargument).1
  bare hnone := by
    have hattributes := opensAttribute_attributesText h.attributes
    have hargument : field.argument = none := hnone
    simp only [WrittenField.behind, FieldDef.written, hargument, WrittenField.argumentText,
      List.nil_append]
    exact ⟨stops_modifiersText (by decide) (by decide)
        (hattributes.stops fun _ => Text.not_isWordChar_of_isBlank),
      stops_modifiersText (by decide) (by decide)
        (hattributes.stops fun _ => Text.not_of_isBlank (· == '(') (by decide))⟩
  unmodified := (opensAttribute_attributesText h.attributes).unmodified
  line := not_lineFeed_mem_attributesText h.attributes

/-- The field stands in one line. -/
lemma Proper.not_lineFeed_mem (h : field.Proper) : '\n' ∉ field.written.text := by
  have hargument : '\n' ∉ WrittenField.argumentText field.argument := by
    cases hargument : field.argument with
    | none => simp [WrittenField.argumentText]
    | some argument => simpa [WrittenField.argumentText] using (h.argument argument hargument).2
  have hword : ∀ {w}, IsWord w → '\n' ∉ w := fun hw hmem => hw.forall_ne (by decide) _ hmem rfl
  simp only [WrittenField.text, WrittenField.behind, FieldDef.written, List.mem_append, not_or]
  exact ⟨hword h.name, h.gap.2.2, hword h.type, hargument, not_lineFeed_mem_modifiersText,
    not_lineFeed_mem_attributesText h.attributes⟩

/-- A line with the field behind white space is read as the field. -/
lemma Proper.ofText (h : field.Proper) {indent : List Char} (hindent : IsGap indent) :
    Line.ofText (indent ++ field.written.text) = .field field.written.field := by
  refine h.written.ofText_line ?_
  have hargument : Stops isBlank (WrittenField.argumentText field.argument).reverse := by
    cases field.argument with
    | none => exact Text.stops_nil
    | some argument =>
        simp [WrittenField.argumentText]
        decide
  have hbehind : Stops isBlank (field.type ++ field.written.behind).reverse := by
    simp only [WrittenField.behind, FieldDef.written, List.reverse_append, List.append_assoc]
    exact (stops_reverse_attributesText h.attributes).append
      ((stops_reverse_modifiersText (by decide) (by decide)).append
        (hargument.append (h.type.stops_reverse fun _ => Text.not_isBlank_of_isWordChar)))
  have hend : Stops isBlank field.written.text.reverse := by
    have htext : field.written.text
        = (field.name ++ field.gap) ++ (field.type ++ field.written.behind) := by
      simp [WrittenField.text, FieldDef.written]
    rw [htext, List.reverse_append]
    exact hbehind.append_of_ne_nil (by simp [h.type.ne_nil]) _
  have hne : field.written.text ≠ [] := by simp [WrittenField.text, FieldDef.written, h.name.ne_nil]
  have hstart : Stops isBlank field.written.text := h.name.stops_isBlank _
  have htrim := Text.trim_gaps hindent Text.isGap_nil hstart hend hne
  rwa [List.append_nil] at htrim

/-- A field is unique if it is marked. -/
lemma Proper.isUnique (h : field.Proper) : field.written.field.isUnique = field.isMarked :=
  occursIn_unique_attributesText h.attributes

lemma isMarked_unmarked (field : FieldDef) : field.unmarked.isMarked = false := by
  simp [isMarked, FieldDef.unmarked, withoutMarks]

/-- Without the mark, a field is the same but for its uniqueness. -/
theorem Proper.sameButUnique (h : field.Proper) :
    field.unmarked.written.field.SameButUnique field.written.field where
  name := rfl
  type := rfl
  isList := rfl
  optional := rfl
  isId := occursIn_withoutMarks (by decide) (by decide) h.attributes
  hasRelationAttribute := occursIn_withoutMarks (by decide) (by decide) h.attributes
  relationLists? := by
    rw [relationLists?_eq_map, relationLists?_eq_map]
    exact congrArg _ (relationArguments?_withoutMarks h.attributes)

end FieldDef

end SchemaReader.ModelFile
