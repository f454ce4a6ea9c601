/-
Written fields.

* `Modifier`: the two signs that may stand behind the type of a field, in any number and order;
* `WrittenField`: a field with its name, its type, the argument of the type, its modifiers and its
  attributes, as it is written;
* `WrittenField.Proper.ofText_line`: a line with the field is read as it.
-/
import SchemaReader.ModelFile.Model
import SchemaReader.Proofs.Lexical.Lists
import SchemaReader.Proofs.Pattern.Words
import SchemaReader.Proofs.Text.Trim

namespace SchemaReader.ModelFile

open Text (IsWord IsGap Stops isBlank isWordChar)
open Pattern

variable {before rest : List Char} {modifiers : List Modifier} {written : WrittenField}

/-! ### Modifiers -/

/-- What may stand behind the type of a field. -/
inductive Modifier where
  /-- `[]` -/
  | list
  /-- `?` -/
  | optional
  deriving DecidableEq, Repr

def Modifier.text : Modifier → List Char
  | .list => ['[', ']']
  | .optional => ['?']

/-- Modifiers one after the other. -/
def modifiersText (modifiers : List Modifier) : List Char := (modifiers.map Modifier.text).flatten

/-- One of the modifiers. -/
def modifierForm : Pattern := lit "[]" ||| char '?'

/-- A text does not begin with a modifier. -/
def Unmodified (text : List Char) : Prop := ∀ m : Modifier, ¬ m.text <+: text

instance (text : List Char) : Decidable (Unmodified text) :=
  decidable_of_iff (¬ Modifier.list.text <+: text ∧ ¬ Modifier.optional.text <+: text)
    ⟨fun h m => by cases m; exacts [h.1, h.2], fun h => ⟨h .list, h .optional⟩⟩

lemma takes_modifier (m : Modifier) : modifierForm.Takes before m.text rest [] := by
  cases m with
  | list => exact (takes_lit "[]").alt_left _
  | optional => exact takes_char.alt_right (fails_of_not_mayBegin (by decide) (by decide))

lemma reads_modifierForm {w : List Char} (h : modifierForm.Reads before w rest) :
    ∃ m : Modifier, w = m.text := by
  rcases h with hlist | ⟨c, hc, rfl⟩
  · exact ⟨.list, reads_lit.mp hlist⟩
  · obtain rfl : c = '?' := by simpa using hc
    exact ⟨.optional, rfl⟩

lemma fails_modifierForm (h : Unmodified rest) : modifierForm.Fails before rest := by
  rintro w rest' rfl hread
  obtain ⟨m, rfl⟩ := reads_modifierForm hread
  exact h m (List.prefix_append _ _)

lemma takes_modifiers (h : Unmodified rest) :
    (Pattern.star modifierForm).Takes before (modifiersText modifiers) rest [] := by
  refine takes_star_flatten (List.forall_mem_map.mpr fun m _ => ⟨?_, fun _ _ => takes_modifier m⟩)
    fun _ => fails_modifierForm h
  cases m <;> simp [Modifier.text]

lemma mem_modifiersText (modifiers : List Modifier) :
    ('[' ∈ modifiersText modifiers ↔ .list ∈ modifiers) ∧
      ('?' ∈ modifiersText modifiers ↔ .optional ∈ modifiers) := by
  simp only [modifiersText, List.mem_flatten, List.mem_map]
  constructor
  · constructor
    · rintro ⟨_, ⟨m, hm, rfl⟩, hc⟩
      cases m with
      | list => exact hm
      | optional => simp [Modifier.text] at hc
    · exact fun h => ⟨_, ⟨_, h, rfl⟩, by simp [Modifier.text]⟩
  · constructor
    · rintro ⟨_, ⟨m, hm, rfl⟩, hc⟩
      cases m with
      | list => simp [Modifier.text] at hc
      | optional => exact hm
    · exact fun h => ⟨_, ⟨_, h, rfl⟩, by simp [Modifier.text]⟩

lemma not_lineFeed_mem_modifiersText : '\n' ∉ modifiersText modifiers := by
  simp only [modifiersText, List.mem_flatten, List.mem_map]
  rintro ⟨_, ⟨m, -, rfl⟩, hc⟩
  cases m <;> simp [Modifier.text] at hc

lemma stops_modifiersText {p : Char → Bool} (hlist : p '[' = false) (hoptional : p '?' = false)
    (hrest : Stops p rest) : Stops p (modifiersText modifiers ++ rest) := by
  cases modifiers with
  | nil => exact hrest
  | cons m modifiers => cases m <;> simpa [modifiersText, Modifier.text]

lemma stops_reverse_modifiersText {p : Char → Bool} (hlist : p ']' = false)
    (hoptional : p '?' = false) :
    Stops p (modifiersText modifiers).reverse := by
  obtain rfl | ⟨modifiers, m, rfl⟩ := List.eq_nil_or_concat modifiers
  · exact Text.stops_nil
  · cases m <;> simpa [modifiersText, Modifier.text]

/-- Every text has the modifiers that it begins with, as many as there are, before the rest of
it. -/
lemma exists_modifiers (text : List Char) :
    ∃ modifiers rest, text = modifiersText modifiers ++ rest ∧ Unmodified rest := by
  induction hn : text.length using Nat.strongRecOn generalizing text with
  | _ n ih =>
    by_cases hplain : Unmodified text
    · exact ⟨[], text, rfl, hplain⟩
    · obtain ⟨m, v, rfl⟩ : ∃ m : Modifier, m.text <+: text := by simpa [Unmodified] using hplain
      have hlength : 0 < m.text.length := by cases m <;> decide
      have hshorter : v.length < n := by
        rw [List.length_append] at hn
        omega
      obtain ⟨modifiers, rest, rfl, hrest⟩ := ih v.length hshorter v rfl
      exact ⟨m :: modifiers, rest, by simp [modifiersText], hrest⟩

/-! ### Fields -/

/-- A field as it is written: the argument of its type stands in parentheses. -/
structure WrittenField where
  name : List Char
  gap : List Char
  type : List Char
  argument : Option (List Char)
  modifiers : List Modifier
  attributes : List Char

namespace WrittenField

/-- The argument of a type with its parentheses. -/
def argumentText : Option (List Char) → List Char
  | none => []
  | some argument => '(' :: (argument ++ [')'])

/-- What stands behind the type. -/
def behind (written : WrittenField) : List Char :=
  argumentText written.argument ++ (modifiersText written.modifiers ++ written.attributes)

def text (written : WrittenField) : List Char :=
  written.name ++ (written.gap ++ (written.type ++ written.behind))

/-- The field that is meant. -/
def field (written : WrittenField) : Field where
  name := String.ofList written.name
  type := String.ofList written.type
  isList := written.modifiers.contains .list
  optional := written.modifiers.contains .optional
  attributes := written.attributes

/-- The argument of the type holds no closing parenthesis, and without an argument neither the type
nor an argument seems to go on in what follows.  The attributes begin with no modifier and end with
the line. -/
structure Proper (written : WrittenField) : Prop where
  name : IsWord written.name
  gap : IsGap written.gap ∧ written.gap ≠ []
  type : IsWord written.type
  argument : ∀ argument ∈ written.argument, ')' ∉ argument
  bare : written.argument = none → Stops isWordChar written.behind ∧ Stops (· == '(') written.behind
  unmodified : Unmodified written.attributes
  line : '\n' ∉ written.attributes

instance (written : WrittenField) : Decidable written.Proper :=
  decidable_of_iff (IsWord written.name ∧ (IsGap written.gap ∧ written.gap ≠ []) ∧
    IsWord written.type ∧
      (∀ argument ∈ written.argument, ')' ∉ argument) ∧
      (written.argument = none → Stops isWordChar written.behind ∧
        Stops (· == '(') written.behind) ∧
      Unmodified written.attributes ∧ '\n' ∉ written.attributes)
    ⟨fun ⟨name, gap, type, argument, bare, unmodified, line⟩ =>
      ⟨name, gap, type, argument, bare, unmodified, line⟩,
    fun h => ⟨h.name, h.gap, h.type, h.argument, h.bare, h.unmodified, h.line⟩⟩

/-- The argument of the type is taken with its parentheses, or nothing is. -/
lemma Proper.takes_argument (h : written.Proper) :
    (opt (char '(' ++ many (· != ')') ++ char ')')).Takes before (argumentText written.argument)
      (modifiersText written.modifiers ++ written.attributes) [] := by
  cases hargument : written.argument with
  | none =>
      have hstops : Stops (· == '(') (modifiersText written.modifiers ++ written.attributes) := by
        have hbehind := (h.bare hargument).2
        rwa [behind, hargument] at hbehind
      have hfirst : (char '(' ++ many (· != ')') ++ char ')').mayBegin = (· == '(') := by
        funext c
        simp [Pattern.char, mayBegin, nullable]
      exact takes_opt_skip (fails_of_stops rfl (by rwa [hfirst]))
  | some argument =>
      have hchars : ∀ c ∈ argument, (c != ')') = true := fun c hc => by
        simpa using fun hclose : c = ')' => h.argument argument hargument (hclose ▸ hc)
      have hparens : ∀ rest, (char '(' ++ many (· != ')') ++ char ')').Takes before
          ('(' :: (argument ++ [')'])) rest [] := fun rest => by
        refine takes_assoc.mpr (takes_char.seq (u := ['(']) ?_)
        exact (takes_many hchars (by simp)).seq takes_char
      exact (hparens _).alt_left _

/-- A field is taken as a whole, part by part. -/
theorem Proper.takes_text (h : written.Proper) : fieldForm.Takes [] written.text []
    [(5, written.attributes), (4, modifiersText written.modifiers), (2, written.type),
      (1, written.name)] := by
  have hattributes : ∀ before, (Pattern.group 5 (many (· != '\n')) ++ textEnd).Takes before
      written.attributes [] [(5, written.attributes)] := fun before => by
    have hline : ∀ c ∈ written.attributes, (c != '\n') = true := fun c hc => by
      simpa using fun hfeed : c = '\n' => h.line (hfeed ▸ hc)
    exact ((takes_many hline (by simp)).group 5).append_nothing takes_textEnd
  have hmodifiers : ∀ before, (Pattern.group 4 (.star modifierForm)).Takes before
      (modifiersText written.modifiers) (written.attributes ++ [])
        [(4, modifiersText written.modifiers)] := by
    intro before
    rw [List.append_nil]
    exact (takes_modifiers h.unmodified).group 4
  have htype : Stops isWordChar (written.behind ++ []) := by
    rw [List.append_nil]
    cases hargument : written.argument with
    | none => exact (h.bare hargument).1
    | some argument =>
        rw [behind, hargument]
        simp [argumentText]
        decide
  change fieldForm.Takes [] _ [] ((([(5, written.attributes)] ++
    [(4, modifiersText written.modifiers)]) ++ [(2, written.type)]) ++ [(1, written.name)])
  simp only [fieldForm, takes_assoc]
  have hname : Stops isWordChar (written.gap ++ (written.type ++ written.behind) ++ []) := by
    rw [List.append_assoc]
    exact h.gap.1.stops_of_ne_nil h.gap.2 (fun _ => Text.not_isWordChar_of_isBlank) _
  refine takes_textStart.after_nothing (((takes_word h.name hname).group 1).append ?_)
  refine (takes_someBlanks h.gap.1 h.gap.2 ?_).seq ?_
  · rw [List.append_assoc]
    exact h.type.stops_isBlank _
  refine ((takes_word h.type htype).group 2).append ?_
  refine Takes.seq ?_ ((hmodifiers _).append (hattributes _))
  simpa using h.takes_argument

/-- A field is read as what is meant. -/
lemma Proper.ofLine?_text (h : written.Proper) :
    Field.ofLine? written.text = some written.field := by
  have hfound := find?_of_takes h.takes_text
  rw [List.append_nil] at hfound
  obtain ⟨hlist, hoptional⟩ := mem_modifiersText written.modifiers
  simp [Field.ofLine?, hfound, Match.group, Match.group?, List.lookup_cons, field, hlist, hoptional,
    List.contains_eq_mem]

/-- A line with the field is read as the field. -/
theorem Proper.ofText_line (h : written.Proper) {line : List Char}
    (hline : Text.trim line = written.text) : Line.ofText line = .field written.field := by
  obtain ⟨c, u, hu⟩ := List.exists_cons_of_ne_nil h.name.ne_nil
  have hat : c ≠ '@' := h.name.forall_ne (by decide) c (hu ▸ List.mem_cons_self)
  have hempty : written.text.isEmpty = false := by simp [text, hu]
  have hblock : ['@', '@'].isPrefixOf written.text = false := by
    simp [text, hu, List.isPrefixOf, hat.symm]
  simp [Line.ofText, hline, hempty, hblock, h.ofLine?_text]

end WrittenField

end SchemaReader.ModelFile
