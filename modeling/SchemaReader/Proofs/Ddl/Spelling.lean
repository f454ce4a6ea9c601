/-
Foreign keys of one column, in every spelling of what they point at.

* `SpelledKey`: a column, its type, and a foreign key that may be spelled in many ways;
* `SpelledKey.inlineText`, `SpelledKey.keyText`: the key as an option of its column and as a clause,
  and `SpelledKey.schema`, which it means;
* `takes_references`: the form of what a foreign key points at takes it in every spelling.
-/
import SchemaReader.Proofs.Ddl.Forms
import SchemaReader.Proofs.Lexical.Lists

namespace SchemaReader.Ddl

open Text (IsWord IsGap IsKeyword Spells Stops isWordChar isBlank)
open Pattern

/-! ### Spelled keys -/

/-- A table with one column, which points at another table.  All names are words, and those of what
the column points at may be written in any way. -/
structure SpelledKey where
  table : List Char
  column : List Char
  type : List Char
  target : WrittenName
  /-- The column pointed at with its quoting, if it is written. -/
  targetColumn : Option (Quoting × List Char)
  deriving DecidableEq, Repr

namespace SpelledKey

structure Proper (key : SpelledKey) : Prop where
  table : IsWord key.table
  column : IsWord key.column
  type : IsWord key.type
  target : key.target.Proper
  targetColumn : ∀ c ∈ key.targetColumn, IsWord c.2

/-- The list of the column pointed at, if it is written. -/
def list (key : SpelledKey) : List Char :=
  match key.targetColumn with
  | none => []
  | some (quoting, c) => '(' :: (quoting.around c ++ [')'])

/-- `REFERENCES R(C)`. -/
def references (key : SpelledKey) : List Char :=
  "REFERENCES ".toList ++ (key.target.text ++ key.list)

lemma references_eq (key : SpelledKey) :
    key.references = "REFERENCES ".toList ++ (key.target.text ++ key.list) := rfl

/-- `L Ty`. -/
def columnText (key : SpelledKey) : List Char := key.column ++ ' ' :: key.type

/-- `L Ty REFERENCES R(C)`. -/
def inlineText (key : SpelledKey) : List Char := key.columnText ++ ' ' :: key.references

/-- `FOREIGN KEY (L) REFERENCES R(C)`. -/
def keyText (key : SpelledKey) : List Char :=
  "FOREIGN ".toList ++ ("KEY".toList ++ ([' '] ++ (('(' :: (key.column ++ [')'])) ++
    ([' '] ++ key.references))))

lemma keyText_eq (key : SpelledKey) : key.keyText
    = "FOREIGN ".toList ++ ("KEY".toList ++ ([' '] ++ (('(' :: (key.column ++ [')'])) ++
        ([' '] ++ key.references)))) := rfl

/-- What the column points at: the column `id`, where none is written. -/
def reference (key : SpelledKey) : Reference :=
  ⟨String.ofList key.target.name, (key.targetColumn.map fun c => String.ofList c.2).getD "id"⟩

/-- The schema with the column and its relation. -/
def schema (key : SpelledKey) (rawPath : String) : Schema :=
  let table := String.ofList key.table
  let column := String.ofList key.column
  ⟨.sql, [⟨table, [⟨column, String.ofList key.type, true, false, some key.reference⟩], []⟩],
    [⟨table, column, key.reference.table, key.reference.column, .oneToMany⟩], rawPath⟩

/-- What the key is read as. -/
def foreignKey (key : SpelledKey) : ForeignKey :=
  ⟨[String.ofList key.column], String.ofList key.target.name,
    key.targetColumn.map fun c => [String.ofList c.2]⟩

/-- What its form remembers of a key, where the group `n` is the table. -/
def captures (key : SpelledKey) (n : Nat) : Captures :=
  (key.targetColumn.toList.map fun c => (n + 1, c.1.around c.2)) ++ [(n, key.target.text)]

end SpelledKey

variable {key : SpelledKey} {R : WrittenName} {quoting : Quoting} {dialect : Dialect}
    {q b : Pattern}
  {before w g u v rest : List Char}

/-! ### Characters of written names -/

lemma closed_around {P : Char → Prop} (hw : IsWord w) (hP : ∀ c, isWordChar c = true → P c) :
    Closed dialect P (quoting.around w) := by
  have hquote : ∀ d, isWordChar d = false → ∀ c ∈ w, dialect.Keeps d c := fun d hd c hc =>
    keeps_of_isWordChar (hw.chars c hc) hd
  cases quoting with
  | plain => exact IsWord.closed hw hP
  | double => exact .literal P (by decide) (hquote _ (by decide))
  | back => exact .literal P (by decide) (hquote _ (by decide))
  | square => exact .bracket P (by decide) (by decide) (IsWord.closed hw fun _ _ => trivial)

lemma closed_text {P : Char → Prop} (hR : R.Proper) (hP : HoldsWords P) (hdot : P '.') :
    Closed dialect P R.text := by
  obtain ⟨qualifier, quoting, name⟩ := R
  cases qualifier with
  | none => exact closed_around hR.isWord hP.word
  | some qualifier =>
      obtain ⟨hw, hg, hh⟩ := hR.qualifier _ rfl
      refine (closed_around hw hP.word).append ((IsGap.closed hg hP.blank).append ?_)
      refine .cons (by decide) hdot ((IsGap.closed hh hP.blank).append ?_)
      exact closed_around hR.isWord hP.word

/-- A written name in a list of its own is read as the bare name. -/
lemma namesOf_around (hw : IsWord w) : namesOf (quoting.around w) = [String.ofList w] := by
  have htrim : ∀ quoting : Quoting, Text.trim (quoting.around w) = quoting.around w := by
    intro quoting
    have hgaps : Text.trim ([] ++ (quoting.around w ++ [])) = quoting.around w :=
      Quoting.trim_around hw Text.isGap_nil Text.isGap_nil
    simpa using hgaps
  have hword : ∀ quoting : Quoting,
      splitTopLevel .script ',' (quoting.around w) = [quoting.around w] := by
    intro quoting
    rw [splitTopLevel_of_closed (closed_around hw fun _ => ne_comma_of_isWordChar)
      (by rw [htrim]; exact Quoting.around_ne_nil hw.ne_nil), htrim]
  have hread : ∀ quoting : Quoting, leadingIdentifier (quoting.around w) = w := by
    intro quoting
    have hgaps : leadingIdentifier ([] ++ (quoting.around w ++ [])) = w :=
      leadingIdentifier_around hw Text.isGap_nil Text.isGap_nil
    simpa using hgaps
  -- square brackets around the whole list are taken for the brackets of the list
  obtain ⟨quoting', hquoting⟩ : ∃ quoting' : Quoting,
      withoutOuterBrackets (quoting.around w) = quoting'.around w := by
    cases quoting with
    | plain =>
        refine ⟨.plain, ?_⟩
        simpa [Quoting.around, Quoting.marks?] using withoutOuterBrackets_of_isWord hw []
    | double => exact ⟨.double, rfl⟩
    | back => exact ⟨.back, rfl⟩
    | square =>
        refine ⟨.plain, ?_⟩
        simp [Quoting.around, Quoting.marks?, withoutOuterBrackets]
  rw [namesOf, identifierList, htrim, hquoting, hword]
  simp [hread, hw.ne_nil]

/-! ### What a key points at -/

/-- A text goes on with a closing parenthesis or a semicolon, or not at all. -/
def EndsKey (text : List Char) : Prop := ∀ c ∈ text.head?, c ∈ [')', ';']

lemma EndsKey.stops {p : Char → Bool} (h : EndsKey rest) (hp : ∀ c ∈ [')', ';'], p c = false) :
    Stops p rest := fun c hc => hp c (h c hc)

lemma ne_closing_around (hw : IsWord w) : ∀ c ∈ quoting.around w, c ≠ ')' := by
  refine Quoting.forall_mem_around (hw.forall_ne (by decide)) fun m hm => ?_
  cases quoting <;> simp [Quoting.marks?] at hm <;> subst hm <;> decide

/-- What a foreign key points at is taken in every spelling. -/
theorem takes_references (h : key.Proper) (hrest : EndsKey rest) (n : Nat) :
    (referencesForm n).Takes before key.references rest (key.captures n) := by
  have hspaced : SpacedKeyword "REFERENCES" "REFERENCES ".toList :=
    spacedKeyword_space (by decide) rfl
  obtain ⟨table, column, type, target, targetColumn⟩ := key
  cases targetColumn with
  | none =>
      have htakes : (referencesForm n).Takes before ("REFERENCES ".toList ++ (target.text ++ []))
          rest [(n, target.text)] :=
        takes_referencesForm_unlisted n hspaced h.target Text.isGap_nil (hrest.stops (by decide))
          (hrest.stops (by decide)) (hrest.stops (by decide)) fun _ =>
            hrest.stops (by decide)
      exact htakes
  | some c =>
      obtain ⟨quoting, c⟩ := c
      have htakes : (referencesForm n).Takes before ("REFERENCES ".toList ++ (target.text ++
          ([] ++ ('(' :: (quoting.around c ++ [')']))))) rest
            ([(n + 1, quoting.around c)] ++ [(n, target.text)]) :=
        takes_referencesForm_listed n hspaced h.target Text.isGap_nil
          (ne_closing_around (h.targetColumn _ rfl))
      exact htakes

/-- What is remembered of a key, in front of groups with smaller numbers, gives the key. -/
lemma ofMatch_captures (h : key.Proper) {found : Match} {caught : Captures} {n : Nat}
    (hfound : found.captures = key.captures n ++ caught) (hcaught : caught.lookup (n + 1) = none) :
    ForeignKey.ofMatch [String.ofList key.column] n found = key.foreignKey := by
  obtain ⟨table, column, type, target, targetColumn⟩ := key
  have hname : nameOf target.text = String.ofList target.name := nameOf_text h.target
  have hnext : (n == n + 1) = false := by simp
  have hback : (n + 1 == n) = false := by simp
  cases targetColumn with
  | none =>
      simp [ForeignKey.ofMatch, Match.group, Match.group?, hfound, SpelledKey.captures,
        SpelledKey.foreignKey, List.lookup_cons, hname, hback, hcaught]
  | some c =>
      obtain ⟨quoting, c⟩ := c
      have hnames : namesOf (quoting.around c) = [String.ofList c] :=
        namesOf_around (h.targetColumn _ rfl)
      simp [ForeignKey.ofMatch, Match.group, Match.group?, hfound, SpelledKey.captures,
        SpelledKey.foreignKey, List.lookup_cons, hname, hnames, hnext]

end SchemaReader.Ddl
