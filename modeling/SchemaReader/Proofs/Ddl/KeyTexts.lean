/-
The texts of a foreign key, and what they are read as.

* `SpelledKey.alteration`: the statement that adds the key to its table;
* `SpelledKey.Free`: the name of the column begins neither a statement nor a constraint;
* `closed_inlineText`, `closed_keyText`, `still_inlineText`, `still_keyText`: the texts of a key
  stand in a list, and no statement begins in them;
* `ofText_columnText`, `ofText_inlineText`, `ofText_keyText`: the entries that they are read as;
* `finds_alteration`: the added key is found.
-/
import SchemaReader.Proofs.Ddl.OneTable
import SchemaReader.Proofs.Ddl.ReadEntry

namespace SchemaReader.Ddl

open Text (IsWord IsGap IsKeyword Spells Stops isWordChar isBlank)
open Pattern

namespace SpelledKey

/-- ` ALTER TABLE T ADD FOREIGN KEY (L) REFERENCES R(C);` -/
def alteration (key : SpelledKey) : List Char :=
  [' '] ++ (("ALTER ".toList ++ ("TABLE ".toList ++ (key.table ++ ([' '] ++
    ("ADD ".toList ++ key.keyText))))) ++ [';'])

lemma alteration_eq (key : SpelledKey) : key.alteration
    = [' '] ++ (("ALTER ".toList ++ ("TABLE ".toList ++ (key.table ++ ([' '] ++
        ("ADD ".toList ++ key.keyText))))) ++ [';']) := rfl

/-- The name of the column begins neither a statement nor a constraint. -/
structure Free (key : SpelledKey) : Prop where
  leading : ∀ K ∈ leadingWords, ¬ Spells K.toList key.column
  constraint : String.ofList (Text.upper key.column) ∉ constraintWords

end SpelledKey

variable {key : SpelledKey} {before u v w rest : List Char}

/-! ### Closed texts -/

lemma closed_capitals {P : Char → Prop} (hP : HoldsWords P) {text : List Char}
    (h : ∀ c ∈ text, isWordChar c = true ∨ isBlank c = true) : Closed .script P text :=
  closed_of_forall fun c hc => (h c hc).elim
    (fun hword => ⟨isPlain_of_isWordChar hword, hP.word c hword⟩)
    fun hblank => ⟨isPlain_of_isBlank hblank, hP.blank c hblank⟩

/-- A class that holds white space, the characters of words and the period. -/
structure HoldsNames (P : Char → Prop) : Prop extends HoldsWords P where
  period : P '.'

lemma holdsNames_ne_comma : HoldsNames (· ≠ ',') := ⟨holdsWords_ne_comma, by decide⟩

section Closed

variable {P : Char → Prop} (hP : HoldsNames P) (h : key.Proper)

include hP h

lemma closed_columnText : Closed .script P key.columnText :=
  (IsWord.closed h.column hP.word).append
    (.cons (by decide) (hP.blank ' ' (by decide)) (IsWord.closed h.type hP.word))

lemma closed_references : Closed .script P key.references := by
  have hlist : Closed .script P key.list := by
    obtain ⟨table, column, type, target, targetColumn⟩ := key
    cases targetColumn with
    | none => exact .nil P
    | some c =>
        exact .bracket P (by decide) (by decide)
          (closed_around (h.targetColumn _ rfl) fun _ _ => trivial)
  rw [key.references_eq]
  refine (closed_capitals hP.toHoldsWords (by decide)).append ?_
  exact (closed_text h.target hP.toHoldsWords hP.period).append hlist

lemma closed_inlineText : Closed .script P key.inlineText :=
  (closed_columnText hP h).append
    (.cons (by decide) (hP.blank ' ' (by decide)) (closed_references hP h))

lemma closed_keyText : Closed .script P key.keyText := by
  have hcolumn : Closed .script (fun _ => True) key.column :=
    IsWord.closed h.column fun _ _ => trivial
  rw [key.keyText_eq]
  refine (closed_capitals hP.toHoldsWords (by decide)).append ?_
  refine (closed_capitals hP.toHoldsWords (by decide)).append ?_
  refine (closed_capitals hP.toHoldsWords (by decide)).append ?_
  refine Closed.append (.bracket P (by decide) (by decide) hcolumn) ?_
  exact (closed_capitals hP.toHoldsWords (by decide)).append (closed_references hP h)

end Closed

/-! ### Texts without statements -/

/-- What a key points at is no beginning of a statement, nor is what follows it. -/
lemma still_references (h : key.Proper) (hrest : EndsKey rest) : Still key.references rest := by
  have hblank : Stops isBlank rest := hrest.stops (by decide)
  have hword : Stops isWordChar rest := hrest.stops (by decide)
  obtain ⟨table, column, type, target, targetColumn⟩ := key
  have htarget := h.target
  have hkeyword : ∀ rest, Still "REFERENCES ".toList rest := fun _ =>
    still_keyword spacedKeyword_references (by decide)
  cases targetColumn with
  | none =>
      refine (hkeyword _).append (Still.append ?_ still_nil)
      exact still_text htarget (bars_of_stops hblank hword)
  | some c =>
      obtain ⟨quoting, c⟩ := c
      have hcolumn : (WrittenName.mk none quoting c).Proper :=
        ⟨h.targetColumn _ rfl, by simp⟩
      have hopen : ∀ v : List Char, Bars ('(' :: v) := fun v =>
        bars_of_stops (by simp; decide) (by simp; decide)
      have hclose : ∀ v : List Char, Bars (')' :: v) := fun v =>
        bars_of_stops (by simp; decide) (by simp; decide)
      refine (hkeyword _).append (Still.append (still_text htarget (hopen _)) ?_)
      refine Still.append (u := ['(']) (still_outside (by decide)) ?_
      exact Still.append (still_text hcolumn (hclose _)) (still_outside (by decide))

lemma still_keyText (h : key.Proper) (hrest : EndsKey rest) : Still key.keyText rest := by
  have hforeign : SpacedKeyword "FOREIGN" "FOREIGN ".toList :=
    spacedKeyword_space (by decide) rfl
  rw [key.keyText_eq]
  refine (still_keyword hforeign (by decide)).append ?_
  refine (still_free_word (by decide) (by decide) (by simp; decide)).append ?_
  refine (still_gap (by decide)).append (Still.append ?_ ?_)
  · refine Still.append (u := ['(']) (still_outside (by decide)) ?_
    refine Still.append (still_word h.column ?_) (still_outside (by decide))
    exact bars_of_stops (by simp; decide) (by simp; decide)
  · exact (still_gap (by decide)).append (still_references h hrest)

section Still

variable (h : key.Proper) (hfree : key.Free)

include h hfree

lemma still_columnText (hrest : Bars rest) : Still key.columnText rest := by
  have hblank : isBlank ' ' = true := by decide
  refine Still.append (still_free_word h.column hfree.leading ?_) ?_
  · simpa using Text.not_isWordChar_of_isBlank hblank
  · exact Still.append (u := [' ']) (still_gap (by decide)) (still_word h.type hrest)

lemma still_inlineText (hrest : EndsKey rest) : Still key.inlineText rest := by
  refine Still.append (still_columnText h hfree ?_) ?_
  · rw [key.references_eq]
    exact bars_keyword (g := [' ']) (by decide) (by simp) spacedKeyword_references (by decide)
  · exact Still.append (u := [' ']) (still_gap (by decide)) (still_references h hrest)

end Still

/-! ### Entries -/

lemma trim_columnText (h : key.Proper) : Text.trim key.columnText = key.columnText := by
  have hstart : Stops isBlank key.columnText := h.column.stops_isBlank _
  have hend : Stops isBlank key.columnText.reverse := by
    have hreverse : key.columnText.reverse = key.type.reverse ++ (key.column ++ [' ']).reverse := by
      simp [SpelledKey.columnText]
    have hlast := h.type.stops_reverse fun _ => Text.not_isBlank_of_isWordChar
    rw [hreverse]
    exact hlast.append_of_ne_nil (List.reverse_ne_nil_iff.mpr h.type.ne_nil) _
  exact Text.trimWhere_self hstart hend

lemma stops_isBlank_text_reverse {R : WrittenName} (hR : R.Proper) :
    Stops isBlank R.text.reverse := by
  obtain ⟨qualifier, quoting, name⟩ := R
  have hname : Stops isBlank (quoting.around name).reverse :=
    Quoting.stops_isBlank_around_reverse hR.isWord
  have hne : (quoting.around name).reverse ≠ [] :=
    List.reverse_ne_nil_iff.mpr (Quoting.around_ne_nil hR.isWord.ne_nil)
  cases qualifier with
  | none => exact hname
  | some qualifier =>
      simpa [WrittenName.text] using hname.append_of_ne_nil hne _

/-- What a key points at ends with a name or a parenthesis. -/
lemma stops_reverse_references (h : key.Proper) : Stops isBlank key.references.reverse := by
  obtain ⟨table, column, type, target, targetColumn⟩ := key
  rw [SpelledKey.references_eq, List.reverse_append]
  have htarget : target.text.reverse ≠ [] :=
    List.reverse_ne_nil_iff.mpr (WrittenName.text_ne_nil h.target)
  cases targetColumn with
  | none =>
      simpa [SpelledKey.list] using
        (stops_isBlank_text_reverse h.target).append_of_ne_nil htarget _
  | some c =>
      simp [SpelledKey.list]
      decide

lemma stops_reverse_append_references (h : key.Proper) (u : List Char) :
    Stops isBlank (u ++ key.references).reverse := by
  have hne : key.references.reverse ≠ [] := by
    rw [key.references_eq]
    simp
  rw [List.reverse_append]
  exact (stops_reverse_references h).append_of_ne_nil hne _

lemma trim_inlineText (h : key.Proper) : Text.trim key.inlineText = key.inlineText := by
  have hstart : Stops isBlank key.inlineText := by
    rw [SpelledKey.inlineText, SpelledKey.columnText, List.append_assoc]
    exact h.column.stops_isBlank _
  have hend : Stops isBlank (key.columnText ++ [' '] ++ key.references).reverse :=
    stops_reverse_append_references h _
  refine Text.trimWhere_self hstart ?_
  simpa [SpelledKey.inlineText] using hend

/-- The clause behind the comma and the space. -/
lemma trim_space_keyText (h : key.Proper) : Text.trim (' ' :: key.keyText) = key.keyText := by
  have hforeign : SpacedKeyword "FOREIGN" "FOREIGN ".toList := spacedKeyword_space (by decide) rfl
  have hstart : Stops isBlank key.keyText := by
    rw [key.keyText_eq]
    exact hforeign.stops_isBlank _
  have hend : Stops isBlank key.keyText.reverse := by
    have hsplit := stops_reverse_append_references h
      ("FOREIGN ".toList ++ ("KEY".toList ++ ([' '] ++ (('(' :: (key.column ++ [')'])) ++ [' ']))))
    simp only [List.append_assoc] at hsplit
    rw [key.keyText_eq]
    exact hsplit
  have hne : key.keyText ≠ [] := by
    rw [key.keyText_eq]
    simp
  have htrim := Text.trim_gaps (g := [' ']) (h := []) (by decide) Text.isGap_nil hstart hend hne
  rw [List.append_nil] at htrim
  exact htrim

section Entries

variable (h : key.Proper) (hfree : key.Free)

include h hfree

/-- A column is read with the options behind its type. -/
lemma ofText_columnText_append (hr : BeginsOptions rest) (hword : Stops isWordChar rest) :
    TableEntry.ofText (key.columnText ++ rest) = .column {
      name := String.ofList key.column
      type := String.ofList key.type
      nullable := !notNullForm.occursIn (maskNested .script rest)
      primaryKey := inlinePrimaryKeyForm.occursIn (maskNested .script rest)
      unique := inlineUniqueForm.occursIn (maskNested .script rest)
      references := inlineForeignKey? (String.ofList key.column) rest
        (maskNested .script rest) } := by
  have htype : (ColumnType.mk key.type none).Proper := ⟨h.type, by simp⟩
  have hcolumn := ofText?_column h.column (g := [' ']) (by decide) (by simp) htype hr fun _ => hword
  have hsplit : key.columnText ++ rest = key.column ++ ([' '] ++ (key.type ++ rest)) := by
    simp [SpelledKey.columnText]
  have hnot : looksLikeConstraint (key.columnText ++ rest) = false := by
    rw [looksLikeConstraint, hsplit, firstWord_append h.column (endsFirstWord_gap (by decide)
      (by simp) _), List.contains_eq_mem, decide_eq_false hfree.constraint, Bool.false_and]
  refine ofText_of_ofText? hnot ?_
  rw [hsplit]
  exact hcolumn

/-- A column without options is read as such. -/
lemma ofText_columnText : TableEntry.ofText key.columnText
    = .column ⟨String.ofList key.column, String.ofList key.type, true, false, false, none⟩ := by
  have hread := ofText_columnText_append h hfree (show BeginsOptions [] from Or.inl rfl) (by simp)
  rw [List.append_nil] at hread
  rw [hread]
  rfl

/-- A column with a key is read with the key, if its name begins with a plain part, and as unique,
if a plain part spells the word for it. -/
lemma ofText_inlineText : TableEntry.ofText key.inlineText = .column ⟨String.ofList key.column,
    String.ofList key.type, true, false, decide (key.target.Shows "UNIQUE"),
      if key.target.OpensPlain then some key.foreignKey else none⟩ := by
  have hbegins : BeginsOptions (' ' :: key.references) := by
    refine Or.inr ⟨[' '], "REFERENCES".toList, ' ' :: (key.target.text ++ key.list), "REFERENCES",
      ?_, by decide, by decide, Text.Cased.spells rfl, by simp; decide, by decide⟩
    rw [key.references_eq]
    exact congrArg (' ' :: ·) (List.append_assoc "REFERENCES".toList [' '] _)
  have hunique : inlineUniqueForm.occursIn (maskNested .script (' ' :: key.references))
      = decide (key.target.Shows "UNIQUE") := by
    rw [Bool.eq_iff_iff, occursIn_inlineUniqueForm_masked h, decide_eq_true_iff]
  have hkey : inlineForeignKey? (String.ofList key.column) (' ' :: key.references)
      (maskNested .script (' ' :: key.references))
        = if key.target.OpensPlain then some key.foreignKey else none := by
    split
    case isTrue hplain => exact inlineForeignKey?_references h hplain
    case isFalse hquoted => exact inlineForeignKey?_eq_none_of_quoted h hquoted
  have hread := ofText_columnText_append h hfree hbegins (by simp; decide)
  rw [not_occursIn_notNullForm h, not_occursIn_inlinePrimaryKeyForm h, hunique, hkey] at hread
  exact hread

end Entries

/-- The form of a foreign key takes the clause. -/
lemma takes_keyText (h : key.Proper) (hrest : EndsKey rest) (n : Nat) :
    (opt constraintName ++ foreignKeyBody n).Takes before key.keyText rest
      (key.captures (n + 1) ++ [(n, key.column)]) := by
  have hforeign : SpacedKeyword "FOREIGN" "FOREIGN ".toList :=
    spacedKeyword_space (by decide) rfl
  have hblank : Stops isBlank (key.references ++ rest) := by
    rw [key.references_eq, List.append_assoc]
    exact spacedKeyword_references.stops_isBlank _
  have hcolumn : ∀ c ∈ key.column, c ≠ ')' := h.column.forall_ne (by decide)
  rw [key.keyText_eq]
  exact takes_unnamedKey hforeign (takes_foreignKeyBody n hforeign (Text.Cased.spells rfl)
    (by decide) hcolumn (by decide) (fun _ => takes_references h hrest (n + 1)) hblank)

lemma namesOf_word (hw : IsWord w) : namesOf w = [String.ofList w] := by
  have haround : namesOf (Quoting.plain.around w) = [String.ofList w] := namesOf_around hw
  exact haround

/-- A clause is read as the key. -/
lemma ofText_keyText (h : key.Proper) :
    TableEntry.ofText key.keyText = .foreignKey key.foreignKey := by
  have hfind := find?_of_eq_append (List.append_nil _).symm
    (takes_foreignKeyForm (takes_keyText h (show EndsKey [] by simp [EndsKey]) 1))
  have hread : constraint? key.keyText = some (.foreignKey key.foreignKey) := by
    have hcolumns : (key.captures 2 ++ [(1, key.column)]).lookup 1 = some key.column := by
      obtain ⟨table, column, type, target, targetColumn⟩ := key
      cases targetColumn <;> simp [SpelledKey.captures, List.lookup_cons]
    have hkey : ForeignKey.ofMatch [String.ofList key.column] 2 ⟨⟨[], key.keyText, 0⟩,
        ⟨key.keyText.reverse, [], key.keyText.length⟩, key.captures 2 ++ [(1, key.column)]⟩
          = key.foreignKey := ofMatch_captures h rfl rfl
    simp [constraint?_of_foreignKeyForm hfind, Match.group, Match.group?, hcolumns,
      namesOf_word h.column, hkey]
  have hlooks : looksLikeConstraint key.keyText = true := by
    have hword : IsWord "FOREIGN".toList := by decide
    have hkey : IsWord "KEY".toList := by decide
    have htext : key.keyText = "FOREIGN".toList ++ ([' '] ++ ("KEY".toList ++
        (' ' :: ('(' :: (key.column ++ [')'])) ++ ([' '] ++ key.references)))) := by
      rw [key.keyText_eq]
      exact List.append_assoc "FOREIGN".toList [' '] _
    rw [looksLikeConstraint, htext, firstWord_append hword (by simp; decide),
      secondWordIsType_append hword (by decide) (by simp) hkey (by simp; decide)]
    decide
  rw [TableEntry.ofText, hlooks, if_pos rfl, hread, Option.getD_some]

/-! ### The altered table -/

/-- The form of a created table, or of a created index, reads nothing of the alteration. -/
lemma silent_alteration (h : key.Proper) {q b : Pattern} {K : String} (hhead : IsHead q K b)
    (hq : q ∈ heads) (hK : K ≠ "ALTER") : Silent q before key.alteration [] := by
  have hne : ∀ L ∈ ["TABLE", "ADD"], K ≠ L := by
    rintro L hL rfl
    have hnot : ∀ L ∈ ["TABLE", "ADD"], L ∉ leadingWords := by decide
    exact hnot K hL hhead.leads
  have hadd : SpacedKeyword "ADD" "ADD ".toList :=
    spacedKeyword_space (by decide) rfl
  have halter : SpacedKeyword "ALTER" "ALTER ".toList :=
    spacedKeyword_space (by decide) rfl
  rw [key.alteration_eq]
  simp only [List.append_assoc]
  refine silent_append.mpr ⟨still_gap (by decide) q hq _, silent_append.mpr ⟨?_, ?_⟩⟩
  · exact hhead.silent_keyword halter hK
  refine silent_append.mpr ⟨?_, silent_append.mpr ⟨?_, ?_⟩⟩
  · exact hhead.silent_keyword spacedKeyword_table (hne _ (by decide))
  · refine still_word h.table ?_ q hq _
    have hbars : Bars ([' '] ++ ("ADD ".toList ++ (key.keyText ++ [';']))) :=
      bars_keyword (by decide) (by simp) hadd (by decide)
    simpa using hbars
  refine silent_append.mpr ⟨still_gap (by decide) q hq _, silent_append.mpr ⟨?_, ?_⟩⟩
  · exact hhead.silent_keyword hadd (hne _ (by decide))
  refine silent_append.mpr ⟨still_keyText h (by simp [EndsKey]) q hq _, ?_⟩
  exact still_outside (by decide) q hq _

/-- The form of an added key takes the alteration. -/
lemma finds_alteration (h : key.Proper) :
    Finds addForeignKeyForm before key.alteration
      [([';'], (key.captures 3 ++ [(2, key.column)]) ++ [(1, key.table)])] := by
  have hq : addForeignKeyForm ∈ heads := by simp [heads]
  have hadd : SpacedKeyword "ADD" "ADD ".toList :=
    spacedKeyword_space (by decide) rfl
  have halter : SpacedKeyword "ALTER" "ALTER ".toList :=
    spacedKeyword_space (by decide) rfl
  have hforeign : SpacedKeyword "FOREIGN" "FOREIGN ".toList :=
    spacedKeyword_space (by decide) rfl
  have hkey : ∀ before, (opt constraintName ++ foreignKeyBody 2).Takes before key.keyText [';']
      (key.captures 3 ++ [(2, key.column)]) := fun _ => takes_keyText h (by simp [EndsKey]) 2
  rw [key.keyText_eq] at hkey
  have hblank : Stops isWordChar ([' '].reverse ++ before) := by simp; decide
  have htakes := takes_addForeignKeyForm halter spacedKeyword_table h.table (g := [' ']) (by decide)
    (by simp) hadd hforeign (by decide) hkey hblank
  rw [← key.keyText_eq] at htakes
  rw [key.alteration_eq]
  refine Finds.skip (still_gap (by decide) _ hq _) (Finds.found (u := []) trivial htakes ?_ ?_)
  · simp
  · refine .stop (still_outside (by decide) _ hq _) ?_
    exact isHead_addForeignKeyForm.wordLed.fails_nil

end SchemaReader.Ddl
