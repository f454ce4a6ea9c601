/-
Columns whose types are written like names.

* `IsIdentifier`: a text that identifiers read as a whole, in any spelling, with
  `IsIdentifier.takes`: so it is taken where no character of a name and no period follows;
* `IsIdentifier.eq_sign_cons`, `IsIdentifier.dropWhile_eq`: what such a text begins with, if it
  begins with no word, and what stands behind the word that it begins with;
* `TypedColumn`: a column with its type and its options, as it is written;
* `TypedColumn.columns_ofText`: of a table with such columns, those are found whose type begins with
  a word, and of each type that word.
-/
import SchemaReader.Proofs.Ddl.JoinedScripts
import SchemaReader.Proofs.Ddl.ListedNames
import SchemaReader.Proofs.Pattern.Outcomes
import SchemaReader.Proofs.Schema.ColumnNames

namespace SchemaReader.Ddl

open Text (IsWord IsGap Stops Mentions isWordChar isBlank)
open Pattern

variable {before t u v w rest : List Char} {c : Char}

/-! ### Identifiers in any spelling -/

/-- A text that identifiers read as a whole: plain or between marks, with or without a qualifier. -/
def IsIdentifier (text : List Char) : Prop := identifier.Reads [] text []

instance (text : List Char) : Decidable (IsIdentifier text) :=
  decidable_of_iff (∃ o ∈ identifier.outcomes [] text, o.1 = text) <| by
    have hread : (∃ caught, (text, caught) ∈ identifier.outcomes [] text) ↔
        ∃ rest, text = text ++ rest ∧ identifier.Reads [] text rest := mem_outcomes_iff
    constructor
    · rintro ⟨o, ho, rfl⟩
      obtain ⟨rest, hrest, h⟩ := hread.mp ⟨o.2, ho⟩
      obtain rfl : rest = [] := by simpa using hrest
      exact h
    · intro h
      obtain ⟨caught, hmem⟩ := hread.mpr ⟨[], by simp, h⟩
      exact ⟨_, hmem, rfl⟩

/-- The marks that a part of an identifier can begin with. -/
def openingMarks : List Char := ['"', Char.ofNat 0x60, '[']

/-- What is read between two marks holds no second one. -/
lemma exists_of_reads_between {o d : Char}
    (h : (char o ++ many1 (· != d) ++ char d).Reads before w rest) :
    ∃ u, w = o :: (u ++ [d]) ∧ u ≠ [] ∧ ∀ c ∈ u, c ≠ d := by
  obtain ⟨u, v, rfl, ⟨x, y, rfl, ⟨c, hc, rfl⟩, ⟨m, n, rfl, ⟨c', hc', rfl⟩, hn⟩⟩,
      ⟨c'', hc'', rfl⟩⟩ := h
  obtain rfl : c = o := by simpa using hc
  obtain rfl : c'' = d := by simpa using hc''
  refine ⟨c' :: n, by simp, by simp, List.forall_mem_cons.mpr ⟨by simpa using hc', fun e he => ?_⟩⟩
  simpa using hn e he

/-- A part of an identifier is plain or stands between marks. -/
lemma plain_or_between_of_reads (h : namePart.Reads before w rest) :
    IsPlainName w ∨ ∃ o d, (o, d) ∈ [('"', '"'), (Char.ofNat 0x60, Char.ofNat 0x60), ('[', ']')] ∧
      ∃ u, w = o :: (u ++ [d]) ∧ u ≠ [] ∧ ∀ c ∈ u, c ≠ d := by
  rcases h with ((⟨u, v, rfl, ⟨c, hc, rfl⟩, hv⟩ | h) | h) | h
  · exact Or.inl ⟨by simp, List.forall_mem_cons.mpr ⟨hc, hv⟩⟩
  · exact Or.inr ⟨_, _, by simp, exists_of_reads_between h⟩
  · exact Or.inr ⟨_, _, by simp, exists_of_reads_between h⟩
  · exact Or.inr ⟨_, _, by simp, exists_of_reads_between h⟩

/-- A part of an identifier is plain or begins with a mark. -/
lemma plain_or_mark_of_reads (h : namePart.Reads before w rest) :
    IsPlainName w ∨ ∃ c ∈ openingMarks, ∃ v, w = c :: v := by
  refine (plain_or_between_of_reads h).imp_right ?_
  rintro ⟨o, d, hmarks, u, rfl, -⟩
  refine ⟨o, ?_, u ++ [d], rfl⟩
  have hopening : ∀ marks ∈ [('"', '"'), (Char.ofNat 0x60, Char.ofNat 0x60), ('[', ']')],
      marks.1 ∈ openingMarks := by decide
  exact hopening _ hmarks

/-- A part of an identifier is taken as it can be read, where no further name character follows. -/
lemma takes_namePart_of_reads {rest' : List Char} (h : namePart.Reads before w rest)
    (hrest : Stops isNameChar rest') : namePart.Takes u w rest' [] := by
  rcases plain_or_between_of_reads h with hplain | ⟨o, d, hmarks, v, rfl, hne, hv⟩
  · have hname : (many1 isNameChar).Takes u w rest' [] :=
      takes_many1 hplain.ne_nil hplain.chars hrest
    exact ((hname.alt_left _).alt_left _).alt_left _
  · simp only [List.mem_cons, Prod.mk.injEq, List.not_mem_nil, or_false] at hmarks
    obtain ⟨rfl, rfl⟩ | ⟨rfl, rfl⟩ | ⟨rfl, rfl⟩ := hmarks
    · have hother : (many1 isNameChar).Fails u ('"' :: (v ++ ['"']) ++ rest') :=
        fails_of_not_mayBegin rfl (by decide)
      exact (((takes_quoted hne hv).alt_right hother).alt_left _).alt_left _
    · have hother : (many1 isNameChar ||| quoted '"').Fails u
          (Char.ofNat 0x60 :: (v ++ [Char.ofNat 0x60]) ++ rest') :=
        fails_of_not_mayBegin rfl (by decide)
      exact ((takes_quoted hne hv).alt_right hother).alt_left _
    · have hother : (many1 isNameChar ||| quoted '"' ||| quoted (Char.ofNat 0x60)).Fails u
          ('[' :: (v ++ [']']) ++ rest') := fails_of_not_mayBegin rfl (by decide)
      exact (takes_between hne hv).alt_right hother

/-- An identifier begins with a mark or with a plain part, behind which nothing stands or a
period. -/
lemma IsIdentifier.mark_or_plain (h : IsIdentifier t) :
    (∃ c ∈ openingMarks, ∃ v, t = c :: v) ∨
      ∃ w v, t = w ++ v ∧ IsPlainName w ∧ (v = [] ∨ ∃ g x, v = g ++ '.' :: x ∧ IsGap g) := by
  obtain ⟨w, v, rfl, hw, hv⟩ := h
  rcases plain_or_mark_of_reads hw with hw | ⟨c, hc, u, rfl⟩
  · refine Or.inr ⟨w, v, rfl, hw, ?_⟩
    rcases hv with ⟨_, x, rfl, ⟨_, y, rfl, ⟨g, _, rfl, hg, ⟨d, hd, rfl⟩⟩, -⟩, -⟩ | hv
    · obtain rfl : d = '.' := by simpa using hd
      exact Or.inr ⟨g, y ++ x, by simp, hg⟩
    · exact Or.inl hv
  · exact Or.inl ⟨c, hc, u ++ v, rfl⟩

lemma eq_dollar (hname : isNameChar c = true) (hword : isWordChar c = false) : c = '$' := by
  simpa [isNameChar, hword] using hname

/-- What stands in a plain identifier behind its word characters begins with a dollar sign. -/
lemma IsPlainName.dropWhile_eq (hw : IsPlainName w) :
    w.dropWhile isWordChar = [] ∨ ∃ v, w.dropWhile isWordChar = '$' :: v := by
  cases hdrop : w.dropWhile isWordChar with
  | nil => exact Or.inl rfl
  | cons c v =>
      have hstop := Text.stops_dropWhile isWordChar w
      rw [hdrop, Text.stops_cons] at hstop
      have hmem : c ∈ w := (List.dropWhile_suffix isWordChar).subset (hdrop ▸ List.mem_cons_self)
      exact Or.inr ⟨v, by rw [eq_dollar (hw.chars c hmem) hstop]⟩

/-- An identifier that begins with no word begins with a mark or a dollar sign. -/
lemma IsIdentifier.eq_sign_cons (h : IsIdentifier t) (hstop : Stops isWordChar t) :
    ∃ c ∈ '$' :: openingMarks, ∃ v, t = c :: v := by
  rcases h.mark_or_plain with ⟨c, hc, v, rfl⟩ | ⟨w, v, rfl, hw, -⟩
  · exact ⟨c, List.mem_cons_of_mem _ hc, v, rfl⟩
  · obtain ⟨c, w, rfl⟩ := List.exists_cons_of_ne_nil hw.ne_nil
    have hdollar := eq_dollar (hw.chars c List.mem_cons_self) (Text.stops_cons.mp hstop)
    exact ⟨c, hdollar ▸ List.mem_cons_self, w ++ v, rfl⟩

/-- Behind the word that an identifier begins with, nothing stands, or a dollar sign, or a
period. -/
lemma IsIdentifier.dropWhile_eq (h : IsIdentifier t) (hstart : ¬ Stops isWordChar t) :
    t.dropWhile isWordChar = [] ∨
      ∃ g c x, t.dropWhile isWordChar = g ++ c :: x ∧ IsGap g ∧ c ∈ ['$', '.'] := by
  rcases h.mark_or_plain with ⟨c, hc, v, rfl⟩ | ⟨w, v, rfl, hw, hv⟩
  · have hmarks : ∀ c ∈ openingMarks, isWordChar c = false := by decide
    exact absurd (Text.stops_cons.mpr (hmarks c hc)) hstart
  have hstop : Stops isWordChar v := by
    rcases hv with rfl | ⟨g, x, rfl, hg⟩
    · exact Text.stops_nil
    · exact hg.stops (fun _ => Text.not_isWordChar_of_isBlank) (by simp; decide)
  have hdrop : (w ++ v).dropWhile isWordChar = w.dropWhile isWordChar ++ v := by
    conv_lhs => rw [← List.takeWhile_append_dropWhile (p := isWordChar) (l := w), List.append_assoc]
    exact Text.dropWhile_append_of_stops (List.all_eq_true.mp List.all_takeWhile)
      ((Text.stops_dropWhile isWordChar w).append hstop)
  rw [hdrop]
  rcases hw.dropWhile_eq with hnil | ⟨x, hx⟩
  · rw [hnil, List.nil_append]
    exact hv.imp_right fun ⟨g, x, hx, hg⟩ => ⟨g, '.', x, hx, hg, by decide⟩
  · exact Or.inr ⟨[], '$', x ++ v, by rw [hx]; rfl, Text.isGap_nil, by decide⟩

lemma IsIdentifier.ne_nil (h : IsIdentifier t) : t ≠ [] := by
  rcases h.mark_or_plain with ⟨c, -, v, rfl⟩ | ⟨w, v, rfl, hw, -⟩
  · simp
  · exact List.append_ne_nil_of_left_ne_nil hw.ne_nil v

/-- An identifier is taken as a whole where neither a period nor a name character follows. -/
lemma IsIdentifier.takes (h : IsIdentifier t) (hperiod : NoPeriod rest)
    (hname : Stops isNameChar rest) : identifier.Takes before t rest [] := by
  obtain ⟨w, v, rfl, hw, hv⟩ := h
  rcases hv with ⟨_, part, rfl, ⟨_, g', rfl, ⟨g, _, rfl, hg, ⟨d, hd, rfl⟩⟩, hg'⟩, hpart⟩ | hv
  · obtain rfl : d = '.' := by simpa using hd
    have hgap : IsGap g := hg
    have hqualifier : namePart.Takes before w (g ++ ['.'] ++ g' ++ part ++ rest) [] := by
      refine takes_namePart_of_reads hw ?_
      simp only [List.append_assoc]
      exact hgap.stops (fun _ => Text.not_isNameChar_of_isBlank) (by simp [isNameChar]; decide)
    have hstart : Stops isBlank (part ++ rest) := by
      rcases plain_or_mark_of_reads hpart with hplain | ⟨c, hc, u, rfl⟩
      · exact hplain.stops_isBlank rest
      · have hmarks : ∀ c ∈ openingMarks, isBlank c = false := by decide
        exact Text.stops_cons.mpr (hmarks c hc)
    have htakes : (blanks ++ char '.' ++ blanks ++ namePart).Takes (w.reverse ++ before)
        (g ++ ['.'] ++ g' ++ part) rest [] := by
      simp only [takes_assoc, List.append_assoc]
      refine (takes_blanks hg (by simp; decide)).seq (takes_char.seq (u := ['.']) ?_)
      exact (takes_blanks hg' hstart).seq (takes_namePart_of_reads hpart hname)
    exact hqualifier.seq htakes.opt
  · obtain rfl : v = [] := hv
    rw [List.append_nil]
    exact (takes_namePart_of_reads hw hname).append_nothing (takes_opt_skip (fails_period hperiod))

/-! ### Written columns -/

/-- A column as it is written. -/
structure TypedColumn where
  name : List Char
  /-- The white space before the type. -/
  gap : List Char
  type : List Char
  /-- The white space behind the type and what stands in parentheses there. -/
  size : Option (List Char × List Char)
  /-- The options, with the white space before them. -/
  options : List Char
  deriving DecidableEq, Repr

namespace TypedColumn

/-- The size with the white space before it. -/
def sizeText (column : TypedColumn) : List Char :=
  match column.size with
  | none => []
  | some (g, u) => g ++ '(' :: (u ++ [')'])

/-- The type as it is written. -/
def written (column : TypedColumn) : List Char := column.type ++ column.sizeText

/-- A column as it stands in a list. -/
def text (column : TypedColumn) : List Char :=
  column.name ++ (column.gap ++ (column.written ++ column.options))

/-- A plain name that no constraint begins with, a type in any spelling, with or without a size, and
options that are not taken for a part of the type. -/
structure Proper (column : TypedColumn) : Prop where
  name : IsPlainName column.name
  free : String.ofList (Text.upper column.name) ∉ constraintWords
  gap : IsGap column.gap
  gap_ne_nil : column.gap ≠ []
  type : IsIdentifier column.type
  size : ∀ p ∈ column.size, IsGap p.1 ∧ ∀ c ∈ p.2, isSizeChar c = true
  options : EndsType column.options
  spaced : Stops (fun c => !isBlank c) column.options

instance (column : TypedColumn) : Decidable column.Proper :=
  decidable_of_iff (IsPlainName column.name ∧
    String.ofList (Text.upper column.name) ∉ constraintWords ∧
      IsGap column.gap ∧ column.gap ≠ [] ∧ IsIdentifier column.type ∧
        (∀ p ∈ column.size, IsGap p.1 ∧ ∀ c ∈ p.2, isSizeChar c = true) ∧ EndsType column.options ∧
          Stops (fun c => !isBlank c) column.options)
    ⟨fun h => ⟨h.1, h.2.1, h.2.2.1, h.2.2.2.1, h.2.2.2.2.1, h.2.2.2.2.2.1, h.2.2.2.2.2.2.1,
      h.2.2.2.2.2.2.2⟩, fun h => ⟨h.1, h.2, h.3, h.4, h.5, h.6, h.7, h.8⟩⟩

/-- What is found of a type: all of it if its name is a word, and the word that it begins with
otherwise. -/
def read (column : TypedColumn) : List Char :=
  if IsWord column.type then column.written else column.type.takeWhile isWordChar

/-- A type is found as it is written exactly if its name is a word. -/
lemma Proper.read_eq_written_iff {column : TypedColumn} (h : column.Proper) :
    column.read = column.written ↔ IsWord column.type := by
  refine ⟨fun heq => ?_, fun hword => if_pos hword⟩
  by_contra hnot
  rw [read, if_neg hnot, written] at heq
  refine hnot ⟨h.type.ne_nil, fun c hc => ?_⟩
  have hmem : c ∈ column.type.takeWhile isWordChar := heq ▸ List.mem_append_left _ hc
  exact List.all_eq_true.mp List.all_takeWhile c hmem

variable {column : TypedColumn}

/-! ### Columns as they are read -/

namespace Proper

/-- A type and what follows it begin like the type. -/
lemma stops_type {p : Char → Bool} (h : column.Proper) (hp : Stops p column.type) :
    Stops p (column.written ++ column.options) := by
  rw [written, List.append_assoc]
  exact hp.append_of_ne_nil h.type.ne_nil _

/-- No type begins with white space or with a period. -/
lemma noPeriod (h : column.Proper) :
    NoPeriod (column.gap ++ (column.written ++ column.options)) := by
  have hmarks : ∀ c ∈ openingMarks, isBlank c = false ∧ (c == '.') = false := by decide
  have hstart : Stops isBlank column.type ∧ Stops (· == '.') column.type := by
    rcases h.type.mark_or_plain with ⟨c, hc, v, htype⟩ | ⟨w, v, htype, hw, -⟩
    · simpa [htype] using hmarks c hc
    · rw [htype]
      exact ⟨hw.stops_isBlank v, hw.stops (fun _ => beq_of_isNameChar (by decide)) v⟩
  exact noPeriod_of_gap h.gap (h.stops_type hstart.1) (h.stops_type hstart.2)

/-- A column does not look like a constraint. -/
lemma looksLikeConstraint_text (h : column.Proper) : looksLikeConstraint column.text = false := by
  have hends : Stops (fun c => !endsFirstWord c)
      (column.gap ++ (column.written ++ column.options)) :=
    endsFirstWord_gap h.gap h.gap_ne_nil _
  rw [looksLikeConstraint, text, firstWord_plainName h.name hends, List.contains_eq_mem,
    decide_eq_false h.free, Bool.false_and]

/-- A column whose type begins with no word is not recognized. -/
lemma ofText_unrecognized (h : column.Proper) (hstop : Stops isWordChar column.type) :
    TableEntry.ofText column.text = .unrecognized := by
  have hsigns : ∀ c ∈ '$' :: openingMarks,
      isBlank c = false ∧ (group 2 typeForm).mayBegin c = false := by decide
  obtain ⟨c, hc, v, htype⟩ := h.type.eq_sign_cons hstop
  obtain ⟨hblank, hmay⟩ := hsigns c hc
  have hfails : columnForm.Fails [] column.text := by
    simp only [columnForm, fails_assoc, fails_textStart_append, fails_group_append]
    intro _
    refine fails_identifier_append ((someBlanks_avoids isNameChar_not_isBlank).append _) h.name
      h.noPeriod (stops_isNameChar_gap h.gap h.gap_ne_nil) ?_
    refine fails_someBlanks_append (by decide) h.gap ?_ fun _ => fails_of_stops rfl ?_
    · exact h.stops_type (by simpa [htype] using hblank)
    · exact h.stops_type (by simpa [htype] using hmay)
  exact ofText_of_ofText?_eq_none h.looksLikeConstraint_text (ofText?_eq_none hfails)

/-- What the form of types takes of a type that begins with a word, and what it leaves. -/
lemma exists_taken (h : column.Proper) (hstart : ¬ Stops isWordChar column.type) :
    ∃ (type : ColumnType) (r : List Char), type.Proper ∧ type.text = column.read ∧
      column.written ++ column.options = type.text ++ r ∧ EndsType r ∧
        (type.size = none → Stops isWordChar r) := by
  by_cases hword : IsWord column.type
  · have htext : ColumnType.text ⟨column.type, column.size⟩ = column.written := by
      rw [ColumnType.text, written, sizeText]
      cases column.size <;> simp
    refine ⟨⟨column.type, column.size⟩, column.options, ⟨hword, h.size⟩,
      ?_, by rw [htext], h.options, fun _ c hc => ?_⟩
    · rw [htext, read, if_pos hword]
    · exact Text.not_isWordChar_of_isBlank (by simpa using h.spaced c hc)
  · -- a dollar sign or a period stands behind the word
    have hchars : ∀ c ∈ column.type.takeWhile isWordChar, isWordChar c = true :=
      List.all_eq_true.mp List.all_takeWhile
    have hsplit := List.takeWhile_append_dropWhile (p := isWordChar) (l := column.type)
    have htaken : IsWord (column.type.takeWhile isWordChar) := by
      refine ⟨fun hnil => hstart ?_, hchars⟩
      rw [hnil, List.nil_append] at hsplit
      exact hsplit ▸ Text.stops_dropWhile isWordChar column.type
    rcases h.type.dropWhile_eq hstart with hnil | ⟨g, c, x, hdrop, hg, hc⟩
    · rw [hnil, List.append_nil] at hsplit
      exact absurd (hsplit ▸ htaken) hword
    have hsigns : ∀ c ∈ ['$', '.'], isBlank c = false ∧ isWordChar c = false ∧ c ∉ ['(', '['] := by
      decide
    obtain ⟨hblank, hsign, hbracket⟩ := hsigns c hc
    refine ⟨⟨column.type.takeWhile isWordChar, none⟩,
      g ++ c :: (x ++ (column.sizeText ++ column.options)), ⟨htaken, by simp⟩, ?_, ?_,
      endsType_sign hg hblank hsign hbracket, fun _ => ?_⟩
    · rw [ColumnType.text, read, if_neg hword]
    · rw [ColumnType.text, written]
      conv_lhs => rw [← hsplit, hdrop]
      simp
    · exact hg.stops (fun _ => Text.not_isWordChar_of_isBlank) (by simpa using hsign)

/-- Any other column is read under its name. -/
lemma exists_ofText_column (h : column.Proper) (hstart : ¬ Stops isWordChar column.type) :
    ∃ entry : ColumnEntry, TableEntry.ofText column.text = .column entry ∧
      entry.name = String.ofList column.name ∧ entry.type = String.ofList column.read := by
  obtain ⟨type, r, hproper, htext, hsplit, hr, hword⟩ := h.exists_taken hstart
  have hname : identifier.Takes [] column.name (column.gap ++ (type.text ++ r)) [] :=
    hsplit ▸ takes_plainName h.name h.noPeriod (stops_isNameChar_gap h.gap h.gap_ne_nil)
  have hread := ofText?_column_of_takes hname h.gap h.gap_ne_nil hproper hr hword
  rw [← hsplit] at hread
  exact ⟨_, ofText_of_ofText? h.looksLikeConstraint_text hread, nameOf_plainName h.name,
    congrArg String.ofList htext⟩

end Proper

/-- What is found of a column: its name and what is found of its type. -/
def found (column : TypedColumn) : String × String :=
  (String.ofList column.name, String.ofList column.read)

/-- The columns of a list that are found. -/
lemma filterMap_ofText {columns : List TypedColumn} (h : ∀ column ∈ columns, column.Proper) :
    ((columns.map text).map TableEntry.ofText).filterMap
        (fun entry => entry.column?.map fun c => (c.name, c.type))
      = (columns.filter fun column => ¬ Stops isWordChar column.type).map found := by
  induction columns with
  | nil => rfl
  | cons column columns ih =>
      rw [List.forall_mem_cons] at h
      rw [List.map_cons, List.map_cons]
      by_cases hstop : Stops isWordChar column.type
      · rw [List.filterMap_cons_none (by rw [h.1.ofText_unrecognized hstop]; rfl), ih h.2,
          List.filter_cons_of_neg (by simpa using hstop)]
      · obtain ⟨entry, hentry, hname, htype⟩ := h.1.exists_ofText_column hstop
        rw [List.filterMap_cons_some (b := column.found) ?_, ih h.2,
          List.filter_cons_of_pos (by simpa using hstop), List.map_cons]
        rw [hentry, found, ← hname, ← htype]
        rfl

/-- A name and a type are found as they are written exactly if the type is a word. -/
lemma Proper.found_eq_iff (h : column.Proper) :
    column.found = (String.ofList column.name, String.ofList column.written) ↔
      IsWord column.type := by
  rw [found, Prod.mk.injEq, String.ofList_inj, String.ofList_inj, h.read_eq_written_iff]
  exact and_iff_right rfl

/-- **The columns of a table.**  A statement that lists columns, each with a plain name and a type
in any spelling that names can have, creates a table with those columns whose type begins with a
word, in their order and under their names.  So no column is missing exactly if every type begins
with a word, and the types, too, are as they are written exactly if each of them is a word. -/
theorem columns_ofText {columns : List TypedColumn} (hw : IsWord w)
    (h : ∀ column ∈ columns, column.Proper) (hitems : ∀ column ∈ columns, IsItem column.text)
    (rawPath : String) :
    ∃ (table : Table) (relations : List Relation),
      Schema.ofText .sql (createText w (listed (columns.map text))) rawPath
        = ⟨.sql, [table], relations, rawPath⟩ ∧
      table.name = String.ofList w ∧
      table.columns.map (fun c => (c.name, c.type))
        = (columns.filter fun column => ¬ Stops isWordChar column.type).map found ∧
      (table.columns.length = columns.length ↔
        ∀ column ∈ columns, ¬ Stops isWordChar column.type) ∧
      (table.columns.map (fun c => (c.name, c.type))
          = columns.map (fun column => (String.ofList column.name, String.ofList column.written)) ↔
        ∀ column ∈ columns, IsWord column.type) := by
  have hall : ∀ t ∈ columns.map text, IsItem t := List.forall_mem_map.mpr hitems
  refine ⟨_, _, schema_items hw hall rawPath, name_table _, ?_⟩
  generalize htable : CreateTable.table ⟨String.ofList w, (columns.map text).map .ofText⟩ = table
  have hcolumns : table.columns.map (fun c => (c.name, c.type))
      = (columns.filter fun column => ¬ Stops isWordChar column.type).map found := by
    rw [← htable, map_columns_table (fun _ => rfl) fun _ _ => rfl]
    exact filterMap_ofText h
  have hlength : table.columns.length = columns.length ↔
      ∀ column ∈ columns, ¬ Stops isWordChar column.type := by
    have hfiltered := congrArg List.length hcolumns
    rw [List.length_map, List.length_map] at hfiltered
    rw [hfiltered, List.length_filter_eq_length_iff]
    simp
  have hself : (∀ column ∈ columns, ¬ Stops isWordChar column.type) →
      (columns.filter fun column => ¬ Stops isWordChar column.type) = columns := fun hstart =>
    List.filter_eq_self.mpr fun column hcolumn => by simpa using hstart column hcolumn
  refine ⟨hcolumns, hlength, fun hsame => ?_, fun hwords => ?_⟩
  · have hstart := hlength.mp (by simpa using congrArg List.length hsame)
    rw [hcolumns, hself hstart, List.map_inj_left] at hsame
    exact fun column hcolumn => (h column hcolumn).found_eq_iff.mp (hsame column hcolumn)
  · have hstart : ∀ column ∈ columns, ¬ Stops isWordChar column.type := fun column hcolumn => by
      simpa using (hwords column hcolumn).not_stops []
    rw [hcolumns, hself hstart, List.map_inj_left]
    exact fun column hcolumn => (h column hcolumn).found_eq_iff.mpr (hwords column hcolumn)

end TypedColumn

/-- A number, an address whose type has a qualifier, and a role whose type is quoted. -/
def sampleTypedColumns : List TypedColumn :=
  [⟨"id".toList, [' '], "BIGINT".toList, none, " PRIMARY KEY".toList⟩,
    ⟨"email".toList, [' '], "public.citext".toList, none, " NOT NULL".toList⟩,
    ⟨"role".toList, [' '], "\"Role\"".toList, none, []⟩]

/-- A text without quotes, brackets, commas and comments that mentions no word with which a
statement begins. -/
structure IsPlainText (text : List Char) : Prop where
  chars : ∀ c ∈ text, isPlain c = true ∧ c ≠ ',' ∧ isScriptText c = true
  words : ∀ K ∈ leadingWords, ¬ Mentions K text

instance (text : List Char) : Decidable (IsPlainText text) :=
  decidable_of_iff ((∀ c ∈ text, isPlain c = true ∧ c ≠ ',' ∧ isScriptText c = true) ∧
      ∀ K ∈ leadingWords, ¬ Mentions K text)
    ⟨fun h => ⟨h.1, h.2⟩, fun h => ⟨h.1, h.2⟩⟩

lemma IsPlainText.calm (h : IsPlainText u)
    (hend : Stops isWordChar u.reverse ∨ Stops isWordChar rest) :
    Calm u rest :=
  ⟨closed_of_forall fun c hc => ⟨(h.chars c hc).1, (h.chars c hc).2.1⟩,
    uncommented_of_forall fun c hc => (h.chars c hc).2.2, still_of_not_mentions h.words hend⟩

/-- Such a text that begins and ends solid. -/
structure IsPlainItem (text : List Char) : Prop extends IsPlainText text where
  start : Stops isBlank text
  solid : EndsSolid text

instance (text : List Char) : Decidable (IsPlainItem text) :=
  decidable_of_iff (IsPlainText text ∧ Stops isBlank text ∧ text ≠ [] ∧ Stops isBlank text.reverse)
    ⟨fun h => ⟨h.1, h.2.1, h.2.2⟩, fun h => ⟨h.1, h.2, h.3⟩⟩

lemma IsPlainItem.isItem (h : IsPlainItem u) : IsItem u :=
  isItem_of_calm h.start h.solid fun _ hrest => h.calm (Or.inr (hrest.stops (by decide)))

lemma isItem_sampleTypedColumns : ∀ column ∈ sampleTypedColumns, IsItem column.text := by
  simp only [sampleTypedColumns, List.forall_mem_cons]
  refine ⟨?_, ?_, ?_, by simp⟩
  · exact IsPlainItem.isItem (by decide)
  · exact IsPlainItem.isItem (by decide)
  · refine isItem_of_calm (by decide) ⟨by decide, by decide⟩ fun rest hrest => ?_
    let type : SpelledName := ⟨.double, "Role".toList⟩
    have hname : Calm "role".toList (([' '] ++ type.text) ++ rest) :=
      calm_barred (by decide) (bars_gap (g := [' ']) (by decide) (Text.stops_cons.mpr (by decide))
        (Text.stops_cons.mpr (by decide)))
    have htype : Calm type.text rest := calm_spelled (by decide) hrest.bars
    exact hname.append (calm_space.append htype)

/-- Of the type with a qualifier, the qualifier is left, and the column with the quoted type is
missing. -/
theorem TypedColumn.columns_ofText_sampleTypedColumns :
    (∀ column ∈ sampleTypedColumns, column.Proper) ∧
    ∃ (table : Table) (relations : List Relation),
      Schema.ofText .sql (createText "t".toList (listed (sampleTypedColumns.map text))) "a.sql"
        = ⟨.sql, [table], relations, "a.sql"⟩ ∧
      table.name = "t" ∧
      table.columns.map (fun c => (c.name, c.type)) = [("id", "BIGINT"), ("email", "public")] ∧
      ¬ table.columns.length = sampleTypedColumns.length := by
  have hproper : ∀ column ∈ sampleTypedColumns, column.Proper := by decide
  obtain ⟨table, relations, hschema, hname, hcolumns, hlength, -⟩ :=
    columns_ofText (w := "t".toList) (by decide) hproper isItem_sampleTypedColumns "a.sql"
  refine ⟨hproper, table, relations, hschema, hname, hcolumns.trans (by decide), ?_⟩
  rw [hlength]
  decide

/-- A column whose type is quoted is missing, and of a type with a qualifier only the qualifier is
found. -/
theorem quoted_type_missing :
    Schema.ofText .sql "CREATE TABLE t (id INT, role \"Role\");".toList "inline"
      = ⟨.sql, [⟨"t", [⟨"id", "INT", true, false, none⟩], []⟩], [], "inline"⟩ ∧
    Schema.ofText .sql "CREATE TABLE t (id INT, email public.citext);".toList "inline"
      = ⟨.sql, [⟨"t", [⟨"id", "INT", true, false, none⟩, ⟨"email", "public", true, false, none⟩],
        []⟩],
          [], "inline"⟩ := by
  decide +kernel

end SchemaReader.Ddl
