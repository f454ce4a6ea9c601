/-
Columns whose type lists its values.

* `ValuedColumn`: a column with a type that lists values between quotes, and its options;
* `Proper.takes_enumeration`, `Proper.exists_takes_closing`: what is taken for the type ends with
  the first parenthesis that closes;
* `ValuedColumn.ofText_enumeration`: the type is found as it is written exactly if no value holds a
  closing parenthesis, and then the options say what they say behind any other type.
-/
import SchemaReader.Proofs.Ddl.HiddenText
import SchemaReader.Proofs.Ddl.TypedColumns
import SchemaReader.Proofs.Pattern.Groups

namespace SchemaReader.Ddl

open Text (IsWord IsGap Stops Mentions isWordChar isBlank)
open Pattern

variable {before r t u v w : List Char} {values : List (List Char)}

/-! ### Types that list values -/

/-- A column whose type is given by the values that it can have. -/
structure ValuedColumn where
  name : List Char
  /-- The white space before the type. -/
  gap : List Char
  values : List (List Char)
  options : List Char

/-- Values as they are listed, each between quotes. -/
def quotedValues (values : List (List Char)) : List (List Char) :=
  values.map fun v => '\'' :: (v ++ ['\''])

namespace ValuedColumn

/-- The type that lists the values of a column. -/
def enumeration (column : ValuedColumn) : List Char :=
  "ENUM".toList ++ '(' :: (listed (quotedValues column.values) ++ [')'])

/-- A column as it is written, with any type. -/
def text (column : ValuedColumn) (type : List Char) : List Char :=
  column.name ++ (column.gap ++ (type ++ column.options))

/-- A plain name that no constraint begins with, values without quotes, and options that are not
taken for a part of the type. -/
structure Proper (column : ValuedColumn) : Prop where
  name : IsPlainName column.name
  free : String.ofList (Text.upper column.name) ∉ constraintWords
  gap : IsGap column.gap
  gap_ne_nil : column.gap ≠ []
  values : ∀ v ∈ column.values, ∀ c ∈ v, isQuote c = false
  options : EndsType column.options
  spaced : Stops (fun c => !isBlank c) column.options

instance (column : ValuedColumn) : Decidable column.Proper :=
  decidable_of_iff (IsPlainName column.name ∧
    String.ofList (Text.upper column.name) ∉ constraintWords ∧
      IsGap column.gap ∧ column.gap ≠ [] ∧ (∀ v ∈ column.values, ∀ c ∈ v, isQuote c = false) ∧
        EndsType column.options ∧ Stops (fun c => !isBlank c) column.options)
    ⟨fun h => ⟨h.1, h.2.1, h.2.2.1, h.2.2.2.1, h.2.2.2.2.1, h.2.2.2.2.2.1, h.2.2.2.2.2.2⟩,
      fun h => ⟨h.1, h.2, h.3, h.4, h.5, h.6, h.7⟩⟩

end ValuedColumn

/-! ### Parentheses that close -/

/-- Listed values hold a closing parenthesis exactly if one of them does. -/
lemma closing_mem_listed : ')' ∈ listed (quotedValues values) ↔ ∃ v ∈ values, ')' ∈ v := by
  constructor
  · contrapose!
    intro h
    have hall : ∀ c ∈ listed (quotedValues values), c ≠ ')' := by
      refine forall_mem_listed (List.forall_mem_map.mpr fun v hv c hc => ?_) (by decide) (by decide)
      simp only [List.mem_cons, List.mem_append, List.not_mem_nil, or_false] at hc
      rcases hc with rfl | hc | rfl
      · decide
      · exact fun heq => h v hv (heq ▸ hc)
      · decide
    exact fun hmem => hall _ hmem rfl
  · rintro ⟨v, hv, hmem⟩
    have hquoted : '\'' :: (v ++ ['\'']) ∈ quotedValues values := List.mem_map.mpr ⟨v, hv, rfl⟩
    exact mem_listed_of_mem hquoted (by simp [hmem])

/-- Behind the first closing parenthesis of listed values stands a quote. -/
lemma exists_first_closing (h : ')' ∈ listed (quotedValues values)) :
    ∃ x y, listed (quotedValues values) = x ++ ')' :: y ∧ ')' ∉ x ∧ '\'' ∈ y := by
  obtain ⟨x, y, hsplit, hx⟩ := List.eq_append_cons_of_mem h
  refine ⟨x, y, hsplit, hx, ?_⟩
  have hne : quotedValues values ≠ [] := by
    rintro hnil
    simp [hnil, listed] at h
  obtain ⟨u, hu⟩ := exists_listed_getLast hne
  obtain ⟨v, -, hv⟩ := List.mem_map.mp (List.getLast_mem hne)
  -- the list ends with a quote, which is no parenthesis
  have hlast : (listed (quotedValues values)).getLast? = some '\'' := by
    rw [hu, ← hv, ← List.cons_append, ← List.append_assoc, List.getLast?_concat]
  rw [hsplit, List.getLast?_append_cons] at hlast
  cases y with
  | nil => simp at hlast
  | cons c y => exact List.mem_of_getLast? (by simpa using hlast)

/-! ### What is taken for the type -/

/-- A time zone and array bounds are taken where they stand, and they hold no quotes. -/
lemma exists_takes_typeSuffix (before text : List Char) :
    ∃ s rest, text = s ++ rest ∧ typeSuffix.Takes before s rest [] ∧ '\'' ∉ s := by
  rcases fails_or_takes typeSuffix before text with hfails | ⟨s, rest, caught, htext, htakes⟩
  · exact absurd ⟨[], [], rfl, Or.inr rfl, .stop _ _⟩ (hfails [] text rfl)
  · obtain rfl := htakes.caught_eq_nil rfl
    have hquote : typeSuffix.neverReads '\'' = true := by decide
    exact ⟨s, rest, htext, htakes, fun hmem => ne_of_reads _ hquote htakes.reads _ hmem rfl⟩

namespace ValuedColumn

variable {column : ValuedColumn}

lemma enumeration_append (column : ValuedColumn) (r : List Char) : column.enumeration ++ r
    = "ENUM".toList ++ '(' :: (listed (quotedValues column.values) ++ ')' :: r) := by
  simp [enumeration]

lemma trim_enumeration (column : ValuedColumn) :
    Text.trim column.enumeration = column.enumeration := by
  have hstart : Stops isBlank column.enumeration :=
    IsWord.stops_isBlank (w := "ENUM".toList) (by decide) _
  refine Text.trimWhere_self hstart ?_
  rw [enumeration]
  simp
  decide

namespace Proper

/-- Where no value holds a closing parenthesis, all of the type is taken. -/
lemma takes_enumeration (h : column.Proper) (hclear : ∀ v ∈ column.values, ')' ∉ v) :
    typeForm.Takes before column.enumeration column.options [] := by
  have hlist : ∀ c ∈ listed (quotedValues column.values), c ≠ ')' := by
    rintro c hc rfl
    obtain ⟨v, hv, hmem⟩ := closing_mem_listed.mp hc
    exact hclear v hv hmem
  have hword : IsWord "ENUM".toList := by decide
  exact takes_typeForm_parentheses hword Text.isGap_nil hlist fun _ => takes_typeSuffix h.options

/-- Otherwise the type ends with the first closing parenthesis, or behind it with a time zone or
with array bounds. -/
lemma exists_takes_closing (hclosing : ∃ v ∈ column.values, ')' ∈ v) (before : List Char) :
    ∃ t r, column.enumeration ++ column.options = t ++ r ∧ typeForm.Takes before t r [] ∧
      ¬ Stops isWordChar t ∧ Text.trim t ≠ column.enumeration := by
  obtain ⟨x, y, hsplit, hx, hy⟩ := exists_first_closing (closing_mem_listed.mpr hclosing)
  have hfree : ∀ c ∈ x, c ≠ ')' := fun c hc heq => hx (heq ▸ hc)
  obtain ⟨s, r, htext, htakes, hs⟩ := exists_takes_typeSuffix
    (([] ++ '(' :: (x ++ [')'])).reverse ++ ("ENUM".toList.reverse ++ before))
    (y ++ ')' :: column.options)
  refine ⟨"ENUM".toList ++ (([] ++ '(' :: (x ++ [')'])) ++ s), r, ?_,
    takes_typeForm_arguments (by decide) Text.isGap_nil hfree htakes, ?_, fun htrim => ?_⟩
  · rw [enumeration_append, hsplit]
    simp [htext]
  · exact IsWord.not_stops (w := "ENUM".toList) (by decide) _
  · -- the last value ends with a quote that was not taken
    have hcount := (Text.trim_sublist
      ("ENUM".toList ++ (([] ++ '(' :: (x ++ [')'])) ++ s))).count_le '\''
    have hbehind : 0 < y.count '\'' := List.count_pos_iff.mpr hy
    rw [htrim, enumeration, hsplit] at hcount
    simp [List.count_eq_zero_of_not_mem hs] at hcount
    omega

/-- A column with a text for its type is read as the type that is taken, and with the options behind
it. -/
lemma ofText_text (h : column.Proper) {r : List Char} (ht : ¬ Stops isWordChar t)
    (hcut : u ++ column.options = t ++ r)
    (htakes : typeForm.Takes (column.gap.reverse ++ column.name.reverse) t r []) :
    TableEntry.ofText (column.text u)
      = .column (.ofParts (String.ofList column.name) (Text.trim t) r) := by
  rw [text, hcut]
  exact ofText_of_takes_type h.name h.free h.gap h.gap_ne_nil ht htakes

/-- Behind a type that is one word, the options are read as they stand there. -/
lemma ofText_plain (h : column.Proper) : TableEntry.ofText (column.text "TEXT".toList)
    = .column (.ofParts (String.ofList column.name) "TEXT".toList column.options) := by
  have htype : (ColumnType.mk "TEXT".toList none).Proper := by decide
  have hspaced : Stops isWordChar column.options := fun c hc =>
    Text.not_isWordChar_of_isBlank (by simpa using h.spaced c hc)
  have htakes : typeForm.Takes (column.gap.reverse ++ column.name.reverse) "TEXT".toList
      column.options [] :=
    takes_typeForm htype h.options fun _ => hspaced
  rw [h.ofText_text (by decide) rfl htakes]
  exact congrArg (fun t => TableEntry.column (.ofParts _ t _)) htype.trim_text

/-- Behind a type that lists values, too, if none of these holds a closing parenthesis. -/
lemma ofText_enumeration_clear (h : column.Proper) (hclear : ∀ v ∈ column.values, ')' ∉ v) :
    TableEntry.ofText (column.text column.enumeration)
      = .column (.ofParts (String.ofList column.name) column.enumeration column.options) := by
  have hstart : ¬ Stops isWordChar column.enumeration :=
    IsWord.not_stops (w := "ENUM".toList) (by decide) _
  rw [h.ofText_text hstart rfl (h.takes_enumeration hclear), column.trim_enumeration]

/-- A type that lists values is found as it is written exactly if none of these holds a closing
parenthesis. -/
lemma exists_ofText_enumeration (h : column.Proper) :
    ∃ entry : ColumnEntry, TableEntry.ofText (column.text column.enumeration) = .column entry ∧
      entry.name = String.ofList column.name ∧
      (entry.type = String.ofList column.enumeration ↔ ∀ v ∈ column.values, ')' ∉ v) := by
  by_cases hclear : ∀ v ∈ column.values, ')' ∉ v
  · exact ⟨_, h.ofText_enumeration_clear hclear, rfl, iff_of_true rfl hclear⟩
  · have hclosing : ∃ v ∈ column.values, ')' ∈ v := by simpa using hclear
    obtain ⟨t, r, hcut, htakes, hstart, htrim⟩ := exists_takes_closing hclosing _
    refine ⟨_, h.ofText_text hstart hcut htakes, rfl, iff_of_false (fun htype => htrim ?_) hclear⟩
    exact String.ofList_inj.mp htype

end Proper

/-! ### Columns with their types in a statement -/

/-- Two tables that differ at most in the type of a column, and in what columns point at. -/
structure Retyped (name type type' : String) (table table' : Table) : Prop where
  flags : table.SameFlags table'
  types : ∃ before after, table.columns.map (fun c => (c.name, c.type))
    = before ++ (name, type) :: after ∧
    table'.columns.map (fun c => (c.name, c.type)) = before ++ (name, type') :: after

/-- Two statements that differ in the type of a column make tables that differ at most in it, and
the same relations, whatever other entries they list. -/
lemma exists_schemas_of_type {entry : ColumnEntry} {type : String} {front behind : List (List Char)}
    (hw : IsWord w) (hitems : ∀ x ∈ front ++ behind, IsItem x) (hu : IsItem u) (hv : IsItem v)
    (hentry : TableEntry.ofText u = .column entry)
    (hplain : TableEntry.ofText v = .column { entry with type }) (rawPath : String) :
    ∃ (table table' : Table) (relations : List Relation),
      Schema.ofText .sql (createText w (listed (front ++ u :: behind))) rawPath
        = ⟨.sql, [table], relations, rawPath⟩ ∧
      Schema.ofText .sql (createText w (listed (front ++ v :: behind))) rawPath
        = ⟨.sql, [table'], relations, rawPath⟩ ∧
      Retyped entry.name entry.type type table table' := by
  rw [List.forall_mem_append] at hitems
  have hall : ∀ {t : List Char}, IsItem t → ∀ x ∈ front ++ t :: behind, IsItem x := fun ht =>
    List.forall_mem_append.mpr ⟨hitems.1, List.forall_mem_cons.mpr ⟨ht, hitems.2⟩⟩
  have hedges : CreateTable.edges ⟨String.ofList w, (front ++ u :: behind).map .ofText⟩
      = CreateTable.edges ⟨String.ofList w, (front ++ v :: behind).map .ofText⟩ := by
    rw [CreateTable.edges, CreateTable.edges]
    simp [List.filterMap_append, List.filterMap_cons, hentry, hplain, TableEntry.foreignKey?]
  have htypes : ∀ {t : List Char} {made : ColumnEntry}, TableEntry.ofText t = .column made →
      (CreateTable.table ⟨String.ofList w, (front ++ t :: behind).map .ofText⟩).columns.map
          (fun c => (c.name, c.type))
        = (front.map TableEntry.ofText).filterMap (fun e => e.column?.map fun c =>
          (c.name, c.type)) ++
          (made.name, made.type) ::
            (behind.map TableEntry.ofText).filterMap (fun e => e.column?.map fun c =>
              (c.name, c.type)) :=
    fun ht => by
      rw [map_columns_table (fun _ => rfl) fun _ _ => rfl]
      simp [List.filterMap_append, ht, TableEntry.column?]
  have hflags : entry.SameFlags { entry with type } := ⟨rfl, rfl, rfl, rfl⟩
  refine ⟨_, _, _, schema_items hw (hall hu) rawPath, ?_, ?_, _, _, htypes hentry, htypes hplain⟩
  · rw [schema_items hw (hall hv) rawPath, hedges]
  · rw [List.map_append, List.map_append, List.map_cons, List.map_cons, hentry, hplain]
    exact sameFlags_table hflags _ _ _

/-- **A type that lists its values.**  A column whose type lists values without quotes is read as a
column of its name, and its type is found as it is written exactly if no value holds a closing
parenthesis. Then nothing of the values is taken for an option: the column is, but for its type, the
one with a plain type and the same options, and so is the table of a statement that lists it among
other entries, with its flags and its indexes. -/
theorem ofText_enumeration {column : ValuedColumn} (h : column.Proper) :
    ∃ entry : ColumnEntry, TableEntry.ofText (column.text column.enumeration) = .column entry ∧
      entry.name = String.ofList column.name ∧
      (entry.type = String.ofList column.enumeration ↔ ∀ v ∈ column.values, ')' ∉ v) ∧
      ((∀ v ∈ column.values, ')' ∉ v) →
        TableEntry.ofText (column.text "TEXT".toList) = .column { entry with type := "TEXT" } ∧
        ∀ (w : List Char) (front behind : List (List Char)) (rawPath : String), IsWord w →
          (∀ x ∈ front ++ behind, IsItem x) → IsItem (column.text column.enumeration) →
          IsItem (column.text "TEXT".toList) →
          ∃ (table plain : Table) (relations : List Relation),
            Schema.ofText .sql
              (createText w (listed (front ++ column.text column.enumeration :: behind))) rawPath
                = ⟨.sql, [table], relations, rawPath⟩ ∧
            Schema.ofText .sql (createText w
              (listed (front ++ column.text "TEXT".toList :: behind))) rawPath
                = ⟨.sql, [plain], relations, rawPath⟩ ∧
            Retyped entry.name entry.type "TEXT" table plain) := by
  obtain ⟨entry, hentry, hname, htype⟩ := h.exists_ofText_enumeration
  refine ⟨entry, hentry, hname, htype, fun hclear => ?_⟩
  have hplain : TableEntry.ofText (column.text "TEXT".toList)
      = .column { entry with type := "TEXT" } := by
    have hread := h.ofText_enumeration_clear hclear
    obtain rfl := TableEntry.column.inj (hentry.symm.trans hread)
    exact h.ofText_plain
  exact ⟨hplain, fun w front behind rawPath hw hitems hitem hitem' =>
    exists_schemas_of_type hw hitems hitem hitem' hentry hplain rawPath⟩

/-- A mood, with values that hold commas, an opening parenthesis and options. -/
def sampleMood : ValuedColumn where
  name := "mood".toList
  gap := [' ']
  values := ["so, so".toList, "(NOT NULL".toList, "PRIMARY KEY".toList, []]
  options := " DEFAULT 'so, so)' NOT NULL UNIQUE".toList

/-- A literal without the words that begin a statement is calm. -/
lemma calm_literal (hv : ∀ c ∈ v, c ≠ '\'') (hmentions : ∀ K ∈ leadingWords, ¬ Mentions K v) :
    Calm ('\'' :: (v ++ ['\''])) r where
  closed := .literal _ (by decide) fun c hc => ⟨hv c hc, fun h => absurd h (by decide)⟩
  uncommented := uncommented_literal (by decide) hv
  still := Still.append (u := ['\'']) (still_outside (by decide))
    (Still.append (still_of_not_mentions hmentions (Or.inr (by simp; decide)))
      (still_outside (by decide)))

lemma isItem_literal (hv : ∀ c ∈ v, c ≠ '\'') (hmentions : ∀ K ∈ leadingWords, ¬ Mentions K v) :
    IsItem ('\'' :: (v ++ ['\''])) :=
  isItem_of_calm (by simp; decide) ⟨by simp, by simp; decide⟩ fun _ _ => calm_literal hv hmentions

lemma calm_options_sampleMood (hr : EndsItem r) : Calm sampleMood.options r := by
  have hdefault : ∀ r, Calm " DEFAULT ".toList r := fun _ =>
    IsPlainText.calm (by decide) (Or.inl (by decide))
  have hliteral : ∀ r, Calm ('\'' :: ("so, so)".toList ++ ['\''])) r := fun _ =>
    calm_literal (by decide) (by decide)
  have hflags : Calm " NOT NULL UNIQUE".toList r :=
    IsPlainText.calm (by decide) (Or.inr (hr.stops (by decide)))
  exact (hdefault _).append ((hliteral _).append hflags)

lemma isItem_sampleMood :
    IsItem (sampleMood.text sampleMood.enumeration) ∧ IsItem (sampleMood.text "TEXT".toList) := by
  have hvalues : ∀ t ∈ quotedValues sampleMood.values, IsItem t :=
    List.forall_mem_map.mpr fun v hv => isItem_literal
      ((by decide : ∀ v ∈ sampleMood.values, ∀ c ∈ v, c ≠ '\'') v hv)
      ((by decide : ∀ v ∈ sampleMood.values, ∀ K ∈ leadingWords, ¬ Mentions K v) v hv)
  have hname : ∀ r, Calm "mood ENUM".toList ('(' :: r) := fun _ =>
    IsPlainText.calm (by decide) (Or.inr (by simp; decide))
  have hplain : ∀ r, Calm "mood TEXT".toList (sampleMood.options ++ r) := fun _ =>
    IsPlainText.calm (by decide) (Or.inr (by simp [sampleMood]; decide))
  have hend : EndsSolid sampleMood.options := ⟨by decide, by decide⟩
  have htext : sampleMood.text sampleMood.enumeration = "mood ENUM".toList ++
      ('(' :: (listed (quotedValues sampleMood.values) ++ [')']) ++ sampleMood.options) := by decide
  have htext' : sampleMood.text "TEXT".toList = "mood TEXT".toList ++ sampleMood.options := by
    decide
  rw [htext, htext']
  refine ⟨isItem_of_calm (by decide) ((hend.append_left _).append_left _) fun r hr => ?_,
    isItem_of_calm (by decide) (hend.append_left _) fun r hr => ?_⟩
  · exact (hname _).append ((calm_parenthesized hvalues).append (calm_options_sampleMood hr))
  · exact (hplain r).append (calm_options_sampleMood hr)

/-- None of this leaks into the options, and in a table, too, they are found. -/
theorem ofText_enumeration_sampleMood :
    sampleMood.Proper ∧ (∀ v ∈ sampleMood.values, ')' ∉ v) ∧
    TableEntry.ofText (sampleMood.text sampleMood.enumeration) = .column ⟨"mood",
      "ENUM('so, so', '(NOT NULL', 'PRIMARY KEY', '')", false, false, true, none⟩ ∧
    ∃ (table plain : Table) (relations : List Relation),
      Schema.ofText .sql (createText "t".toList
          (listed ["id INT".toList, sampleMood.text sampleMood.enumeration])) "a.sql"
        = ⟨.sql, [table], relations, "a.sql"⟩ ∧
      Schema.ofText .sql (createText "t".toList
          (listed ["id INT".toList, sampleMood.text "TEXT".toList])) "a.sql"
        = ⟨.sql, [plain], relations, "a.sql"⟩ ∧
      Retyped "mood" "ENUM('so, so', '(NOT NULL', 'PRIMARY KEY', '')" "TEXT" table plain := by
  have hproper : sampleMood.Proper := by decide
  have hclear : ∀ v ∈ sampleMood.values, ')' ∉ v := by decide
  obtain ⟨entry, hentry, hname, htype, hplain⟩ := ofText_enumeration hproper
  obtain ⟨hsame, htables⟩ := hplain hclear
  -- with a plain type, the entry is small enough to be evaluated
  have hread : TableEntry.ofText (sampleMood.text "TEXT".toList)
      = .column ⟨"mood", "TEXT", false, false, true, none⟩ := by decide +kernel
  obtain ⟨name, type, nullable, primaryKey, unique, references⟩ := entry
  obtain rfl : type = "ENUM('so, so', '(NOT NULL', 'PRIMARY KEY', '')" :=
    (htype.mpr hclear).trans (by decide)
  simp only [hread, TableEntry.column.injEq, ColumnEntry.mk.injEq, true_and] at hsame
  obtain ⟨rfl, rfl, rfl, rfl, rfl⟩ := hsame
  have hid : ∀ x ∈ ["id INT".toList] ++ [], IsItem x :=
    List.forall_mem_singleton.mpr (IsPlainItem.isItem (by decide))
  exact ⟨hproper, hclear, hentry, htables "t".toList ["id INT".toList] [] "a.sql" (by decide) hid
    isItem_sampleMood.1 isItem_sampleMood.2⟩

/-- A closing parenthesis among the values ends the type, and the quote behind it opens a literal
that hides the options. -/
theorem enumeration_leaks :
    Schema.ofText .sql "CREATE TABLE t (c ENUM('a)', 'b') NOT NULL);".toList "inline"
      = ⟨.sql, [⟨"t", [⟨"c", "ENUM('a)", true, false, none⟩], []⟩], [], "inline"⟩ ∧
    Schema.ofText .sql "CREATE TABLE t (c TEXT NOT NULL);".toList "inline"
      = ⟨.sql, [⟨"t", [⟨"c", "TEXT", false, false, none⟩], []⟩], [], "inline"⟩ := by
  decide +kernel

end ValuedColumn

end SchemaReader.Ddl
