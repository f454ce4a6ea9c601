/-
The columns that the declarations of a text list.

* `Ddl.ListsColumn`, `ModelFile.ListsColumn`, `TableModule.ListsColumn`: what an entry of a table
  looks like that lists a column of a name, with `listedName?_eq_some_iff`: such an entry is read as
  that column, and no other one is;
* `Declaration`: a table as a text declares it, with the texts of its entries;
  `Source.declarations`: the declarations of a text, one after the other, and
  `Source.lastDeclaration?`: the last one of a table;
* `Listing`: the names of the columns that entries list, in their order and as often as they are
  listed;
* `columnNames_ofText`: the columns of a table of a schema are those that the last declaration of
  the table lists, so a name comes twice in a table if and only if two entries list it.
-/
import SchemaReader.Proofs.Ddl.Arrangements
import SchemaReader.Proofs.Lexical.Stripping
import SchemaReader.Proofs.ModelFile.WrittenFields
import SchemaReader.Proofs.Pattern.Places
import SchemaReader.Proofs.TableModule.Worded

namespace SchemaReader

open Text (IsWord IsGap Stops isWordChar isBlank)
open Pattern

variable {text entry written gap type rest : List Char} {name : String}

/-! ### Entries of created tables -/

namespace Ddl

/-- An entry of a created table that lists a column: an identifier, white space and a type, which
begins with a character of words.  It is no clause. -/
inductive ListsColumn : List Char → String → Prop
  | column {written gap rest : List Char} (hwritten : IsIdentifier written) (hgap : IsGap gap)
      (hne : gap ≠ []) (htype : ¬ Stops isWordChar rest)
      (hclause : isClause (written ++ (gap ++ rest)) = false) :
      ListsColumn (written ++ (gap ++ rest)) (nameOf written)

/-- A type begins with a character of words. -/
lemma isWordChar_of_mayBegin_typeForm {c : Char} (h : typeForm.mayBegin c = true) :
    isWordChar c = true := by
  have hbegin : typeForm.mayBegin c
      = ((Text.isLetter 'D' c || Text.isLetter 'C' c) || isWordChar c) := by
    simp [typeForm, typeWords, keywordBefore, keyword, keywordText, word, many1, mayBegin, nullable,
      mayBegin_append, mayBegin_or]
  rw [hbegin, Bool.or_eq_true, Bool.or_eq_true] at h
  rcases h with (h | h) | h
  · exact Text.isWordChar_of_isLetter (by decide) h
  · exact Text.isWordChar_of_isLetter (by decide) h
  · exact h

/-- And one can be read wherever such a character stands. -/
lemma not_fails_typeForm {before : List Char} (h : ¬ Stops isWordChar rest) :
    ¬ typeForm.Fails before rest := by
  intro hfails
  have hword : IsWord (rest.takeWhile isWordChar) := by
    refine ⟨fun hnil => h ?_, List.all_eq_true.mp List.all_takeWhile⟩
    have hsplit := List.takeWhile_append_dropWhile (p := isWordChar) (l := rest)
    rw [hnil, List.nil_append] at hsplit
    exact hsplit ▸ Text.stops_dropWhile isWordChar rest
  exact hfails _ _ List.takeWhile_append_dropWhile.symm (reads_typeForm hword)

/-- A column is read where one is written. -/
lemma exists_ofText?_of_written (hwritten : IsIdentifier written) (hgap : IsGap gap)
    (hne : gap ≠ [])
    (htype : ¬ Stops isWordChar rest) :
    ∃ entry, ColumnEntry.ofText? (written ++ (gap ++ rest)) = some entry ∧
      entry.name = nameOf written := by
  have hblank : Stops isBlank rest :=
    Text.stops_of_not_stops htype fun _ => Text.not_isBlank_of_isWordChar
  have hperiod : Stops (· == '.') rest :=
    Text.stops_of_not_stops htype fun _ => Text.beq_of_isWordChar (by decide)
  have hname : ∀ before, identifier.Takes before written (gap ++ rest) [] := fun _ =>
    hwritten.takes (noPeriod_of_gap hgap hblank hperiod) (stops_isNameChar_gap hgap hne)
  obtain hfails | ⟨t, r, caught, rfl, htakes⟩ :=
    fails_or_takes typeForm (gap.reverse ++ written.reverse) rest
  · exact absurd hfails (not_fails_typeForm htype)
  · obtain rfl := htakes.caught_eq_nil rfl
    exact ⟨_, ofText?_of_takes_type (hname _) hgap hne hblank htakes, rfl⟩

/-- And nowhere else. -/
lemma exists_written_of_ofText? {entry : ColumnEntry} (h : ColumnEntry.ofText? text = some entry) :
    ∃ written gap rest, text = written ++ (gap ++ rest) ∧ IsIdentifier written ∧ IsGap gap ∧
      gap ≠ [] ∧ ¬ Stops isWordChar rest := by
  obtain hfails | ⟨w, rest, caught, rfl, htakes⟩ := fails_or_takes columnForm [] text
  · rw [ofText?_eq_none hfails] at h
    cases h
  · obtain ⟨_, t, rfl, ⟨_, gap, rfl, ⟨_, written, rfl, ⟨rfl, -⟩, hwritten⟩, hgap⟩,
      htype⟩ := htakes.reads
    obtain ⟨hgap, hne⟩ := isGap_of_reads_someBlanks hgap
    refine ⟨written, gap,
      t ++ rest, by simp, reads_of_isFree identifier rfl hwritten _ _, hgap, hne, ?_⟩
    cases t with
    | nil => cases nullable_of_reads typeForm htype
    | cons d t =>
        have hd := isWordChar_of_mayBegin_typeForm (mayBegin_of_reads typeForm htype)
        simpa using hd

/-- The name of the column that an entry is read as, if it is one. -/
def listedName? (text : List Char) : Option String := (TableEntry.ofText text).columnName?

/-- An entry is read as a column if and only if it lists one. -/
lemma listedName?_eq_some_iff : listedName? text = some name ↔ ListsColumn text name := by
  constructor
  · intro h
    cases hclause : isClause text with
    | true =>
        have hno := isColumn_ofText_of_isClause hclause
        rw [listedName?, columnName?_eq] at h
        simp only [TableEntry.isColumn, Option.isSome_eq_false_iff,
          Option.isNone_iff_eq_none] at hno
        simp [hno] at h
    | false =>
        rw [listedName?, ofText_of_not_isClause hclause, TableEntry.ofColumnText] at h
        cases hread : ColumnEntry.ofText? text with
        | none => simp [hread, TableEntry.columnName?] at h
        | some entry =>
            obtain ⟨written, gap, rest, rfl, hwritten, hgap, hne, htype⟩ :=
              exists_written_of_ofText? hread
            obtain ⟨other, hother, hname⟩ := exists_ofText?_of_written hwritten hgap hne htype
            obtain rfl : other = entry := Option.some.inj (hother.symm.trans hread)
            obtain rfl : other.name = name := by simpa [hread, TableEntry.columnName?] using h
            exact hname ▸ .column hwritten hgap hne htype hclause
  · rintro ⟨hwritten, hgap, hne, htype, hclause⟩
    obtain ⟨entry, hread, hname⟩ := exists_ofText?_of_written hwritten hgap hne htype
    rw [listedName?, ofText_of_not_isClause hclause, TableEntry.ofColumnText, hread, ← hname]
    rfl

/-- A type that begins with a quote makes no column. -/
example : listedName? "role \"Role\"".toList = none := by decide +kernel

end Ddl

/-! ### Lines of models -/

namespace ModelFile

/-- A line of a model that lists a column: a word, white space and another word, which is a type
that names no model. -/
inductive ListsColumn (declared : List String) : List Char → String → Prop
  | column {line name gap type rest : List Char}
      (hline : Text.trim line = name ++ (gap ++ (type ++ rest))) (hname : IsWord name)
      (hgap : IsGap gap) (hne : gap ≠ []) (htype : IsWord type) (hend : Stops isWordChar rest)
      (hmodel : namesModel declared (String.ofList type) = false) :
      ListsColumn declared line (String.ofList name)

/-- What may follow the type of a field. -/
def fieldTail : Pattern :=
  opt (char '(' ++ .many (· != ')') ++ char ')') ++ (.group 4 (.star (lit "[]" ||| char '?')) ++
    (.group 5 (.many (· != '\n')) ++ .textEnd))

/-- It is taken up to the end of the line, and remembers neither the name nor the type. -/
lemma exists_takes_fieldTail {before : List Char} (hline : '\n' ∉ rest) :
    ∃ caught, fieldTail.Takes before rest [] caught ∧ ∀ n < 4, caught.lookup n = none := by
  have hchars : ∀ c ∈ rest, (c != '\n') = true := fun c hc => by
    simpa using fun hfeed : c = '\n' => hline (hfeed ▸ hc)
  obtain hfails | ⟨w, behind, caught, rfl, htakes⟩ := fails_or_takes fieldTail before rest
  · refine absurd ?_ (hfails rest [] (by simp))
    exact ⟨[], rest, rfl, Or.inr rfl, [], rest, rfl, .stop _ _, rest, [], by simp, hchars, rfl, rfl⟩
  · obtain ⟨_, _, -, -, _, _, -, -, _, _, -, -, -, rfl⟩ := htakes.reads
    have hgroups : ∀ n ∈ fieldTail.groups.map Prod.fst, 4 ≤ n := by decide
    refine ⟨caught, by simpa using htakes, fun n hn => htakes.lookup_eq_none fun body hbody => ?_⟩
    have hnumber := hgroups body.1 (List.mem_map_of_mem hbody)
    omega

/-- A field is read where two words are written in a line. -/
lemma exists_ofLine?_of_written {w : List Char} (hw : IsWord w) (hgap : IsGap gap) (hne : gap ≠ [])
    (htype : IsWord type) (hend : Stops isWordChar rest) (hline : '\n' ∉ rest) :
    ∃ field, Field.ofLine? (w ++ (gap ++ (type ++ rest))) = some field ∧
      field.name = String.ofList w ∧ field.type = String.ofList type := by
  obtain ⟨caught, htail, hnone⟩ : ∃ caught,
      fieldTail.Takes (type.reverse ++ (gap.reverse ++ w.reverse)) rest [] caught ∧
        ∀ n < 4, caught.lookup n = none := exists_takes_fieldTail hline
  have hname : Stops isWordChar (gap ++ (type ++ rest)) :=
    hgap.stops_of_ne_nil hne (fun _ => Text.not_isWordChar_of_isBlank) _
  have htakes : fieldForm.Takes [] (w ++ (gap ++ (type ++ rest))) []
      (caught ++ [(2, type)] ++ [(1, w)]) := by
    simp only [fieldForm, takes_assoc]
    refine takes_textStart.after_nothing
      (((takes_word hw (by simpa using hname)).group 1).append ?_)
    refine (takes_someBlanks hgap hne (by simpa using htype.stops_isBlank rest)).seq ?_
    refine ((takes_word htype (by simpa using hend)).group 2).append ?_
    simpa [fieldTail] using htail
  have hfound := find?_of_takes htakes
  rw [List.append_nil] at hfound
  refine ⟨_, by rw [Field.ofLine?, hfound]; rfl, ?_, ?_⟩
  · simp [Match.group, Match.group?, List.lookup_append, List.lookup_cons, hnone]
  · simp [Match.group, Match.group?, List.lookup_append, hnone]

/-- And nowhere else. -/
lemma exists_written_of_ofLine? {field : Field} (h : Field.ofLine? text = some field) :
    ∃ w gap type rest, text = w ++ (gap ++ (type ++ rest)) ∧ IsWord w ∧ IsGap gap ∧ gap ≠ [] ∧
      IsWord type ∧ Stops isWordChar rest := by
  obtain ⟨found, hfound, -⟩ := Option.map_eq_some_iff.mp h
  obtain ⟨_, htext, -, hread⟩ := stands_of_find? hfound
  obtain ⟨_, x, rfl, ⟨_, y, rfl, ⟨_, z, rfl, ⟨_, argument, rfl, ⟨_, type, rfl, ⟨_, gap, rfl,
    ⟨_, w, rfl, ⟨rfl, hbefore⟩, hw⟩, hgap⟩, htype⟩, -⟩, -⟩, -⟩, -⟩ := hread
  obtain ⟨hgap, hne⟩ := isGap_of_reads_someBlanks hgap
  have htype := isWord_of_reads htype
  -- the type may go on in what follows
  generalize hr : argument ++ (z ++ (y ++ (x ++ found.stop.after))) = r
  have htext' : text = w ++ (gap ++ (type ++ r)) := by simpa [hbefore, ← hr] using htext
  refine ⟨w, gap, type ++ r.takeWhile isWordChar, r.dropWhile isWordChar, ?_,
    isWord_of_reads hw, hgap, hne, ?_, Text.stops_dropWhile isWordChar r⟩
  · rw [htext', List.append_assoc, List.takeWhile_append_dropWhile]
  · refine ⟨List.append_ne_nil_of_left_ne_nil htype.ne_nil _, fun c hc => ?_⟩
    obtain hc | hc := List.mem_append.mp hc
    · exact htype.chars c hc
    · exact List.all_eq_true.mp List.all_takeWhile c hc

/-- The name of the column that a line is read as, if it is one. -/
def listedName? (declared : List String) (text : List Char) : Option String :=
  match Line.ofText text with
  | .field field => if field.isRelation declared then none else some field.name
  | _ => none

/-- A line that begins with a word is a field if it can be read as one. -/
lemma ofText_eq_field_iff {field : Field} :
    Line.ofText text = .field field ↔ Field.ofLine? (Text.trim text) = some field := by
  constructor
  · intro h
    rw [Line.ofText] at h
    split at h
    · cases h
    · split at h
      · cases h
      · cases hread : Field.ofLine? (Text.trim text) with
        | none => simp [hread] at h
        | some other => simpa [hread] using h
  · intro h
    obtain ⟨w, gap, type, rest, htrim, hw, -⟩ := exists_written_of_ofLine? h
    obtain ⟨c, v, hc⟩ := List.exists_cons_of_ne_nil hw.ne_nil
    have hat : c ≠ '@' := hw.forall_ne (by decide) c (hc ▸ List.mem_cons_self)
    have hempty : (Text.trim text).isEmpty = false := by simp [htrim, hc]
    have hblock : ['@', '@'].isPrefixOf (Text.trim text) = false := by
      simp [htrim, hc, List.isPrefixOf, hat.symm]
    simp [Line.ofText, hempty, hblock, h]

/-- A line is read as a column if and only if it lists one. -/
lemma listedName?_eq_some_iff {declared : List String} (hline : '\n' ∉ text) :
    listedName? declared text = some name ↔ ListsColumn declared text name := by
  constructor
  · intro h
    rw [listedName?] at h
    split at h
    · next field hfield =>
        obtain ⟨hrelation, rfl⟩ : field.isRelation declared = false ∧ field.name = name := by
          simpa using h
        have hread := ofText_eq_field_iff.mp hfield
        obtain ⟨w, gap, type, rest, htrim, hw, hgap, hne, htype, hend⟩ :=
          exists_written_of_ofLine? hread
        have hrest : '\n' ∉ rest := fun hmem =>
          hline ((Text.trim_sublist text).subset (by simp [htrim, hmem]))
        obtain ⟨other, hother, hname, htypeName⟩ :=
          exists_ofLine?_of_written hw hgap hne htype hend hrest
        obtain rfl : other = field := Option.some.inj (hother.symm.trans (htrim ▸ hread))
        rw [Field.isRelation, htypeName] at hrelation
        exact hname ▸ .column htrim hw hgap hne htype hend hrelation
    · cases h
  · rintro ⟨htrim, hw, hgap, hne, htype, hend, hmodel⟩
    next w gap type rest =>
    have hrest : '\n' ∉ rest := fun hmem =>
      hline ((Text.trim_sublist text).subset (by simp [htrim, hmem]))
    obtain ⟨field, hread, hname, htypeName⟩ :=
      exists_ofLine?_of_written hw hgap hne htype hend hrest
    have hfield := ofText_eq_field_iff.mpr (htrim ▸ hread)
    simp [listedName?, hfield, Field.isRelation, htypeName, hmodel, hname]

end ModelFile

/-! ### Entries of column objects -/

namespace TableModule

/-- A quote that may stand beside a key. -/
def isKeyQuote (c : Char) : Bool := c == '\'' || c == '"'

/-- The quotes that may stand on one side of a key, or none. -/
def keyQuotes : List (List Char) := [[], ['\''], ['"']]

lemma not_isKeyQuote_of_isWordChar {c : Char} (hc : isWordChar c = true) :
    isKeyQuote c = false := by
  rw [isKeyQuote, Text.beq_of_isWordChar (by decide) hc, Text.beq_of_isWordChar (by decide) hc]
  rfl

/-- A column up to the parenthesis of its function, as it is written: the key between its quotes, a
colon and the function, with the white space around them. -/
structure KeyedCall where
  quote : List Char
  key : List Char
  quote' : List Char
  gap : List Char
  gap' : List Char
  function : List Char
  gap'' : List Char
  deriving DecidableEq, Repr

/-- The column as it stands in a text. -/
def KeyedCall.head (call : KeyedCall) : List Char :=
  call.quote ++ (call.key ++ (call.quote' ++ (call.gap ++ ([':'] ++ (call.gap' ++
    (call.function ++ (call.gap'' ++ ['('])))))))

/-- The key and the function are words, and nothing but quotes and white space stands beside
them. -/
structure KeyedCall.Proper (call : KeyedCall) : Prop where
  quote : call.quote ∈ keyQuotes
  key : IsWord call.key
  quote' : call.quote' ∈ keyQuotes
  gap : IsGap call.gap
  gap' : IsGap call.gap'
  function : IsWord call.function
  gap'' : IsGap call.gap''

/-- An entry of a column object that lists a column: a key, in quotes or not, a colon, and a
function whose parenthesis is closed. -/
inductive ListsColumn : List Char → String → Prop
  | column {call : KeyedCall} {rest : List Char} (hcall : call.Proper)
      (hclosed : (enclosed? .code rest).isSome) :
      ListsColumn (call.head ++ rest) (String.ofList call.key)

lemma takes_keyQuote {before : List Char} (hquote : written ∈ keyQuotes)
    (hrest : Stops isKeyQuote rest) :
    keyQuote.Takes before written rest [] := by
  simp only [keyQuotes, List.mem_cons, List.not_mem_nil, or_false] at hquote
  obtain rfl | rfl | rfl := hquote
  · exact takes_opt_skip (fails_of_stops rfl hrest)
  · exact (takes_one (by decide)).opt
  · exact (takes_one (by decide)).opt

lemma mem_keyQuotes_of_reads {before : List Char} (h : keyQuote.Reads before written rest) :
    written ∈ keyQuotes := by
  obtain ⟨c, hc, rfl⟩ | rfl := h
  · obtain rfl | rfl : c = '\'' ∨ c = '"' := by simpa using hc
    · decide
    · decide
  · decide

/-- The head of a column is taken up to its parenthesis. -/
lemma KeyedCall.Proper.takes {call : KeyedCall} (h : call.Proper) :
    columnHead.Takes [] call.head rest [(2, call.function), (1, call.key)] := by
  have hquotes : ∀ q ∈ keyQuotes, Stops isWordChar q := by decide
  have hkey : ∀ v, Stops isWordChar (call.quote' ++ (call.gap ++ ':' :: v)) := fun v =>
    (hquotes _ h.quote').append
      (h.gap.stops (fun _ => Text.not_isWordChar_of_isBlank) (by simp; decide))
  have hquote : ∀ v, Stops isKeyQuote (call.gap ++ ':' :: v) := fun v =>
    h.gap.stops (fun _ => Text.not_of_isBlank isKeyQuote (by decide)) (by simp; decide)
  have hname : ∀ v, Stops isKeyQuote (call.key ++ v) :=
    h.key.stops (fun _ hc => not_isKeyQuote_of_isWordChar hc)
  have hfunction : ∀ v, Stops isWordChar (call.gap'' ++ '(' :: v) := fun v =>
    h.gap''.stops (fun _ => Text.not_isWordChar_of_isBlank) (by simp; decide)
  change columnHead.Takes [] _ rest ([(2, call.function)] ++ [(1, call.key)])
  simp only [columnHead, KeyedCall.head, takes_assoc]
  refine takes_textStart.after_nothing ((takes_keyQuote h.quote (by simpa using hname _)).seq ?_)
  refine ((takes_word h.key (by simpa using hkey _)).group 1).append ?_
  refine (takes_keyQuote h.quote' (by simpa using hquote _)).seq ?_
  refine (takes_blanks h.gap (by simp; decide)).seq (takes_char.seq ?_)
  refine (takes_blanks h.gap' (by simpa using h.function.stops_isBlank _)).seq ?_
  refine ((takes_word h.function (by simpa using hfunction _)).group 2).seq_last ?_
  exact (takes_blanks h.gap'' (by simp; decide)).seq takes_char

/-- A column is read where one is written. -/
lemma KeyedCall.Proper.exists_ofText {call : KeyedCall} (h : call.Proper)
    (hclosed : (enclosed? .code rest).isSome) :
    ∃ entry : ColumnEntry, Entry.ofText (call.head ++ rest) = .column entry ∧
      entry.name = String.ofList call.key := by
  obtain ⟨inner, hinner⟩ := Option.isSome_iff_exists.mp hclosed
  refine ⟨_, by simp only [Entry.ofText, find?_of_takes h.takes, hinner]; rfl, ?_⟩
  simp [ColumnEntry.ofChain, Match.group, Match.group?, List.lookup_cons]

/-- And nowhere else. -/
lemma exists_written_of_ofText {entry : ColumnEntry} (h : Entry.ofText text = .column entry) :
    ∃ (call : KeyedCall) (rest : List Char), text = call.head ++ rest ∧ call.Proper ∧
      (enclosed? .code rest).isSome := by
  rw [Entry.ofText] at h
  split at h
  · cases h
  · next found hfound =>
      split at h
      · cases h
      · next inner hinner =>
          obtain ⟨_, htext, -, hread⟩ := stands_of_find? hfound
          obtain ⟨_, _, rfl, ⟨_, gap'', rfl, ⟨_, function, rfl, ⟨_, gap', rfl, ⟨_, colon, rfl,
            ⟨_, gap, rfl, ⟨_, quote', rfl, ⟨_, key, rfl, ⟨_, quote, rfl, ⟨rfl, hbefore⟩, hquote⟩,
            hkey⟩, hquote'⟩, hgap⟩, ⟨c, hc, rfl⟩⟩, hgap'⟩, hfunction⟩, hgap''⟩, ⟨d, hd, rfl⟩⟩ :=
              hread
          obtain rfl : c = ':' := by simpa using hc
          obtain rfl : d = '(' := by simpa using hd
          refine ⟨⟨quote, key, quote', gap, gap', function, gap''⟩, found.stop.after, ?_, ⟨?_,
            isWord_of_reads hkey, ?_, hgap, hgap', isWord_of_reads hfunction, hgap''⟩, ?_⟩
          · simpa [hbefore, KeyedCall.head] using htext
          · exact mem_keyQuotes_of_reads hquote
          · exact mem_keyQuotes_of_reads hquote'
          · rw [hinner]
            rfl

/-- The name of the column that an entry is read as, if it is one. -/
def listedName? (text : List Char) : Option String := (Entry.ofText text).columnName?

/-- An entry is read as a column if and only if it lists one. -/
lemma listedName?_eq_some_iff : listedName? text = some name ↔ ListsColumn text name := by
  constructor
  · intro h
    cases hread : Entry.ofText text with
    | column entry =>
        obtain rfl : entry.name = name := by simpa [listedName?, hread, Entry.columnName?] using h
        obtain ⟨call, rest, rfl, hcall, hclosed⟩ := exists_written_of_ofText hread
        obtain ⟨other, hother, hname⟩ := hcall.exists_ofText hclosed
        obtain rfl : other = entry := Entry.column.inj (hother.symm.trans hread)
        exact hname ▸ .column hcall hclosed
    | unterminated => simp [listedName?, hread, Entry.columnName?] at h
    | unrecognized => simp [listedName?, hread, Entry.columnName?] at h
  · rintro ⟨hcall, hclosed⟩
    obtain ⟨entry, hread, hname⟩ := hcall.exists_ofText hclosed
    rw [listedName?, hread, ← hname]
    rfl

end TableModule

/-! ### Declarations -/

/-- A table as a text declares it. -/
structure Declaration where
  table : String
  /-- The texts of its entries: lines of a model, entries of a column object, entries of a
  statement. -/
  entries : List (List Char)
  deriving DecidableEq, Repr

/-- The model that a match of `modelHead` begins, with its lines, if it is closed. -/
def ModelFile.declaration? (found : Match) : Option Declaration :=
  (enclosed? .code found.stop.after).map fun inner =>
    ⟨String.ofList (found.group 1), Text.lines inner.1⟩

/-- The table that the arguments of a table call declare: the first is a literal and the second an
object, whose entries stand between commas. -/
def TableModule.argumentsDeclaration? : List (List Char) → Option Declaration
  | name :: ('\x7b' :: object) :: _ => (stringLiteral? name).map fun name =>
    ⟨String.ofList name, splitTopLevel .code ',' ((bracketBody? .code ('\x7b' :: object)).getD [])⟩
  | _ => none

/-- The table that a match of `tableHead` declares, if the call is closed. -/
def TableModule.declaration? (found : Match) : Option Declaration :=
  (argumentsAfter? found).bind fun arguments =>
    argumentsDeclaration? (splitTopLevel .code ',' arguments)

/-- The table that a match of `createTableHead` creates, with the entries between commas, if its
list is closed. -/
def Ddl.declaration? (found : Match) : Option Declaration :=
  (listAfter? found).map fun list => ⟨nameOf (found.group 1), splitTopLevel .script ',' list⟩

/-- The tables that a text of a source declares outside of comments, one after the other. -/
def Source.declarations (source : Source) (text : List Char) : List Declaration :=
  let stripped := stripComments source.dialect text
  match source with
  | .prisma => (ModelFile.modelHead.findAll stripped).filterMap ModelFile.declaration?
  | .drizzle => (TableModule.tableHead.findAll stripped).filterMap TableModule.declaration?
  | .sql => (Ddl.createTableHead.findAll stripped).filterMap Ddl.declaration?
  | .unknown => []

/-- The last declaration of a table, if there is one. -/
def Source.lastDeclaration? (source : Source) (text : List Char) (table : String) :
    Option Declaration :=
  (source.declarations text).reverse.find? fun declaration => declaration.table == table

/-- An entry of a declaration lists a column of a name. -/
def Source.Lists (source : Source) (text entry : List Char) (name : String) : Prop :=
  match source with
  | .prisma => ModelFile.ListsColumn (ModelFile.Contents.ofText text).declared entry name
  | .drizzle => TableModule.ListsColumn entry name
  | .sql => Ddl.ListsColumn entry name
  | .unknown => False

/-- The names of the columns that entries list, in their order and as often as they are listed. -/
inductive Listing (lists : List Char → String → Prop) : List (List Char) → List String → Prop
  | nil : Listing lists [] []
  | column {entry : List Char} {name : String} {entries : List (List Char)} {names : List String}
      (h : lists entry name) (hrest : Listing lists entries names) :
      Listing lists (entry :: entries) (name :: names)
  | other {entry : List Char} {entries : List (List Char)} {names : List String}
      (h : ∀ name, ¬ lists entry name) (hrest : Listing lists entries names) :
      Listing lists (entry :: entries) names

section Listing

variable {lists : List Char → String → Prop} {listed? : List Char → Option String}
  {entries : List (List Char)}

/-- What is read of entries one by one is what they list. -/
lemma listing_filterMap
    (h : ∀ entry ∈ entries, ∀ name, listed? entry = some name ↔ lists entry name) :
    Listing lists entries (entries.filterMap listed?) := by
  induction entries with
  | nil => exact .nil
  | cons entry entries ih =>
      rw [List.forall_mem_cons] at h
      cases hentry : listed? entry with
      | none =>
          rw [List.filterMap_cons_none hentry]
          refine .other (fun name hname => ?_) (ih h.2)
          simp [(h.1 name).mpr hname] at hentry
      | some name =>
          rw [List.filterMap_cons_some hentry]
          exact .column ((h.1 name).mp hentry) (ih h.2)

/-- No name comes twice if and only if no two entries list the same one. -/
lemma nodup_filterMap_iff
    (h : ∀ entry ∈ entries, ∀ name, listed? entry = some name ↔ lists entry name) :
    (entries.filterMap listed?).Nodup ↔
      entries.Pairwise fun entry other => ∀ name, ¬ (lists entry name ∧ lists other name) := by
  rw [List.Nodup, List.pairwise_filterMap]
  refine List.Pairwise.iff_of_mem fun {entry other} hentry hother => ?_
  simp only [ne_eq, ← h entry hentry, ← h other hother]
  refine ⟨fun hne name hboth => hne name hboth.1 name hboth.2 rfl,
    fun hno name hname name' hname' heq => ?_⟩
  exact hno name ⟨hname, heq ▸ hname'⟩

end Listing

/-! ### Schemas -/

/-- The name of the column that an entry of a declaration is read as, if it is one. -/
def Source.listedName? (source : Source) (text entry : List Char) : Option String :=
  match source with
  | .prisma => ModelFile.listedName? (ModelFile.Contents.ofText text).declared entry
  | .drizzle => TableModule.listedName? entry
  | .sql => Ddl.listedName? entry
  | .unknown => none

/-- The entries of a declaration are read as the columns that they list. -/
lemma listedName?_iff_lists {source : Source} {declaration : Declaration}
    (h : declaration ∈ source.declarations text) :
    ∀ entry ∈ declaration.entries, ∀ name,
      source.listedName? text entry = some name ↔ source.Lists text entry name := by
  intro entry hentry name
  cases source with
  | prisma =>
      -- the lines of a model hold no line feed
      obtain ⟨found, -, hfound⟩ := List.mem_filterMap.mp h
      obtain ⟨inner, -, rfl⟩ := Option.map_eq_some_iff.mp hfound
      refine ModelFile.listedName?_eq_some_iff fun hfeed => ?_
      simpa using (Text.mem_of_mem_segments hentry '\n' hfeed).1
  | drizzle => exact TableModule.listedName?_eq_some_iff
  | sql => exact Ddl.listedName?_eq_some_iff
  | unknown => simp [Source.declarations] at h

/-- The last tables of a name are those of the last declaration, if the tables are those of the
declarations. -/
lemma map_lastNamed? {tables : List Table} {declarations : List Declaration}
    {names : Declaration → List String} (name : String)
    (h : tables.map (fun t => (t.name, t.columnNames))
      = declarations.map fun d => (d.table, names d)) :
    (lastNamed? name tables).map Table.columnNames
      = (declarations.reverse.find? fun d => d.table == name).map names := by
  have hpairs : (lastNamed? name tables).map (fun t => (t.name, t.columnNames))
      = (declarations.reverse.find? fun d => d.table == name).map fun d => (d.table, names d) := by
    have hreverse := congrArg (fun pairs => pairs.reverse.find? fun p => p.1 == name) h
    simpa [lastNamed?, ← List.map_reverse, List.find?_map, Function.comp_def] using hreverse
  simpa [Option.map_map, Function.comp_def] using congrArg (Option.map Prod.snd) hpairs

/-- The columns of a model are read line by line. -/
lemma ModelFile.columnNames_ofLines (declared : List String) (name : String)
    (lines : List (List Char)) : (Model.mk name (lines.map .ofText)).columnNames declared
      = lines.filterMap (listedName? declared) := by
  rw [Model.columnNames, Model.fields]
  induction lines with
  | nil => rfl
  | cons line lines ih =>
      rw [List.map_cons, List.filterMap_cons, List.filterMap_cons, ← ih, listedName?]
      cases Line.ofText line with
      | field field =>
          by_cases hrelation : field.isRelation declared = true <;> simp [hrelation]
      | _ => rfl

lemma ModelFile.map_tables (text : List Char) :
    (Contents.ofText text).tables.map (fun t => (t.name, t.columnNames))
      = (Source.prisma.declarations text).map fun d =>
          (d.table, d.entries.filterMap (Source.prisma.listedName? text)) := by
  rw [Contents.tables, List.map_map]
  simp only [Function.comp_def, name_table, columnNames_table]
  rw [Contents.ofText, Contents.ofStripped, List.reduceOption, List.filterMap_map,
    List.map_filterMap, Source.declarations, List.map_filterMap]
  refine List.filterMap_congr fun found _ => ?_
  rw [Function.comp_apply, id, Model.ofMatch?, declaration?, Option.map_map, Option.map_map]
  refine congrArg (Option.map · (enclosed? .code found.stop.after)) (funext fun inner => ?_)
  exact congrArg (Prod.mk _) (columnNames_ofLines _ _ _)

/-- The arguments of a table call give the columns of the declaration that they are. -/
lemma TableModule.map_toOption_ofArguments (binding : String) (arguments : List (List Char)) :
    (TableCall.ofArguments binding arguments).toOption.map
        (fun call => (call.name, call.entries.filterMap Entry.columnName?))
      = (argumentsDeclaration? arguments).map fun d =>
          (d.table, d.entries.filterMap listedName?) := by
  rw [TableCall.ofArguments.eq_def]
  cases arguments with
  | nil => rfl
  | cons first others =>
      rw [List.head?_cons, Option.bind_some, List.tail_cons]
      cases hname : stringLiteral? first with
      | none =>
          rw [argumentsDeclaration?.eq_def]
          dsimp only [Except.toOption, Option.map_none]
          split
          · next heq =>
              rw [← (List.cons.inj heq).1, hname]
              rfl
          · rfl
      | some name =>
          dsimp only
          split
          · rw [argumentsDeclaration?, hname]
            exact congrArg (fun names => some (String.ofList name, names)) List.filterMap_map
          · next hobject =>
              rw [argumentsDeclaration?.eq_def]
              split
              · next heq => exact absurd (List.cons.inj heq).2 (hobject _ _)
              · rfl

lemma TableModule.map_tables (text : List Char) :
    ((Contents.ofText text).tables.map (TableCall.table (Contents.ofText text))).map
        (fun t => (t.name, t.columnNames))
      = (Source.drizzle.declarations text).map fun d =>
          (d.table, d.entries.filterMap (Source.drizzle.listedName? text)) := by
  rw [List.map_map]
  simp only [Function.comp_def, name_table, columnNames_table]
  rw [Contents.tables, Contents.ofText, Contents.ofStripped, List.filterMap_map,
    List.map_filterMap, Source.declarations, List.map_filterMap]
  refine List.filterMap_congr fun found _ => ?_
  rw [Function.comp_apply, TableCall.ofMatch, declaration?]
  cases argumentsAfter? found with
  | none => rfl
  | some arguments => exact map_toOption_ofArguments _ _

lemma Ddl.map_tables (text : List Char) :
    (Script.ofText text).createdTables.map (fun t => (t.name, t.columnNames))
      = (Source.sql.declarations text).map fun d =>
          (d.table, d.entries.filterMap (Source.sql.listedName? text)) := by
  rw [Script.createdTables, List.map_map]
  simp only [Function.comp_def, name_table, columnNames_table]
  rw [Script.ofText, Script.ofStripped, List.reduceOption, List.filterMap_map,
    List.map_filterMap, Source.declarations, List.map_filterMap]
  refine List.filterMap_congr fun found _ => ?_
  rw [Function.comp_apply, id, CreateTable.ofMatch?, declaration?, Option.map_map, Option.map_map]
  refine congrArg (Option.map · (listAfter? found)) (funext fun list => ?_)
  exact congrArg (Prod.mk _) (List.filterMap_map)

/-- A table of a schema has the columns that are read in the last declaration of its name. -/
lemma columnNames_table? (source : Source) (text : List Char) (rawPath name : String) :
    ((Schema.ofText source text rawPath).table? name).map Table.columnNames
      = (source.lastDeclaration? text name).map fun d =>
          d.entries.filterMap (source.listedName? text) := by
  rw [table?_ofText]
  cases source with
  | prisma =>
      rw [Source.draft?, Option.bind_some, ModelFile.table?_draft]
      exact map_lastNamed? name (ModelFile.map_tables text)
  | drizzle =>
      rw [Source.draft?, Option.bind_some, TableModule.table?_draft]
      exact map_lastNamed? name (TableModule.map_tables text)
  | sql =>
      rw [Source.draft?, Option.bind_some, Ddl.table?_draft, Option.map_map]
      simp only [Function.comp_def, Ddl.columnNames_amend]
      exact map_lastNamed? name (Ddl.map_tables text)
  | unknown => rfl

end SchemaReader
