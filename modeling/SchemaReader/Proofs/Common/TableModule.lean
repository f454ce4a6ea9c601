/-
Common tables as table calls.

* `CommonTable.call`: the call that declares a common table, and `commonModule`: the calls of
  several tables;
* `Quiet`: a text in which neither a table nor a block of relations begins;
* `ofText_commonModule`: such a module is read as these calls;
* `schema_commonModule`: it defines the tables.
-/
import SchemaReader.Extraction
import SchemaReader.Proofs.Common.Table
import SchemaReader.Proofs.Lexical.Comments
import SchemaReader.Proofs.Lexical.Listed
import SchemaReader.Proofs.TableModule.TableHead

namespace SchemaReader

open TableModule
open Text (IsWord IsGap Stops isWordChar isBlank)
open Pattern

/-! ### Table calls -/

/-- The methods that are called on a column. -/
def methodNames (nullable primaryKey unique : Bool) : List String :=
  (if nullable then [] else ["notNull"]) ++ (if primaryKey then ["primaryKey"] else []) ++
    if unique then ["unique"] else []

/-- Calls of methods without arguments. -/
def methodCalls (names : List String) : List Char :=
  names.flatMap fun name => '.' :: (name.toList ++ ['(', ')'])

/-- `.notNull().primaryKey().unique()`, with those of the calls that a column has. -/
def CommonColumn.calls (column : CommonColumn) : List Char :=
  methodCalls (methodNames column.nullable column.primaryKey column.unique)

/-- A name between single quotes. -/
def quotedName (name : String) : List Char := '\'' :: (name.toList ++ ['\''])

/-- `c: text('c')` and the calls on the column. -/
def CommonColumn.entryText (column : CommonColumn) : List Char :=
  column.name.toList ++
    (": text".toList ++ (('(' :: (quotedName column.name ++ [')'])) ++ column.calls))

/-- The object of the columns. -/
def CommonTable.object (table : CommonTable) : List Char :=
  '\x7b' :: ([' '] ++ (listed (table.columns.map CommonColumn.entryText) ++ [' ']) ++ ['\x7d'])

/-- `export const v = pgTable(` -/
def callHead (binding : String) : List Char :=
  "export ".toList ++ ("const ".toList ++ (binding.toList ++ " = pgTable(".toList))

/-- `export const v = pgTable('T', columns);` -/
def CommonTable.call (binding : String) (table : CommonTable) : List Char :=
  callHead binding ++ (listed [quotedName table.name, table.object] ++ [')', ';'])

/-- The calls of tables, each on a line of its own and with a variable of its own. -/
def commonModule (binding : CommonTable → String) (tables : List CommonTable) : List Char :=
  tables.flatMap fun table => table.call (binding table) ++ ['\n']

variable {column : CommonColumn} {columns : List CommonColumn} {table : CommonTable}
  {tables : List CommonTable} {binding : String} {q : Pattern} {before u v w rest : List Char}

/-! ### Where calls begin -/

lemma wordLed_blockHead : blockHead.WordLed :=
  ((wordLed_wordEdge fun _ _ htext => fails_lit (by decide) htext).append _).append _

/-- No block of relations begins within a word, unless the word is the one for it and a parenthesis
comes next. -/
lemma silent_blockHead (hw : IsWord w) (hword : Stops isWordChar rest)
    (h : w = "relations".toList → Stops (· == '(') (rest.dropWhile isBlank)) :
    Silent blockHead before w rest := by
  refine wordLed_blockHead.silent_word hw.chars ?_
  simp only [blockHead, fails_assoc, fails_wordEdge_append]
  intro _
  exact fails_lit_append (by decide) (blanks_char_avoids (by decide)) hw.chars hword
    fun heq => fails_blanks_char (by decide) (h heq)

/-- Neither a table nor a block of relations begins within a text. -/
def Quiet (text rest : List Char) : Prop :=
  ∀ q ∈ [tableHead, blockHead], ∀ before, Silent q before text rest

lemma quiet_nil : Quiet [] rest := fun _ _ _ => trivial

lemma Quiet.append (hu : Quiet u (v ++ rest)) (hv : Quiet v rest) : Quiet (u ++ v) rest :=
  fun q hq before => silent_append.mpr ⟨hu q hq before, hv q hq _⟩

lemma quiet_of_silent (htable : ∀ before, Silent tableHead before u rest)
    (hblock : ∀ before, Silent blockHead before u rest) : Quiet u rest := by
  intro q hq before
  simp only [List.mem_cons, List.not_mem_nil, or_false] at hq
  rcases hq with rfl | rfl
  · exact htable before
  · exact hblock before

lemma quiet_outside (hu : ∀ c ∈ u, isWordChar c = false) : Quiet u rest := by
  exact quiet_of_silent (fun before => silent_tableHead_of_not_isWordChar hu)
    fun before => wordLed_blockHead.silent_outside hu

/-- Nor does one begin within a word that white space does not follow. -/
lemma quiet_word (hw : IsWord w) (hword : Stops isWordChar rest) (hblank : Stops isBlank rest)
    (h : w = "relations".toList → Stops (· == '(') rest) : Quiet w rest := by
  have hdrop : rest.dropWhile isBlank = rest :=
    Text.dropWhile_append_of_stops (u := []) (by simp) hblank
  refine quiet_of_silent (fun before => silent_tableHead_word hw.chars hword
    (fun _ => fails_someBlanks hblank) fun _ => fails_someBlanks hblank) fun before => ?_
  exact silent_blockHead hw hword (by rwa [hdrop])

/-! ### Quiet calls -/

lemma quiet_quotedName {name : String} (hw : IsWord name.toList) :
    Quiet (quotedName name) rest := by
  have hquote : ∀ v, Quiet ['\''] v := fun v => quiet_outside (by decide)
  have hname : Quiet name.toList ('\'' :: rest) :=
    quiet_word hw (by simp; decide) (by simp; decide) fun _ => by simp
  exact Quiet.append (hquote _) (Quiet.append hname (hquote _))

lemma quiet_methodCalls {names : List String} (hnames : ∀ name ∈ names, IsWord name.toList ∧
    name.toList ≠ "relations".toList) : Quiet (methodCalls names) rest := by
  induction names with
  | nil => exact quiet_nil
  | cons name names ih =>
      rw [List.forall_mem_cons] at hnames
      have hperiod : ∀ v, Quiet ['.'] v := fun v => quiet_outside (by decide)
      have hparentheses : ∀ v, Quiet ['(', ')'] v := fun v => quiet_outside (by decide)
      have hname : Quiet name.toList (['(', ')'] ++ (methodCalls names ++ rest)) :=
        quiet_word hnames.1.1 (by simp; decide) (by simp; decide) fun heq =>
          absurd heq hnames.1.2
      have hcall : Quiet ('.' :: (name.toList ++ ['(', ')'])) (methodCalls names ++ rest) :=
        Quiet.append (u := ['.']) (hperiod _) (Quiet.append hname (hparentheses _))
      exact hcall.append (ih hnames.2)

lemma quiet_entryText (hw : IsWord column.name.toList) : Quiet column.entryText rest := by
  have hcalls : ∀ nullable primaryKey unique, ∀ name ∈ methodNames nullable primaryKey unique,
      IsWord name.toList ∧ name.toList ≠ "relations".toList := by decide
  have hsigns : ∀ t ∈ [[':', ' '], ['('], [')']], ∀ v, Quiet t v := by
    intro t ht v
    have hall : ∀ t ∈ [[':', ' '], ['('], [')']], ∀ c ∈ t, isWordChar c = false := by decide
    exact quiet_outside (hall t ht)
  have htext : column.entryText = column.name.toList ++ ([':', ' '] ++ ("text".toList ++ (['('] ++
      (quotedName column.name ++ ([')'] ++ column.calls))))) := by simp [CommonColumn.entryText]
  rw [htext]
  refine Quiet.append (quiet_word hw (by simp; decide) (by simp; decide) fun _ => by simp) ?_
  refine (hsigns _ (by decide) _).append (Quiet.append ?_ ?_)
  · exact quiet_word (by decide) (by simp; decide) (by simp; decide)
      fun heq => absurd heq (by decide)
  refine (hsigns _ (by decide) _).append ((quiet_quotedName hw).append ?_)
  exact (hsigns _ (by decide) _).append (quiet_methodCalls (hcalls _ _ _))

lemma quiet_listed {texts : List (List Char)} (h : ∀ t ∈ texts, ∀ rest, Quiet t rest) :
    Quiet (listed texts) rest := by
  induction texts with
  | nil => exact quiet_nil
  | cons t texts ih =>
      rw [List.forall_mem_cons] at h
      cases texts with
      | nil => exact h.1 rest
      | cons u texts =>
          have hseparator : ∀ v, Quiet [',', ' '] v := fun v => quiet_outside (by decide)
          exact (h.1 _).append (Quiet.append (hseparator _) (ih h.2))

lemma quiet_object (h : table.Proper) : Quiet table.object rest := by
  have hopen : ∀ v, Quiet ['\x7b', ' '] v := fun v => quiet_outside (by decide)
  have hclose : ∀ v, Quiet [' ', '\x7d'] v := fun v => quiet_outside (by decide)
  have hentries : ∀ t ∈ table.columns.map CommonColumn.entryText, ∀ rest, Quiet t rest := by
    intro t ht rest
    obtain ⟨column, hcolumn, rfl⟩ := List.mem_map.mp ht
    exact quiet_entryText (h.columns column hcolumn).1
  have htext : table.object = ['\x7b', ' '] ++ (listed (table.columns.map CommonColumn.entryText) ++
      [' ', '\x7d']) := by simp [CommonTable.object]
  rw [htext]
  exact (hopen _).append ((quiet_listed hentries).append (hclose _))

/-- What stands behind the head of a call, up to the end of its line. -/
def CommonTable.callBody (table : CommonTable) : List Char :=
  listed [quotedName table.name, table.object] ++ [')', ';', '\n']

lemma CommonTable.call_eq (binding : String) (table : CommonTable) :
    table.call binding ++ ['\n'] = callHead binding ++ table.callBody := by
  simp [CommonTable.call, CommonTable.callBody]

lemma quiet_callBody (h : table.Proper) : Quiet table.callBody rest := by
  have hend : ∀ v, Quiet [')', ';', '\n'] v := fun v => quiet_outside (by decide)
  have hparts : ∀ t ∈ [quotedName table.name, table.object], ∀ rest, Quiet t rest := by
    simp only [List.forall_mem_cons, List.not_mem_nil, false_implies, implies_true, and_true]
    exact ⟨fun rest => quiet_quotedName h.name, fun rest => quiet_object h⟩
  exact (quiet_listed hparts).append (hend _)

/-! ### Heads of calls -/

lemma callHead_eq (binding : String) :
    callHead binding = "export".toList ++ ([' '] ++ ("const".toList ++
    ([' '] ++ (binding.toList ++ ([' ', '=', ' '] ++ ("pgTable".toList ++ ['('])))))) := rfl

/-- No block of relations begins in the head of a call, also if the variable is called
`relations`. -/
lemma silent_callHead (hw : IsWord binding.toList) :
    Silent blockHead before (callHead binding) rest := by
  have hsigns : ∀ t ∈ [[' '], [' ', '=', ' '], ['(']], ∀ before v, Silent blockHead before t v := by
    intro t ht before v
    have hall : ∀ t ∈ [[' '], [' ', '=', ' '], ['(']], ∀ c ∈ t, isWordChar c = false := by
      decide
    exact wordLed_blockHead.silent_outside (hall t ht)
  have hwords : ∀ t ∈ ["export", "const", "pgTable"], ∀ before v, Stops isWordChar v →
      Silent blockHead before t.toList v := by
    intro t ht before v hv
    have hall : ∀ t ∈ ["export", "const", "pgTable"], IsWord t.toList ∧
        t.toList ≠ "relations".toList := by decide
    exact silent_blockHead (hall t ht).1 hv fun heq => absurd heq (hall t ht).2
  have hbinding : ∀ before v, Silent blockHead before binding.toList (' ' :: '=' :: v) :=
    fun before v => silent_blockHead hw (by simp; decide) fun _ => by
      simp [List.dropWhile, show isBlank ' ' = true by decide, show isBlank '=' = false by decide]
  rw [callHead_eq]
  refine silent_append.mpr ⟨hwords _ (by decide) _ _ (by simp; decide), ?_⟩
  refine silent_append.mpr ⟨hsigns _ (by decide) _ _, ?_⟩
  refine silent_append.mpr ⟨hwords _ (by decide) _ _ (by simp; decide), ?_⟩
  refine silent_append.mpr ⟨hsigns _ (by decide) _ _, ?_⟩
  refine silent_append.mpr ⟨hbinding _ _, silent_append.mpr ⟨hsigns _ (by decide) _ _, ?_⟩⟩
  exact silent_append.mpr ⟨hwords _ (by decide) _ _ (by simp; decide), hsigns _ (by decide) _ _⟩

lemma takes_callHead (hw : IsWord binding.toList) :
    tableHead.Takes before (callHead binding) rest [(1, binding.toList)] := by
  have htext : callHead binding = "export".toList ++ ([' '] ++ ("const".toList ++ ([' '] ++
      (binding.toList ++ ([' '] ++ (['='] ++ ([' '] ++ ("pgTable".toList ++ ['('])))))))) := rfl
  have hcall : ∀ before, functionCall.Takes before ("pgTable".toList ++ ['(']) rest [] := fun _ =>
    ((takes_lit "pgTable").alt_left _ |>.alt_left _).seq
      ((takes_blanks (g := []) (by decide) (by simp; decide)).seq takes_char)
  rw [htext]
  exact takes_tableHead_export (by decide) (by simp) fun _ =>
    takes_constDeclaration (by decide) (by simp) (by simpa using hw.stops_isBlank _) fun _ =>
      takes_assignedCall hw (by decide) (by decide) (by simp; decide) hcall

lemma opens_call (hbinding : IsWord binding.toList) (h : table.Proper) :
    tableHead.Opens (fun _ => True) (callHead binding) table.callBody [(1, binding.toList)] where
  ne_nil := List.append_ne_nil_of_left_ne_nil (by decide) _
  takes _ _ _ := takes_callHead hbinding
  silent _ _ := quiet_callBody h _ (by simp) _
  next _ := trivial

/-! ### Entries -/

/-- The entry that a column is read as. -/
def CommonColumn.entry (column : CommonColumn) : TableModule.ColumnEntry where
  name := column.name
  type := "text"
  nullable := column.nullable
  primaryKey := column.primaryKey
  unique := column.unique
  references := none

lemma closed_quotedName {P : Char → Prop} {name : String} (hw : IsWord name.toList) :
    Closed .code P (quotedName name) :=
  .literal P (by decide) fun c hc => keeps_of_isWordChar (hw.chars c hc) (by decide)

lemma closed_calls {P : Char → Prop} (hP : ∀ c, isWordChar c = true → P c) (hperiod : P '.') :
    Closed .code P column.calls := by
  have hnames : ∀ nullable primaryKey unique, ∀ name ∈ methodNames nullable primaryKey unique,
      IsWord name.toList := by decide
  have hnames := hnames column.nullable column.primaryKey column.unique
  rw [CommonColumn.calls]
  generalize methodNames column.nullable column.primaryKey column.unique = names at hnames
  induction names with
  | nil => exact .nil P
  | cons name names ih =>
      rw [List.forall_mem_cons] at hnames
      have hparentheses : Closed .code P ['(', ')'] := .bracket P (by decide) (by decide) (.nil _)
      have hcall : Closed .code P ('.' :: (name.toList ++ ['(', ')'])) :=
        .cons (by decide) hperiod ((IsWord.closed hnames.1 hP).append hparentheses)
      exact hcall.append (ih hnames.2)

lemma isPart_entryText (hw : IsWord column.name.toList) : IsPart .code column.entryText where
  ne_nil := List.append_ne_nil_of_left_ne_nil hw.ne_nil _
  start := hw.stops_isBlank _
  stop := by
    have hlast : ∀ nullable primaryKey unique, Stops isBlank
        (')' :: methodCalls (methodNames nullable primaryKey unique)).reverse := by decide
    have hreverse : column.entryText.reverse = (')' :: column.calls).reverse ++
        (column.name.toList ++ (": text".toList ++ ('(' :: quotedName column.name))).reverse := by
      simp [CommonColumn.entryText]
    rw [hreverse]
    exact (hlast _ _ _).append_of_ne_nil (by simp) _
  closed := by
    have htype : Closed .code (· ≠ ',') ": text".toList := closed_of_forall (by decide)
    have harguments : Closed .code (· ≠ ',') ('(' :: (quotedName column.name ++ [')'])) :=
      .bracket _ (by decide) (by decide) (closed_quotedName hw)
    have hcalls : Closed .code (· ≠ ',') column.calls :=
      closed_calls (fun _ => ne_comma_of_isWordChar) (by decide)
    exact (IsWord.closed hw fun _ => ne_comma_of_isWordChar).append
      (htype.append (harguments.append hcalls))

/-- The head of a column is its name, its function and the parenthesis. -/
lemma takes_columnHead (hw : IsWord w) (hv : IsWord v) :
    columnHead.Takes [] (w ++ ([':'] ++ ([' '] ++ (v ++ ['('])))) rest [(2, v), (1, w)] := by
  have hquote : ∀ before v, Stops (fun c => c == '\'' || c == '"') v →
      keyQuote.Takes before [] v [] := fun _ _ hv =>
    takes_opt_skip (fails_of_stops rfl hv)
  have hname : ∀ v, Stops (fun c => c == '\'' || c == '"') (w ++ v) := fun v =>
    hw.stops (fun c hc => by
      rw [Text.beq_of_isWordChar (by decide) hc, Text.beq_of_isWordChar (by decide) hc]
      rfl) v
  have hnone : ∀ before v, Stops isBlank v → blanks.Takes before [] v [] := fun _ _ hv =>
    takes_blanks Text.isGap_nil hv
  change columnHead.Takes [] _ rest ([(2, v)] ++ [(1, w)])
  simp only [columnHead, takes_assoc]
  refine takes_textStart.after_nothing ((hquote _ _ (by simpa using hname _)).after_nothing ?_)
  refine ((takes_word hw (by simp; decide)).group 1).append ?_
  refine (hquote _ _ (by simp)).after_nothing ((hnone _ _ (by simp; decide)).after_nothing ?_)
  refine takes_char.seq ((takes_blanks (by decide) (by simpa using hv.stops_isBlank _)).seq ?_)
  refine ((takes_word hv (by simp; decide)).group 2).seq_last ?_
  exact (hnone _ _ (by simp; decide)).after_nothing takes_char

/-- What the calls on a column say. -/
lemma calls_eq (column : CommonColumn) :
    (methodCall ".notNull").occursIn column.calls = !column.nullable ∧
      (methodCall ".primaryKey").occursIn column.calls = column.primaryKey ∧
        (methodCall ".unique").occursIn column.calls = column.unique ∧
          referencesCall.find? column.calls = none := by
  have hcalls : ∀ nullable primaryKey unique,
      let calls := methodCalls (methodNames nullable primaryKey unique)
      (methodCall ".notNull").occursIn calls = !nullable ∧
        (methodCall ".primaryKey").occursIn calls = primaryKey ∧
          (methodCall ".unique").occursIn calls = unique ∧ referencesCall.find? calls = none := by
    decide
  exact hcalls column.nullable column.primaryKey column.unique

lemma ofText_entryText (hw : IsWord column.name.toList) :
    Entry.ofText column.entryText = .column column.entry := by
  have htext : column.entryText
      = (column.name.toList ++ ([':'] ++ ([' '] ++ ("text".toList ++ ['('])))) ++
      (quotedName column.name ++ ')' :: column.calls) := by
    simp [CommonColumn.entryText]
  have hfound := find?_of_eq_append htext (takes_columnHead hw (v := "text".toList) (by decide))
  have henclosed : enclosed? .code (quotedName column.name ++ ')' :: column.calls)
      = some (quotedName column.name, column.calls) :=
    enclosed?_of_closed (closed_quotedName (P := fun _ => True) hw) (by decide)
  obtain ⟨hnull, hkey, hunique, hreferences⟩ := calls_eq column
  simp only [Entry.ofText, hfound, henclosed, TableModule.ColumnEntry.ofChain, hnull, hkey, hunique,
    hreferences]
  simp [CommonColumn.entry, Match.group, Match.group?, List.lookup_cons]

/-! ### Calls -/

lemma isPart_quotedName {name : String} (hw : IsWord name.toList) :
    IsPart .code (quotedName name) where
  ne_nil := List.cons_ne_nil _ _
  start := by simp [quotedName]; decide
  stop := by simp [quotedName]; decide
  closed := closed_quotedName hw

section Calls

variable (h : table.Proper)

include h

lemma isPart_entryTexts : ∀ t ∈ table.columns.map CommonColumn.entryText, IsPart .code t := by
  intro t ht
  obtain ⟨column, hcolumn, rfl⟩ := List.mem_map.mp ht
  exact isPart_entryText (h.columns column hcolumn).1

/-- The body of the object is closed. -/
lemma closed_entries : Closed .code (fun _ => True)
    ([' '] ++ (listed (table.columns.map CommonColumn.entryText) ++ [' '])) :=
  (closed_of_forall (by decide)).append
    ((closed_listed (isPart_entryTexts h)).append (closed_of_forall (by decide)))

lemma isPart_object : IsPart .code table.object where
  ne_nil := List.cons_ne_nil _ _
  start := by simp [CommonTable.object]; decide
  stop := by simp [CommonTable.object]; decide
  closed := .bracket _ (by decide) (by decide) (closed_entries h)

lemma entriesOf_object : entriesOf table.object
    = table.columns.map fun column => .column column.entry := by
  have hbody : bracketBody? .code table.object
      = some ([' '] ++ (listed (table.columns.map CommonColumn.entryText) ++ [' '])) :=
    bracketBody?_of_closed (closed_entries h) (by decide) (by decide)
  rw [entriesOf, hbody, Option.getD_some, splitTopLevel_listed (isPart_entryTexts h) (by decide)
    (by decide), List.map_map]
  exact List.map_congr_left fun column hcolumn => ofText_entryText (h.columns column hcolumn).1

end Calls

/-- The call that a table is read as. -/
def CommonTable.readCall (binding : String) (table : CommonTable) : TableCall where
  binding := binding
  name := table.name
  entries := table.columns.map fun column => .column column.entry
  callbacks := []

lemma stringLiteral?_quotedName {name : String} (hw : IsWord name.toList) :
    stringLiteral? (quotedName name) = some name.toList := by
  rw [stringLiteral?, (isPart_quotedName hw).trim, quotedName]
  simp [isQuote]

/-- A call is read from its arguments: a quoted name, an object, and callbacks behind them. -/
lemma ofMatch_of_enclosed (binding : String) {name : String}
    {text arguments object rest : List Char}
    {callbacks : List (List Char)} (hw : IsWord name.toList)
    (henclosed : enclosed? .code text = some (arguments, rest))
    (hsplit : splitTopLevel .code ',' arguments
      = quotedName name :: ('\x7b' :: object) :: callbacks) :
    TableCall.ofMatch (matchOf (text, [(1, binding.toList)])) = .ok {
      binding
      name
      entries := entriesOf ('\x7b' :: object)
      callbacks := callbacks.map .ofText } := by
  have harguments : argumentsAfter? (matchOf (text, [(1, binding.toList)])) = some arguments := by
    simp only [argumentsAfter?, matchOf, henclosed, Option.map_some]
  simp only [TableCall.ofMatch, harguments, hsplit, TableCall.ofArguments, List.head?_cons,
    Option.bind_some, stringLiteral?_quotedName hw, List.tail_cons]
  simp [Match.group, Match.group?, matchOf]

/-- What the match of a call is read as. -/
lemma ofMatch_call (h : table.Proper) (binding : String) (rest : List Char) :
    TableCall.ofMatch (matchOf (table.callBody ++ rest, [(1, binding.toList)]))
      = .ok (table.readCall binding) := by
  have hparts : ∀ t ∈ [quotedName table.name, table.object], IsPart .code t := by
    simp only [List.forall_mem_cons, List.not_mem_nil, false_implies, implies_true, and_true]
    exact ⟨isPart_quotedName h.name, isPart_object h⟩
  have hsplit := splitTopLevel_listed hparts Text.isGap_nil Text.isGap_nil
  rw [List.nil_append, List.append_nil] at hsplit
  have henclosed : enclosed? .code (table.callBody ++ rest)
      = some (listed [quotedName table.name, table.object], ';' :: '\n' :: rest) := by
    rw [CommonTable.callBody, List.append_assoc]
    exact enclosed?_of_closed (closed_listed hparts) (by decide)
  have hcall := ofMatch_of_enclosed binding h.name henclosed hsplit
  rw [hcall, CommonTable.readCall, ← entriesOf_object h]
  rfl

/-! ### Modules -/

lemma ne_slash_call (h : table.Proper) (hbinding : IsWord binding.toList) :
    ∀ c ∈ table.call binding ++ ['\n'], c ≠ '/' := by
  have hword : ∀ {w}, IsWord w → ∀ c ∈ w, c ≠ '/' := fun hw => hw.forall_ne (by decide)
  have hquoted : ∀ {name : String}, IsWord name.toList → ∀ c ∈ quotedName name, c ≠ '/' := fun hw =>
    List.forall_mem_cons.mpr ⟨by decide, List.forall_mem_append.mpr ⟨hword hw, by simp⟩⟩
  have hcalls : ∀ nullable primaryKey unique,
      ∀ c ∈ methodCalls (methodNames nullable primaryKey unique), c ≠ '/' := by decide
  have hentry : ∀ t ∈ table.columns.map CommonColumn.entryText, ∀ c ∈ t, c ≠ '/' := by
    intro t ht
    obtain ⟨column, hcolumn, rfl⟩ := List.mem_map.mp ht
    have hw := (h.columns column hcolumn).1
    simp only [CommonColumn.entryText, List.forall_mem_append, List.forall_mem_cons]
    exact ⟨hword hw, by decide, ⟨by decide, hquoted hw, by decide, by simp⟩, hcalls _ _ _⟩
  have hobject : ∀ c ∈ table.object, c ≠ '/' := by
    simp only [CommonTable.object, List.forall_mem_cons, List.forall_mem_append]
    refine ⟨by decide, ⟨⟨by decide, by simp⟩, ?_, by decide, by simp⟩, by decide, by simp⟩
    exact forall_mem_listed hentry (by decide) (by decide)
  have hparts : ∀ t ∈ [quotedName table.name, table.object], ∀ c ∈ t, c ≠ '/' := by
    simp only [List.forall_mem_cons, List.not_mem_nil, false_implies, implies_true, and_true]
    exact ⟨hquoted h.name, hobject⟩
  have hhead : ∀ c ∈ callHead binding, c ≠ '/' := by
    have hopening : ∀ t ∈ ["export ", "const ", " = pgTable("], ∀ c ∈ t.toList, c ≠ '/' := by decide
    refine List.forall_mem_append.mpr ⟨hopening _ (by decide), List.forall_mem_append.mpr ⟨?_, ?_⟩⟩
    · exact hopening _ (by decide)
    · exact List.forall_mem_append.mpr ⟨hword hbinding, hopening _ (by decide)⟩
  have hlist : ∀ c ∈ listed [quotedName table.name, table.object], c ≠ '/' :=
    forall_mem_listed hparts (by decide) (by decide)
  have hend : ∀ c ∈ [')', ';', '\n'], c ≠ '/' := by decide
  rw [table.call_eq, CommonTable.callBody]
  exact List.forall_mem_append.mpr ⟨hhead, List.forall_mem_append.mpr ⟨hlist, hend⟩⟩

section Modules

variable {binding : CommonTable → String} (h : ∀ table ∈ tables, table.Proper)
  (hbinding : ∀ table ∈ tables, IsWord (binding table).toList)

include h hbinding

/-- A module of common tables is read as their calls. -/
theorem ofText_commonModule : TableModule.Contents.ofText (commonModule binding tables)
    = ⟨tables.map fun table => .ok (table.readCall (binding table)), []⟩ := by
  have hcomments : stripComments .code (commonModule binding tables)
      = commonModule binding tables := by
    refine stripComments_code fun c hc => ?_
    obtain ⟨table, htable, hc⟩ := List.mem_flatMap.mp hc
    exact ne_slash_call (h table htable) (hbinding table htable) c hc
  have hsplit : commonModule binding tables
      = tables.flatMap fun table => callHead (binding table) ++ table.callBody :=
    List.flatMap_congr fun table _ => table.call_eq (binding table)
  have hcalls : (tableHead.findAll (commonModule binding tables)).map TableCall.ofMatch
      = tables.map fun table => .ok (table.readCall (binding table)) := by
    rw [hsplit]
    exact map_findAll_of_opens (fun _ => rfl) (fun _ => fails_nil (by decide))
      (fun table htable => opens_call (hbinding table htable) (h table htable))
      (fun table htable => ofMatch_call (h table htable) _) trivial
  have hblocks : relationBlocks (commonModule binding tables) = [] := by
    have hnone : blockHead.findAll (commonModule binding tables) = [] := by
      rw [hsplit]
      refine findAll_eq_nil (fun _ => wordLed_blockHead.fails_nil)
        fun table htable before rest => ?_
      exact silent_append.mpr ⟨silent_callHead (hbinding table htable),
        quiet_callBody (h table htable) _ (by simp) _⟩
    rw [relationBlocks, hnone]
    rfl
  rw [TableModule.Contents.ofText, hcomments, TableModule.Contents.ofStripped, hcalls, hblocks]

end Modules

/-! ### The schema -/

variable {contents : TableModule.Contents}

lemma CommonTable.table_readCall (binding : String) (table : CommonTable) :
    (table.readCall binding).table contents = table.table "text" := by
  rw [TableCall.table, ← foldl_addTo]
  simp only [CommonTable.readCall, List.foldl_nil, List.foldl_map]
  rfl

lemma CommonTable.foldl_readCall (d : Draft) (binding : String) (table : CommonTable) :
    (table.readCall binding).entries.foldl (Entry.addTo contents table.name) d = d := by
  simp only [CommonTable.readCall, List.foldl_map]
  exact List.foldlRecOn (motive := fun e => e = d) table.columns _ rfl fun e he column _ => he

/-- A module of common tables defines them. -/
theorem schema_commonModule {binding : CommonTable → String} (h : ∀ table ∈ tables, table.Proper)
    (hbinding : ∀ table ∈ tables, IsWord (binding table).toList)
    (hnames : (tables.map CommonTable.name).Nodup) (rawPath : String) :
    Schema.ofText .drizzle (commonModule binding tables) rawPath
      = ⟨.drizzle, tables.map (CommonTable.table "text"), [], rawPath⟩ := by
  have hstep : ∀ (contents : TableModule.Contents) (d : Draft) (table : CommonTable),
      (TableCall.addTo contents d (table.readCall (binding table))).tables
          = putTable (table.table "text") d.tables ∧
        (TableCall.addTo contents d (table.readCall (binding table))).relations = d.relations := by
    intro contents d table
    have hname : (table.readCall (binding table)).name = table.name := rfl
    simp [TableCall.addTo, hname, table.foldl_readCall, table.table_readCall]
  have hschema : Schema.ofText .drizzle (commonModule binding tables) rawPath
      = (TableModule.Contents.ofText (commonModule binding tables)).draft.schema .drizzle rawPath :=
        rfl
  have hcalls : ∀ blocks, (TableModule.Contents.mk (tables.map fun table =>
      .ok (table.readCall (binding table))) blocks).tables
        = tables.map fun table => table.readCall (binding table) := by
    intro blocks
    simp [TableModule.Contents.tables, List.filterMap_map, Function.comp_def, Except.toOption]
  rw [hschema, ofText_commonModule h hbinding, TableModule.Contents.draft, hcalls, List.foldl_map]
  simp only [List.flatMap_nil, Draft.addRelations, List.foldl_nil]
  exact schema_foldl (fun d table => (hstep _ d table).1)
    (fun d table => (hstep _ d table).2) hnames
    (by simp [Draft.empty]) _ _

example : commonModule (fun _ => "v") [⟨"t", [⟨"a", false, true, false⟩, ⟨"b", true, false, true⟩]⟩]
    = ("export const v = pgTable('t', \x7b " ++
        "a: text('a').notNull().primaryKey(), b: text('b').unique() \x7d);\n").toList := by
  decide

end SchemaReader
