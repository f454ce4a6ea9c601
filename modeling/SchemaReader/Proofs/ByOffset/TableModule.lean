/-
Table modules read by byte offsets.

* `entry`, `callback`, `tableCall`, `target`, `relationBlock`, `contents`: the readings of
  `SchemaReader.TableModule`, with the slices and the groups that they take;
* `entry_eq`: nothing goes wrong in reading a column;
* `callback_goesWell`, `tableCall_goesWell`, `relationBlock_goesWell`, `contents_goesWell`: nothing
  but a depth of brackets goes wrong in any of the others.
-/
import SchemaReader.Proofs.ByOffset.Matches
import SchemaReader.TableModule.Module

namespace SchemaReader.ByOffset.TableModule

open SchemaReader.TableModule

/-! ### Columns -/

/-- The columns that a list of references names. -/
def columnNames (text : List Char) : Checked (List String) := do
  let references ← splitTopLevel .code ',' (withoutSquares (Text.trim text))
  return references.filterMap columnName?

/-- The names in a named argument that is a list, or other ones if it is not there. -/
def listedOr (name : String) (arguments : List Char) (other : Checked (List String)) :
    Checked (List String) := do
  let some found := (listArgument name).find? arguments | other
  let list ← groupOf found 1
  columnNames list

/-- The reference in a chain of calls. -/
def reference (chain : List Char) : Checked (Option (String × String)) := do
  let some found := referencesCall.find? chain | pure none
  let binding ← groupOf found 1
  let key ← groupOf found 2
  return some (String.ofList binding, String.ofList key)

/-- Reads an entry of a column object.  The chain of calls is the slice behind the partner of the
parenthesis that the head ends with. -/
def entry (text : List Char) : Checked Entry := do
  let some head := columnHead.find? text | pure .unrecognized
  let some chain ← restBehind .code text head | pure .unterminated
  let references ← reference chain
  return .column {
    name := String.ofList (head.group 1)
    type := String.ofList (head.group 2)
    nullable := !(methodCall ".notNull").occursIn chain
    primaryKey := (methodCall ".primaryKey").occursIn chain
    unique := (methodCall ".unique").occursIn chain
    references }

/-! ### The callback -/

/-- The index of a match of `indexHead` in a text. -/
def indexCall (text : List Char) (found : Match) : Checked (Option IndexCall) := do
  let some arguments ← bodyBehind .code text found | pure none
  let columns ← columnNames arguments
  if columns.isEmpty then return none
  let function ← groupOf found 1
  return some {
    name := ((found.group? 2).filter fun name => !name.isEmpty).map String.ofList
    columns
    unique := function != ['i', 'n', 'd', 'e', 'x'] }

/-- The columns of a match of `keyHead` in a text. -/
def keyCall (text : List Char) (found : Match) : Checked (Option (List String)) := do
  let some arguments ← bodyBehind .code text found | pure none
  let columns ← listedOr "columns" arguments (columnNames arguments)
  return some columns

/-- Reads a callback. -/
def callback (text : List Char) : Checked Callback := do
  let indexes ← (indexHead.findAll text).mapM (indexCall text)
  let keys ← (keyHead.findAll text).mapM (keyCall text)
  return ⟨indexes.filterMap id, keys.filterMap id⟩

/-! ### Table calls -/

/-- The entries of a column object. -/
def entriesOf (object : List Char) : Checked (List Entry) := do
  let body ← bracketBody .code object 0
  let pieces ← splitTopLevel .code ',' (body.getD [])
  pieces.mapM entry

/-- Reads the arguments of a table call. -/
def tableArguments (binding : String) (arguments : List (List Char)) :
    Checked (Except TableCallFault TableCall) :=
  match arguments.head?.bind stringLiteral? with
  | none => pure (.error .unnamed)
  | some name => match arguments.tail with
    | ('\x7b' :: object) :: rest => do
      let entries ← entriesOf ('\x7b' :: object)
      let callbacks ← rest.mapM callback
      return .ok { binding, name := String.ofList name, entries, callbacks }
    | _ => pure (.error .withoutColumns)

/-- The table call of a match of `tableHead` in a text. -/
def tableCall (text : List Char) (found : Match) : Checked (Except TableCallFault TableCall) := do
  let some arguments ← bodyBehind .code text found | pure (.error .unterminated)
  let parts ← splitTopLevel .code ',' arguments
  tableArguments (String.ofList (found.group 1)) parts

/-! ### Relation blocks -/

/-- The relation of a match of `targetHead` in a text. -/
def target (text : List Char) (found : Match) : Checked (Option Target) := do
  let some arguments ← bodyBehind .code text found | pure none
  match ← splitTopLevel .code ',' arguments with
  | [] => return none
  | binding :: rest =>
    let function ← groupOf found 1
    if function == ['m', 'a', 'n', 'y'] then return some (.many binding)
    match rest with
    | [] => return some (.one binding)
    | options :: _ =>
      let fields ← listedOr "fields" options (pure [])
      let references ← listedOr "references" options (pure [])
      return some (.oneAlong binding (fields.zip references))

/-- The block of a match of `blockHead` in a text. -/
def relationBlock (text : List Char) (found : Match) : Checked (Option RelationBlock) := do
  let some arguments ← bodyBehind .code text found | pure none
  match ← splitTopLevel .code ',' arguments with
  | binding :: body :: _ =>
    let targets ← (targetHead.findAll body).mapM (target body)
    return some ⟨binding, targets.filterMap id⟩
  | _ => return none

/-- The content of a text. -/
def contents (text : List Char) : Checked Contents := do
  let stripped ← stripComments .code text
  let calls ← (tableHead.findAll stripped).mapM (tableCall stripped)
  let blocks ← (blockHead.findAll stripped).mapM (relationBlock stripped)
  return ⟨calls, blocks.filterMap id⟩

variable {text arguments : List Char} {found : Match} {n : Nat}

/-! ### Nothing but the depth goes wrong -/

/-- What stands in the square brackets is a piece of the text. -/
lemma withoutSquares_sublist (text : List Char) : (withoutSquares text).Sublist text := by
  unfold withoutSquares
  split
  · split
    · exact (List.dropLast_sublist _).trans (List.sublist_cons_self _ _)
    · exact List.Sublist.refl _
  · exact List.Sublist.refl _

lemma columnNames_goesWell (h : brackets text ≤ n) :
    GoesWell n (columnNames text) (SchemaReader.TableModule.columnNames text) := by
  have hinside : brackets (withoutSquares (Text.trim text)) ≤ n :=
    brackets_le ((withoutSquares_sublist _).trans (Text.trim_sublist text)) h
  exact (splitTopLevel_goesWell hinside).bind .ok

lemma nullable_listArgument (name : String) : (listArgument name).nullable = false := by
  simp [listArgument, Pattern.inSquares, Pattern.nullable, Pattern.char]

lemma remembers_listArgument (name : String) : (listArgument name).remembers 1 = true :=
  Bool.or_true _

lemma listedOr_goesWell (name : String) {other : Checked (List String)} {names : List String}
    (h : brackets arguments ≤ n) (hother : GoesWell n other names) :
    GoesWell n (listedOr name arguments other) (match (listArgument name).find? arguments with
      | some found => SchemaReader.TableModule.columnNames (found.group 1)
      | none => names) := by
  rw [listedOr]
  cases hfound : (listArgument name).find? arguments with
  | none => exact hother
  | some found =>
      have hlist := groupOf_of_find? hfound (nullable_listArgument name)
        (remembers_listArgument name)
      simp only [hlist, ok_bind]
      exact columnNames_goesWell (brackets_group_of_find?_le hfound (nullable_listArgument name) h)

lemma listedIn_goesWell (name : String) (h : brackets arguments ≤ n) :
    GoesWell n (listedOr name arguments (pure [])) (listedIn name arguments) :=
  listedOr_goesWell name h .ok

lemma reference_eq (chain : List Char) :
    reference chain = .ok ((referencesCall.find? chain).map fun found =>
      (String.ofList (found.group 1), String.ofList (found.group 2))) := by
  rw [reference]
  cases hfound : referencesCall.find? chain with
  | none => rfl
  | some found =>
      have hbinding := groupOf_of_find? hfound (n := 1) (by decide) (by decide)
      have hkey := groupOf_of_find? hfound (n := 2) (by decide) (by decide)
      simp only [hbinding, hkey, ok_bind]
      rfl

/-- The chain of calls of a column is cut between characters. -/
theorem entry_eq (text : List Char) : entry text = .ok (.ofText text) := by
  rw [entry, Entry.ofText]
  cases hhead : columnHead.find? text with
  | none => rfl
  | some head =>
      simp only [restBehind_eq (Pattern.stands_of_find? hhead) (Pattern.endsWith_append_char _ '(')
        rfl, ok_bind]
      cases enclosed? .code head.stop.after with
      | none => rfl
      | some inner =>
          simp only [Option.map_some, reference_eq, ok_bind]
          rfl

lemma indexCall_goesWell (h : found ∈ indexHead.findAll text) (hn : brackets text ≤ n) :
    GoesWell n (indexCall text found) (IndexCall.ofMatch? found) := by
  rw [indexCall, bodyBehind_of_mem_findAll h, ok_bind, IndexCall.ofMatch?, argumentsAfter?]
  cases harguments : (enclosed? .code found.stop.after).map (·.1) with
  | none => exact .ok
  | some arguments =>
      have hroom := brackets_arguments_le (Pattern.stands_of_mem_findAll h) harguments hn
      have hfunction := groupOf_of_mem_findAll h (n := 1) (by decide) (by decide)
      refine (columnNames_goesWell hroom).bind ?_
      simp only [hfunction, ok_bind, Option.bind_some]
      split <;> exact .ok

lemma keyCall_goesWell (h : found ∈ keyHead.findAll text) (hn : brackets text ≤ n) :
    GoesWell n (keyCall text found) ((argumentsAfter? found).map keyColumns) := by
  rw [keyCall, bodyBehind_of_mem_findAll h, ok_bind, argumentsAfter?]
  cases harguments : (enclosed? .code found.stop.after).map (·.1) with
  | none => exact .ok
  | some arguments =>
      have hroom := brackets_arguments_le (Pattern.stands_of_mem_findAll h) harguments hn
      exact (listedOr_goesWell "columns" hroom (columnNames_goesWell hroom)).bind .ok

theorem callback_goesWell (hn : brackets text ≤ n) :
    GoesWell n (callback text) (.ofText text) := by
  refine (GoesWell.mapM fun _ h => indexCall_goesWell h hn).bind ?_
  refine (GoesWell.mapM fun _ h => keyCall_goesWell h hn).bind ?_
  rw [List.filterMap_map, List.filterMap_map]
  exact .ok

lemma entriesOf_goesWell {object : List Char} (hn : brackets object ≤ n) :
    GoesWell n (entriesOf object) (SchemaReader.TableModule.entriesOf object) := by
  have hbody : brackets ((bracketBody? .code object).getD []) ≤ n := by
    cases hinner : bracketBody? .code object with
    | none => exact Nat.zero_le n
    | some body => exact brackets_bracketBody?_le hinner hn
  have hstart : bracketBodyAt? .code object 0 = bracketBody? .code object := by
    cases object <;> rfl
  rw [entriesOf, bracketBody_eq, ok_bind, hstart]
  exact (splitTopLevel_goesWell hbody).bind (.mapM fun piece _ => .of_eq (entry_eq piece))

lemma tableArguments_goesWell (binding : String) {arguments : List (List Char)}
    (hn : ∀ argument ∈ arguments, brackets argument ≤ n) :
    GoesWell n (tableArguments binding arguments) (TableCall.ofArguments binding arguments) := by
  rw [tableArguments, TableCall.ofArguments]
  cases arguments.head?.bind stringLiteral? with
  | none => exact .ok
  | some name =>
      have htail : ∀ argument ∈ arguments.tail, brackets argument ≤ n := fun argument h =>
        hn argument (List.mem_of_mem_tail h)
      generalize arguments.tail = others at htail ⊢
      obtain _ | ⟨_ | ⟨c, object⟩, rest⟩ := others
      · exact .ok
      · exact .ok
      · by_cases hc : c = '\x7b'
        · subst hc
          rw [List.forall_mem_cons] at htail
          have hcallbacks := GoesWell.mapM fun piece hpiece =>
            callback_goesWell (htail.2 piece hpiece)
          exact (entriesOf_goesWell htail.1).bind (hcallbacks.bind .ok)
        · exact .of_eq (by simp [hc])

theorem tableCall_goesWell (h : found ∈ tableHead.findAll text) (hn : brackets text ≤ n) :
    GoesWell n (tableCall text found) (TableCall.ofMatch found) := by
  rw [tableCall, bodyBehind_of_mem_findAll h, ok_bind, TableCall.ofMatch, argumentsAfter?]
  cases harguments : (enclosed? .code found.stop.after).map (·.1) with
  | none => exact .ok
  | some arguments =>
      have hroom := brackets_arguments_le (Pattern.stands_of_mem_findAll h) harguments hn
      refine (splitTopLevel_goesWell hroom).bind (tableArguments_goesWell _ fun argument hmem => ?_)
      exact brackets_le_of_mem_splitTopLevel hmem hroom

lemma target_goesWell (h : found ∈ targetHead.findAll text) (hn : brackets text ≤ n) :
    GoesWell n (target text found) (Target.ofMatch? found) := by
  rw [target, bodyBehind_of_mem_findAll h, ok_bind, Target.ofMatch?, argumentsAfter?]
  cases harguments : (enclosed? .code found.stop.after).map (·.1) with
  | none => exact .ok
  | some arguments =>
      have hroom := brackets_arguments_le (Pattern.stands_of_mem_findAll h) harguments hn
      have hfunction := groupOf_of_mem_findAll h (n := 1) (by decide) (by decide)
      have hparts : ∀ part ∈ SchemaReader.splitTopLevel .code ',' arguments, brackets part ≤ n :=
        fun _ hpart => brackets_le_of_mem_splitTopLevel hpart hroom
      refine (splitTopLevel_goesWell hroom).bind ?_
      rw [Option.bind_some]
      cases hsplit : SchemaReader.splitTopLevel .code ',' arguments with
      | nil => exact .ok
      | cons binding rest =>
          simp only [hfunction, ok_bind, Target.ofArguments?]
          split
          · exact .ok
          · cases rest with
            | nil => exact .ok
            | cons options rest =>
                have hoptions : brackets options ≤ n := hparts options (by simp [hsplit])
                exact (listedIn_goesWell "fields" hoptions).bind
                  ((listedIn_goesWell "references" hoptions).bind .ok)

theorem relationBlock_goesWell (h : found ∈ blockHead.findAll text) (hn : brackets text ≤ n) :
    GoesWell n (relationBlock text found) (RelationBlock.ofMatch? found) := by
  rw [relationBlock, bodyBehind_of_mem_findAll h, ok_bind, RelationBlock.ofMatch?, argumentsAfter?]
  cases harguments : (enclosed? .code found.stop.after).map (·.1) with
  | none => exact .ok
  | some arguments =>
      have hroom := brackets_arguments_le (Pattern.stands_of_mem_findAll h) harguments hn
      refine (splitTopLevel_goesWell hroom).bind ?_
      rw [Option.bind_some]
      cases hsplit : SchemaReader.splitTopLevel .code ',' arguments with
      | nil => exact .ok
      | cons binding others =>
          cases others with
          | nil => exact .ok
          | cons body rest =>
              have hmem : body ∈ SchemaReader.splitTopLevel .code ',' arguments := by simp [hsplit]
              have hbody : brackets body ≤ n := brackets_le_of_mem_splitTopLevel hmem hroom
              refine (GoesWell.mapM fun _ h => target_goesWell h hbody).bind ?_
              rw [List.filterMap_map]
              exact .ok

/-- Nothing but a depth of brackets goes wrong in reading a table module. -/
theorem contents_goesWell (text : List Char) :
    GoesWell (brackets text) (contents text) (.ofText text) := by
  have hn := brackets_stripComments_le .code text
  rw [contents, stripComments_eq, ok_bind]
  refine (GoesWell.mapM fun _ h => tableCall_goesWell h hn).bind ?_
  refine (GoesWell.mapM fun _ h => relationBlock_goesWell h hn).bind ?_
  rw [List.filterMap_map]
  exact .ok

end SchemaReader.ByOffset.TableModule
