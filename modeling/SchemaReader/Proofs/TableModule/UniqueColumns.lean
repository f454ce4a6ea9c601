/-
Uniqueness in the chain of a column and in a callback.

* `ColumnDef.unmarked`, `CallbackItem.uniqueColumn?`: a column without the call that makes it
  unique, and the column that an item of a callback makes unique, with `TableDef.uniqueNames`;
* `TableDef.UniqueAlike`, `Item.UniqueAlike`: two ways to write a table that differ in nothing else;
* `marked_toCall`: a table is the one without its marks, with an index for each column that is
  marked;
* `ofText_uniqueAlike`: modules that say it in different places define the same schema up to the
  order of indexes.
-/
import SchemaReader.Proofs.Schema.IndexOrder
import SchemaReader.Proofs.TableModule.Decode

namespace SchemaReader.TableModule

open Text (IsGap)

variable {names : List String} {base t : Table} {contents contents' : Contents} {call : TableCall}
  {table table' : TableDef} {items items' : List Item} {text text' : List Char}

/-! ### Marks -/

/-- A column without the mark. -/
def ColumnDef.unmarked (column : ColumnDef) : ColumnDef :=
  { column with methods := column.methods.filter (· ≠ .unique) }

/-- The column, if it is marked. -/
def ColumnDef.uniqueColumn? (column : ColumnDef) : Option String :=
  if column.methods.contains .unique then some column.key else none

/-- The item that marks a column alone, without a name and without modifiers. -/
def CallbackItem.mark (column : String) : CallbackItem := .index ⟨.unique, none, [⟨column, []⟩]⟩

/-- The column that an item marks alone. -/
def CallbackItem.uniqueColumn? : CallbackItem → Option String
  | .index ⟨.unique, none, [⟨column, []⟩]⟩ => some column
  | _ => none

/-- The items of a callback without its marks. -/
def TableDef.otherItems (table : TableDef) : List CallbackItem :=
  table.items.filter fun item => item.uniqueColumn?.isNone

/-- The columns that are marked, in their chains and in the callback. -/
def TableDef.uniqueNames (table : TableDef) : List String :=
  table.columns.filterMap ColumnDef.uniqueColumn? ++
    table.items.filterMap CallbackItem.uniqueColumn?

/-- Two tables of one variable and one name that mark the same columns, with the same columns and
the same other items without their marks. -/
structure TableDef.UniqueAlike (table table' : TableDef) : Prop where
  binding : table.binding = table'.binding
  name : table.name = table'.name
  columns : table.columns.map ColumnDef.unmarked = table'.columns.map ColumnDef.unmarked
  otherItems : table.otherItems = table'.otherItems
  names : table.uniqueNames.Perm table'.uniqueNames

/-- Two items of a module that are the same, or two such tables. -/
inductive Item.UniqueAlike : Item → Item → Prop
  | table {table table' : TableDef} :
    table.UniqueAlike table' → Item.UniqueAlike (.table table) (.table table')
  | same (item : Item) : Item.UniqueAlike item item

/-- The table with its marks in a callback alone, which lists its items. -/
def TableDef.marksInCallback (table : TableDef) : TableDef :=
  { table with
    columns := table.columns.map ColumnDef.unmarked
    callback := some ⟨"t", .list (table.otherItems ++ table.uniqueNames.map CallbackItem.mark)⟩ }

/-- Every table can mark its columns in a callback alone. -/
lemma uniqueAlike_marksInCallback (table : TableDef) : table.UniqueAlike table.marksInCallback := by
  have hitems : table.marksInCallback.items
      = table.otherItems ++ table.uniqueNames.map CallbackItem.mark := by
    simp [TableDef.items, TableDef.marksInCallback, CallbackBody.items]
  have hmarks : ∀ names : List String,
      (names.map CallbackItem.mark).filterMap CallbackItem.uniqueColumn? = names ∧
        (names.map CallbackItem.mark).filter (fun item => item.uniqueColumn?.isNone) = [] :=
          fun names => by
    simp [List.filterMap_map, Function.comp_def, CallbackItem.mark, CallbackItem.uniqueColumn?]
  obtain ⟨hnames, hnone⟩ := hmarks table.uniqueNames
  refine ⟨rfl, rfl, ?_, ?_, ?_⟩
  · simp [TableDef.marksInCallback, ColumnDef.unmarked]
  · rw [TableDef.otherItems, TableDef.otherItems, hitems, List.filter_append, hnone]
    simp [TableDef.otherItems]
  · have hcolumns : (table.columns.map ColumnDef.unmarked).filterMap
        ColumnDef.uniqueColumn? = [] := by
      simp [ColumnDef.unmarked, ColumnDef.uniqueColumn?, List.filterMap_map]
    have hothers : table.otherItems.filterMap CallbackItem.uniqueColumn? = [] := by
      simp [TableDef.otherItems, List.filterMap_eq_nil_iff]
    have hsame : table.marksInCallback.uniqueNames = table.uniqueNames := by
      rw [TableDef.uniqueNames, hitems, List.filterMap_append, hothers, hnames,
        TableDef.marksInCallback, hcolumns]
      simp
    rw [hsame]

/-! ### Columns and callbacks -/

lemma ColumnDef.entry_unmarked (column : ColumnDef) :
    column.unmarked.entry = { column.entry with unique := false } := by
  have htarget : ∀ method : Method, decide (method ≠ .unique) = false → method.target? = none := by
    rintro method hmethod
    obtain rfl : method = .unique := by simpa using hmethod
    rfl
  have hnotNull := contains_filter_ne (show Method.notNull ≠ .unique by simp) column.methods
  have hprimaryKey := contains_filter_ne (show Method.primaryKey ≠ .unique by simp) column.methods
  have hunique : (column.methods.filter (· ≠ .unique)).contains .unique = false := by simp
  rw [ColumnDef.entry, ColumnDef.entry, unmarked, hnotNull, hprimaryKey, hunique,
    findSome?_filter fun method _ => htarget method]

/-- A column is added as it is without the mark, and marked if it has the mark. -/
lemma marked_column (contents : Contents) (h : base.Marked names t) (column : ColumnDef) :
    ((Entry.column column.unmarked.entry).applyTo contents base).Marked
      (names ++ column.uniqueColumn?.toList)
      ((Entry.column column.entry).applyTo contents t) := by
  have hmark : column.uniqueColumn? = if column.entry.unique then some column.entry.name
      else none := rfl
  rw [column.entry_unmarked, hmark]
  generalize column.entry = entry
  have hgrown := h.addColumn ⟨entry.name, entry.type, entry.nullable, entry.primaryKey,
    entry.references.map fun r => ⟨contents.tableOf r.1, r.2⟩⟩
  rw [Entry.applyTo, Entry.applyTo]
  split
  · exact hgrown.mark entry.name
  · simpa using hgrown

lemma CallbackItem.eq_of_uniqueColumn? {item : CallbackItem} {column : String}
    (h : item.uniqueColumn? = some column) : item = .mark column := by
  unfold uniqueColumn? at h
  split at h
  · rw [Option.some.inj h, mark]
  · simp at h

/-- The index of an item is added to a table, if the item declares one. -/
def CallbackItem.addTo (table : Table) (item : CallbackItem) : Table :=
  item.call?.elim table (addIndexCall table)

/-- An item either marks its column or does the same to both tables. -/
lemma marked_item (h : base.Marked names t) (item : CallbackItem) :
    (if item.uniqueColumn?.isNone then item.addTo base else base).Marked
      (names ++ item.uniqueColumn?.toList) (item.addTo t) := by
  cases hitem : item.uniqueColumn? with
  | some column =>
      have hmark := h.mark column
      rw [← Index.defaultName_singleton] at hmark
      rw [CallbackItem.eq_of_uniqueColumn? hitem]
      exact hmark
  | none =>
      rw [Option.toList_none, List.append_nil, Option.isNone_none, if_pos rfl, CallbackItem.addTo,
        CallbackItem.addTo]
      cases item.call? with
      | none => exact h
      | some call =>
          simp only [Option.elim_some, addIndexCall, h.name]
          exact h.addIndex _

/-- A mark lists no key. -/
lemma keys_otherItems (table : TableDef) :
    table.otherItems.flatMap CallbackItem.keys = table.items.flatMap CallbackItem.keys := by
  rw [TableDef.otherItems, eq_comm]
  refine Pattern.flatMap_eq_flatMap_filter (fun _ _ _ => rfl) fun item _ hitem => ?_
  obtain ⟨column, hcolumn⟩ := Option.isSome_iff_exists.mp (by simpa using hitem)
  rw [CallbackItem.eq_of_uniqueColumn? hcolumn]
  rfl

/-! ### Tables -/

/-- A table as it is read without its marks. -/
def TableDef.unmarkedCall (table : TableDef) : TableCall where
  binding := table.binding
  name := table.name
  entries := (table.columns.map ColumnDef.unmarked).map fun column => .column column.entry
  callbacks := [⟨table.otherItems.filterMap CallbackItem.call?,
    table.otherItems.flatMap CallbackItem.keys⟩]

lemma foldl_call? (items : List CallbackItem) (t : Table) :
    (items.filterMap CallbackItem.call?).foldl addIndexCall t = items.foldl CallbackItem.addTo t :=
  foldl_filterMap_elim items CallbackItem.call? addIndexCall t

/-- The callback of a call is made of the items, also if there is none. -/
lemma table_toCall_eq (contents : Contents) (table : TableDef) : table.toCall.table contents
    = (table.items.flatMap CallbackItem.keys).foldl Table.markPrimaryKey
        (table.items.foldl CallbackItem.addTo
          ((table.columns.map fun column => .column column.entry).foldl
          (Entry.applyTo contents) (Table.empty table.name))) := by
  rw [TableCall.table, TableDef.toCall, TableDef.items]
  cases table.callback with
  | none => rfl
  | some callback =>
      simp [Callback.applyTo, CallbackDef.toCallback, foldl_call?]

/-- **A table and its marks.**  A table is read as the table without its marks, with an index for
each of the columns that are marked, whether in their chains or in the callback. -/
theorem marked_toCall (contents : Contents) (table : TableDef) :
    (table.unmarkedCall.table contents).Marked table.uniqueNames (table.toCall.table contents) := by
  have hcolumns := (Table.Marked.refl (Table.empty table.name)).foldl table.columns
    ColumnDef.uniqueColumn? fun column _ _ _ _ h => marked_column contents h column
  have hitems := hcolumns.foldl table.items CallbackItem.uniqueColumn? fun item _ _ _ _ h =>
    marked_item h item
  have hunmarked : table.unmarkedCall.table contents
      = (table.items.flatMap CallbackItem.keys).foldl Table.markPrimaryKey
          (table.otherItems.foldl CallbackItem.addTo ((table.columns.map fun column =>
            .column column.unmarked.entry).foldl (Entry.applyTo contents)
              (Table.empty table.name))) := by
    simp [TableCall.table, TableDef.unmarkedCall, Callback.applyTo, foldl_call?, keys_otherItems,
      Function.comp_def]
  rw [hunmarked, table_toCall_eq, TableDef.otherItems]
  simp only [List.foldl_map, List.foldl_filter]
  exact hitems.foldl_same _ (fun keys h => h.markPrimaryKey keys) _

lemma TableDef.UniqueAlike.unmarkedCall (h : table.UniqueAlike table') :
    table.unmarkedCall = table'.unmarkedCall := by
  rw [TableDef.unmarkedCall, TableDef.unmarkedCall, h.binding, h.name, h.columns, h.otherItems]

/-- Two such tables are read alike. -/
lemma TableDef.UniqueAlike.alike (h : table.UniqueAlike table') (contents : Contents) :
    (table.toCall.table contents).Alike (table'.toCall.table contents) := by
  have hmarked := marked_toCall contents table
  rw [h.unmarkedCall] at hmarked
  exact hmarked.alike (marked_toCall contents table') h.names

/-- A mark points at nothing. -/
lemma relations_unmarkedCall (contents : Contents) (table : TableDef) :
    table.unmarkedCall.relations contents = table.toCall.relations contents := by
  rw [TableCall.relations, TableCall.relations, TableDef.unmarkedCall,
    TableDef.toCall, List.map_map, List.filterMap_map, List.filterMap_map]
  refine List.filterMap_congr fun column _ => ?_
  simp [Entry.relation?, column.entry_unmarked]

/-! ### Variables -/

/-- What variables stand for goes by the variables and the names of the tables. -/
lemma tableOf_congr (h : contents.tables.map (fun call => (call.binding, call.name))
    = contents'.tables.map fun call => (call.binding, call.name)) : contents.tableOf
      = contents'.tableOf := by
  have hfind : ∀ (contents : Contents) (binding : String), contents.tableOf binding
      = (((contents.tables.map fun call => (call.binding, call.name)).reverse.find? fun pair =>
          pair.1 == binding).map Prod.snd).getD binding := by
    intro contents binding
    rw [← List.map_reverse, List.find?_map, Option.map_map, Contents.tableOf]
    simp only [Function.comp_def]
    cases contents.tables.reverse.find? fun call => call.binding == binding <;> rfl
  funext binding
  rw [hfind, hfind, h]

lemma table_congr (h : contents.tableOf = contents'.tableOf) (call : TableCall) :
    call.table contents = call.table contents' := by
  have hentry : Entry.applyTo contents = Entry.applyTo contents' := by
    funext table entry
    cases entry <;> simp [Entry.applyTo, h]
  rw [TableCall.table, TableCall.table, hentry]

lemma relations_congr (h : contents.tableOf = contents'.tableOf) (call : TableCall) :
    call.relations contents = call.relations contents' := by
  have hentry : ∀ table, Entry.relation? contents table = Entry.relation? contents' table := by
    intro table
    funext entry
    cases entry <;> simp [Entry.relation?, h]
  rw [TableCall.relations, TableCall.relations, hentry]

lemma blockRelations_congr (h : contents.tableOf = contents'.tableOf) (block : RelationBlock) :
    block.relations contents = block.relations contents' := by
  have htarget : ∀ table, Target.relations contents table = Target.relations contents' table := by
    intro table
    funext target
    cases target <;> simp [Target.relations, Contents.tableOfText, h]
  rw [RelationBlock.relations, RelationBlock.relations, htarget, Contents.tableOfText,
    Contents.tableOfText, h]

/-! ### Modules -/

/-- A text with white space and the items of a module. -/
structure IsModule (items : List Item) (text : List Char) : Prop where
  proper : ∀ item ∈ items, item.Proper
  written : ∃ g body, text = g ++ body ∧ IsGap g ∧ Written (items.flatMap Item.tokens) body []

lemma IsModule.tables (h : IsModule items text) :
    (Contents.ofText text).tables = (tablesOf items).map TableDef.toCall := by
  obtain ⟨g, body, rfl, hg, hbody⟩ := h.written
  rw [Contents.tables, calls_ofText h.proper hbody hg, List.filterMap_map]
  exact congrFun List.filterMap_eq_map _

lemma IsModule.relations (h : IsModule items text) (contents : Contents) :
    (Contents.ofText text).blocks.flatMap (RelationBlock.relations contents)
      = (blocksOf items).flatMap fun block => block.toBlock.relations contents := by
  obtain ⟨g, body, rfl, hg, hbody⟩ := h.written
  exact relations_ofText h.proper hbody hg contents

/-- The tables of such modules, one by one, and their blocks. -/
lemma uniqueAlike_items (h : List.Forall₂ Item.UniqueAlike items items') :
    List.Forall₂ TableDef.UniqueAlike (tablesOf items) (tablesOf items') ∧
      blocksOf items = blocksOf items' := by
  rw [tablesOf, tablesOf, blocksOf, blocksOf]
  induction h with
  | nil => exact ⟨.nil, rfl⟩
  | @cons item _ _ _ hitem _ ih =>
      cases hitem with
      | table halike => exact ⟨.cons halike ih.1, ih.2⟩
      | same =>
          cases item with
          | table made => exact ⟨.cons ⟨rfl, rfl, rfl, rfl, .refl _⟩ ih.1, ih.2⟩
          | relations block => exact ⟨ih.1, congrArg (block :: ·) ih.2⟩

/-- **Uniqueness in chains and in callbacks.**  Whether the uniqueness of a column is asked for in
its chain or by an item of the callback without a name, and among whatever other calls and items,
the modules define the same schema up to the order of the indexes of a table. -/
theorem ofText_uniqueAlike (h : IsModule items text) (h' : IsModule items' text')
    (halike : List.Forall₂ Item.UniqueAlike items items') (rawPath : String) :
    (Schema.ofText .drizzle text rawPath).Alike (Schema.ofText .drizzle text' rawPath) := by
  obtain ⟨htables, hblocks⟩ := uniqueAlike_items halike
  have hnames : (Contents.ofText text).tableOf = (Contents.ofText text').tableOf := by
    refine tableOf_congr ?_
    rw [h.tables, h'.tables, List.map_map, List.map_map, ← List.forall₂_eq_eq_eq,
      List.forall₂_map_left_iff, List.forall₂_map_right_iff]
    exact htables.imp fun table table' ht => Prod.ext ht.binding ht.name
  suffices hdraft : (Contents.ofText text).draft.Alike (Contents.ofText text').draft from
    hdraft.schema .drizzle rawPath rawPath
  refine ⟨?_, ?_⟩
  · rw [tables_draft, tables_draft, h.tables, h'.tables]
    refine forall₂_foldl_putTable Table.Alike.name ?_ .nil
    rw [List.forall₂_map_left_iff, List.forall₂_map_right_iff, List.forall₂_map_left_iff,
      List.forall₂_map_right_iff]
    refine htables.imp fun table table' ht => ?_
    rw [← table_congr hnames]
    exact ht.alike _
  · rw [relations_draft, relations_draft, h.relations, h'.relations, h.tables, h'.tables, hblocks]
    congr 2
    · have hcalls : (tablesOf items).map (fun table =>
          table.toCall.relations (Contents.ofText text))
          = (tablesOf items').map fun table => table.toCall.relations (Contents.ofText text') := by
        rw [← List.forall₂_eq_eq_eq, List.forall₂_map_left_iff, List.forall₂_map_right_iff]
        refine htables.imp fun table table' ht => ?_
        rw [← relations_unmarkedCall, ht.unmarkedCall, relations_unmarkedCall,
          relations_congr hnames]
      simpa only [List.flatMap_map, List.flatMap_def, List.map_map, Function.comp_def] using
        congrArg List.flatten hcalls
    · exact List.flatMap_congr fun block _ => blockRelations_congr hnames _

end SchemaReader.TableModule
