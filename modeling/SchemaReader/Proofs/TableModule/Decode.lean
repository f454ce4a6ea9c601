/-
Table modules decode to what they mean.

* `table_toCall`, `relations_toCall`: the table and the relations that a read call stands for;
* `ofText_module`: whatever the white space and the order of tables and blocks, a written module
  decodes to the schema that it means.
-/
import SchemaReader.Extraction
import SchemaReader.Proofs.TableModule.Draft
import SchemaReader.Proofs.TableModule.Meaning
import SchemaReader.Proofs.TableModule.ReadModule

namespace SchemaReader.TableModule

open Text (IsWord IsGap)

variable {contents : Contents} {tables : List TableDef} {table : TableDef} {items : List Item}
  {text g : List Char}

/-! ### Names -/

/-- Variables stand for the tables that are declared with them. -/
lemma tableOf_toCall (htables : contents.tables = tables.map TableDef.toCall)
    (h : (tables.map TableDef.binding).Nodup) (binding : String) :
    contents.tableOf binding = nameOf tables binding := by
  have hreverse : ((tables.reverse).map TableDef.binding).Nodup := by
    rw [List.map_reverse]
    exact List.nodup_reverse.mpr h
  have hfind : (tables.reverse.find? fun table => table.binding == binding)
      = tables.find? fun table => table.binding == binding := by
    ext table
    rw [find?_eq_some_iff_of_nodup hreverse, find?_eq_some_iff_of_nodup h, List.mem_reverse]
  have hcalls : (contents.tables.reverse.find? fun call => call.binding == binding)
      = (tables.find? fun table => table.binding == binding).map TableDef.toCall := by
    rw [htables, ← List.map_reverse, List.find?_map, ← hfind]
    rfl
  rw [Contents.tableOf, hcalls, nameOf]
  cases tables.find? fun table => table.binding == binding <;> rfl

/-! ### Tables -/

/-- What a column means but for the composite keys of its table. -/
def ColumnDef.plain (tables : List TableDef) (column : ColumnDef) : Column := {
  name := column.key
  type := column.type
  nullable := !column.methods.contains .notNull
  primaryKey := column.methods.contains .primaryKey
  references := column.reference? tables }

/-- The indexes of the unique ones among columns. -/
def uniqueIndexes (table : String) (columns : List ColumnDef) : List Index :=
  (columns.filter fun column => column.methods.contains .unique).map fun column =>
    Index.uniqueColumn table column.key

section Tables

variable (hnames : ∀ binding, contents.tableOf binding = nameOf tables binding)

include hnames

/-- A table after the columns of a call. -/
lemma foldl_entries (columns : List ColumnDef) (t : Table) :
    (columns.map fun column => .column column.entry).foldl (Entry.applyTo contents) t
      = ⟨t.name, t.columns ++ columns.map (ColumnDef.plain tables),
          t.indexes ++ uniqueIndexes t.name columns⟩ := by
  induction columns generalizing t with
  | nil => simp [uniqueIndexes]
  | cons column columns ih =>
      have hentry : (Entry.column column.entry).applyTo contents t
          = ⟨t.name, t.columns ++ [column.plain tables],
            t.indexes ++ uniqueIndexes t.name [column]⟩ := by
        simp only [Entry.applyTo, ColumnDef.entry, ColumnDef.plain, ColumnDef.reference?, hnames,
          uniqueIndexes, List.filter_cons, List.filter_nil]
        split <;> simp [Table.addColumn, Table.addIndex, *]
      rw [List.map_cons, List.foldl_cons, hentry, ih]
      simp only [uniqueIndexes, List.filter_cons, List.map_cons, List.append_assoc]
      split <;> simp

omit hnames in
/-- A table after the indexes of a callback. -/
lemma foldl_addIndexCall (items : List CallbackItem) (t : Table) :
    (items.filterMap CallbackItem.call?).foldl addIndexCall t
      = { t with indexes := t.indexes ++ items.filterMap (CallbackItem.index? t.name) } := by
  induction items generalizing t with
  | nil => simp
  | cons item items ih =>
      cases item with
      | primaryKey columns =>
          simpa [List.filterMap_cons, CallbackItem.call?, CallbackItem.index?] using ih t
      | index made =>
          by_cases hempty : made.columns = []
          · simpa [List.filterMap_cons, CallbackItem.call?, CallbackItem.index?, IndexDef.call?,
              IndexDef.index?, hempty] using ih t
          · have hcall : made.call?
                = some ⟨(made.name.map Prod.snd).filter fun name => !name.isEmpty,
                made.columns.map IndexColumn.name, made.function != .index⟩ := by
              simp [IndexDef.call?, hempty]
            simp [CallbackItem.call?, CallbackItem.index?, IndexDef.index?, hempty, hcall, ih,
              addIndexCall, Table.addIndex]

omit hnames in
/-- The keys of a callback put together. -/
lemma flatten_keys (items : List CallbackItem) :
    (items.flatMap CallbackItem.keys).flatten = items.flatMap CallbackItem.keyColumns := by
  induction items with
  | nil => rfl
  | cons item items ih =>
      cases item with
      | primaryKey columns => simp [CallbackItem.keys, CallbackItem.keyColumns, ih]
      | index made =>
          have hempty : (CallbackItem.index made).keys.flatten = [] := by
            simp only [CallbackItem.keys, List.flatten_eq_nil_iff, List.mem_flatMap]
            rintro names ⟨column, -, modifier, -, hnames⟩
            split at hnames
            · exact List.mem_singleton.mp hnames
            · simp at hnames
          simp [hempty, ih, CallbackItem.keyColumns]

omit hnames in
lemma foldl_markPrimaryKey (keys : List (List String)) (t : Table) :
    keys.foldl Table.markPrimaryKey t = t.markPrimaryKey keys.flatten := List.foldl_flatten.symm

/-- The table that a read call stands for. -/
lemma table_toCall (h : (table.columns.map ColumnDef.key).Nodup) :
    table.toCall.table contents = tableOf tables table := by
  have hplain : ((table.columns.map (ColumnDef.plain tables)).map Column.name).Nodup := by
    simpa [Function.comp_def, ColumnDef.plain] using h
  have hentries := foldl_entries hnames table.columns (Table.empty table.name)
  rw [TableCall.table, TableDef.toCall]
  simp only [hentries]
  cases hcallback : table.callback with
  | none =>
      simp [tableOf, TableDef.indexes, TableDef.items, hcallback, columnOf, ColumnDef.plain,
        Table.empty, uniqueIndexes]
  | some callback =>
      simp only [Option.toList_some, List.map_cons, List.map_nil, List.foldl_cons, List.foldl_nil,
        Callback.applyTo, CallbackDef.toCallback, foldl_addIndexCall,
        foldl_markPrimaryKey, flatten_keys,
        Table.empty, List.nil_append]
      rw [markPrimaryKey_of_nodup hplain]
      simp [tableOf, TableDef.indexes, TableDef.items, hcallback, columnOf, ColumnDef.plain,
        Column.markIf, uniqueIndexes]

/-! ### Relations -/

/-- The relations of the columns of a read call. -/
lemma relations_toCall (table : TableDef) :
    table.toCall.relations contents = table.relations tables := by
  rw [TableCall.relations, TableDef.relations, TableDef.toCall, List.filterMap_map]
  refine List.filterMap_congr fun column _ => ?_
  simp [Entry.relation?, ColumnDef.entry, ColumnDef.reference?, hnames, Function.comp_def]

/-- The relations of a read block. -/
lemma relations_toBlock {block : BlockDef} (h : block.Proper) :
    block.toBlock.relations contents = block.relations tables := by
  rw [RelationBlock.relations, BlockDef.relations, BlockDef.toBlock, List.flatMap_map,
    tableOfText_toList h.binding, hnames]
  refine List.flatMap_congr fun entry hentry => ?_
  have htarget := h.targets entry hentry
  generalize entry.2 = target at htarget
  cases target with
  | one binding | many binding =>
      simp [TargetDef.toTarget, Target.relations, TargetDef.relations,
        tableOfText_toList htarget, hnames]
  | oneAlong binding fields references =>
      simp [TargetDef.toTarget, Target.relations, TargetDef.relations,
        tableOfText_toList htarget.1, hnames, List.zip_map, Function.comp_def]

end Tables

/-! ### Modules -/

lemma WellFormed.block (h : WellFormed items) {block : BlockDef} (hblock : block ∈ blocksOf items) :
    block.Proper := by
  obtain ⟨item, hitem, hread⟩ := List.mem_filterMap.mp hblock
  cases item with
  | table made => simp at hread
  | relations made =>
      obtain rfl := Option.some.inj hread
      exact h.proper _ hitem

/-- A written module decodes to the schema that it means. -/
theorem ofText_module (h : WellFormed items) (htext : Written (items.flatMap Item.tokens) text [])
    (hg : IsGap g) (rawPath : String) :
    Schema.ofText .drizzle (g ++ text) rawPath = schemaOf items rawPath := by
  have hcalls : (Contents.ofText (g ++ text)).tables = (tablesOf items).map TableDef.toCall := by
    rw [Contents.tables, calls_ofText h.proper htext hg, List.filterMap_map]
    exact congrFun List.filterMap_eq_map _
  have hnames := tableOf_toCall hcalls h.bindings
  have htables : (Contents.ofText (g ++ text)).draft.tables
      = (tablesOf items).map (tableOf (tablesOf items)) := by
    rw [tables_draft_of_nodup (by simpa [hcalls, Function.comp_def, TableDef.toCall] using h.names),
      hcalls, List.map_map]
    exact List.map_congr_left fun table htable => table_toCall hnames (h.keys table htable)
  have hrelations : (Contents.ofText (g ++ text)).draft.relations = firstBy Relation.edge
      ((tablesOf items).flatMap (TableDef.relations (tablesOf items)) ++
        (blocksOf items).flatMap (BlockDef.relations (tablesOf items))) := by
    rw [relations_draft, relations_ofText h.proper htext hg, hcalls, List.flatMap_map]
    congr 2
    · exact List.flatMap_congr fun table _ => relations_toCall hnames table
    · exact List.flatMap_congr fun block hblock => relations_toBlock hnames (h.block hblock)
  simp [Schema.ofText, Schema.ofTextNoted, Source.draft?, Draft.schema, htables,
    hrelations, schemaOf]

/-- A module with a block before the tables it names, a table that refers to a later one and to
itself, and a callback with an index and a composite key. -/
def sampleModule : List Item :=
  [.relations {
    declared := ⟨true, true⟩
    name := "postRelations"
    binding := "posts"
    parameters := ["one", "many"]
    entries := [("author", .oneAlong "users" [("posts", "authorId")] [("users", "id")]),
      ("replies", .many "posts")] },
  .table {
    declared := ⟨true, true⟩
    binding := "posts"
    function := .pgTable
    quote := '\''
    name := "blog_posts"
    columns := [⟨"id", "serial", [.value (.literal '\'' "id")], [.primaryKey]⟩,
      ⟨"authorId", "integer", [], [.notNull, .references "users" "id" none (some
        [("onDelete", .literal '\'' "cascade")])]⟩,
      ⟨"parentId", "integer", [], [.references "posts" "id" (some "AnyPgColumn") none]⟩]
    callback := some ⟨"t", .object [("byAuthor", .index ⟨.index, none, [⟨"authorId", ["desc"]⟩]⟩),
      ("pk", .primaryKey ["id", "authorId"])]⟩ },
  .table {
    declared := ⟨false, false⟩
    binding := "users"
    function := .pgTable
    quote := '"'
    name := "users"
    columns := [⟨"id", "serial", [], [.primaryKey]⟩, ⟨"email", "varchar",
      [.value (.literal '"' "email"), .options [("length", .word "255")]], [.notNull, .unique]⟩]
    callback := none }]

theorem ofText_module_sampleModule :
    WellFormed sampleModule ∧
      Written (sampleModule.flatMap Item.tokens)
        (spaced ((sampleModule.flatMap Item.tokens).map fun t => .verbatim t.text)) [] ∧
      IsGap "\n".toList ∧
      Schema.ofText .drizzle ("\n".toList ++
        spaced ((sampleModule.flatMap Item.tokens).map fun t => .verbatim t.text)) "a.ts"
          = schemaOf sampleModule "a.ts" := by
  have hproper : WellFormed sampleModule := by decide +kernel
  have hgap : IsGap "\n".toList := by decide
  have hwritten : Written (sampleModule.flatMap Item.tokens)
      (spaced ((sampleModule.flatMap Item.tokens).map fun t => .verbatim t.text)) [] :=
    writes_spaced (fun K hK => by simp at hK) []
  exact ⟨hproper, hwritten, hgap, ofText_module hproper hwritten hgap "a.ts"⟩

/-- The text of a declaration in the name of a table is read as a declaration. -/
theorem name_declares_table :
    Schema.ofText .drizzle
        ("const a = pgTable('const ghost = pgTable(\"g\", \x7b\x7d)', " ++
          "\x7b id: text('id') \x7d);").toList "inline"
      = ⟨.drizzle, [⟨"const ghost = pgTable(\"g\", \x7b\x7d)",
        [⟨"id", "text", true, false, none⟩], []⟩,
          ⟨"g", [], []⟩], [], "inline"⟩ := by
  decide +kernel

end SchemaReader.TableModule
