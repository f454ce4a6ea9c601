/-
Table modules, read.

* `passes_tableScan_table`, `passes_blockScan_table`: a written table is found as the call that it
  is, and no block of relations in it;
* `passes_items`: what a scan comes upon in a module;
* `calls_ofText`, `relations_ofText`: the calls and the relations of the blocks of a written module.
-/
import SchemaReader.Proofs.TableModule.ReadBlock
import SchemaReader.Proofs.TableModule.ReadCallback

namespace SchemaReader.TableModule

open Pattern
open Text (IsWord IsGap Stops isWordChar isBlank)

variable {β : Type} {scan : TokenScan β} {table : TableDef} {column : ColumnDef}
  {callback : CallbackDef} {items : List Item} {text rest g : List Char}

/-! ### Tidy tables -/

lemma TableDef.arguments_eq (table : TableDef) : table.arguments
    = [.literal table.quote table.name] :: columnObject table.columns ::
        table.callback.toList.map CallbackDef.tokens := rfl

lemma isItem_columnObject {columns : List ColumnDef} (h : ∀ column ∈ columns, column.Proper) :
    IsItem (columnObject columns) := by
  refine ⟨by simp [columnObject, bracketed], tidy_bracketed holdsSigns_ne_comma (by decide)
    (by decide) (tidy_commaSeparated fun ts hts => ?_)⟩
  obtain ⟨column, hcolumn, rfl⟩ := List.mem_map.mp hts
  exact (ColumnDef.isItem (h column hcolumn)).tidy

lemma TableDef.isItem_arguments (h : table.Proper) : ∀ ts ∈ table.arguments, IsItem ts := by
  rw [table.arguments_eq, List.forall_mem_cons, List.forall_mem_cons]
  refine ⟨⟨by simp, .cons holdsSigns_ne_comma h.name rfl (by simp) tidy_nil⟩,
    isItem_columnObject h.columns, fun ts hts => ?_⟩
  obtain ⟨callback, hcallback, rfl⟩ := List.mem_map.mp hts
  exact CallbackDef.isItem (h.callback callback (by simpa using hcallback))

/-! ### Tables, read -/

/-- The call that declares a table. -/
def TableDef.toCall (table : TableDef) : TableCall := {
  binding := table.binding
  name := table.name
  entries := table.columns.map fun column => .column column.entry
  callbacks := table.callback.toList.map CallbackDef.toCallback }

lemma stringLiteral?_of_writesItem {q : Char} {u : String} (hq : isQuote q = true)
    (h : WritesItem [.literal q u] text) : stringLiteral? text = some u.toList := by
  have htrim : Text.trim text = text := Text.trimWhere_self h.start h.stop
  rw [stringLiteral?, htrim, h.eq_text, Token.text]
  simp [hq]

/-- The written arguments of a table call are read as the call. -/
lemma ofArguments_table {texts : List (List Char)} (h : table.Proper)
    (htexts : List.Forall₂ WritesItem table.arguments texts) :
    TableCall.ofArguments table.binding texts = .ok table.toCall := by
  rw [table.arguments_eq] at htexts
  obtain ⟨name, _, hname, hrest, rfl⟩ := List.forall₂_cons_left_iff.mp htexts
  obtain ⟨object, callbacks, hobject, hcallbacks, rfl⟩ := List.forall₂_cons_left_iff.mp hrest
  have hentries := entriesOf_columns h.columns hobject
  have hcallbacks : callbacks.map Callback.ofText
      = table.callback.toList.map CallbackDef.toCallback :=
    map_of_forall₂ (fun callback hcallback text => ofText_callback (h.callback callback
      (by simpa using hcallback))) hcallbacks
  have hliteral := stringLiteral?_of_writesItem h.name.isQuote hname
  obtain ⟨g, u, rfl, -⟩ := written_cons.mp hobject.written
  simp only [Token.text, List.singleton_append] at hentries ⊢
  simp [TableCall.ofArguments, hliteral, hentries, hcallbacks, TableDef.toCall]

lemma reads_tableHead (h : table.Proper) (us : List Token) :
    tableScan.Reads (· = [(1, table.binding.toList)])
      (commaSeparated table.arguments ++ .sign ')' :: us) [.ok table.toCall] := by
  rintro _ g text rest rfl hg htext
  have hitems := TableDef.isItem_arguments h
  obtain ⟨u, _, _, henclosed, -, hu, -⟩ := enclosed?_of_written (by decide)
    (tidy_commaSeparated fun ts hts => (hitems ts hts).tidy) htext hg
  have hcall := ofArguments_table h (splitTopLevel_of_written hitems hu hg)
  simp [tableScan, TableCall.ofMatch, argumentsAfter?, matchOf, henclosed,
    Match.group, Match.group?, hcall]

/-! ### Tables, passed -/

section Scans

variable (hscan : scan.Sound Token.Proper) (hnext : scan.next ≠ .colon)

include hscan hnext

/-- A callback in which a scan finds nothing. -/
lemma passes_callback_nil (h : callback.Proper)
    (hwords : ∀ w ∈ ["index", "uniqueIndex", "unique", "primaryKey"],
      scan.leads (.word w) = true → scan.next ≠ .parenthesis)
    (hon : scan.leads (.member "on") = true → scan.next ≠ .parenthesis)
    (hmodifier : ∀ m : String, IsWord m.toList → scan.Passes (modifierTokens m) []) :
    scan.Passes callback.tokens [] := by
  have hcallback := passes_callback hscan hnext (fun _ => []) h fun item _ hitem => by
    cases item with
    | index made =>
        have hindex := passes_index hscan (fun _ => []) h.parameter hitem
          (hwords _ (by cases made.function <;> simp [IndexFunction.name])) hon hmodifier
        simpa [CallbackItem.tokens] using hindex
    | primaryKey columns =>
        exact TokenScan.passes_call hscan (t := .word "primaryKey") (by decide)
          (by decide) (by decide)
          (hwords _ (by simp)) (passes_key hscan hnext h.parameter hitem)
  simpa using hcallback

omit hnext in
/-- The arguments of a table call, if a scan finds nothing in the columns and in the callback. -/
lemma passes_tableArguments (h : table.Proper)
    (hcolumns : ∀ column ∈ table.columns, scan.Passes column.tokens [])
    (hcallback : ∀ callback ∈ table.callback, scan.Passes callback.tokens []) :
    scan.Passes (commaSeparated table.arguments) [] := by
  have hlist : scan.Passes (commaSeparated (table.arguments.map id)) [] := by
    refine TokenScan.passes_commaSeparated_nil hscan (by decide) ?_
    rw [table.arguments_eq, List.forall_mem_cons, List.forall_mem_cons]
    refine ⟨TokenScan.passes_token hscan (by exact h.name), ?_, fun ts hts => ?_⟩
    · exact TokenScan.passes_bracketed hscan (by decide) (by decide) (by decide)
        (TokenScan.passes_commaSeparated_nil hscan (by decide) hcolumns)
    · obtain ⟨callback, hmem, rfl⟩ := List.mem_map.mp hts
      exact hcallback callback (by simpa using hmem)
  rwa [List.map_id] at hlist

end Scans

/-- A table is found as the call that it is. -/
theorem passes_tableScan_table (h : table.Proper) :
    tableScan.Passes table.tokens [.ok table.toCall] := by
  have harguments : tableScan.Passes (commaSeparated table.arguments) [] := by
    refine passes_tableArguments sound_tableScan h (fun column hcolumn => ?_)
      fun callback hcallback =>
      passes_callback_nil sound_tableScan (by decide) (h.callback callback hcallback)
        (fun _ _ _ => by decide) (fun _ => by decide) fun m hm =>
          TokenScan.passes_call sound_tableScan hm (by decide) (by decide)
            (fun _ => by decide) passes_nil
    have hproper := h.columns column hcolumn
    exact passes_column sound_tableScan (by decide) hproper
      (TokenScan.passes_call sound_tableScan (by exact hproper.type) (by decide) (by decide)
        (fun _ => by decide) (passes_arguments sound_tableScan (by decide) hproper.arguments))
      fun _ _ => by decide
  have hcall := (catches_tableHead table.declared h.binding table.function).append sound_tableScan
    (reads_tableHead h table.declared.closing) (passes_arguments_end sound_tableScan _ harguments)
  simpa [TableDef.tokens, tableHeadTokens, bracketed] using hcall

/-- The function of a column, called like the one of a block, makes no relations. -/
lemma reads_blockHead_column (contents : Contents)
    (h : ∀ argument ∈ column.arguments, argument.Proper) :
    (blockScan contents).Reads (· = [])
      (commaSeparated (column.arguments.map Argument.tokens) ++ [.sign ')']) [] := by
  rintro _ g text rest rfl hg htext
  have hitems : ∀ ts ∈ column.arguments.map Argument.tokens, IsItem ts := fun ts hts => by
    obtain ⟨argument, hargument, rfl⟩ := List.mem_map.mp hts
    exact Argument.isItem (h argument hargument)
  obtain ⟨u, _, _, henclosed, -, hu, -⟩ :=
    enclosed?_of_written (by decide) (tidy_arguments h) htext hg
  have htargets : (splitTopLevel .code ',' (g ++ u)).map (fun body =>
      (targetHead.findAll body).filterMap Target.ofMatch?) = column.arguments.map fun _ => [] := by
    refine map_of_forall₂ (fun argument hargument body hbody => ?_)
      (splitTopLevel_of_written hitems hu hg)
    have hpasses := passes_argument sound_targetScan (by decide) (h argument hargument)
    rw [List.filterMap_eq_flatMap_toList]
    exact hpasses.flatMap_findAll sound_targetScan (g := []) hbody.written Text.isGap_nil
  have hnone : ∀ body ∈ splitTopLevel .code ',' (g ++ u),
      (targetHead.findAll body).filterMap Target.ofMatch? = [] := fun body hbody => by
    obtain ⟨_, -, hread⟩ := List.mem_map.mp (htargets ▸ List.mem_map_of_mem hbody)
    exact hread.symm
  simp only [blockScan, RelationBlock.ofMatch?, argumentsAfter?, matchOf, henclosed,
    Option.map_some, Option.bind_some]
  cases hsplit : splitTopLevel .code ',' (g ++ u) with
  | nil => rfl
  | cons binding more =>
      cases more with
      | nil => rfl
      | cons body more =>
          have hbody := hnone body (by simp [hsplit])
          simp [hbody, RelationBlock.relations]

lemma passes_blockScan_column (contents : Contents) (h : column.Proper) :
    (blockScan contents).Passes column.tokens [] := by
  have hscan := sound_blockScan contents
  have harguments := passes_arguments hscan (by simp [blockScan]) h.arguments
  refine passes_column hscan (by simp [blockScan]) h ?_ fun method hleads => ?_
  · by_cases htype : column.type = "relations"
    · rw [htype]
      exact (catches_blockHead contents).call hscan (reads_blockHead_column contents h.arguments)
        (by decide) harguments
    · refine TokenScan.passes_call hscan (by exact h.type) (by decide) (by decide)
        (fun hleads => ?_)
        harguments
      exact absurd (String.toList_inj.mp (by simpa [blockScan, Token.endsIn] using hleads)) htype
  · have hname : Token.endsIn ["relations".toList] (.member method.name) = false := by
      cases method <;> simp [Method.name, Token.endsIn]
    exact absurd hleads (Bool.eq_false_iff.mp hname)

/-- No block of relations is found in a table. -/
theorem passes_blockScan_table (contents : Contents) (h : table.Proper) :
    (blockScan contents).Passes table.tokens [] := by
  have hscan := sound_blockScan contents
  have hmodifier : ∀ m : String, IsWord m.toList →
      (blockScan contents).Passes (modifierTokens m) [] := by
    intro m hm
    have hpasses := passes_modifier_of_catches "relations" [] hscan
      (eq_of_endsIn_member (by decide))
      (catches_blockHead_member contents) ?_ hm
    · simpa using hpasses
    rintro _ g text rest rfl hg htext
    obtain ⟨more, henclosed⟩ := enclosed?_empty hg htext
    have hsplit : splitTopLevel .code ',' g = [] := splitTopLevel_of_blank
      (IsGap.closed hg fun c hc => ne_comma_of_isBlank hc) (Text.trim_gap hg)
    simp [blockScan, RelationBlock.ofMatch?, argumentsAfter?, matchOf, henclosed, hsplit]
  have hwords : ∀ w ∈ ["index", "uniqueIndex", "unique", "primaryKey"],
      Token.endsIn ["relations".toList] (.word w) = false := by decide
  have harguments := passes_arguments_end hscan table.declared (passes_tableArguments hscan h
    (fun column hcolumn => passes_blockScan_column contents (h.columns column hcolumn))
    fun callback hcallback => passes_callback_nil hscan (by simp [blockScan])
      (h.callback callback hcallback) (fun w hw hleads =>
        absurd hleads (Bool.eq_false_iff.mp (hwords w hw)))
      (fun hleads => absurd hleads (by simp [blockScan, Token.endsIn])) hmodifier)
  have hfunction : Token.endsIn ["relations".toList] (.word table.function.name) = false := by
    cases table.function <;> rfl
  have hcall : (blockScan contents).Passes (.word table.function.name :: .sign '(' ::
      (commaSeparated table.arguments ++ .sign ')' :: table.declared.closing)) [] :=
    TokenScan.passes_cons hscan (by cases table.function <;> decide)
      (TokenScan.joins_of_not_leadsOn hfunction)
      (TokenScan.passes_cons hscan (by decide) (TokenScan.joins_behind hscan rfl) harguments)
  have htable := (passes_opening hscan rfl table.declared h.binding).append hcall
    (TokenScan.joins_of_not_leadsOn (leadsOn_opening hscan _ _))
  simpa [TableDef.tokens, bracketed] using htable

/-! ### Modules -/

lemma leadsOn_call_end (hscan : scan.Sound Token.Proper) (declared : Declared)
    (ts us : List Token) :
    scan.leadsOn (ts ++ (bracketed '(' ')' us ++ declared.closing)) = false := by
  cases hended : declared.ended with
  | false =>
      simpa [Declared.closing, hended] using TokenScan.not_leadsOn_bracketed hscan _
  | true =>
      have hsplit : ts ++ (bracketed '(' ')' us ++ declared.closing)
          = (ts ++ bracketed '(' ')' us) ++ [.sign ';'] := by simp [Declared.closing, hended]
      rw [hsplit]
      exact TokenScan.not_leadsOn hscan _ rfl

lemma leadsOn_item (hscan : scan.Sound Token.Proper) (item : Item) :
    scan.leadsOn item.tokens = false := by
  cases item with
  | table made =>
      rw [Item.tokens, TableDef.tokens, List.append_cons]
      exact leadsOn_call_end hscan _ _ _
  | relations block =>
      rw [Item.tokens, BlockDef.tokens, List.append_cons]
      exact leadsOn_call_end hscan _ _ _

/-- In a module a scan comes upon what it comes upon in the items. -/
lemma passes_items (hscan : scan.Sound Token.Proper) (results : Item → List β)
    (hitems : ∀ item ∈ items, scan.Passes item.tokens (results item)) :
    scan.Passes (items.flatMap Item.tokens) (items.flatMap results) :=
  TokenScan.passes_flatMap (fun item _ => leadsOn_item hscan item) hitems

/-! ### Contents -/

lemma flatMap_tables {γ : Type} (f : TableDef → γ) (items : List Item) :
    items.flatMap (fun
      | .table table => [f table]
      | .relations _ => []) = (tablesOf items).map f := by
  induction items with
  | nil => rfl
  | cons item items ih => cases item <;> simpa [tablesOf] using ih

lemma flatMap_blocks {γ : Type} (f : BlockDef → List γ) (items : List Item) :
    items.flatMap (fun
      | .table _ => []
      | .relations block => f block) = (blocksOf items).flatMap f := by
  induction items with
  | nil => rfl
  | cons item items ih => cases item <;> simpa [blocksOf] using ih

lemma tidy_call {declared : Declared} {name function : String} {arguments : List (List Token)}
    (hname : IsWord name.toList) (hfunction : IsWord function.toList)
    (harguments : ∀ ts ∈ arguments, IsItem ts) : Tidy (fun _ => True)
      (declared.opening name ++ .word function ::
        (bracketed '(' ')' (commaSeparated arguments) ++ declared.closing)) := by
  have hcons : ∀ {t : Token} {ts : List Token}, t.Proper → t.isBracket = false → t ≠ .sign ',' →
      Tidy (fun _ => True) ts → Tidy (fun _ => True) (t :: ts) := .cons holdsSigns_true
  have hopening : Tidy (fun _ => True) (declared.opening name) := by
    have hconst : Tidy (fun _ => True) [.word "const", .word name, .sign '='] :=
      hcons (by decide) rfl (by simp) (hcons hname rfl (by simp)
        (hcons (by decide) rfl (by simp) tidy_nil))
    cases hexported : declared.exported with
    | false => simpa [Declared.opening, hexported] using hconst
    | true =>
        have hexport := hcons (t := .word "export") (by decide) rfl (by simp) hconst
        simpa [Declared.opening, hexported] using hexport
  have hclosing : Tidy (fun _ => True) declared.closing := by
    cases hended : declared.ended with
    | false => simpa [Declared.closing, hended] using tidy_nil
    | true =>
        have hsign := hcons (t := .sign ';') (by decide) rfl (by simp) tidy_nil
        simpa [Declared.closing, hended] using hsign
  have hcall := tidy_bracketed holdsSigns_true (o := '(') (c := ')') (by decide) (by decide)
    (tidy_commaSeparated fun ts hts => (harguments ts hts).tidy)
  exact hopening.append (hcons hfunction rfl (by simp) (hcall.append hclosing))

lemma BlockDef.tidy_tokens {block : BlockDef} (h : block.Proper) :
    Tidy (fun _ => True) block.tokens := tidy_call h.name (by decide) (isItem_arguments h)

/-- The tokens of an item are proper and close their brackets. -/
lemma Item.tidy_tokens {item : Item} (h : item.Proper) : Tidy (fun _ => True) item.tokens := by
  cases item with
  | table made =>
      exact tidy_call h.binding (by cases made.function <;> decide) (TableDef.isItem_arguments h)
  | relations block => exact BlockDef.tidy_tokens h

variable (hitems : ∀ item ∈ items, item.Proper)
    (htext : Written (items.flatMap Item.tokens) text [])
  (hg : IsGap g)

include hitems htext hg

/-- No comment is taken out of a written module. -/
lemma stripComments_module : stripComments .code (g ++ text) = g ++ text := by
  have htokens : ∀ t ∈ items.flatMap Item.tokens, t.Proper := fun t ht => by
    obtain ⟨item, hitem, ht⟩ := List.mem_flatMap.mp ht
    exact (Item.tidy_tokens (hitems item hitem)).proper t ht
  exact ((uncommented_gap hg).append (uncommented_of_written htokens htext)).stripComments_eq

/-- The table calls of a written module. -/
theorem calls_ofText : (Contents.ofText (g ++ text)).calls
    = (tablesOf items).map fun table => .ok table.toCall := by
  rw [Contents.ofText, stripComments_module hitems htext hg, ← flatMap_tables]
  have hpasses := passes_items sound_tableScan (fun
      | .table table => [.ok table.toCall]
      | .relations _ => []) fun item hitem => by
    have hproper := hitems item hitem
    cases item with
    | table made => exact passes_tableScan_table hproper
    | relations block => exact passes_tableScan_block hproper
  rw [← hpasses.flatMap_findAll sound_tableScan htext hg, Contents.ofStripped, List.map_eq_flatMap]
  rfl

/-- The relations of the blocks of a written module. -/
theorem relations_ofText (contents : Contents) :
    (Contents.ofText (g ++ text)).blocks.flatMap (RelationBlock.relations contents)
      = (blocksOf items).flatMap fun block => block.toBlock.relations contents := by
  rw [Contents.ofText, stripComments_module hitems htext hg, ← flatMap_blocks]
  have hpasses := passes_items (sound_blockScan contents) (fun
      | .table _ => []
      | .relations block => block.toBlock.relations contents) fun item hitem => by
    have hproper := hitems item hitem
    cases item with
    | table made => exact passes_blockScan_table contents hproper
    | relations block => exact passes_blockScan_block contents hproper
  rw [← hpasses.flatMap_findAll (sound_blockScan contents) htext hg, Contents.ofStripped,
    relationBlocks, flatMap_filterMap]
  rfl

end SchemaReader.TableModule
