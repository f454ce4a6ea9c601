/-
Columns of table modules, read.

* `tidy_tokens`: the tokens of a column close their brackets;
* `passes_method`, `passes_references`: what scans find in a chain of calls;
* `ofText_column`: a written column is read as what it says.
-/
import SchemaReader.Proofs.TableModule.Taken

namespace SchemaReader.TableModule

open Pattern
open Text (IsWord IsGap Stops isWordChar isBlank)

variable {β : Type} {scan : TokenScan β} {P : Char → Prop} {options : Options} {argument : Argument}
  {method : Method} {column : ColumnDef} {text rest g : List Char}

/-! ### Tidy columns -/

lemma tidy_options (hP : HoldsSigns P) (h : ProperOptions options) :
    Tidy P (optionTokens options) := by
  refine tidy_bracketed hP (by decide) (by decide) (tidy_commaSeparated fun entry hentry => ?_)
  obtain ⟨option, hoption, rfl⟩ := List.mem_map.mp hentry
  obtain ⟨hkey, hvalue⟩ := h option hoption
  refine .cons holdsSigns_ne_comma hkey rfl (by simp) ?_
  refine .cons holdsSigns_ne_comma (by decide) rfl (by simp) ?_
  cases hv : option.2 <;> rw [hv] at hvalue <;>
    exact .cons holdsSigns_ne_comma hvalue rfl (by simp [Value.token]) tidy_nil

lemma Argument.isItem (h : argument.Proper) : IsItem argument.tokens := by
  cases argument with
  | value v =>
      refine ⟨by simp [Argument.tokens], ?_⟩
      cases v <;> exact .cons holdsSigns_ne_comma h rfl (by simp [Value.token]) tidy_nil
  | options entries =>
      exact ⟨by simp [Argument.tokens, optionTokens, bracketed], tidy_options holdsSigns_ne_comma h⟩

lemma tidy_arguments (h : ∀ argument ∈ column.arguments, argument.Proper) :
    Tidy (fun _ => True) (commaSeparated (column.arguments.map Argument.tokens)) := by
  refine tidy_commaSeparated fun entry hentry => ?_
  obtain ⟨argument, hargument, rfl⟩ := List.mem_map.mp hentry
  exact (Argument.isItem (h argument hargument)).tidy

lemma tidy_references {binding column : String} {type : Option String}
    (hbinding : IsWord binding.toList) (hcolumn : IsWord column.toList)
    (htype : ∀ t ∈ type, IsWord t.toList) :
    Tidy (fun _ => True) (referenceTokens binding column type) := by
  have hempty : Tidy (fun _ => True) (bracketed '(' ')' []) :=
    tidy_bracketed holdsSigns_true (by decide) (by decide) tidy_nil
  have hstated : Tidy (fun _ => True) (type.toList.flatMap fun type => [.sign ':', .word type]) :=
    tidy_flatMap fun t ht => .cons holdsSigns_true (by decide) rfl (by simp)
      (.cons holdsSigns_true (htype t (by simpa using ht)) rfl (by simp) tidy_nil)
  have hpath : Tidy (fun _ => True) [.arrow, .path binding column] :=
    .cons holdsSigns_true trivial rfl (by simp)
      (.cons holdsSigns_true ⟨hbinding, hcolumn⟩ rfl (by simp) tidy_nil)
  exact (hempty.append hstated).append hpath

/-- The options of a reference, with the comma before them. -/
def furtherOptions (options : Option Options) : List Token :=
  options.toList.flatMap fun options => .sign ',' :: optionTokens options

lemma tidy_furtherOptions {options : Option Options} (h : ∀ o ∈ options, ProperOptions o) :
    Tidy (fun _ => True) (furtherOptions options) := by
  refine tidy_flatMap fun o ho => ?_
  have hoptions := tidy_options holdsSigns_true (h o (by simpa using ho))
  exact ⟨List.forall_mem_cons.mpr ⟨by decide, hoptions.proper⟩,
    hoptions.closed.cons (by decide) rfl holdsSigns_true fun _ => trivial⟩

/-- What stands in the parentheses of a method. -/
def Method.inner : Method → List Token
  | .references binding column type options =>
      referenceTokens binding column type ++ furtherOptions options
  | .notNull | .primaryKey | .unique => []

/-- The name of a method. -/
def Method.name : Method → String
  | .notNull => "notNull"
  | .primaryKey => "primaryKey"
  | .unique => "unique"
  | .references _ _ _ _ => "references"

lemma Method.tokens_eq (method : Method) :
    method.tokens = .member method.name :: bracketed '(' ')' method.inner := by
  cases method <;> rfl

lemma Method.isWord_name (method : Method) : IsWord method.name.toList := by
  cases method <;> simp only [Method.name] <;> decide

lemma Method.tidy_inner (h : method.Proper) : Tidy (fun _ => True) method.inner := by
  cases method with
  | references binding column type options =>
      exact (tidy_references h.1 h.2.1 h.2.2.1).append (tidy_furtherOptions h.2.2.2)
  | notNull | primaryKey | unique => exact tidy_nil

lemma Method.tidy (hP : HoldsSigns P) (h : method.Proper) : Tidy P method.tokens := by
  rw [method.tokens_eq]
  exact .cons hP method.isWord_name rfl (by simp)
    (tidy_bracketed hP (by decide) (by decide) (Method.tidy_inner h))

lemma tidy_methods (hP : HoldsSigns P) (h : ∀ method ∈ column.methods, method.Proper) :
    Tidy P (column.methods.flatMap Method.tokens) :=
  tidy_flatMap fun method hmethod => Method.tidy hP (h method hmethod)

lemma ColumnDef.isItem (h : column.Proper) : IsItem column.tokens := by
  refine ⟨by simp [ColumnDef.tokens], ?_⟩
  refine Tidy.append (.cons holdsSigns_ne_comma h.key rfl (by simp)
    (.cons holdsSigns_ne_comma (by decide) rfl (by simp)
      (.cons holdsSigns_ne_comma h.type rfl (by simp) ?_)))
    (tidy_methods holdsSigns_ne_comma h.methods)
  exact tidy_bracketed holdsSigns_ne_comma (by decide) (by decide) (tidy_arguments h.arguments)

/-! ### Scans that find nothing -/

section Scans

variable (hscan : scan.Sound Token.Proper) (hnext : scan.next ≠ .colon)

include hnext in
lemma joins_colon (ts us : List Token) : scan.Joins ts (.sign ':' :: us) := by
  refine TokenScan.joins_before (by decide) ?_
  cases h : scan.next with
  | colon => exact absurd h hnext
  | parenthesis | word => rfl

lemma joins_arrow (ts us : List Token) : scan.Joins ts (.arrow :: us) :=
  TokenScan.joins_before trivial (by cases scan.next <;> rfl)

include hscan hnext

/-- Tokens with a key before them. -/
lemma passes_keyed {key : String} {ts : List Token} {rs : List β} (hkey : IsWord key.toList)
    (hts : scan.Passes ts rs) : scan.Passes ([.word key, .sign ':'] ++ ts) rs := by
  have hcolon : scan.Passes (.sign ':' :: ts) rs :=
    TokenScan.passes_cons hscan (by decide) (TokenScan.joins_behind hscan rfl) hts
  exact TokenScan.passes_cons hscan hkey (joins_colon hnext _ _) hcolon

lemma passes_options (h : ProperOptions options) : scan.Passes (optionTokens options) [] := by
  refine TokenScan.passes_bracketed hscan (by decide) (by decide) (by decide)
    (TokenScan.passes_commaSeparated_nil hscan (by decide) fun option hoption => ?_)
  obtain ⟨hkey, hvalue⟩ := h option hoption
  exact passes_keyed hscan hnext hkey (TokenScan.passes_token hscan hvalue)

lemma passes_argument (h : argument.Proper) : scan.Passes argument.tokens [] := by
  cases argument with
  | value v => exact TokenScan.passes_token hscan h
  | options entries => exact passes_options hscan hnext h

lemma passes_arguments (h : ∀ argument ∈ column.arguments, argument.Proper) :
    scan.Passes (commaSeparated (column.arguments.map Argument.tokens)) [] :=
  TokenScan.passes_commaSeparated_nil hscan (by decide) fun argument hargument =>
    passes_argument hscan hnext (h argument hargument)

omit hnext in
lemma passes_references {binding column : String} {type : Option String}
    (hbinding : IsWord binding.toList) (hcolumn : IsWord column.toList)
    (htype : ∀ t ∈ type, IsWord t.toList) :
    scan.Passes (referenceTokens binding column type) [] := by
  have hpath : scan.Passes [.arrow, .path binding column] [] :=
    TokenScan.passes_cons hscan trivial (TokenScan.joins_behind hscan rfl)
      (TokenScan.passes_token hscan ⟨hbinding, hcolumn⟩)
  have hstated : scan.Passes ((type.toList.flatMap fun type => [.sign ':', .word type]) ++
      [.arrow, .path binding column]) [] := by
    cases type with
    | none => exact hpath
    | some type =>
        exact TokenScan.passes_cons hscan (by decide) (TokenScan.joins_behind hscan rfl)
          (TokenScan.passes_cons hscan (htype type rfl) (joins_arrow _ _) hpath)
  rw [referenceTokens, List.append_assoc]
  exact TokenScan.passes_cons hscan (by decide) (TokenScan.joins_behind hscan rfl)
    (TokenScan.passes_cons hscan (by decide) (TokenScan.joins_behind hscan rfl) hstated)

lemma passes_furtherOptions {options : Option Options} (h : ∀ o ∈ options, ProperOptions o) :
    scan.Passes (furtherOptions options) [] := by
  cases options with
  | none => exact passes_nil
  | some o =>
      have hoptions : scan.Passes (.sign ',' :: optionTokens o) [] :=
        TokenScan.passes_cons hscan (by decide) (TokenScan.joins_behind hscan rfl)
          (passes_options hscan hnext (h o rfl))
      simpa [furtherOptions] using hoptions

lemma passes_inner (h : method.Proper) : scan.Passes method.inner [] := by
  cases method with
  | notNull | primaryKey | unique => exact passes_nil
  | references binding column type options =>
      refine (passes_references hscan h.1 h.2.1 h.2.2.1).append
        (passes_furtherOptions hscan hnext h.2.2.2) ?_
      cases options with
      | none => rintro - t ht; simp [furtherOptions] at ht
      | some o => exact TokenScan.joins_comma

omit hnext in
lemma leadsOn_method : scan.leadsOn method.tokens = false := by
  rw [method.tokens_eq]
  exact TokenScan.not_leadsOn_bracketed hscan [_]

/-- A method that a scan does not look for. -/
lemma passes_method (h : method.Proper)
    (hcall : scan.leads (.member method.name) = true → scan.next ≠ .parenthesis) :
    scan.Passes method.tokens [] := by
  rw [method.tokens_eq]
  exact TokenScan.passes_call hscan method.isWord_name (by decide) (by decide) hcall
    (passes_inner hscan hnext h)

/-- A column, if a scan finds nothing in the call of its function and does not look for the
methods. -/
lemma passes_column (h : column.Proper)
    (htype : scan.Passes (.word column.type ::
      bracketed '(' ')' (commaSeparated (column.arguments.map Argument.tokens))) [])
    (hcall : ∀ method : Method, scan.leads (.member method.name) = true →
      scan.next ≠ .parenthesis) :
    scan.Passes column.tokens [] := by
  have hmethods : scan.Passes (column.methods.flatMap Method.tokens) [] :=
    TokenScan.passes_flatMap_nil (fun _ _ => leadsOn_method hscan) fun method hmethod =>
      passes_method hscan hnext (h.methods method hmethod) (hcall method)
  have hchain := htype.append hmethods (TokenScan.joins_of_not_leadsOn
    (TokenScan.not_leadsOn_bracketed hscan [_]))
  simpa [ColumnDef.tokens] using passes_keyed hscan hnext h.key hchain

end Scans

/-! ### Columns, read -/

/-- A column as an entry of a column object. -/
def ColumnDef.entry (column : ColumnDef) : ColumnEntry := {
  name := column.key
  type := column.type
  nullable := !column.methods.contains .notNull
  primaryKey := column.methods.contains .primaryKey
  unique := column.methods.contains .unique
  references := column.methods.findSome? Method.target? }

/-- A method without arguments is found where it is called. -/
lemma passes_methodScan {name : String} {wanted : Method} (hwanted : wanted.inner = [])
    (hname : name.toList = '.' :: wanted.name.toList) (hscan : (methodScan name).Sound Token.Proper)
    (h : method.Proper) :
    (methodScan name).Passes method.tokens (if method = wanted then [()] else []) := by
  have hsame : method.name = wanted.name ↔ method = wanted := by
    cases wanted <;> cases method <;> simp_all [Method.name, Method.inner, referenceTokens]
  split
  case isTrue heq =>
    subst heq
    rw [method.tokens_eq, hwanted]
    exact TokenScan.Catches.call hscan (catches_methodCall hname) (fun _ _ _ _ _ _ _ => rfl)
      (by decide) passes_nil
  case isFalse hne =>
    refine passes_method hscan (by simp [methodScan]) h fun hleads => absurd ?_ (hsame.not.mpr hne)
    have hword : '.' ∉ method.name.toList := fun hmem =>
      absurd (method.isWord_name.chars _ hmem) (by decide)
    simp only [methodScan, Token.endsIn, List.contains_cons, List.contains_nil, Bool.or_false,
      Bool.or_eq_true, beq_iff_eq, hname] at hleads
    rcases hleads with hleads | hleads
    · exact absurd (by simp [hleads]) hword
    · exact String.toList_inj.mp (by simpa using hleads)

lemma passes_referenceScan (h : method.Proper) :
    referenceScan.Passes method.tokens method.target?.toList := by
  cases method with
  | notNull | primaryKey | unique =>
      exact passes_method sound_referenceScan (by decide) h (by decide)
  | references binding column type options =>
      have hend : referenceScan.Passes (furtherOptions options ++ [.sign ')']) ([] ++ []) :=
        (passes_furtherOptions sound_referenceScan (by decide) h.2.2.2).append
          (TokenScan.passes_token sound_referenceScan (by decide))
          (TokenScan.joins_closing (by decide))
      have hread : referenceScan.Reads (· = [(2, column.toList), (1, binding.toList)])
          (furtherOptions options ++ [.sign ')']) [(binding, column)] := by
        rintro _ g text rest rfl - -
        simp [referenceScan, matchOf, Match.group, Match.group?, List.lookup_cons]
      have hcall := (catches_referencesCall h.1 h.2.1 h.2.2.1).append sound_referenceScan hread hend
      simpa [referenceHeadTokens, Method.tokens, Method.target?, bracketed,
        furtherOptions] using hcall

/-- Whether a method is called in a chain. -/
lemma occursIn_chain {name : String} {wanted : Method} (hwanted : wanted.inner = [])
    (hname : name.toList = '.' :: wanted.name.toList) (hscan : (methodScan name).Sound Token.Proper)
    (h : ∀ method ∈ column.methods, method.Proper)
    (htext : Written (column.methods.flatMap Method.tokens) text []) (hg : IsGap g) :
    (methodCall name).occursIn (g ++ text) = column.methods.contains wanted := by
  have hchain : (methodScan name).Passes (column.methods.flatMap Method.tokens)
      (column.methods.flatMap fun method => if method = wanted then [()] else []) :=
    TokenScan.passes_flatMap (fun _ _ => leadsOn_method hscan) fun method hmethod =>
      passes_methodScan hwanted hname hscan (h method hmethod)
  have hfound : ((methodCall name).find? (g ++ text)).map (fun _ => ()) = _ :=
    hchain.map_find? hscan (fun _ => rfl) htext hg
  have hsome : ∀ found : Option Match, found.isSome = (found.map fun _ => ()).isSome := by simp
  rw [Pattern.occursIn, hsome, hfound]
  induction column.methods with
  | nil => rfl
  | cons method methods ih =>
      by_cases heq : method = wanted
      · simp [heq]
      · simpa [heq, Ne.symm heq] using ih

lemma find?_chain (h : ∀ method ∈ column.methods, method.Proper)
    (htext : Written (column.methods.flatMap Method.tokens) text []) (hg : IsGap g) :
    (referencesCall.find? (g ++ text)).map (fun found =>
      (String.ofList (found.group 1), String.ofList (found.group 2)))
        = column.methods.findSome? Method.target? := by
  have hchain : referenceScan.Passes (column.methods.flatMap Method.tokens)
      (column.methods.flatMap fun method => method.target?.toList) :=
    TokenScan.passes_flatMap (fun _ _ => leadsOn_method sound_referenceScan)
      fun method hmethod => passes_referenceScan (h method hmethod)
  have hfound : (referencesCall.find? (g ++ text)).map _ = _ :=
    hchain.map_find? sound_referenceScan (fun _ => rfl) htext hg
  rw [hfound, ← List.filterMap_eq_flatMap_toList, List.head?_filterMap]

/-- A written column is read as what it says. -/
theorem ofText_column (h : column.Proper) (htext : WritesItem column.tokens text) :
    Entry.ofText text = .column column.entry := by
  have hwritten := htext.written
  have hsplit : column.tokens = [.word column.key, .sign ':', .word column.type, .sign '('] ++
      (commaSeparated (column.arguments.map Argument.tokens) ++
        .sign ')' :: column.methods.flatMap Method.tokens) := by
    simp [ColumnDef.tokens, bracketed]
  rw [hsplit] at hwritten
  obtain ⟨head, rest, rfl, hhead, hrest⟩ := written_append.mp hwritten
  obtain ⟨found, g, hfind, hkey, htype, hafter, hg⟩ := find?_columnHead h.key h.type hhead
  obtain ⟨u, g', chain, hinner, hg', -, hchain⟩ :=
    enclosed?_of_written (by decide) (tidy_arguments h.arguments) hrest hg
  rw [List.append_nil] at hafter hfind hinner
  rw [List.append_nil] at hinner
  simp only [Entry.ofText, hfind, hafter, hinner, Entry.column.injEq]
  have hflag : ∀ (name : String) (wanted : Method), name ∈ [".notNull", ".primaryKey", ".unique"] →
      wanted.inner = [] → name.toList = '.' :: wanted.name.toList →
        (methodCall name).occursIn (g' ++ chain) = column.methods.contains wanted :=
    fun _ _ hname hwanted hsame =>
      occursIn_chain hwanted hsame (sound_methodScan hname) h.methods hchain hg'
  have hnotNull := hflag ".notNull" .notNull (by decide) rfl rfl
  have hprimaryKey := hflag ".primaryKey" .primaryKey (by decide) rfl rfl
  have hunique := hflag ".unique" .unique (by decide) rfl rfl
  simp only [ColumnEntry.ofChain, ColumnDef.entry, hkey, htype, String.ofList_toList, hnotNull,
    hprimaryKey, hunique, find?_chain h.methods hchain hg']

/-- An object of columns. -/
def columnObject (columns : List ColumnDef) : List Token :=
  bracketed '\x7b' '\x7d' (commaSeparated (columns.map ColumnDef.tokens))

/-- A written object of columns is read as these columns. -/
theorem entriesOf_columns {columns : List ColumnDef} (h : ∀ column ∈ columns, column.Proper)
    (htext : WritesItem (columnObject columns) text) :
    entriesOf text = columns.map fun column => .column column.entry := by
  have hitems : ∀ entry ∈ columns.map ColumnDef.tokens, IsItem entry := by
    intro entry hentry
    obtain ⟨column, hcolumn, rfl⟩ := List.mem_map.mp hentry
    exact ColumnDef.isItem (h column hcolumn)
  have htidy := tidy_commaSeparated fun entry hentry => (hitems entry hentry).tidy
  obtain ⟨g, v, rfl, hg, -, hinner⟩ := written_cons.mp htext.written
  obtain ⟨u, _, _, henclosed, -, hu, -⟩ := enclosed?_of_written (by decide) htidy hinner hg
  have hbody : bracketBody? .code ((Token.sign '\x7b').text ++ (g ++ v)) = some (g ++ u) := by
    rw [List.append_nil] at henclosed
    rw [Token.text, List.singleton_append, bracketBody?, if_pos (by decide), henclosed,
      Option.map_some]
  rw [entriesOf, hbody, Option.getD_some]
  exact map_of_forall₂ (fun column hcolumn text => ofText_column (h column hcolumn))
    (splitTopLevel_of_written hitems hu hg)

end SchemaReader.TableModule
