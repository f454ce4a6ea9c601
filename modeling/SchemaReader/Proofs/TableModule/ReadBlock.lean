/-
Blocks of relations, read.

* `BlockDef.bodyTokens_isItem`: the arguments of a block close their brackets;
* `passes_targetScan`: the relations of a block are found in its function;
* `passes_blockScan_block`: a written block is read as the relations that it lists;
* `passes_blockCall`: what scans find that look for something else.
-/
import SchemaReader.Proofs.TableModule.ColumnLists
import SchemaReader.Proofs.TableModule.ReadColumn

namespace SchemaReader.TableModule

open Pattern
open Text (IsWord IsGap Stops isWordChar isBlank)

variable {β : Type} {scan : TokenScan β} {P : Char → Prop} {target : TargetDef} {block : BlockDef}
  {fields references : List (String × String)} {us : List Token} {rs : List β}
  {binding : String} {before text rest g : List Char}

/-! ### Tidy blocks -/

/-- The object of the columns of a relation. -/
def alongTokens (fields references : List (String × String)) : List Token :=
  bracketed '\x7b' '\x7d' ([.word "fields", .sign ':'] ++ pathList fields ++
    (.sign ',' :: ([.word "references", .sign ':'] ++ pathList references)))

/-- What stands in the parentheses of a relation, between commas. -/
def TargetDef.arguments : TargetDef → List (List Token)
  | .one binding | .many binding => [[.word binding]]
  | .oneAlong binding fields references => [[.word binding], alongTokens fields references]

/-- The function that makes a relation. -/
def TargetDef.function : TargetDef → String
  | .one _ | .oneAlong _ _ _ => "one"
  | .many _ => "many"

lemma TargetDef.tokens_eq (target : TargetDef) : target.tokens
    = .word target.function :: bracketed '(' ')' (commaSeparated target.arguments) := by
  cases target <;> rfl

lemma isItem_word {w : String} (hw : IsWord w.toList) : IsItem [.word w] :=
  ⟨by simp, .cons holdsSigns_ne_comma hw rfl (by simp) tidy_nil⟩

lemma isItem_along (hfields : ProperPaths fields) (hreferences : ProperPaths references) :
    IsItem (alongTokens fields references) := by
  have hkeyed : ∀ {key : String} {paths : List (String × String)}, IsWord key.toList →
      ProperPaths paths → Tidy (fun _ => True) ([.word key, .sign ':'] ++ pathList paths) :=
    fun hkey hpaths => .cons holdsSigns_true hkey rfl (by simp)
      (.cons holdsSigns_true (by decide) rfl
      (by simp) (tidy_pathList holdsSigns_true hpaths))
  have hreferences : Tidy (fun _ => True)
      ([.word "references", .sign ':'] ++ pathList references) :=
    hkeyed (by decide) hreferences
  refine ⟨by simp [alongTokens, bracketed], tidy_bracketed holdsSigns_ne_comma (by decide)
    (by decide) ((hkeyed (by decide) hfields).append
      ⟨List.forall_mem_cons.mpr ⟨by decide, hreferences.proper⟩, ?_⟩)⟩
  exact hreferences.closed.cons (by decide) rfl holdsSigns_true fun _ => trivial

lemma TargetDef.isItem_arguments (h : target.Proper) : ∀ ts ∈ target.arguments, IsItem ts := by
  cases target with
  | one binding | many binding => exact List.forall_mem_singleton.mpr (isItem_word h)
  | oneAlong binding fields references =>
      exact List.forall_mem_cons.mpr ⟨isItem_word h.1,
        List.forall_mem_singleton.mpr (isItem_along h.2.1 h.2.2)⟩

lemma TargetDef.tidy_arguments (h : target.Proper) :
    Tidy (fun _ => True) (commaSeparated target.arguments) :=
  tidy_commaSeparated fun ts hts => (isItem_arguments h ts hts).tidy

lemma TargetDef.isWord_function (target : TargetDef) : IsWord target.function.toList := by
  cases target <;> simp only [TargetDef.function] <;> decide

lemma TargetDef.tidy (hP : HoldsSigns P) (h : target.Proper) : Tidy P target.tokens := by
  rw [target.tokens_eq]
  exact .cons hP target.isWord_function rfl (by simp)
    (tidy_bracketed hP (by decide) (by decide) (tidy_arguments h))

lemma BlockDef.isItem_bodyTokens (h : block.Proper) : IsItem block.bodyTokens := by
  refine ⟨by simp [BlockDef.bodyTokens, bracketed], Tidy.append ?_
    (.cons holdsSigns_ne_comma trivial rfl (by simp) ?_)⟩
  · refine tidy_bracketed holdsSigns_ne_comma (by decide) (by decide)
      (tidy_bracketed holdsSigns_true
      (by decide) (by decide) (tidy_commaSeparated fun ts hts => ?_))
    obtain ⟨parameter, hparameter, rfl⟩ := List.mem_map.mp hts
    exact (isItem_word (h.parameters parameter hparameter)).tidy
  · refine tidy_bracketed holdsSigns_ne_comma (by decide) (by decide)
      (tidy_bracketed holdsSigns_true
      (by decide) (by decide) (tidy_commaSeparated fun ts hts => ?_))
    obtain ⟨entry, hentry, rfl⟩ := List.mem_map.mp hts
    exact .cons holdsSigns_ne_comma (h.keys entry hentry) rfl (by simp)
      (.cons holdsSigns_ne_comma (by decide) rfl (by simp)
        (TargetDef.tidy holdsSigns_ne_comma (h.targets entry hentry)))

/-- The arguments of a block. -/
def BlockDef.arguments (block : BlockDef) : List (List Token) :=
  [[.word block.binding], block.bodyTokens]

lemma BlockDef.isItem_arguments (h : block.Proper) : ∀ ts ∈ block.arguments, IsItem ts :=
  List.forall_mem_cons.mpr ⟨isItem_word h.binding,
    List.forall_mem_singleton.mpr (isItem_bodyTokens h)⟩

/-! ### Scans of blocks -/

section Scans

variable (hscan : scan.Sound Token.Proper) (hnext : scan.next ≠ .colon)

include hscan hnext

lemma passes_along (hfields : ProperPaths fields) (hreferences : ProperPaths references) :
    scan.Passes (alongTokens fields references) [] := by
  have hkeyed : ∀ {key : String} {paths : List (String × String)}, IsWord key.toList →
      ProperPaths paths → scan.Passes ([.word key, .sign ':'] ++ pathList paths) [] :=
    fun hkey hpaths => passes_keyed hscan hnext hkey (passes_pathList hscan (fun _ => id) hpaths)
  refine TokenScan.passes_bracketed hscan (by decide) (by decide) (by decide)
    ((hkeyed (by decide) hfields).append ?_ TokenScan.joins_comma)
  exact TokenScan.passes_cons hscan (by decide) (TokenScan.joins_behind hscan rfl)
    (hkeyed (by decide) hreferences)

lemma passes_targetArguments (h : target.Proper) :
    scan.Passes (commaSeparated target.arguments) [] := by
  have hword : ∀ {binding : String}, IsWord binding.toList → scan.Passes [.word binding] [] :=
    fun hbinding => TokenScan.passes_token hscan hbinding
  cases target with
  | one binding | many binding => exact hword h
  | oneAlong binding fields references =>
      exact (hword h.1).append (TokenScan.passes_cons hscan (by decide)
        (TokenScan.joins_behind hscan rfl) (passes_along hscan hnext h.2.1 h.2.2))
          TokenScan.joins_comma

/-- A relation that a scan does not look for. -/
lemma passes_target (h : target.Proper)
    (hcall : scan.leads (.word target.function) = true → scan.next ≠ .parenthesis) :
    scan.Passes target.tokens [] := by
  rw [target.tokens_eq]
  exact TokenScan.passes_call hscan target.isWord_function (by decide) (by decide) hcall
    (passes_targetArguments hscan hnext h)

/-- In the function of a block a scan comes upon what it comes upon in the relations. -/
lemma passes_body (results : TargetDef → List β) (h : block.Proper)
    (htargets : ∀ target : TargetDef, target.Proper → scan.Passes target.tokens (results target)) :
    scan.Passes block.bodyTokens (block.entries.flatMap fun entry => results entry.2) := by
  have hparameters : scan.Passes (bracketed '(' ')' (bracketed '\x7b' '\x7d' (commaSeparated
      (block.parameters.map fun parameter => [.word parameter])))) [] :=
    TokenScan.passes_bracketed hscan (by decide) (by decide) (by decide)
      (TokenScan.passes_bracketed hscan (by decide) (by decide) (by decide)
        (TokenScan.passes_commaSeparated_nil hscan (by decide) fun parameter hparameter =>
          TokenScan.passes_token hscan (by exact h.parameters parameter hparameter)))
  have hentries : scan.Passes (bracketed '(' ')' (bracketed '\x7b' '\x7d' (commaSeparated
      (block.entries.map fun entry => [.word entry.1, .sign ':'] ++ entry.2.tokens))))
        (block.entries.flatMap fun entry => results entry.2) :=
    TokenScan.passes_bracketed hscan (by decide) (by decide) (by decide)
      (TokenScan.passes_bracketed hscan (by decide) (by decide) (by decide)
        (TokenScan.passes_commaSeparated hscan (by decide) fun entry hentry =>
          passes_keyed hscan hnext (h.keys entry hentry)
            (htargets entry.2 (h.targets entry hentry))))
  exact hparameters.append (TokenScan.passes_cons hscan trivial (TokenScan.joins_behind hscan rfl)
    hentries) (joins_arrow _ _)

end Scans

/-! ### Relations, read -/

/-- The relation that a block declares. -/
def TargetDef.toTarget : TargetDef → Target
  | .one binding => .one binding.toList
  | .oneAlong binding fields references =>
      .oneAlong binding.toList ((fields.map Prod.snd).zip (references.map Prod.snd))
  | .many binding => .many binding.toList

/-- The block that is declared. -/
def BlockDef.toBlock (block : BlockDef) : RelationBlock :=
  ⟨block.binding.toList, block.entries.map fun entry => entry.2.toTarget⟩

lemma listedIn_eq (name : String) (arguments : List Char) : listedIn name arguments
    = (((listArgument name).find? arguments).map fun found =>
      columnNames (found.group 1)).getD [] := by
  rw [listedIn]
  cases (listArgument name).find? arguments <;> rfl

/-- Paths are no literals. -/
lemma ProperPaths.bare {paths : List (String × String)} (h : ProperPaths paths) :
    ∀ path ∈ paths, (Token.path path.1 path.2).Bare := fun path hpath => ⟨h path hpath, by simp⟩

section Named

variable (hfields : ProperPaths fields) (hreferences : ProperPaths references)

include hfields hreferences

lemma listedIn_fields (htext : Written (alongTokens fields references) text []) :
    listedIn "fields" text = fields.map Prod.snd := by
  have hname : IsWord "fields".toList := by decide
  have hscan := sound_listScan hname
  have hend : (listScan "fields").Passes (pathList references ++ [.sign '\x7d']) ([] ++ []) :=
    (passes_pathList hscan (fun _ => bare_sign) hreferences.bare).append
      (TokenScan.passes_token hscan (bare_sign (by decide))) (TokenScan.joins_closing (by decide))
  have hkeyed : (listScan "fields").Passes
      ([.word "references", .sign ':'] ++ (pathList references ++ [.sign '\x7d'])) [] :=
    TokenScan.passes_cons hscan ⟨by decide, by simp⟩ (TokenScan.joins_of_not_leadsOn (by decide))
      (TokenScan.passes_cons hscan (bare_sign (by decide)) (TokenScan.joins_behind hscan rfl) hend)
  have hlist := passes_listScan hname hfields
    (TokenScan.passes_cons hscan (bare_sign (c := ',') (by decide))
      (TokenScan.joins_behind hscan rfl) hkeyed)
  have hobject : (listScan "fields").Passes (alongTokens fields references)
      [fields.map Prod.snd] := by
    have hopen := TokenScan.passes_cons hscan (bare_sign (c := '\x7b') (by decide))
      (TokenScan.joins_behind hscan rfl) hlist
    simpa [alongTokens, bracketed] using hopen
  have hfind := find?_listArgument (g := []) hname hobject htext Text.isGap_nil
  rw [listedIn_eq, ← List.nil_append text, hfind]
  rfl

lemma listedIn_references (htext : Written (alongTokens fields references) text []) :
    listedIn "references" text = references.map Prod.snd := by
  have hname : IsWord "references".toList := by decide
  have hscan := sound_listScan hname
  have hlist := passes_listScan hname hreferences
    (TokenScan.passes_token hscan (bare_sign (c := '\x7d') (by decide)))
  have hbehind := (passes_pathList hscan (fun _ => bare_sign) hfields.bare).append
    (TokenScan.passes_cons hscan (bare_sign (c := ',') (by decide))
      (TokenScan.joins_behind hscan rfl)
      hlist) TokenScan.joins_comma
  have hkeyed : (listScan "references").Passes ([.word "fields", .sign ':'] ++ (pathList fields ++
      .sign ',' :: ([.word "references", .sign ':'] ++ pathList references ++ [.sign '\x7d'])))
        [references.map Prod.snd] :=
    TokenScan.passes_cons hscan ⟨by decide, by simp⟩ (TokenScan.joins_of_not_leadsOn (by decide))
      (TokenScan.passes_cons hscan (bare_sign (by decide))
        (TokenScan.joins_behind hscan rfl) hbehind)
  have hobject : (listScan "references").Passes (alongTokens fields references)
      [references.map Prod.snd] := by
    have hopen := TokenScan.passes_cons hscan (bare_sign (c := '\x7b') (by decide))
      (TokenScan.joins_behind hscan rfl) hkeyed
    simpa [alongTokens, bracketed] using hopen
  have hfind := find?_listArgument (g := []) hname hobject htext Text.isGap_nil
  rw [listedIn_eq, ← List.nil_append text, hfind]
  rfl

end Named

/-- The written arguments of a relation are read as the relation. -/
lemma ofArguments?_target {made : TargetDef} {texts : List (List Char)} (h : made.Proper)
    (htexts : List.Forall₂ WritesItem made.arguments texts) :
    Target.ofArguments? (made.function.toList == ['m', 'a', 'n', 'y']) texts
      = some made.toTarget := by
  cases made with
  | one binding | many binding =>
      obtain ⟨t, _, ht, hnil, rfl⟩ := List.forall₂_cons_left_iff.mp htexts
      obtain rfl := List.forall₂_nil_left_iff.mp hnil
      obtain rfl := ht.eq_text
      simp [Target.ofArguments?, TargetDef.function, TargetDef.toTarget, Token.text]
  | oneAlong binding fields references =>
      obtain ⟨t, _, ht, hrest, rfl⟩ := List.forall₂_cons_left_iff.mp htexts
      obtain ⟨options, _, hoptions, hnil, rfl⟩ := List.forall₂_cons_left_iff.mp hrest
      obtain rfl := List.forall₂_nil_left_iff.mp hnil
      obtain rfl := ht.eq_text
      have hfields := listedIn_fields h.2.1 h.2.2 hoptions.written
      have hreferences := listedIn_references h.2.1 h.2.2 hoptions.written
      simp [Target.ofArguments?, TargetDef.function, TargetDef.toTarget, Token.text,
        hfields, hreferences]

lemma reads_targetHead {made : TargetDef} (h : made.Proper) :
    targetScan.Reads (· = [(1, made.function.toList)])
      (commaSeparated made.arguments ++ [.sign ')']) [made.toTarget] := by
  rintro _ g text rest rfl hg htext
  obtain ⟨u, _, _, henclosed, -, hu, -⟩ :=
    enclosed?_of_written (by decide) (TargetDef.tidy_arguments h) htext hg
  have harguments := ofArguments?_target h
    (splitTopLevel_of_written (TargetDef.isItem_arguments h) hu hg)
  simp [targetScan, Target.ofMatch?, argumentsAfter?, matchOf, henclosed, Match.group, Match.group?,
    harguments]

/-- A relation is found. -/
lemma passes_targetScan {made : TargetDef} (h : made.Proper) :
    targetScan.Passes made.tokens [made.toTarget] := by
  have hcatch : targetScan.Catches [.word made.function, .sign '(']
      (· = [(1, made.function.toList)]) := by
    cases made with
    | one | oneAlong => exact catches_targetHead_one
    | many => exact catches_targetHead_many
  have hcall := hcatch.call sound_targetScan (reads_targetHead h) (by decide)
    (passes_targetArguments sound_targetScan (by decide) h)
  rw [made.tokens_eq]
  exact hcall

/-! ### Blocks, read -/

/-- The call of a block is read as the block. -/
lemma reads_blockHead (contents : Contents) (h : block.Proper) (us : List Token) :
    (blockScan contents).Reads (· = []) (commaSeparated block.arguments ++ .sign ')' :: us)
      (block.toBlock.relations contents) := by
  rintro _ g text rest rfl hg htext
  have hitems := BlockDef.isItem_arguments h
  obtain ⟨u, _, _, henclosed, -, hu, -⟩ := enclosed?_of_written (by decide)
    (tidy_commaSeparated fun ts hts => (hitems ts hts).tidy) htext hg
  obtain ⟨binding, _, hbinding, hrest, hsplit⟩ :=
    List.forall₂_cons_left_iff.mp (splitTopLevel_of_written hitems hu hg)
  obtain ⟨body, _, hbody, hnil, rfl⟩ := List.forall₂_cons_left_iff.mp hrest
  obtain rfl := List.forall₂_nil_left_iff.mp hnil
  obtain rfl := hbinding.eq_text
  have htargets : (targetHead.findAll body).filterMap Target.ofMatch?
      = block.entries.map fun entry => entry.2.toTarget := by
    have hpasses := passes_body sound_targetScan (by decide) (fun target => [target.toTarget]) h
      fun _ => passes_targetScan
    rw [List.filterMap_eq_flatMap_toList, List.map_eq_flatMap]
    exact hpasses.flatMap_findAll sound_targetScan (g := []) hbody.written Text.isGap_nil
  simp [blockScan, RelationBlock.ofMatch?, argumentsAfter?, matchOf, henclosed, hsplit, htargets,
    BlockDef.toBlock, Token.text]

/-! ### Declarations -/

lemma passes_end (hscan : scan.Sound Token.Proper) (declared : Declared) :
    scan.Passes declared.closing [] := by
  cases hended : declared.ended with
  | false => simpa [Declared.closing, hended] using passes_nil
  | true =>
      have hsign : scan.Passes [.sign ';'] [] := TokenScan.passes_token hscan (by decide)
      simpa [Declared.closing, hended] using hsign

/-- The declaration of a name does not lead on. -/
lemma leadsOn_opening (hscan : scan.Sound Token.Proper) (declared : Declared) (name : String) :
    scan.leadsOn (declared.opening name) = false := by
  have hsplit : declared.opening name = ((if declared.exported then [.word "export"] else []) ++
      [.word "const", .word name]) ++ [.sign '='] := by simp [Declared.opening]
  rw [hsplit]
  exact TokenScan.not_leadsOn hscan _ rfl

lemma passes_opening (hscan : scan.Sound Token.Proper) (hnext : scan.next = .parenthesis)
    (declared : Declared) {name : String} (hname : IsWord name.toList) :
    scan.Passes (declared.opening name) [] := by
  have hword : ∀ {w : String} {t : Token} {ts : List Token}, IsWord w.toList → t.Proper →
      scan.next.isFirst t = false → scan.Passes (t :: ts) [] →
      scan.Passes (.word w :: t :: ts) [] :=
    fun hw ht hfirst hts => TokenScan.passes_cons hscan hw (TokenScan.joins_before ht hfirst) hts
  have hconst : scan.Passes [.word "const", .word name, .sign '='] [] :=
    hword (by decide) hname (by rw [hnext]; rfl) (hword hname (by decide) (by rw [hnext]; rfl)
      (TokenScan.passes_token hscan (by decide)))
  cases hexported : declared.exported with
  | false => simpa [Declared.opening, hexported] using hconst
  | true =>
      have hexport := hword (w := "export") (t := .word "const") (by decide) (by decide)
        (by rw [hnext]; rfl) hconst
      simpa [Declared.opening, hexported] using hexport

/-! ### Blocks, passed -/

/-- The arguments of a block, for scans that find nothing in relations. -/
lemma passes_blockArguments (hscan : scan.Sound Token.Proper) (hnext : scan.next ≠ .colon)
    (h : block.Proper)
    (hcall : ∀ w ∈ ["one", "many"], scan.leads (.word w) = true → scan.next ≠ .parenthesis) :
    scan.Passes (commaSeparated block.arguments) [] := by
  have hbody : scan.Passes block.bodyTokens (block.entries.flatMap fun _ => []) :=
    passes_body hscan hnext (fun _ => []) h fun target htarget =>
      passes_target hscan hnext htarget (hcall _ (by cases target <;> simp [TargetDef.function]))
  rw [flatMap_nil] at hbody
  have hbinding : scan.Passes [.word block.binding] [] :=
    TokenScan.passes_token hscan (by exact h.binding)
  exact hbinding.append (TokenScan.passes_cons hscan (by decide) (TokenScan.joins_behind hscan rfl)
    hbody) TokenScan.joins_comma

/-- The arguments of a call in a declaration, and the rest of the declaration. -/
lemma passes_arguments_end (hscan : scan.Sound Token.Proper) (declared : Declared)
    {arguments : List Token} (h : scan.Passes arguments []) :
    scan.Passes (arguments ++ .sign ')' :: declared.closing) [] :=
  h.append (TokenScan.passes_cons hscan (by decide) (TokenScan.joins_behind hscan rfl)
    (passes_end hscan declared)) (TokenScan.joins_closing (by decide))

/-- A block of relations is found. -/
theorem passes_blockScan_block (contents : Contents) (h : block.Proper) :
    (blockScan contents).Passes block.tokens (block.toBlock.relations contents) := by
  have hscan := sound_blockScan contents
  have hwords : ∀ w ∈ ["one", "many"], Token.endsIn ["relations".toList] (.word w) = false := by
    decide
  have htail := passes_arguments_end hscan block.declared
    (passes_blockArguments hscan (by simp [blockScan]) h fun w hw hleads =>
      absurd hleads (Bool.eq_false_iff.mp (hwords w hw)))
  have hcall := (catches_blockHead contents).append hscan
    (reads_blockHead contents h block.declared.closing) htail
  have hblock := (passes_opening hscan rfl block.declared h.name).append hcall
    (TokenScan.joins_of_not_leadsOn (leadsOn_opening hscan _ _))
  simpa [BlockDef.tokens, BlockDef.arguments, bracketed] using hblock

/-- No table begins in a block of relations. -/
theorem passes_tableScan_block (h : block.Proper) : tableScan.Passes block.tokens [] := by
  have htail := passes_arguments_end sound_tableScan block.declared
    (passes_blockArguments sound_tableScan (by decide) h fun _ _ _ => by decide)
  have hopen : tableScan.Passes (.sign '(' :: _) [] :=
    TokenScan.passes_cons sound_tableScan (by decide)
      (TokenScan.joins_behind sound_tableScan rfl) htail
  have hblock := (passes_blockStart block.declared h.name).append hopen
    (TokenScan.joins_before (by decide) rfl)
  simpa [BlockDef.tokens, BlockDef.arguments, bracketed] using hblock

end SchemaReader.TableModule
