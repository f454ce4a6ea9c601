/-
Callbacks of table modules, read.

* `CallbackDef.isItem`: the tokens of a callback close their brackets;
* `passes_callback`: what a scan comes upon in a callback is what it comes upon in its items;
* `passes_indexScan`, `passes_keyScan`: what the items of a callback declare;
* `ofText_callback`: a written callback is read as the indexes and keys that it lists.
-/
import SchemaReader.Proofs.TableModule.ColumnLists
import SchemaReader.Proofs.TableModule.ReadColumn

namespace SchemaReader.TableModule

open Pattern
open Text (IsWord IsGap Stops isWordChar isBlank)

variable {β : Type} {scan : TokenScan β} {P : Char → Prop} {index : IndexDef} {item : CallbackItem}
  {callback : CallbackDef} {columns : List IndexColumn} {us : List Token} {rs : List β}
  {parameter : String} {before text rest g : List Char}

/-! ### Tidy callbacks -/

lemma tidy_columns (hparameter : IsWord parameter.toList) (h : ∀ column ∈ columns, column.Proper) :
    Tidy (fun _ => True) (commaSeparated (columns.map (IndexColumn.tokens parameter))) :=
  tidy_commaSeparated fun ts hts =>
    (isItem_columns (fun _ => parameter) id (fun _ _ => hparameter) h ts hts).tidy

lemma tidy_name (h : ∀ name ∈ index.name, IsContent name.1 name.2.toList) :
    Tidy (fun _ => True) (nameTokens index.name) := by
  cases hname : index.name with
  | none => exact tidy_nil
  | some name => exact .cons holdsSigns_true (h name hname) rfl (by simp) tidy_nil

lemma IndexDef.tidy (hP : HoldsSigns P) (hparameter : IsWord parameter.toList) (h : index.Proper) :
    Tidy P (index.tokens parameter) := by
  refine Tidy.append (.cons hP index.function.isWord_name rfl (by simp) ?_)
    (.cons hP (t := .member "on") (by decide) rfl (by simp) ?_)
  · exact tidy_bracketed hP (by decide) (by decide) (tidy_name fun name hname =>
      (h.name name hname).1)
  · exact tidy_bracketed hP (by decide) (by decide) (tidy_columns hparameter h.columns)

/-- What stands in the parentheses of a composite key. -/
def keyTokens (parameter : String) (columns : List String) : List Token :=
  bracketed '\x7b' '\x7d' ([.word "columns", .sign ':'] ++
    pathList (columns.map fun column => (parameter, column)))

lemma properPaths_key {columns : List String} (hparameter : IsWord parameter.toList)
    (h : ∀ column ∈ columns, IsWord column.toList) :
    ProperPaths (columns.map fun column => (parameter, column)) := by
  intro path hpath
  obtain ⟨column, hcolumn, rfl⟩ := List.mem_map.mp hpath
  exact ⟨hparameter, h column hcolumn⟩

lemma tidy_key {columns : List String} (hP : HoldsSigns P) (hparameter : IsWord parameter.toList)
    (h : ∀ column ∈ columns, IsWord column.toList) : Tidy P (keyTokens parameter columns) := by
  refine tidy_bracketed hP (by decide) (by decide) (.cons holdsSigns_true (t := .word "columns")
    (by decide) rfl (by simp) (.cons holdsSigns_true (by decide) rfl (by simp) ?_))
  exact tidy_pathList holdsSigns_true (properPaths_key hparameter h)

lemma CallbackItem.tidy (hP : HoldsSigns P) (hparameter : IsWord parameter.toList)
    (h : item.Proper) :
    Tidy P (item.tokens parameter) := by
  cases item with
  | index made => exact IndexDef.tidy hP hparameter h
  | primaryKey columns =>
      exact .cons hP (t := .word "primaryKey") (by decide) rfl (by simp)
        (tidy_bracketed hP (by decide) (by decide) (tidy_key holdsSigns_true hparameter h))

lemma CallbackDef.isItem (h : callback.Proper) : IsItem (callback.tokens) := by
  refine ⟨by simp [CallbackDef.tokens, bracketed], ?_⟩
  refine Tidy.append (tidy_bracketed holdsSigns_ne_comma (by decide) (by decide)
    (.cons holdsSigns_true h.parameter rfl (by simp) tidy_nil))
    (.cons holdsSigns_ne_comma trivial rfl (by simp) ?_)
  have hitems := h.items
  cases hbody : callback.body with
  | list items =>
      rw [hbody] at hitems
      refine tidy_bracketed holdsSigns_ne_comma (by decide) (by decide)
        (tidy_commaSeparated fun ts hts => ?_)
      obtain ⟨item, hitem, rfl⟩ := List.mem_map.mp hts
      exact CallbackItem.tidy holdsSigns_ne_comma h.parameter (hitems item hitem)
  | object entries =>
      rw [hbody] at hitems
      refine tidy_bracketed holdsSigns_ne_comma (by decide) (by decide)
        (tidy_bracketed holdsSigns_true (by decide) (by decide)
          (tidy_commaSeparated fun ts hts => ?_))
      obtain ⟨entry, hentry, rfl⟩ := List.mem_map.mp hts
      refine .cons holdsSigns_ne_comma (h.keys entries hbody entry hentry) rfl (by simp)
        (.cons holdsSigns_ne_comma (by decide) rfl (by simp) ?_)
      exact CallbackItem.tidy holdsSigns_ne_comma h.parameter
        (hitems entry.2 (List.mem_map_of_mem hentry))

/-! ### Scans of callbacks -/

section Scans

variable (hscan : scan.Sound Token.Proper)

include hscan

/-- In a column of an index a scan comes upon what it comes upon in the modifiers. -/
lemma passes_column_of_modifiers {column : IndexColumn} {results : String → List β}
    (hparameter : IsWord parameter.toList) (h : column.Proper)
    (hmodifier : ∀ m : String, IsWord m.toList → scan.Passes (modifierTokens m) (results m)) :
    scan.Passes (column.tokens parameter) (column.modifiers.flatMap results) := by
  refine TokenScan.passes_cons hscan ⟨hparameter, h.name⟩ ?_ (TokenScan.passes_flatMap
    (fun _ _ => TokenScan.not_leadsOn_bracketed hscan [_])
    fun m hm => hmodifier m (h.modifiers m hm))
  cases hmodifiers : column.modifiers with
  | nil => rintro - t ht; simp at ht
  | cons m modifiers =>
      exact TokenScan.joins_before (h.modifiers m (hmodifiers ▸ List.mem_cons_self))
        (by cases scan.next <;> rfl)

/-- In an index that it does not look for, a scan comes upon what it comes upon in the modifiers. -/
lemma passes_index (results : String → List β) (hparameter : IsWord parameter.toList)
    (h : index.Proper)
    (hfunction : scan.leads (.word index.function.name) = true → scan.next ≠ .parenthesis)
    (hon : scan.leads (.member "on") = true → scan.next ≠ .parenthesis)
    (hmodifier : ∀ m : String, IsWord m.toList → scan.Passes (modifierTokens m) (results m)) :
    scan.Passes (index.tokens parameter)
      (index.columns.flatMap fun column => column.modifiers.flatMap results) := by
  have hname : scan.Passes (nameTokens index.name) [] := by
    cases hname : index.name with
    | none => exact passes_nil
    | some name => exact TokenScan.passes_token hscan (h.name name hname).1
  have hcolumns : scan.Passes (commaSeparated (index.columns.map (IndexColumn.tokens parameter)))
      (index.columns.flatMap fun column => column.modifiers.flatMap results) :=
    TokenScan.passes_commaSeparated hscan (by decide) fun column hcolumn =>
      passes_column_of_modifiers hscan hparameter (h.columns column hcolumn) hmodifier
  have hcall : scan.Passes (.word index.function.name :: bracketed '(' ')' (nameTokens index.name))
      [] :=
    TokenScan.passes_call hscan (by exact index.function.isWord_name) (by decide) (by decide)
      hfunction hname
  refine hcall.append ?_ (TokenScan.joins_of_not_leadsOn
    (TokenScan.not_leadsOn_bracketed hscan [_]))
  exact TokenScan.passes_call hscan (t := .member "on") (by decide) (by decide)
    (by decide) hon hcolumns

variable (hnext : scan.next ≠ .colon)

include hnext

lemma passes_key {columns : List String} (hparameter : IsWord parameter.toList)
    (h : ∀ column ∈ columns, IsWord column.toList) : scan.Passes (keyTokens parameter columns) [] :=
  TokenScan.passes_bracketed hscan (by decide) (by decide) (by decide)
    (passes_keyed hscan hnext (by decide)
      (passes_pathList hscan (fun _ => id) (properPaths_key hparameter h)))

/-- In a callback a scan comes upon what it comes upon in the items. -/
lemma passes_callback (results : CallbackItem → List β) (h : callback.Proper)
    (hitems : ∀ item ∈ callback.body.items, item.Proper →
      scan.Passes (item.tokens callback.parameter) (results item)) :
    scan.Passes callback.tokens (callback.body.items.flatMap results) := by
  have hbody : scan.Passes (callback.body.tokens callback.parameter)
      (callback.body.items.flatMap results) := by
    have hproper := h.items
    cases hbody : callback.body with
    | list items =>
        rw [hbody] at hitems hproper
        exact TokenScan.passes_bracketed hscan (by decide) (by decide) (by decide)
          (TokenScan.passes_commaSeparated hscan (by decide) fun item hitem =>
            hitems item hitem (hproper item hitem))
    | object entries =>
        rw [hbody] at hitems hproper
        rw [CallbackBody.items, List.flatMap_map]
        refine TokenScan.passes_bracketed hscan (by decide) (by decide) (by decide)
          (TokenScan.passes_bracketed hscan (by decide) (by decide) (by decide)
            (TokenScan.passes_commaSeparated hscan (by decide) fun entry hentry => ?_))
        have hmem := List.mem_map_of_mem (f := Prod.snd) hentry
        exact passes_keyed hscan hnext (h.keys entries hbody entry hentry)
          (hitems entry.2 hmem (hproper entry.2 hmem))
  have hparameter : scan.Passes (bracketed '(' ')' [.word callback.parameter]) [] :=
    TokenScan.passes_bracketed hscan (by decide) (by decide) (by decide)
      (TokenScan.passes_token hscan h.parameter)
  exact hparameter.append
    (TokenScan.passes_cons hscan trivial (TokenScan.joins_behind hscan rfl) hbody)
    (joins_arrow _ _)

end Scans

/-! ### Modifiers that look like indexes -/

/-- An index behind its function. -/
def indexTail : Pattern :=
  blanks ++ (char '(' ++
    (blanks ++ (opt (.one isQuote ++ .group 2 (.many notQuote) ++ .one isQuote) ++
    (blanks ++ (char ')' ++ (blanks ++ (lit ".on" ++ (blanks ++ char '('))))))))

/-- Behind a function that makes an index, and empty parentheses, nothing but the method `on` makes
an index of it. -/
lemma fails_indexTail {g₁ g₂ g₃ : List Char} (hg₁ : IsGap g₁) (hg₂ : IsGap g₂) (hg₃ : IsGap g₃)
    (hblank : Stops isBlank rest)
    (hon : ∀ before, (lit ".on" ++ (blanks ++ char '(')).Fails before rest) :
    indexTail.Fails before (g₁ ++ '(' :: (g₂ ++ ')' :: (g₃ ++ rest))) := by
  have hclose : ∀ before g, IsGap g → (blanks ++ (char ')' ++ (blanks ++ (lit ".on" ++ (blanks ++
      char '('))))).Fails before (g ++ ')' :: (g₃ ++ rest)) := by
    intro before g hg
    refine fails_blanks_append (by decide) hg (by simp; decide) ?_
    rw [char, fails_one_append_cons]
    exact fun _ => fails_blanks_append (by decide) hg₃ hblank (hon _)
  have hunnamed : ∀ before g, IsGap g → (opt (.one isQuote ++ .group 2 (.many notQuote) ++
      .one isQuote) ++ (blanks ++ (char ')' ++ (blanks ++ (lit ".on" ++ (blanks ++
        char '(')))))).Fails before (g ++ ')' :: (g₃ ++ rest)) := by
    intro before g hg
    simp only [fails_opt_append, fails_assoc]
    refine ⟨fails_one_append ?_, hclose before g hg⟩
    exact hg.stops (fun _ => Text.not_isQuote_of_isBlank) (by simp; decide)
  refine fails_blanks_append (by decide) hg₁ (by simp; decide) ?_
  rw [char, fails_one_append_cons]
  intro _
  -- the white space before the name can be left to the white space behind it
  rw [fails_append]
  intro u v huv hu
  obtain ⟨t, rfl, ht⟩ | ⟨t, rfl, rfl⟩ := List.append_eq_append_iff.mp huv
  · cases t with
    | nil =>
        obtain rfl : ')' :: (g₃ ++ rest) = v := ht
        exact hunnamed _ [] Text.isGap_nil
    | cons c t =>
        obtain ⟨rfl, -⟩ := List.cons.inj ht
        exact absurd (hu ')' (by simp)) (by decide)
  · exact hunnamed _ t fun c hc => hg₂ c (by simp [hc])

lemma fails_indexHead_of_tail {w : List Char} (hw : IsWord w) (hrest : Stops isWordChar rest)
    (h : ∀ before, indexTail.Fails before rest) : indexHead.Fails before (w ++ rest) := by
  have havoids : indexTail.Avoids isWordChar := by
    refine avoids_of_mayBegin rfl fun c hc => ?_
    have hne : c ≠ '(' := Text.ne_of_isWordChar hc (by decide)
    simp [indexTail, blanks, char, mayBegin, nullable, Text.not_isBlank_of_isWordChar hc, hne]
  have hlit : ∀ s : String, (∀ c ∈ s.toList, isWordChar c = true) →
      (lit s ++ indexTail).Fails before (w ++ rest) := fun s hs =>
    fails_lit_append hs havoids hw.chars hrest fun _ => h _
  simp only [indexHead, fails_assoc, fails_wordEdge_append, fails_group_append, fails_alt_append]
  exact fun _ => ⟨⟨hlit _ (by decide), hlit _ (by decide)⟩, hlit _ (by decide)⟩

/-- What the method `on` begins with. -/
lemma fails_on_of_method {m : String} (hm : IsWord m.toList) (hne : m ≠ "on")
    (hrest : Stops isWordChar rest) :
    (lit ".on" ++ (blanks ++ char '(')).Fails before ('.' :: (m.toList ++ rest)) := by
  have hon : (lit "on" ++ (blanks ++ char '(')).Fails ('.' :: before) (m.toList ++ rest) :=
    fails_lit_append (by decide) (blanks_char_avoids (by decide)) hm.chars hrest fun heq =>
      absurd (String.toList_inj.mp heq) hne
  have hsplit : lit ".on" = char '.' ++ lit "on" := rfl
  rw [hsplit, fails_assoc, char, fails_one_append_cons]
  exact fun _ => hon

/-- A sign, or a method other than `on`. -/
def Token.EndsIndex (t : Token) : Prop :=
  (∃ c ∈ moduleSigns, t = .sign c) ∨ ∃ m : String, IsWord m.toList ∧ m ≠ "on" ∧ t = .member m

lemma Token.EndsIndex.proper {t : Token} (ht : t.EndsIndex) : t.Proper := by
  rcases ht with ⟨c, hc, rfl⟩ | ⟨m, hm, -, rfl⟩
  · exact hc
  · exact hm

lemma fails_on_of_endsIndex {t : Token} (ht : t.EndsIndex) (hparted : Parted t.text rest) :
    (lit ".on" ++ (blanks ++ char '(')).Fails before (t.text ++ rest) := by
  rcases ht with ⟨c, hc, rfl⟩ | ⟨m, hm, hne, rfl⟩
  · refine (fails_of_not_mayBegin (by decide) ?_).append _
    have hperiod : c ≠ '.' := (sign_facts hc).2.2.2.2
    simp [Pattern.lit, Pattern.text, char, mayBegin, nullable, hperiod]
  · exact fails_on_of_method hm hne (hparted.stops_behind (s := ['.']) hm)

/-- A modifier with the name of a function that makes an index, and no method `on` behind it. -/
lemma passes_modifier_indexScan {m : String} {t : Token} {calls : List IndexCall}
    (hm : IsWord m.toList) (ht : t.EndsIndex)
    (hus : indexScan.Passes (.sign ')' :: t :: us) calls) :
    indexScan.Passes (modifierTokens m ++ t :: us) calls := by
  have hleads : ∀ l ∈ ["uniqueIndex", "index", "unique"].map String.toList, IsLead l := by
    intro l hl
    obtain ⟨f, hf, rfl⟩ := List.mem_map.mp hl
    have hall : ∀ f ∈ ["uniqueIndex", "index", "unique"], IsWord f.toList := by decide
    exact Or.inl (hall f hf)
  have hpasses : indexScan.Passes ([.member m, .sign '('] ++ .sign ')' :: t :: us) calls := by
    refine passes_of_silent _ (fun before u v rest hu hv => ?_) (by simp) hus
    obtain ⟨g₁, _, rfl, hg₁, hparted, hopen⟩ := written_cons.mp hu
    obtain ⟨g₂, _, rfl, hg₂, -, rfl⟩ := written_cons.mp hopen
    obtain ⟨g₃, x, rfl, hg₃, -, hx⟩ := written_cons.mp hv
    obtain ⟨g₄, y, rfl, hg₄, hparted', -⟩ := written_cons.mp hx
    have hstop := hparted.stops_behind (s := ['.']) hm
    have htail : ∀ before, indexTail.Fails before (g₁ ++ '(' :: (g₂ ++ ')' :: (g₃ ++
        (t.text ++ (g₄ ++ (y ++ rest)))))) := fun before =>
      fails_indexTail hg₁ hg₂ hg₃ (ht.proper.stops_isBlank _) fun _ =>
        fails_on_of_endsIndex ht hparted'
    have hword : ∀ before, Silent indexHead before m.toList (g₁ ++ '(' :: (g₂ ++ ')' :: (g₃ ++
        (t.text ++ (g₄ ++ (y ++ rest)))))) := fun before => by
      have hfails : indexHead.Fails before (m.toList ++ _) :=
        fails_indexHead_of_tail hm (by simpa [Token.text] using hstop) htail
      obtain ⟨c, w, hcw⟩ := List.exists_cons_of_ne_nil hm.ne_nil
      have hchars := List.forall_mem_cons.mp (hcw ▸ hm.chars)
      rw [hcw] at hfails ⊢
      exact ⟨hfails, ledTo_indexHead.silent_inside hleads hchars.1 hchars.2⟩
    have hrest : ∀ before, Silent indexHead before (g₁ ++ '(' :: g₂)
        (')' :: (g₃ ++ (t.text ++ (g₄ ++
        (y ++ rest))))) := fun before => by
      refine ledTo_indexHead.silent_outside hleads ?_
      simp only [List.forall_mem_append, List.forall_mem_cons]
      exact ⟨outside_of_isGap hg₁, by decide, outside_of_isGap hg₂⟩
    have hperiod : ∀ before v, indexHead.Fails before ('.' :: v) := fun _ _ =>
      fails_of_not_mayBegin (by decide) (by decide)
    have htext : (Token.member m).text ++ (g₁ ++ ((Token.sign '(').text ++ (g₂ ++ [])))
        = ['.'] ++ (m.toList ++ (g₁ ++ '(' :: g₂)) := by simp [Token.text]
    rw [htext]
    refine silent_append.mpr ⟨⟨hperiod _ _, trivial⟩, silent_append.mpr ⟨?_, ?_⟩⟩
    · simpa [indexScan, Token.text] using hword _
    · simpa [indexScan, Token.text] using hrest _
  simpa [modifierTokens, bracketed] using hpasses

/-! ### Indexes -/

/-- The index that a callback declares; one without columns is none. -/
def IndexDef.call? (index : IndexDef) : Option IndexCall :=
  if index.columns.isEmpty then none
  else some {
    name := (index.name.map Prod.snd).filter fun name => !name.isEmpty
    columns := index.columns.map IndexColumn.name
    unique := index.function != .index }

/-- An index up to the parenthesis of its columns is read as what the columns make of it. -/
lemma reads_indexHead (index : IndexDef) (parameter : String) (hparameter : IsWord parameter.toList)
    (h : index.Proper) (us : List Token) :
    indexScan.Reads (· = nameCaptures index.name ++ [(1, index.function.name.toList)])
      (commaSeparated (index.columns.map (IndexColumn.tokens parameter)) ++ .sign ')' :: us)
      index.call?.toList := by
  rintro _ g text rest rfl hg htext
  obtain ⟨u, _, _, henclosed, -, hu, -⟩ :=
    enclosed?_of_written (by decide) (tidy_columns hparameter h.columns) htext hg
  have hcolumns : columnNames (g ++ u) = index.columns.map IndexColumn.name :=
    columnNames_round (fun _ => parameter) id (fun _ _ => hparameter) h.columns hu hg
  have hname : ((List.lookup 2 (nameCaptures index.name ++
      [(1, index.function.name.toList)])).filter
      fun name => !name.isEmpty).map String.ofList
        = (index.name.map Prod.snd).filter fun name => !name.isEmpty := by
    cases index.name with
    | none => rfl
    | some name =>
        by_cases hempty : name.2 = "" <;>
          simp [nameCaptures, Option.filter_some, hempty]
  have hunique : ((List.lookup 1 (nameCaptures index.name ++
      [(1, index.function.name.toList)])).getD []
      != ['i', 'n', 'd', 'e', 'x']) = (index.function != .index) := by
    cases index.name <;> cases index.function <;> rfl
  simp [indexScan, IndexCall.ofMatch?, argumentsAfter?, matchOf, henclosed, hcolumns, Match.group?,
    Match.group, hname, hunique, IndexDef.call?]

/-- A modifier that a scan of indexes can go on behind has the name of a function that makes one. -/
lemma exists_of_leads_indexScan {m : String}
    (h : indexScan.leads (.member m) = true) : ∃ f : IndexFunction, m = f.name := by
  simp only [indexScan, Token.endsIn, Bool.or_eq_true, List.contains_iff_mem, List.map_cons,
    List.map_nil, List.mem_cons, List.not_mem_nil, or_false] at h
  rcases h with (h | h | h) | h | h | h
  · exact ⟨.uniqueIndex, String.toList_inj.mp h⟩
  · exact ⟨.index, String.toList_inj.mp h⟩
  · exact ⟨.unique, String.toList_inj.mp h⟩
  all_goals simp at h

/-- A modifier that a scan of indexes cannot go on behind. -/
lemma passes_modifier_of_not_leads {m : String} {calls : List IndexCall} (hm : IsWord m.toList)
    (hleads : indexScan.leads (.member m) ≠ true) (hus : indexScan.Passes us calls) :
    indexScan.Passes (modifierTokens m ++ us) calls := by
  have hmodifier : indexScan.Passes (modifierTokens m) [] :=
    TokenScan.passes_call sound_indexScan hm (by decide) (by decide) (fun h => absurd h hleads)
      passes_nil
  exact hmodifier.append hus (TokenScan.joins_of_not_leadsOn
    (TokenScan.not_leadsOn_bracketed sound_indexScan [_]))

lemma passes_closing_indexScan {calls : List IndexCall} (hus : indexScan.Passes us calls) :
    indexScan.Passes (.sign ')' :: us) calls :=
  TokenScan.passes_cons sound_indexScan (by decide) (TokenScan.joins_behind sound_indexScan rfl) hus

/-- A modifier with the method `on` behind it declares an index, but one without columns is none. -/
lemma passes_modifier_on {m : String} {calls : List IndexCall}
    (hleads : indexScan.leads (.member m) = true) (hus : indexScan.Passes us calls) :
    indexScan.Passes (modifierTokens m ++ (modifierTokens "on" ++ us)) calls := by
  obtain ⟨f, rfl⟩ := exists_of_leads_indexScan hleads
  have hread := reads_indexHead ⟨f, none, []⟩ "t" (by decide) ⟨by simp, by simp⟩ us
  have hcatch := (catches_indexHead_member f none (by simp)).append sound_indexScan
    hread (passes_closing_indexScan hus)
  simpa [indexOpening, modifierTokens, nameTokens, bracketed, IndexDef.call?, commaSeparated]
    using hcatch

-- The method `on` belongs to the modifier before it, so that the modifiers are taken two at a time.
lemma passes_modifiers_indexScan {modifiers : List String} {c : Char} {calls : List IndexCall}
    (hmodifiers : ∀ m ∈ modifiers, IsWord m.toList) (hc : c ∈ moduleSigns)
    (hus : indexScan.Passes (.sign c :: us) calls) :
    indexScan.Passes (modifiers.flatMap modifierTokens ++ .sign c :: us) calls := by
  induction modifiers using List.twoStepInduction with
  | nil => exact hus
  | singleton m =>
      rw [List.forall_mem_singleton] at hmodifiers
      rw [List.flatMap_singleton]
      by_cases hleads : indexScan.leads (.member m) = true
      · exact passes_modifier_indexScan hmodifiers (Or.inl ⟨c, hc, rfl⟩)
          (passes_closing_indexScan hus)
      · exact passes_modifier_of_not_leads hmodifiers hleads hus
  | cons_cons m n modifiers ih ih' =>
      rw [List.forall_mem_cons, List.forall_mem_cons] at hmodifiers
      obtain ⟨hm, hn, hmore⟩ := hmodifiers
      have ih' := ih' n (List.forall_mem_cons.mpr ⟨hn, hmore⟩)
      rw [List.flatMap_cons, List.append_assoc]
      by_cases hleads : indexScan.leads (.member m) = true
      · by_cases hon : n = "on"
        · subst hon
          rw [List.flatMap_cons, List.append_assoc]
          exact passes_modifier_on hleads (ih hmore)
        · have hsplit : (n :: modifiers).flatMap modifierTokens ++ .sign c :: us = .member n ::
              (bracketed '(' ')' [] ++ (modifiers.flatMap modifierTokens ++ .sign c :: us)) := by
            simp [modifierTokens]
          rw [hsplit] at ih' ⊢
          exact passes_modifier_indexScan hm (Or.inr ⟨n, hn, hon, rfl⟩)
            (passes_closing_indexScan ih')
      · exact passes_modifier_of_not_leads hm hleads ih'

lemma passes_columns_indexScan {calls : List IndexCall} (hparameter : IsWord parameter.toList)
    (h : ∀ column ∈ columns, column.Proper) (hus : indexScan.Passes (.sign ')' :: us) calls) :
    indexScan.Passes (commaSeparated (columns.map (IndexColumn.tokens parameter)) ++
      .sign ')' :: us)
      calls := by
  have hcolumn : ∀ {column : IndexColumn} {c : Char} {ts : List Token}, column.Proper →
      c ∈ [',', ')'] → indexScan.Passes (.sign c :: ts) calls →
        indexScan.Passes (column.tokens parameter ++ .sign c :: ts) calls := by
    intro column c ts hcolumn hc hts
    have hsigns : ∀ c ∈ [',', ')'], c ∈ moduleSigns ∧ c ≠ '(' := by decide
    refine TokenScan.passes_cons sound_indexScan ⟨hparameter, hcolumn.name⟩ ?_
      (passes_modifiers_indexScan hcolumn.modifiers (hsigns c hc).1 hts)
    cases hmodifiers : column.modifiers with
    | nil =>
        exact TokenScan.joins_before (hsigns c hc).1
          (by simpa [indexScan, Next.isFirst] using (hsigns c hc).2)
    | cons m modifiers =>
        have hm : IsWord m.toList := hcolumn.modifiers m (hmodifiers ▸ List.mem_cons_self)
        exact TokenScan.joins_before (t := .member m) hm rfl
  induction columns with
  | nil => exact hus
  | cons column columns ih =>
      rw [List.forall_mem_cons] at h
      cases columns with
      | nil => exact hcolumn h.1 (by decide) hus
      | cons next columns =>
          have htail := TokenScan.passes_cons sound_indexScan (t := .sign ',') (by decide)
            (TokenScan.joins_behind sound_indexScan rfl) (ih h.2)
          simpa [commaSeparated] using hcolumn h.1 (by decide) htail

/-- An index of a callback is found. -/
lemma passes_indexScan (hparameter : IsWord parameter.toList) (h : index.Proper) :
    indexScan.Passes (index.tokens parameter) index.call?.toList := by
  have hname : ∀ n ∈ index.name, isQuote n.1 = true ∧ ∀ c ∈ n.2.toList, isQuote c = false :=
    fun n hn => ⟨(h.name n hn).1.isQuote, (h.name n hn).2⟩
  have hcatch := (catches_indexHead index.function index.name hname).append sound_indexScan
    (reads_indexHead index parameter hparameter h []) (passes_columns_indexScan hparameter h.columns
      (TokenScan.passes_token sound_indexScan (by decide)))
  simpa [indexOpening, IndexDef.tokens, nameTokens, bracketed] using hcatch

/-! ### Composite keys -/

lemma keyColumns_eq (arguments : List Char) : keyColumns arguments
    = (((listArgument "columns").find? arguments).map fun found => columnNames (found.group 1)).getD
        (columnNames arguments) := by
  rw [keyColumns]
  cases (listArgument "columns").find? arguments <;> rfl

/-- What stands in the parentheses of a composite key is read as its columns. -/
lemma keyColumns_tokens {columns : List String} (hparameter : IsWord parameter.toList)
    (h : ∀ column ∈ columns, IsWord column.toList)
    (htext : Written (keyTokens parameter columns) text [])
    (hg : IsGap g) : keyColumns (g ++ text) = columns := by
  have hpaths := properPaths_key hparameter h
  have hname : IsWord "columns".toList := by decide
  have hend : (listScan "columns").Passes [.sign '\x7d'] [] :=
    TokenScan.passes_token (sound_listScan hname) (bare_sign (by decide))
  have hlist : (listScan "columns").Passes (keyTokens parameter columns) [_] :=
    TokenScan.passes_cons (sound_listScan hname) (bare_sign (by decide))
      (TokenScan.joins_behind (sound_listScan hname) rfl) (passes_listScan hname hpaths hend)
  rw [keyColumns_eq, find?_listArgument hname hlist htext hg]
  simp [Function.comp_def]

/-- White space alone is read as no columns. -/
lemma keyColumns_gap (hg : IsGap g) : keyColumns g = [] := by
  have hempty : Written [] [] [] := rfl
  have hfind := find?_listArgument (by decide : IsWord "columns".toList) passes_nil hempty hg
  rw [List.append_nil] at hfind
  rw [keyColumns_eq, hfind, columnNames, Text.trim_gap hg]
  rfl

/-- A modifier that may have the word that a scan looks for. -/
lemma passes_modifier_of_catches {m : String} (word : String) (results : List β)
    (hscan : scan.Sound Token.Proper) (hleads : scan.leads (.member m) = true → m = word)
    (hcatch : scan.Catches [.member word, .sign '('] (· = []))
    (hread : scan.Reads (· = []) [.sign ')'] results) (hm : IsWord m.toList) :
    scan.Passes (modifierTokens m) (if m = word then results else []) := by
  split
  case isTrue hword =>
    subst hword
    have hcall : scan.Passes (modifierTokens m) (results ++ []) :=
      hcatch.call hscan hread (by decide) passes_nil
    simpa using hcall
  case isFalse hword =>
    exact TokenScan.passes_call hscan hm (by decide) (by decide)
      (fun h => absurd (hleads h) hword) passes_nil

lemma eq_of_endsIn_member {word m : String} (hword : IsWord word.toList)
    (h : Token.endsIn [word.toList] (.member m) = true) : m = word := by
  simp only [Token.endsIn, Bool.or_eq_true, List.contains_iff_mem, List.mem_singleton] at h
  rcases h with h | h
  · exact String.toList_inj.mp h
  · exact absurd (hword.chars '.' (h ▸ List.mem_cons_self)) (by decide)

/-- What stands in empty parentheses. -/
lemma enclosed?_empty (hg : IsGap g) (htext : Written [.sign ')'] text rest) :
    ∃ more, enclosed? .code (g ++ (text ++ rest)) = some (g, more) := by
  have hclosing : isClosing ')' = true := by decide
  obtain ⟨u, g', v, henclosed, -, rfl, -⟩ :=
    enclosed?_of_written (P := fun _ => True) hclosing tidy_nil (by exact htext) hg
  exact ⟨_, by simpa using henclosed⟩

lemma passes_modifier_keyScan {m : String} (hm : IsWord m.toList) :
    keyScan.Passes (modifierTokens m) (if m = "primaryKey" then [[]] else []) := by
  refine passes_modifier_of_catches "primaryKey" [[]] sound_keyScan
    (eq_of_endsIn_member (by decide))
    catches_keyHead_member ?_ hm
  rintro _ g text rest rfl hg htext
  obtain ⟨more, henclosed⟩ := enclosed?_empty hg htext
  simp [keyScan, argumentsAfter?, matchOf, henclosed, keyColumns_gap hg]

lemma passes_keyScan {columns : List String} (hparameter : IsWord parameter.toList)
    (h : ∀ column ∈ columns, IsWord column.toList) :
    keyScan.Passes (.word "primaryKey" :: bracketed '(' ')' (keyTokens parameter columns))
    [columns] := by
  have hread : keyScan.Reads (· = []) (keyTokens parameter columns ++ [.sign ')']) [columns] := by
    rintro _ g text rest rfl hg htext
    obtain ⟨u, _, _, henclosed, -, hu, -⟩ :=
      enclosed?_of_written (by decide) (tidy_key holdsSigns_true hparameter h) htext hg
    simp [keyScan, argumentsAfter?, matchOf, henclosed, keyColumns_tokens hparameter h hu hg]
  exact catches_keyHead.call sound_keyScan hread (by decide)
    (passes_key sound_keyScan (by decide) hparameter h)

/-! ### Callbacks, read -/

/-- The index that an item declares. -/
def CallbackItem.call? : CallbackItem → Option IndexCall
  | .index made => made.call?
  | .primaryKey _ => none

/-- The composite keys that are read of an item.  A modifier of that name is read as a key without
columns. -/
def CallbackItem.keys : CallbackItem → List (List String)
  | .index made => made.columns.flatMap fun column =>
      column.modifiers.flatMap fun modifier => if modifier = "primaryKey" then [[]] else []
  | .primaryKey columns => [columns]

/-- What a callback declares. -/
def CallbackDef.toCallback (callback : CallbackDef) : Callback :=
  ⟨callback.body.items.filterMap CallbackItem.call?, callback.body.items.flatMap CallbackItem.keys⟩

/-- A written callback is read as what it declares. -/
theorem ofText_callback (h : callback.Proper) (htext : WritesItem callback.tokens text) :
    Callback.ofText text = callback.toCallback := by
  have hindexes : indexScan.Passes callback.tokens
      (callback.body.items.flatMap fun item => item.call?.toList) := by
    refine passes_callback sound_indexScan (by decide) _ h fun item _ hitem => ?_
    cases item with
    | index made => exact passes_indexScan h.parameter hitem
    | primaryKey columns =>
        exact TokenScan.passes_call sound_indexScan (t := .word "primaryKey") (by decide)
          (by decide) (by decide) (by decide)
          (passes_key sound_indexScan (by decide) h.parameter hitem)
  have hkeys : keyScan.Passes callback.tokens (callback.body.items.flatMap CallbackItem.keys) := by
    refine passes_callback sound_keyScan (by decide) _ h fun item _ hitem => ?_
    cases item with
    | index made =>
        exact passes_index sound_keyScan _ h.parameter hitem (by cases made.function <;> decide)
          (by decide) fun m hm => passes_modifier_keyScan hm
    | primaryKey columns => exact passes_keyScan h.parameter hitem
  have hfound := hindexes.flatMap_findAll sound_indexScan (g := []) htext.written Text.isGap_nil
  have hfound' := hkeys.flatMap_findAll sound_keyScan (g := []) htext.written Text.isGap_nil
  rw [Callback.ofText, CallbackDef.toCallback, indexCalls, keyCalls, ← hfound',
    List.filterMap_eq_flatMap_toList IndexCall.ofMatch?,
    List.filterMap_eq_flatMap_toList (CallbackItem.call?),
    ← hfound, List.filterMap_eq_flatMap_toList]
  rfl

end SchemaReader.TableModule
