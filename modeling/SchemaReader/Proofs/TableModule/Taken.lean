/-
What is taken of the declarations of table modules.

* `TakesHead`: a pattern takes a word and the tokens behind it; `TakesHead.catches` and
  `TakesHead.catches_member` for the word and for the method of its name;
* `takesHead_call`, `catches_methodCall`: the call of a word or of a method, up to its parenthesis;
* `catches_indexHead`, `catches_referencesCall`, `catches_listArgument`, `find?_columnHead`,
  `catches_tableHead`: the heads that consist of several tokens, with what is remembered of them;
* `passes_blockStart`: no table begins where a block of relations does.
-/
import SchemaReader.Proofs.TableModule.Heads
import SchemaReader.Proofs.TableModule.Syntax

namespace SchemaReader.TableModule

open Pattern
open Text (IsWord IsGap Stops isWordChar isBlank)

variable {b : Pattern} {d : Char} {word name : String} {caught : Captures}
  {before text rest u v w g : List Char}

/-! ### Calls -/

section Calls

variable {β : Type} {scan : TokenScan β}

/-- A pattern takes a word and the tokens behind it, up to white space at the end. -/
def TakesHead (q : Pattern) (word : String) (ts : List Token) (caught : Captures) : Prop :=
  ∀ before g text rest, Stops isWordChar before → IsGap g →
    Stops isWordChar (g ++ (text ++ rest)) → Written ts text rest →
      ∃ w g', text = w ++ g' ∧ IsGap g' ∧
        q.Takes before (word.toList ++ (g ++ w)) (g' ++ rest) caught

section Heads

variable {ts : List Token}

lemma TakesHead.catches (h : TakesHead scan.pattern word ts caught) (hword : IsWord word.toList) :
    scan.Catches (.word word :: ts) (· = caught) := by
  intro before text rest htext hmeets
  obtain ⟨g, u, rfl, hg, hparted, hu⟩ := written_cons.mp htext
  have hbefore : Stops isWordChar before :=
    Meets.stops (w := word.toList) (by simpa [Token.text] using hmeets) hword
  obtain ⟨w, g', rfl, hg', htakes⟩ :=
    h before g u rest hbefore hg (by simpa using hparted.stops hword) hu
  exact ⟨[], word.toList ++ (g ++ w), g', _, by simp [Token.text],
    List.append_ne_nil_of_left_ne_nil hword.ne_nil _, hg', rfl, trivial, htakes⟩

/-- The same for a method: the match begins behind the period. -/
lemma TakesHead.catches_member (h : TakesHead scan.pattern word ts caught)
    (hperiod : ∀ before rest, scan.pattern.Fails before ('.' :: rest))
    (hword : IsWord word.toList) :
    scan.Catches (.member word :: ts) (· = caught) := by
  intro before text rest htext _
  obtain ⟨g, u, rfl, hg, hparted, hu⟩ := written_cons.mp htext
  have hstop : Stops isWordChar (g ++ (u ++ rest)) := hparted.stops_behind (s := ['.']) hword
  obtain ⟨w, g', rfl, hg', htakes⟩ :=
    h ('.' :: before) g u rest (by simp; decide) hg (by simpa using hstop) hu
  exact ⟨['.'], word.toList ++ (g ++ w), g', _, by simp [Token.text],
    List.append_ne_nil_of_left_ne_nil hword.ne_nil _, hg', rfl, ⟨hperiod _ _, trivial⟩, htakes⟩

end Heads

lemma takes_call (hb : b.Takes before w (g ++ d :: rest) caught) (hbefore : Stops isWordChar before)
    (hw : IsWord w) (hg : IsGap g) (hd : isBlank d = false) :
    (wordEdge ++ b ++ blanks ++ char d).Takes before (w ++ (g ++ [d])) rest caught := by
  simp only [takes_assoc]
  refine (takes_wordEdge_before hbefore (by simpa using hw.not_stops _)).after_nothing ?_
  refine Takes.seq_last (by simpa using hb) ?_
  exact (takes_blanks hg (by simpa using hd)).seq takes_char

/-- A word and the parenthesis of its call. -/
lemma takesHead_call (hword : IsWord word.toList)
    (hb : ∀ before rest, Stops isWordChar rest → b.Takes before word.toList rest caught) :
    TakesHead (wordEdge ++ b ++ blanks ++ char '(') word [.sign '('] caught := by
  intro before g text rest hbefore hg hstop h
  obtain ⟨g', _, rfl, hg', -, rfl⟩ := written_cons.mp h
  refine ⟨['('], g', by simp [Token.text], hg', ?_⟩
  exact takes_call (hb _ _ (by simpa [Token.text] using hstop)) hbefore hword hg (by decide)

lemma takesHead_blockHead : TakesHead blockHead "relations" [.sign '('] [] :=
  takesHead_call (by decide) fun _ _ _ => takes_lit "relations"

lemma catches_blockHead (contents : Contents) :
    (blockScan contents).Catches [.word "relations", .sign '('] (· = []) :=
  TakesHead.catches takesHead_blockHead (by decide)

lemma catches_blockHead_member (contents : Contents) :
    (blockScan contents).Catches [.member "relations", .sign '('] (· = []) :=
  TakesHead.catches_member takesHead_blockHead
    (fun _ _ => fails_of_not_mayBegin (q := blockHead) (by decide) (by decide)) (by decide)

lemma takesHead_keyHead : TakesHead keyScan.pattern "primaryKey" [.sign '('] [] :=
  takesHead_call (by decide) fun _ _ _ => takes_lit "primaryKey"

lemma catches_keyHead : keyScan.Catches [.word "primaryKey", .sign '('] (· = []) :=
  takesHead_keyHead.catches (by decide)

lemma catches_keyHead_member : keyScan.Catches [.member "primaryKey", .sign '('] (· = []) :=
  takesHead_keyHead.catches_member (fun _ _ => fails_of_not_mayBegin (by decide) (by decide))
    (by decide)

lemma catches_targetHead_one :
    targetScan.Catches [.word "one", .sign '('] (· = [(1, "one".toList)]) :=
  TakesHead.catches (takesHead_call (by decide) fun _ _ _ => ((takes_lit "one").alt_left _).group 1)
    (by decide)

lemma catches_targetHead_many :
    targetScan.Catches [.word "many", .sign '('] (· = [(1, "many".toList)]) :=
  TakesHead.catches (takesHead_call (by decide) fun _ _ _ => (Takes.alt_right (takes_lit "many")
    (fails_of_not_mayBegin (c := 'm') (by decide) (by decide))).group 1) (by decide)

/-- A method and the parenthesis of its call. -/
lemma catches_methodCall (hname : name.toList = '.' :: word.toList) :
    (methodScan name).Catches [.member word, .sign '('] (· = []) := by
  intro before text rest h _
  obtain ⟨g, _, rfl, hg, -, h⟩ := written_cons.mp h
  obtain ⟨g', _, rfl, hg', -, rfl⟩ := written_cons.mp h
  refine ⟨[], name.toList ++ (g ++ ['(']), g', [], by simp [Token.text, hname], by simp, hg', rfl,
    trivial, ?_⟩
  simp only [methodScan, methodCall, takes_assoc]
  exact (takes_lit name).seq ((takes_blanks hg (by simp; decide)).seq takes_char)

end Calls

/-! ### Indexes -/

/-- A given word fails on another one that it does not begin. -/
lemma fails_lit_of_not_prefix {s : String} (hs : ∀ c ∈ s.toList, isWordChar c = true)
    (hrest : Stops isWordChar rest) (hnot : ¬ s.toList <+: w) :
    (lit s).Fails before (w ++ rest) := by
  intro u v htext hu
  obtain rfl := reads_lit.mp hu
  obtain ⟨x, hx, rfl⟩ | ⟨x, rfl, -⟩ := List.append_eq_append_iff.mp htext
  · cases x with
    | nil => exact hnot (by simp [hx])
    | cons c x => simp [hs c (by simp [hx])] at hrest
  · exact hnot (List.prefix_append _ _)

lemma takes_indexFunction (f : IndexFunction) (hrest : Stops isWordChar rest) :
    (lit "uniqueIndex" ||| lit "index" ||| lit "unique").Takes before f.name.toList rest [] := by
  have hfails : ∀ s ∈ ["uniqueIndex", "index"], ¬ s.toList <+: f.name.toList →
      (lit s).Fails before (f.name.toList ++ rest) := by
    intro s hs hnot
    have hwords : ∀ s ∈ ["uniqueIndex", "index"], ∀ c ∈ s.toList, isWordChar c = true := by decide
    exact fails_lit_of_not_prefix (hwords s hs) hrest hnot
  cases f with
  | uniqueIndex => exact ((takes_lit "uniqueIndex").alt_left _).alt_left _
  | index =>
      exact (Takes.alt_right (takes_lit "index")
        (hfails "uniqueIndex" (by decide) (by decide))).alt_left _
  | unique => exact Takes.alt_right (takes_lit "unique") (fails_alt.mpr
      ⟨hfails "uniqueIndex" (by decide) (by decide), hfails "index" (by decide) (by decide)⟩)

/-- The tokens of the name of an index. -/
def nameTokens (name : Option (Char × String)) : List Token :=
  name.toList.map fun name => .literal name.1 name.2

/-- What is remembered of the name of an index. -/
def nameCaptures (name : Option (Char × String)) : Captures :=
  name.toList.map fun name => (2, name.2.toList)

/-- An optional name, with white space behind it, before a character that is neither. -/
lemma takes_indexName {name : Option (Char × String)} {c : Char}
    (hname : ∀ n ∈ name, isQuote n.1 = true ∧ ∀ c ∈ n.2.toList, isQuote c = false)
    (hquote : isQuote c = false) (hblank : isBlank c = false)
    (htext : Written (nameTokens name) text rest) :
    (opt (.one isQuote ++ .group 2 (.many notQuote) ++ .one isQuote) ++ (blanks ++ char c)).Takes
      before (text ++ [c]) v (nameCaptures name) := by
  cases name with
  | none =>
      obtain rfl := htext
      refine Takes.opt_append_skip ?_ ?_
      · exact (takes_blanks Text.isGap_nil (by simpa using hblank)).seq takes_char
      · simp only [fails_assoc]
        exact fails_one_append (by simpa using hquote)
  | some n =>
      obtain ⟨hn, hchars⟩ := hname n rfl
      obtain ⟨g, _, rfl, hg, -, rfl⟩ := written_cons.mp htext
      have hbody : ∀ v, (Pattern.group 2 (many notQuote)).Takes
          (n.1 :: before) n.2.toList (n.1 :: v)
          [(2, n.2.toList)] := fun v =>
        (takes_many (fun c hc => by simp [notQuote, hchars c hc]) (by simp [notQuote, hn])).group 2
      have hname : ∀ v, (one isQuote ++ .group 2 (.many notQuote) ++ .one isQuote).Takes before
          (n.1 :: (n.2.toList ++ [n.1])) v [(2, n.2.toList)] := fun v =>
        takes_assoc.mpr ((takes_one hn).seq (u := [n.1]) ((hbody _).seq_last (takes_one hn)))
      have hend : (blanks ++ char c).Takes ((n.1 :: (n.2.toList ++ [n.1])).reverse ++ before)
          (g ++ [c]) v [] := (takes_blanks hg (by simpa using hblank)).seq takes_char
      have htext : (Token.literal n.1 n.2).text ++ (g ++ []) ++ [c]
          = (n.1 :: (n.2.toList ++ [n.1])) ++ (g ++ [c]) := by simp [Token.text]
      rw [htext]
      exact Takes.seq_last (hname _).opt hend

/-- The head of an index behind its function, up to the parenthesis of its columns. -/
def indexOpening (name : Option (Char × String)) : List Token :=
  bracketed '(' ')' (nameTokens name) ++ [.member "on", .sign '(']

lemma IndexFunction.isWord_name (f : IndexFunction) : IsWord f.name.toList := by
  cases f <;> decide

lemma takesHead_indexHead (f : IndexFunction) (name : Option (Char × String))
    (hname : ∀ n ∈ name, isQuote n.1 = true ∧ ∀ c ∈ n.2.toList, isQuote c = false) :
    TakesHead indexHead f.name (indexOpening name) (nameCaptures name ++ [(1, f.name.toList)]) := by
  intro before g text rest hbefore hg hstop h
  have hf := f.isWord_name
  obtain ⟨_, _, rfl, hcall, hon⟩ := written_append.mp h
  obtain ⟨g₂, n, g₃, rfl, hg₂, hg₃, hn⟩ := written_bracketed hcall
  obtain ⟨g₄, _, rfl, hg₄, -, hopen⟩ := written_cons.mp hon
  obtain ⟨g₅, _, rfl, hg₅, -, rfl⟩ := written_cons.mp hopen
  refine ⟨'(' :: (g₂ ++ ((n ++ [')']) ++ (g₃ ++ (".on".toList ++ (g₄ ++ ['(']))))), g₅,
    by simp [Token.text], hg₅, ?_⟩
  have hstart : Stops isBlank
      ((n ++ [')']) ++ (g₃ ++ (".on".toList ++ (g₄ ++ '(' :: (g₅ ++ rest))))) := by
    cases name with
    | none =>
        obtain rfl := hn
        simp
        decide
    | some name =>
        obtain ⟨g, _, rfl, -⟩ := written_cons.mp hn
        have hquote := (hname name rfl).1
        have hblank : isBlank name.1 = false := by
          by_contra hblank
          exact absurd hquote (by simp [Text.not_isQuote_of_isBlank (Bool.not_eq_false _ ▸ hblank)])
        simpa [Token.text] using hblank
  simp only [indexHead, takes_assoc]
  refine (takes_wordEdge_before hbefore (by simpa using hf.not_stops _)).after_nothing ?_
  refine ((takes_indexFunction f (by simpa [Token.text] using hstop)).group 1).append ?_
  refine (takes_blanks hg (by simp; decide)).seq (takes_char.seq (u := ['(']) ?_)
  refine (takes_blanks hg₂ (by simpa using hstart)).seq ?_
  change ((opt (.one isQuote ++ .group 2 (.many notQuote) ++ .one isQuote) ++
    (blanks ++ char ')')) ++ (blanks ++ (lit ".on" ++ (blanks ++ char '(')))).Takes _ _ _ _
  refine (takes_indexName hname (by decide) (by decide) hn).seq_last ?_
  refine (takes_blanks hg₃ (by simp; decide)).seq ((takes_lit ".on").seq ?_)
  exact (takes_blanks hg₄ (by simp; decide)).seq takes_char

lemma catches_indexHead (f : IndexFunction) (name : Option (Char × String))
    (hname : ∀ n ∈ name, isQuote n.1 = true ∧ ∀ c ∈ n.2.toList, isQuote c = false) :
    indexScan.Catches (.word f.name :: indexOpening name)
      (· = nameCaptures name ++ [(1, f.name.toList)]) :=
  TakesHead.catches (takesHead_indexHead f name hname) f.isWord_name

/-- The same for a method. -/
lemma catches_indexHead_member (f : IndexFunction) (name : Option (Char × String))
    (hname : ∀ n ∈ name, isQuote n.1 = true ∧ ∀ c ∈ n.2.toList, isQuote c = false) :
    indexScan.Catches (.member f.name :: indexOpening name)
      (· = nameCaptures name ++ [(1, f.name.toList)]) :=
  TakesHead.catches_member (takesHead_indexHead f name hname)
    (fun _ _ => fails_of_not_mayBegin (by decide) (by decide)) f.isWord_name

/-! ### References -/

/-- The type of a reference, with white space behind it, before an arrow. -/
lemma takes_referenceType {type : Option String} (htype : ∀ t ∈ type, IsWord t.toList)
    (h : Written (type.toList.flatMap fun type => [.sign ':', .word type]) text ('=' :: rest)) :
    (opt (char ':' ++ blanks ++ many1 (fun c => isWordChar c || c == '<' || c == '>' || c == '[' ||
      c == ']') ++ blanks)).Takes before text ('=' :: rest) [] := by
  cases type with
  | none =>
      obtain rfl := h
      refine takes_opt_skip ?_
      simp only [fails_assoc]
      exact fails_one_append (by simp)
  | some type =>
      have hword := htype type rfl
      obtain ⟨g, _, rfl, hg, -, h⟩ := written_cons.mp h
      obtain ⟨g', _, rfl, hg', hparted, rfl⟩ := written_cons.mp h
      have hstop : ∀ c, isBlank c = true → (isWordChar c || c == '<' || c == '>' || c == '[' ||
          c == ']') = false := fun c hc =>
        Text.not_of_isBlank (fun c => isWordChar c || c == '<' || c == '>' || c == '[' || c == ']')
          (by decide) hc
      have htext : (Token.sign ':').text ++ (g ++ ((Token.word type).text ++ (g' ++ [])))
          = [':'] ++ (g ++ (type.toList ++ g')) := by simp [Token.text]
      rw [htext]
      refine Takes.opt ?_
      simp only [takes_assoc]
      refine takes_char.seq ((takes_blanks hg (by simpa using hword.stops_isBlank _)).seq ?_)
      refine (takes_many1 hword.ne_nil (fun c hc => by simp [hword.chars c hc])
        (hg'.stops hstop (by simp; decide))).seq ?_
      exact takes_blanks hg' (by simp; decide)

/-- The head of a reference, up to the column. -/
def referenceHeadTokens (binding column : String) (type : Option String) : List Token :=
  [.member "references", .sign '('] ++ referenceTokens binding column type

lemma catches_referencesCall {binding column : String} {type : Option String}
    (hbinding : IsWord binding.toList) (hcolumn : IsWord column.toList)
    (htype : ∀ t ∈ type, IsWord t.toList) :
    referenceScan.Catches (referenceHeadTokens binding column type)
      (· = [(2, column.toList), (1, binding.toList)]) := by
  intro before text rest h _
  rw [referenceHeadTokens, referenceTokens, List.append_assoc, ← List.append_assoc] at h
  obtain ⟨_, _, rfl, hcall, hfunction⟩ := written_append.mp h
  obtain ⟨g₁, _, rfl, hg₁, -, hopen⟩ := written_cons.mp hcall
  obtain ⟨g₂, _, rfl, hg₂, -, hinner⟩ := written_cons.mp hopen
  obtain ⟨g₃, _, rfl, hg₃, -, hclose⟩ := written_cons.mp hinner
  obtain ⟨g₄, _, rfl, hg₄, -, rfl⟩ := written_cons.mp hclose
  obtain ⟨t, _, rfl, ht, harrow⟩ := written_append.mp hfunction
  obtain ⟨g₅, _, rfl, hg₅, -, hpath⟩ := written_cons.mp harrow
  obtain ⟨g₆, _, rfl, hg₆, hparted, rfl⟩ := written_cons.mp hpath
  refine ⟨[], ".references".toList ++ (g₁ ++ (['('] ++ (g₂ ++ (['('] ++ (g₃ ++ ([')'] ++ (g₄ ++
    (t ++ (['=', '>'] ++ (g₅ ++ (binding.toList ++ (['.'] ++ column.toList)))))))))))), g₆, _,
    by simp [Token.text], by simp, hg₆, rfl, trivial, ?_⟩
  have hstop : Stops isWordChar (g₆ ++ rest) := by
    have hsplit : (Token.path binding column).text
        = (binding.toList ++ ['.']) ++ column.toList := by
      simp [Token.text]
    rw [hsplit] at hparted
    simpa using hparted.stops_behind hcolumn
  have htype' : ∀ before, (opt (char ':' ++ blanks ++ many1 (fun c => isWordChar c || c == '<' ||
      c == '>' || c == '[' || c == ']') ++ blanks)).Takes before t ('=' :: '>' :: (g₅ ++
        (binding.toList ++ '.' :: (column.toList ++ (g₆ ++ rest))))) [] := fun _ =>
    takes_referenceType htype (by simpa [Token.text] using ht)
  have hblank : Stops isBlank (t ++ ('=' :: '>' :: (g₅ ++ (binding.toList ++ '.' ::
      (column.toList ++ (g₆ ++ rest)))))) := by
    cases type with
    | none =>
        obtain rfl := ht
        simp
        decide
    | some type =>
        obtain ⟨g, _, rfl, -⟩ := written_cons.mp ht
        simp [Token.text]
        decide
  simp only [referenceScan, referencesCall, methodCall, takes_assoc]
  refine (takes_lit ".references").seq
    ((takes_blanks hg₁ (by simp; decide)).seq (takes_char.seq ?_))
  refine (takes_blanks hg₂ (by simp; decide)).seq (takes_char.seq ?_)
  refine (takes_blanks hg₃ (by simp; decide)).seq (takes_char.seq ?_)
  refine (takes_blanks hg₄ (by simpa using hblank)).seq (Takes.seq (by simpa using htype' _) ?_)
  refine (takes_lit "=>").seq ((takes_blanks hg₅ (by simpa using hbinding.stops_isBlank _)).seq ?_)
  have hvariable : ∀ before v, (Pattern.group 1 Pattern.word).Takes before binding.toList ('.' :: v)
      [(1, binding.toList)] := fun _ _ => (takes_word hbinding (by simp; decide)).group 1
  exact (hvariable _ _).append (takes_char.seq ((takes_word hcolumn hstop).group 2))

/-! ### Named lists -/

/-- A list of columns of variables, with its brackets, as it is remembered. -/
def ListCaptured (paths : List (String × String)) (caught : Captures) : Prop :=
  ∃ g u rest, IsGap g ∧
  Written (commaSeparated (paths.map fun path => [.path path.1 path.2])) u rest ∧
    caught = [(1, '[' :: ((g ++ u) ++ [']']))]

lemma catches_listArgument (hname : IsWord name.toList) {paths : List (String × String)}
    (hpaths : ∀ path ∈ paths, IsWord path.1.toList ∧ IsWord path.2.toList) :
    (listScan name).Catches ([.word name, .sign ':'] ++ pathList paths) (ListCaptured paths) := by
  intro before text rest h hmeets
  obtain ⟨g₁, _, rfl, hg₁, -, hcolon⟩ := written_cons.mp h
  obtain ⟨g₂, _, rfl, hg₂, -, hlist⟩ := written_cons.mp hcolon
  obtain ⟨g₃, u, g₄, rfl, hg₃, hg₄, hu⟩ := written_bracketed hlist
  refine ⟨[], (name.toList ++ (g₁ ++ [':'])) ++ (g₂ ++ ('[' :: ((g₃ ++ u) ++ [']']))), g₄,
    [(1, '[' :: ((g₃ ++ u) ++ [']']))], by simp [Token.text], by simp, hg₄,
    ⟨g₃, u, _, hg₃, hu, rfl⟩, trivial, ?_⟩
  have hbefore : Stops isWordChar before :=
    Meets.stops (w := name.toList) (by simpa [Token.text] using hmeets) hname
  have hnot : ∀ c, isBlank c = true → c ≠ ']' := fun c hc hcd => by
    subst hcd
    exact absurd hc (by decide)
  have hfree : ∀ c ∈ g₃ ++ u, c ≠ ']' := by
    refine List.forall_mem_append.mpr ⟨fun c hc => hnot c (hg₃ c hc),
      forall_mem_of_written hnot ?_ hu⟩
    refine forall_mem_commaSeparated (by decide) fun entry hentry t ht => ?_
    obtain ⟨path, hpath, rfl⟩ := List.mem_map.mp hentry
    obtain rfl := List.mem_singleton.mp ht
    obtain ⟨hv, hc⟩ := hpaths path hpath
    simp only [Token.text, List.forall_mem_append, List.forall_mem_cons]
    exact ⟨hv.forall_ne (by decide), by decide, hc.forall_ne (by decide)⟩
  have hlist : ∀ before, (inSquares 1).Takes before ('[' :: ((g₃ ++ u) ++ [']'])) (g₄ ++ rest)
      [(1, '[' :: ((g₃ ++ u) ++ [']']))] := fun before => by
    refine Takes.group (takes_assoc.mpr (takes_char.seq (u := ['[']) ?_)) 1
    exact (takes_many (fun c hc => by simpa using hfree c hc) (by simp)).seq takes_char
  have hcall : (wordEdge ++ lit name ++ blanks ++ char ':').Takes before
      (name.toList ++ (g₁ ++ [':']))
      (g₂ ++ ('[' :: ((g₃ ++ u) ++ [']'])) ++ (g₄ ++ rest)) [] :=
    takes_call (takes_lit name) hbefore hname hg₁ (by decide)
  exact takes_assoc.mpr (hcall.seq ((takes_blanks hg₂ (by simp; decide)).seq (hlist _)))

/-! ### Columns -/

/-- A column up to the parenthesis of its function. -/
lemma find?_columnHead {key type : String} (hkey : IsWord key.toList) (htype : IsWord type.toList)
    (h : Written [.word key, .sign ':', .word type, .sign '('] text rest) :
    ∃ found g, columnHead.find? (text ++ rest) = some found ∧ found.group 1 = key.toList ∧
      found.group 2 = type.toList ∧ found.stop.after = g ++ rest ∧ IsGap g := by
  obtain ⟨g₁, _, rfl, hg₁, hparted₁, h₁⟩ := written_cons.mp h
  obtain ⟨g₂, _, rfl, hg₂, -, h₂⟩ := written_cons.mp h₁
  obtain ⟨g₃, _, rfl, hg₃, hparted₃, h₃⟩ := written_cons.mp h₂
  obtain ⟨g₄, _, rfl, hg₄, -, rfl⟩ := written_cons.mp h₃
  have hquote : ∀ before v, Stops (fun c => c == '\'' || c == '"') v →
      keyQuote.Takes before [] v [] := fun _ _ hv => takes_opt_skip (fails_of_stops rfl hv)
  have hnone : ∀ c, isBlank c = true → (c == '\'' || c == '"') = false := fun c hc =>
    Text.not_of_isBlank (fun c => c == '\'' || c == '"') (by decide) hc
  have hword : ∀ c, isWordChar c = true → (c == '\'' || c == '"') = false := fun c hc => by
    rw [Text.beq_of_isWordChar (by decide) hc, Text.beq_of_isWordChar (by decide) hc]
    rfl
  have hstop₁ := hparted₁.stops hkey
  have hstop₃ := hparted₃.stops htype
  have htakes : columnHead.Takes [] (key.toList ++ (g₁ ++ ([':'] ++ (g₂ ++ (type.toList ++ (g₃ ++
      ['('])))))) (g₄ ++ rest) ([(2, type.toList)] ++ [(1, key.toList)]) := by
    simp only [columnHead, takes_assoc]
    refine takes_textStart.after_nothing ((hquote _ _ ?_).after_nothing ?_)
    · simpa using hkey.stops hword _
    refine ((takes_word hkey (by simpa [Token.text] using hstop₁)).group 1).append ?_
    refine (hquote _ _ ?_).after_nothing ((takes_blanks hg₁ (by simp; decide)).seq ?_)
    · simpa using hg₁.stops hnone (by simp)
    refine takes_char.seq ((takes_blanks hg₂ (by simpa using htype.stops_isBlank _)).seq ?_)
    refine ((takes_word htype (by simpa [Token.text] using hstop₃)).group 2).seq_last ?_
    exact (takes_blanks hg₃ (by simp; decide)).seq takes_char
  have htext : ∀ v, (Token.word key).text ++ (g₁ ++ ((Token.sign ':').text ++ (g₂ ++
      ((Token.word type).text ++ (g₃ ++ ((Token.sign '(').text ++ (g₄ ++ []))))))) ++ v
        = key.toList ++ (g₁ ++ ([':'] ++ (g₂ ++ (type.toList ++ (g₃ ++ ['(']))))) ++ (g₄ ++ v) := by
    simp [Token.text]
  exact ⟨_, g₄, (congrArg columnHead.find? (htext rest)).trans (find?_of_takes htakes),
    rfl, rfl, rfl, hg₄⟩

/-! ### Tables -/

lemma takes_functionCall (f : TableFunction) (hg : IsGap g) :
    functionCall.Takes before (f.name.toList ++ (g ++ ['('])) rest [] := by
  have hfunction : (lit "pgTable" ||| lit "mysqlTable" ||| lit "sqliteTable").Takes before
      f.name.toList (g ++ ['('] ++ rest) [] := by
    cases f with
    | pgTable => exact ((takes_lit "pgTable").alt_left _).alt_left _
    | mysqlTable =>
        exact (Takes.alt_right (takes_lit "mysqlTable")
          (fails_of_not_mayBegin (c := 'm') (by decide) (by decide))).alt_left _
    | sqliteTable =>
        exact Takes.alt_right (takes_lit "sqliteTable")
          (fails_of_not_mayBegin (c := 's') (by decide) (by decide))
  exact hfunction.seq ((takes_blanks hg (by simp; decide)).seq takes_char)

/-- The head of a table, up to the parenthesis of its arguments. -/
def tableHeadTokens (declared : Declared) (binding : String) (f : TableFunction) : List Token :=
  declared.opening binding ++ [.word f.name, .sign '(']

lemma catches_tableHead (declared : Declared) {binding : String} (hbinding : IsWord binding.toList)
    (f : TableFunction) :
    tableScan.Catches (tableHeadTokens declared binding f) (· = [(1, binding.toList)]) := by
  have hf : IsWord f.name.toList := by cases f <;> decide
  intro before text rest h _
  rw [tableHeadTokens, Declared.opening, List.append_assoc] at h
  obtain ⟨e, _, rfl, hexport, hrest⟩ := written_append.mp h
  obtain ⟨g₁, _, rfl, hg₁, hparted₁, h₁⟩ := written_cons.mp hrest
  obtain ⟨g₂, _, rfl, hg₂, hparted₂, h₂⟩ := written_cons.mp h₁
  obtain ⟨g₃, _, rfl, hg₃, -, h₃⟩ := written_cons.mp h₂
  obtain ⟨g₄, _, rfl, hg₄, -, h₄⟩ := written_cons.mp h₃
  obtain ⟨g₅, _, rfl, hg₅, -, rfl⟩ := written_cons.mp h₄
  refine ⟨[], e ++ ("const".toList ++ (g₁ ++ (binding.toList ++ (g₂ ++ (['='] ++ (g₃ ++
    (f.name.toList ++ (g₄ ++ ['('])))))))), g₅, _, by simp [Token.text], by simp, hg₅, rfl,
    trivial, ?_⟩
  have hne : g₁ ≠ [] := gap_ne_nil (v := g₂ ++ ('=' :: (g₃ ++ (f.name.toList ++ (g₄ ++ '(' ::
    (g₅ ++ rest)))))) (by simpa [Token.text] using hparted₁.stops (by decide)) hbinding
  have hcall : ∀ before, constDeclaration.Takes before ("const".toList ++ (g₁ ++ (binding.toList ++
      (g₂ ++ (['='] ++ (g₃ ++ (f.name.toList ++ (g₄ ++ ['(']))))))))
        (g₅ ++ rest) [(1, binding.toList)] := fun before =>
    takes_constDeclaration hg₁ hne (by simpa using hbinding.stops_isBlank _) fun _ =>
      takes_assignedCall hbinding hg₂ hg₃ (by simpa using hf.stops_isBlank _) fun _ =>
        takes_functionCall f hg₄
  cases hexported : declared.exported with
  | false =>
      rw [hexported] at hexport
      obtain rfl := hexport
      exact takes_tableHead_const (hcall _)
  | true =>
      rw [hexported] at hexport
      obtain ⟨g, _, rfl, hg, hparted, rfl⟩ := written_cons.mp hexport
      have hgap : g ≠ [] := gap_ne_nil (w := "const".toList) (v := g₁ ++ (binding.toList ++ (g₂ ++
        ('=' :: (g₃ ++ (f.name.toList ++ (g₄ ++ '(' :: (g₅ ++ rest))))))))
        (by simpa [Token.text] using hparted.stops (by decide)) (by decide)
      have htext : (Token.word "export").text ++ (g ++ []) = "export".toList ++ g := by
        simp [Token.text]
      rw [htext, List.append_assoc]
      exact takes_tableHead_export hg hgap hcall

/-! ### Blocks of relations -/

/-- Where a scan reads nothing in tokens before others, it finds what it finds in these. -/
lemma passes_of_silent {β : Type} {scan : TokenScan β} (ts : List Token)
    {us : List Token} {rs : List β}
    (h : ∀ before u v rest, Written ts u (v ++ rest) → Written us v rest →
      Silent scan.pattern before u (v ++ rest)) (hne : us ≠ []) (hus : scan.Passes us rs) :
    scan.Passes (ts ++ us) rs := by
  intro before text rest behind hts hmeets hcalm hbehind
  obtain ⟨u, v, rfl, hu, hv⟩ := written_append.mp hts
  rw [List.append_assoc] at hmeets
  obtain ⟨found, hfound, hread⟩ := hus _ v rest behind hv (hu.meets hmeets)
    (fun hleads => hcalm (by rw [leadsOn_append, if_neg hne, hleads])) (by simpa using hbehind)
  refine ⟨found, ?_, hread⟩
  rw [List.append_assoc]
  exact hfound.skip (h _ _ _ _ hu hv)

/-- What is assigned to the variable of a block is the call of none of the functions for tables. -/
lemma fails_assignedCall_relations (hname : IsWord name.toList)
    (h : Written [.word name, .sign '=', .word "relations"] v rest) :
    assignedCall.Fails before (v ++ rest) := by
  obtain ⟨g₁, _, rfl, hg₁, -, h₁⟩ := written_cons.mp h
  obtain ⟨g₂, _, rfl, hg₂, -, h₂⟩ := written_cons.mp h₁
  obtain ⟨g₃, _, rfl, -, -, rfl⟩ := written_cons.mp h₂
  have hfails : assignedCall.Fails before (name.toList ++ (g₁ ++ '=' :: (g₂ ++
      ("relations".toList ++ (g₃ ++ rest))))) :=
    fails_assignedCall hname hg₁ hg₂ (by simp; decide) fun _ =>
      fails_of_not_mayBegin (c := 'r') (by decide) (by decide)
  simpa [Token.text] using hfails

/-- A block of relations is declared as a table is, but its function is none that makes a table. -/
lemma passes_blockStart (declared : Declared) (hname : IsWord name.toList) :
    tableScan.Passes (declared.opening name ++ [.word "relations"]) [] := by
  have htail : tableScan.Passes [.word name, .sign '=', .word "relations"] [] := by
    refine TokenScan.passes_cons sound_tableScan (by exact hname)
      (TokenScan.joins_before (by decide) rfl) ?_
    exact TokenScan.passes_cons sound_tableScan (by decide) (TokenScan.joins_of_not_leadsOn rfl)
      (TokenScan.passes_token sound_tableScan (by decide))
  have hblank : ∀ {v rest}, Written [.word name, .sign '=', .word "relations"] v rest →
      Stops isBlank (v ++ rest) := by
    intro v rest hv
    obtain ⟨g, u, rfl, -⟩ := written_cons.mp hv
    simpa [Token.text] using hname.stops_isBlank _
  have hcons : tableScan.Passes
      (.word "const" :: [.word name, .sign '=', .word "relations"]) [] := by
    refine passes_of_silent [.word "const"] (fun before u v rest hu hv => ?_) (by simp) htail
    obtain ⟨g, _, rfl, hg, hparted, rfl⟩ := written_cons.mp hu
    have hstop : Stops isWordChar (g ++ (v ++ rest)) := by simpa using hparted.stops (by decide)
    rw [List.append_nil]
    refine silent_append.mpr ⟨⟨?_, silent_tableHead_of_tails (by decide) (by simpa using hstop)
      (by decide)⟩, sound_tableScan.gap hg⟩
    exact fails_tableHead_word (w := "const".toList) (by decide) (by simpa using hstop)
      (fun heq => absurd heq (by decide)) fun _ _ => by
        simpa using fails_someBlanks_assignedCall hg (hblank hv) fun _ =>
          fails_assignedCall_relations hname hv
  cases hexported : declared.exported with
  | false => simpa [Declared.opening, hexported] using hcons
  | true =>
      have hexport : tableScan.Passes (.word "export" :: .word "const" ::
          [.word name, .sign '=', .word "relations"]) [] := by
        refine passes_of_silent [.word "export"] (fun before u c rest hu hc => ?_) (by simp)
          hcons
        obtain ⟨g, _, rfl, hg, hparted, rfl⟩ := written_cons.mp hu
        obtain ⟨g', v, rfl, hg', hparted', hv⟩ := written_cons.mp hc
        have hstop : Stops isWordChar (g ++ ("const".toList ++ (g' ++ (v ++ rest)))) := by
          simpa [Token.text] using hparted.stops (by decide)
        have hstop' : Stops isWordChar (g' ++ (v ++ rest)) := hparted'.stops (by decide)
        have htext : (Token.word "const").text ++ (g' ++ v) ++ rest
            = "const".toList ++ (g' ++ (v ++ rest)) := by simp [Token.text]
        rw [List.append_nil, htext]
        refine silent_append.mpr ⟨⟨?_, silent_tableHead_of_tails (by decide) hstop (by decide)⟩,
          sound_tableScan.gap hg⟩
        exact fails_tableHead_word (w := "export".toList) (by decide) hstop
          (fun _ _ => fails_someBlanks_append (by decide) hg (by simp; decide) fun _ =>
            fails_constDeclaration hg' hstop' (hblank hv) fun _ =>
              fails_assignedCall_relations hname hv) fun heq => absurd heq (by decide)
      simpa [Declared.opening, hexported] using hexport

end SchemaReader.TableModule
