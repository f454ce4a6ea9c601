/-
Table calls with any entries.

* `IsPiece`: a text that can stand among the arguments of a table call: it is balanced, and neither
  a comment nor a declaration begins in it;
* `CallText`: a table call with its entries and its callbacks as they are written;
* `ofText_callTexts`: a module of such calls is read call by call, and each entry and each callback
  as what its text is cut into at commas.
-/
import SchemaReader.Proofs.Common.TableModule
import SchemaReader.Proofs.Lexical.Separated
import SchemaReader.Proofs.Lexical.Stripping
import SchemaReader.Proofs.Pattern.Borders
import SchemaReader.Proofs.TableModule.Tokens

namespace SchemaReader.TableModule

open Pattern
open Text (IsWord IsGap Stops isWordChar isBlank)

variable {texts : List (List Char)} {u v rest : List Char} {call : CallText} {calls : List CallText}

/-! ### Pieces -/

/-- A text that closes what it opens and in which neither a comment nor a declaration begins. -/
structure IsPiece (text : List Char) : Prop where
  balanced : Balanced .code text
  uncommented : Uncommented .code text
  quiet : ∀ rest, Quiet text rest

lemma IsPiece.append (hu : IsPiece u) (hv : IsPiece v) : IsPiece (u ++ v) :=
  ⟨hu.balanced.append hv.balanced, hu.uncommented.append hv.uncommented,
    fun rest => (hu.quiet _).append (hv.quiet rest)⟩

/-- Signs other than brackets and quotes are a piece. -/
lemma isPiece_signs (hu : ∀ c ∈ u, isPlain c = true ∧ c ≠ '/' ∧ isWordChar c = false) :
    IsPiece u where
  balanced := depthAfter?_plain fun c hc => (hu c hc).1
  uncommented := uncommented_code fun c hc => ⟨(isPlain_iff.mp (hu c hc).1).1, (hu c hc).2.1⟩
  quiet _ := quiet_outside fun c hc => (hu c hc).2.2

/-- A piece in brackets. -/
lemma IsPiece.bracket (hu : IsPiece u) {o c : Char} (ho : isOpening o = true)
    (hc : isClosing c = true) :
    IsPiece (o :: (u ++ [c])) := by
  have hsigns : ∀ d, isOpening d = true ∨ isClosing d = true →
      isQuote d = false ∧ d ≠ '/' ∧ isWordChar d = false := by
    intro d hd
    simp only [isOpening, isClosing, Bool.or_eq_true, beq_iff_eq] at hd
    rcases hd with ((rfl | rfl) | rfl) | ((rfl | rfl) | rfl) <;> decide
  have huncommented : ∀ d, isOpening d = true ∨ isClosing d = true →
      Uncommented .code [d] := fun d hd =>
    uncommented_code (List.forall_mem_singleton.mpr ⟨(hsigns d hd).1, (hsigns d hd).2.1⟩)
  have hquiet : ∀ d, isOpening d = true ∨ isClosing d = true →
      ∀ rest, Quiet [d] rest := fun d hd _ =>
    quiet_outside (List.forall_mem_singleton.mpr (hsigns d hd).2.2)
  refine ⟨hu.balanced.bracket ho hc, ?_, fun rest => ?_⟩
  · exact (huncommented o (Or.inl ho)).append (hu.uncommented.append (huncommented c (Or.inr hc)))
  · exact Quiet.append (u := [o]) (hquiet o (Or.inl ho) _)
      ((hu.quiet _).append (hquiet c (Or.inr hc) rest))

lemma isPiece_listed (h : ∀ t ∈ texts, IsPiece t) : IsPiece (listed texts) := by
  induction texts with
  | nil => exact ⟨rfl, uncommented_nil, fun _ => quiet_nil⟩
  | cons t texts ih =>
      rw [List.forall_mem_cons] at h
      cases texts with
      | nil => exact h.1
      | cons u texts =>
          exact h.1.append ((isPiece_signs (u := [',', ' ']) (by decide)).append (ih h.2))

lemma isPiece_quotedName {name : String} (hw : IsWord name.toList) : IsPiece (quotedName name) where
  balanced := (closed_quotedName (P := fun _ => True) hw).balanced
  uncommented := uncommented_quoted (by decide) fun _ hc =>
    keeps_of_isWordChar (hw.chars _ hc) (by decide)
  quiet _ := quiet_quotedName hw

/-! ### Pieces without certain words -/

/-- A balanced text without a slash holds no comment. -/
lemma uncommented_of_balanced (h : Balanced .code u) (hslash : ∀ c ∈ u, c ≠ '/') :
    Uncommented .code u := by
  suffices hrun : ∀ {depth literal s}, depthAfter? .code depth literal u = some s → ∀ out rest,
      stripCommentsLoop .code (.text literal) out (u ++ rest)
        = stripCommentsLoop .code (.text s.2) (u.reverse ++ out) rest from hrun h
  clear h
  induction u with
  | nil =>
      intro depth literal s h out rest
      rw [← Option.some.inj h]
      rfl
  | cons c u ih =>
      intro depth literal s h out rest
      rw [List.forall_mem_cons] at hslash
      obtain ⟨s', hstep, h⟩ := Option.bind_eq_some_iff.mp h
      have hline : Dialect.code.lineComment.isPrefixOf (c :: (u ++ rest)) = false := by
        simp [Dialect.code, List.isPrefixOf, Ne.symm hslash.1]
      have hstays : (if literal.covers c then literal.step .code c else .outside) = s'.2 := by
        rw [← step_of_bracketStep? hstep]
        split
        · rfl
        · next hcovers => exact (Literal.step_of_not_covers .code (by simpa using hcovers)).2.2.symm
      rw [List.cons_append, stripCommentsLoop, CommentMode.step,
        ofText_of_no_comment hline hslash.1, hstays]
      simpa using ih hslash.2 h ([c].reverse ++ out) rest

/-- A word that is not in a text does not begin in it, if it does not go on into the next one. -/
lemma fails_lit_of_not_infix {K : String} {before x : List Char} (hK : ¬ K.toList <:+: u)
    (hstop : (lit K).StopsShort u) (hx : x ≠ []) (hxu : x <:+ u) :
    (lit K).Fails before (x ++ rest) := by
  intro w rest' htext hread
  obtain ⟨y, hy⟩ := (hstop.staysIn rest).exists_append hx hxu htext hread
  rw [reads_lit.mp hread] at hy
  exact hK ((List.prefix_append _ y).isInfix.trans (hy ▸ hxu.isInfix))

/-- In a text with none of the words for declarations, none begins. -/
lemma quiet_of_not_infix (hwords : ∀ K ∈ ["export", "const", "relations"],
    ¬ K.toList <:+: u ++ [')']) :
    Quiet (u ++ [')']) rest := by
  have hstop : ∀ K ∈ ["export", "const", "relations"], (lit K).StopsShort (u ++ [')']) := by
    have hnever : ∀ K ∈ ["export", "const", "relations"], (lit K).neverReads ')' = true := by decide
    exact fun K hK => stopsShort_of_neverReads (hnever K hK)
  have hfails : ∀ K ∈ ["export", "const", "relations"], ∀ {before v c x}, u ++ [')'] = v ++ c :: x →
      (lit K).Fails before (c :: (x ++ rest)) := fun K hK _ v c x hvx =>
    fails_lit_of_not_infix (hwords K hK) (hstop K hK) (List.cons_ne_nil c x)
      (hvx ▸ List.suffix_append v _)
  refine quiet_of_silent (fun before => silent_of_forall fun v c x hvx => ?_)
    fun before => silent_of_forall fun v c x hvx => ?_
  · exact fails_tableHead_iff.mpr
      ⟨(hfails "export" (by decide) hvx).append _, (hfails "const" (by decide) hvx).append _⟩
  · simp only [blockHead, fails_assoc, fails_wordEdge_append]
    exact fun _ => (hfails "relations" (by decide) hvx).append _

/-- A balanced text that ends with a parenthesis and holds neither a slash nor a word for
declarations. -/
structure IsPlainPiece (text : List Char) : Prop where
  balanced : Balanced .code text
  getLast : text.getLast? = some ')'
  ne_slash : ∀ c ∈ text, c ≠ '/'
  words : ∀ K ∈ ["export", "const", "relations"], ¬ K.toList <:+: text

instance (text : List Char) : Decidable (IsPlainPiece text) :=
  decidable_of_iff (Balanced .code text ∧ text.getLast? = some ')' ∧ (∀ c ∈ text, c ≠ '/') ∧
      ∀ K ∈ ["export", "const", "relations"], ¬ K.toList <:+: text)
    ⟨fun h => ⟨h.1, h.2.1, h.2.2.1, h.2.2.2⟩, fun h => ⟨h.1, h.2, h.3, h.4⟩⟩

lemma IsPlainPiece.isPiece (h : IsPlainPiece u) : IsPiece u := by
  obtain ⟨v, rfl⟩ := List.getLast?_eq_some_iff.mp h.getLast
  exact ⟨h.balanced, uncommented_of_balanced h.balanced h.ne_slash,
    fun _ => quiet_of_not_infix h.words⟩

/-! ### Calls -/

/-- A table call as it is written: its variable, the name of its table, the entries of its columns
and the arguments behind them. -/
structure CallText where
  binding : String
  name : String
  entries : List (List Char)
  callbacks : List (List Char)

/-- An object of columns. -/
def objectText (entries : List (List Char)) : List Char :=
  '\x7b' :: ([' '] ++ (listed entries ++ [' ']) ++ ['\x7d'])

/-- The entries that a text in an object of columns is read as. -/
def entriesIn (text : List Char) : List Entry := (splitTopLevel .code ',' text).map .ofText

lemma entriesIn_append_comma (hu : Balanced .code u) (v : List Char) :
    entriesIn (u ++ ',' :: v) = entriesIn u ++ entriesIn v := by
  rw [entriesIn, splitTopLevel_append_separator hu (by decide), List.map_append]
  rfl

namespace CallText

def arguments (call : CallText) : List (List Char) :=
  quotedName call.name :: objectText call.entries :: call.callbacks

/-- What stands behind the head of a call, up to the end of its line. -/
def body (call : CallText) : List Char := listed call.arguments ++ [')', ';', '\n']

def text (call : CallText) : List Char := callHead call.binding ++ call.body

structure Proper (call : CallText) : Prop where
  binding : IsWord call.binding.toList
  name : IsWord call.name.toList
  entries : ∀ t ∈ call.entries, IsPiece t
  callbacks : ∀ t ∈ call.callbacks, IsPiece t

/-- The call that the text is read as. -/
def read (call : CallText) : TableCall where
  binding := call.binding
  name := call.name
  entries := call.entries.flatMap entriesIn
  callbacks := (call.callbacks.flatMap (splitTopLevel .code ',')).map .ofText

end CallText

section Proper

variable (h : call.Proper)

include h

lemma isPiece_objectText : IsPiece (objectText call.entries) := by
  have hgap : IsPiece [' '] := isPiece_signs (by decide)
  exact (hgap.append ((isPiece_listed h.entries).append hgap)).bracket (by decide) (by decide)

lemma isPiece_arguments : ∀ t ∈ call.arguments, IsPiece t := by
  rw [CallText.arguments, List.forall_mem_cons, List.forall_mem_cons]
  exact ⟨isPiece_quotedName h.name, isPiece_objectText h, h.callbacks⟩

lemma quiet_body : Quiet call.body rest :=
  ((isPiece_listed (isPiece_arguments h)).quiet _).append (quiet_outside (by decide))

lemma opens_callText :
    tableHead.Opens (fun _ => True) (callHead call.binding) call.body
      [(1, call.binding.toList)] where
  ne_nil := List.append_ne_nil_of_left_ne_nil (by decide) _
  takes _ _ _ := takes_callHead h.binding
  silent _ _ := quiet_body h _ (by simp) _
  next _ := trivial

lemma entriesOf_objectText :
    entriesOf (objectText call.entries) = call.entries.flatMap entriesIn := by
  have hbalanced : ∀ t ∈ call.entries, Balanced .code t := fun t ht => (h.entries t ht).balanced
  have hgap : Balanced .code [' '] := by decide
  have hbody : bracketBody? .code (objectText call.entries)
      = some ([' '] ++ (listed call.entries ++ [' '])) := by
    have henclosed : enclosed? .code (([' '] ++ (listed call.entries ++ [' '])) ++ '\x7d' :: [])
        = some ([' '] ++ (listed call.entries ++ [' ']), []) :=
      enclosed?_of_balanced (hgap.append ((balanced_listed hbalanced).append hgap)) (by decide)
    rw [objectText, bracketBody?, if_pos (by decide), henclosed]
    rfl
  rw [entriesOf, hbody, Option.getD_some,
    splitTopLevel_listed_of_balanced hbalanced (by decide) (by decide), List.map_flatMap]
  rfl

lemma splitTopLevel_arguments : splitTopLevel .code ',' (listed call.arguments)
    = quotedName call.name :: objectText call.entries ::
        call.callbacks.flatMap (splitTopLevel .code ',') := by
  have hbalanced : ∀ t ∈ call.arguments, Balanced .code t :=
    fun t ht => (isPiece_arguments h t ht).balanced
  have hsplit := splitTopLevel_listed_of_balanced hbalanced Text.isGap_nil Text.isGap_nil
  rw [List.nil_append, List.append_nil] at hsplit
  have hname : splitTopLevel .code ',' (quotedName call.name) = [quotedName call.name] := by
    have hpart := splitTopLevel_part (isPart_quotedName h.name) Text.isGap_nil Text.isGap_nil
    rwa [List.nil_append, List.append_nil] at hpart
  have hobject : splitTopLevel .code ',' (objectText call.entries) = [objectText call.entries] := by
    have hgap : Balanced .code [' '] := by decide
    have hentries := balanced_listed fun t ht => (h.entries t ht).balanced
    have hwhole : Whole .code ',' (objectText call.entries) :=
      (hgap.append (hentries.append hgap)).whole_bracket (by decide) (by decide)
    exact hwhole.splitTopLevel_eq (by simp [objectText]; decide) (by simp [objectText]; decide)
      (List.cons_ne_nil _ _)
  rw [hsplit, CallText.arguments, List.flatMap_cons, List.flatMap_cons, hname, hobject]
  rfl

/-- What the match of a call is read as. -/
lemma ofMatch_callText (rest : List Char) :
    TableCall.ofMatch (matchOf (call.body ++ rest, [(1, call.binding.toList)]))
      = .ok call.read := by
  have henclosed : enclosed? .code (call.body ++ rest)
      = some (listed call.arguments, ';' :: '\n' :: rest) := by
    rw [CallText.body, List.append_assoc]
    exact enclosed?_of_balanced (isPiece_listed (isPiece_arguments h)).balanced (by decide)
  have hcall := ofMatch_of_enclosed call.binding h.name henclosed
    (splitTopLevel_arguments h)
  rw [hcall, CallText.read, ← entriesOf_objectText h]
  rfl

lemma uncommented_callText : Uncommented .code call.text := by
  have hword : ∀ {w}, IsWord w → Uncommented .code w := fun hw => uncommented_code fun c hc =>
    ⟨(isPlain_iff.mp (isPlain_of_isWordChar (hw.chars c hc))).1, hw.forall_ne (by decide) c hc⟩
  have hopening : ∀ t ∈ ["export ", "const ", " = pgTable("], Uncommented .code t.toList := by
    have hsigns : ∀ t ∈ ["export ", "const ", " = pgTable("], ∀ c ∈ t.toList,
        isQuote c = false ∧ c ≠ '/' := by decide
    exact fun t ht => uncommented_code (hsigns t ht)
  have hhead : Uncommented .code (callHead call.binding) :=
    (hopening _ (by decide)).append ((hopening _ (by decide)).append
      ((hword h.binding).append (hopening _ (by decide))))
  have hend : Uncommented .code [')', ';', '\n'] := uncommented_code (by decide)
  exact hhead.append ((isPiece_listed (isPiece_arguments h)).uncommented.append hend)

end Proper

/-! ### Modules -/

/-- Table calls one after the other. -/
def callTexts (calls : List CallText) : List Char := calls.flatMap CallText.text

/-- A module of table calls is read call by call. -/
theorem ofText_callTexts (h : ∀ call ∈ calls, call.Proper) :
    Contents.ofText (callTexts calls) = ⟨calls.map fun call => .ok call.read, []⟩ := by
  have hcomments : stripComments .code (callTexts calls) = callTexts calls :=
    (uncommented_flatMap fun call hcall => uncommented_callText (h call hcall)).stripComments_eq
  have hcalls : (tableHead.findAll (callTexts calls)).map TableCall.ofMatch
      = calls.map fun call => .ok call.read :=
    map_findAll_of_opens (fun _ => rfl) (fun _ => fails_nil (by decide))
      (fun call hcall => opens_callText (h call hcall))
      (fun call hcall => ofMatch_callText (h call hcall)) trivial
  have hblocks : relationBlocks (callTexts calls) = [] := by
    have hnone : blockHead.findAll (callTexts calls) = [] := by
      refine findAll_eq_nil (fun _ => wordLed_blockHead.fails_nil) fun call hcall before rest => ?_
      exact silent_append.mpr ⟨silent_callHead (h call hcall).binding,
        quiet_body (h call hcall) _ (by simp) _⟩
    rw [relationBlocks, hnone]
    rfl
  rw [Contents.ofText, hcomments, Contents.ofStripped, hcalls, hblocks]

/-- Modules whose calls are read alike define the same schema. -/
lemma schema_callTexts_congr {calls' : List CallText} (h : ∀ call ∈ calls, call.Proper)
    (h' : ∀ call ∈ calls', call.Proper) (hread : calls.map CallText.read = calls'.map CallText.read)
    (rawPath : String) : Schema.ofText .drizzle (callTexts calls) rawPath
      = Schema.ofText .drizzle (callTexts calls') rawPath := by
  have hok : ∀ calls : List CallText,
      (calls.map fun call => (.ok call.read : Except TableCallFault TableCall))
        = (calls.map CallText.read).map .ok := fun calls => by
    rw [List.map_map]
    rfl
  have hcontents : Contents.ofText (callTexts calls) = Contents.ofText (callTexts calls') := by
    rw [ofText_callTexts h, ofText_callTexts h', hok, hok, hread]
  have hschema : ∀ text, Schema.ofText .drizzle text rawPath
      = (Contents.ofText text).draft.schema .drizzle rawPath := fun _ => rfl
  rw [hschema, hschema, hcontents]

/-- A module of table calls around one entry. -/
structure ModuleAround where
  ahead : List CallText
  binding : String
  name : String
  front : List (List Char)
  behind : List (List Char)
  callbacks : List (List Char)
  back : List CallText

namespace ModuleAround

/-- The calls with an entry. -/
def callsWith (around : ModuleAround) (entry : List Char) : List CallText :=
  around.ahead ++
    ⟨around.binding, around.name, around.front ++ entry :: around.behind,
      around.callbacks⟩ :: around.back

/-- The module with an entry. -/
def textWith (around : ModuleAround) (entry : List Char) : List Char :=
  callTexts (around.callsWith entry)

structure Proper (around : ModuleAround) : Prop where
  calls : ∀ call ∈ around.ahead ++ around.back, call.Proper
  binding : IsWord around.binding.toList
  name : IsWord around.name.toList
  pieces : ∀ t ∈ around.front ++ around.behind ++ around.callbacks, IsPiece t

variable {around : ModuleAround}

lemma Proper.proper_callsWith (h : around.Proper) (hu : IsPiece u) :
    ∀ call ∈ around.callsWith u, call.Proper := by
  obtain ⟨hcalls, hbinding, hname, hpieces⟩ := h
  rw [List.forall_mem_append] at hcalls
  rw [List.forall_mem_append, List.forall_mem_append] at hpieces
  refine List.forall_mem_append.mpr
    ⟨hcalls.1, List.forall_mem_cons.mpr ⟨⟨hbinding, hname, ?_, hpieces.2⟩,
    hcalls.2⟩⟩
  exact List.forall_mem_append.mpr ⟨hpieces.1.1, List.forall_mem_cons.mpr ⟨hu, hpieces.1.2⟩⟩

/-- Two entries that are read alike make the same schema. -/
theorem Proper.schema_congr (h : around.Proper) (hu : IsPiece u) (hv : IsPiece v)
    (hread : entriesIn u = entriesIn v) (rawPath : String) :
    Schema.ofText .drizzle (around.textWith u) rawPath
      = Schema.ofText .drizzle (around.textWith v) rawPath := by
  refine schema_callTexts_congr (h.proper_callsWith hu) (h.proper_callsWith hv) ?_ rawPath
  simp [callsWith, CallText.read, List.flatMap_append, hread]

end ModuleAround

end SchemaReader.TableModule
