/-
Written blocks of all kinds, one after the other.

* `WrittenBlock`: a written model, enumeration or composite type, with the line feed behind it;
* `Proper.eq_nil_of_reads`: in the text of a block no head of a block is read but its own, and that
  one at its beginning;
* `Proper.opens_model`, `Proper.passes_model` and the like: so a scan for the heads of a kind comes
  upon the block, or passes it;
* `ofText_blocks`: blocks one after the other are read as their models and declarations.
-/
import SchemaReader.Proofs.Common.ModelFile
import SchemaReader.Proofs.Lexical.Lists
import SchemaReader.Proofs.Lexical.Stripping
import SchemaReader.Proofs.ModelFile.Meaning
import SchemaReader.Proofs.ModelFile.Surrounded

namespace SchemaReader.ModelFile

open Text (IsWord IsGap Stops isBlank isWordChar)
open Pattern

variable {before rest more u v w x y g h n s t : List Char} {kind : String}

/-! ### Words behind white space -/

/-- A word behind white space is read off in one way only. -/
lemma gap_word_unique {g' w' v' : List Char} (hg : IsGap g) (hg' : IsGap g') (hw : IsWord w)
    (hw' : IsWord w') (hv : Stops isWordChar v) (hv' : Stops isWordChar v')
    (h : g ++ (w ++ v) = g' ++ (w' ++ v')) : g = g' ∧ w = w' ∧ v = v' := by
  obtain rfl : g = g' := by
    have htake := congrArg (List.takeWhile isBlank) h
    rwa [Text.takeWhile_append_of_stops hg (hw.stops_isBlank v),
      Text.takeWhile_append_of_stops hg' (hw'.stops_isBlank v')] at htake
  have hwords : w ++ v = w' ++ v' := List.append_cancel_left h
  obtain rfl : w = w' := by
    have htake := congrArg (List.takeWhile isWordChar) hwords
    rwa [Text.takeWhile_append_of_stops hw.chars hv,
      Text.takeWhile_append_of_stops hw'.chars hv'] at htake
  exact ⟨rfl, rfl, List.append_cancel_left hwords⟩

lemma isGap_reverse (hg : IsGap g) : IsGap g.reverse := fun c hc => hg c (List.mem_reverse.mp hc)

lemma isWord_reverse (hw : IsWord w) : IsWord w.reverse :=
  ⟨List.reverse_ne_nil_iff.mpr hw.ne_nil, fun c hc => hw.chars c (List.mem_reverse.mp hc)⟩

/-! ### Written blocks -/

/-- What a block declares. -/
inductive BlockKind where
  | model
  | enum
  | type
  deriving DecidableEq, Repr

/-- The word that a block of a kind begins with. -/
def BlockKind.word : BlockKind → String
  | .model => "model"
  | .enum => "enum"
  | .type => "type"

lemma BlockKind.word_mem (kind : BlockKind) : kind.word ∈ blockKinds := by cases kind <;> decide

/-- A written block: what stands before its word, behind it, the name, what stands behind the name,
the text in brackets, and what stands behind it up to a line feed. -/
structure WrittenBlock where
  kind : BlockKind
  indent : List Char
  gap : List Char
  name : List Char
  space : List Char
  body : List Char
  trail : List Char

namespace WrittenBlock

/-- The block up to its bracket. -/
def front (block : WrittenBlock) : List Char :=
  block.indent ++ (block.kind.word.toList ++ (block.gap ++ (block.name ++ block.space)))

/-- The block behind its bracket, with the line feed. -/
def tail (block : WrittenBlock) : List Char :=
  block.body ++ '\x7d' :: (block.trail ++ ['\n'])

/-- The block, with the line feed. -/
def text (block : WrittenBlock) : List Char :=
  (block.front ++ ['\x7b']) ++ block.tail

end WrittenBlock

/-- The curly brackets of a text stand in literals. -/
def BracesInside (text : List Char) : Prop :=
  ∀ u ∈ text.inits, u ++ ['\x7b'] <+: text ∨ u ++ ['\x7d'] <+: text →
    (Literal.outside.after .code u) ≠ .outside

instance (text : List Char) : Decidable (BracesInside text) :=
  inferInstanceAs (Decidable (∀ u ∈ text.inits, _))

/-- A block begins a line, it holds no comment, its brackets and literals are closed, no curly
bracket stands outside of literals, and no literal goes on behind the end of a line. -/
structure WrittenBlock.Proper (block : WrittenBlock) : Prop where
  indent : ∀ c ∈ block.indent, (c == ' ' || c == '\t') = true
  gap : IsGap block.gap ∧ block.gap ≠ []
  name : IsWord block.name
  space : IsGap block.space
  comments : stripComments .code block.body = block.body
  balanced : Balanced .code block.body
  braces : BracesInside block.body
  lines : LinesOutside block.body
  trail : IsGap block.trail

instance (block : WrittenBlock) : Decidable block.Proper :=
  decidable_of_iff ((∀ c ∈ block.indent, (c == ' ' || c == '\t') = true) ∧
      (IsGap block.gap ∧ block.gap ≠ []) ∧ IsWord block.name ∧ IsGap block.space ∧
      stripComments .code block.body = block.body ∧ Balanced .code block.body ∧
      BracesInside block.body ∧ LinesOutside block.body ∧ IsGap block.trail)
    ⟨fun ⟨indent, gap, name, space, comments, balanced, braces, lines, trail⟩ =>
      ⟨indent, gap, name, space, comments, balanced, braces, lines, trail⟩,
    fun h => ⟨h.indent, h.gap, h.name, h.space, h.comments, h.balanced, h.braces, h.lines, h.trail⟩⟩

variable {block : WrittenBlock}

/-! ### Places in a block -/

lemma WrittenBlock.Proper.parts (h : block.Proper) :
    HeadParts block.kind.word.toList block.indent block.gap block.name block.space :=
  ⟨isWord_of_mem_blockKinds block.kind.word_mem, h.indent, h.gap.1, h.gap.2, h.name, h.space⟩

/-- A head of a block that ends with the bracket of a block is the one of the block. -/
lemma WrittenBlock.Proper.head_unique (h : block.Proper) (hparts : HeadParts kind.toList t g n s)
    (hline : (Cursor.mk (v.reverse ++ before) [] 0).atLineStart = true)
    (hfront : v ++ (t ++ (kind.toList ++ (g ++ (n ++ s)))) = block.front) :
    v = [] ∧ kind.toList = block.kind.word.toList := by
  have hreverse := congrArg List.reverse hfront
  simp only [WrittenBlock.front, List.reverse_append, List.append_assoc] at hreverse
  -- from the bracket backwards, the name, the word of the kind and the beginning of the line
  have hgap : ∀ {g : List Char} (u : List Char), IsGap g → g ≠ [] →
      Stops isWordChar (g.reverse ++ u) :=
    fun u hg hne => (isGap_reverse hg).stops_of_ne_nil (List.reverse_ne_nil_iff.mpr hne)
      (fun _ => Text.not_isWordChar_of_isBlank) u
  obtain ⟨-, -, hreverse⟩ := gap_word_unique (isGap_reverse hparts.space) (isGap_reverse h.space)
    (isWord_reverse hparts.name) (isWord_reverse h.name) (hgap _ hparts.gap hparts.gap_ne_nil)
    (hgap _ h.gap.1 h.gap.2) hreverse
  have hindent : Stops isWordChar block.indent.reverse := by
    simpa using (isGap_reverse h.parts.isGap_indent).stops
      (fun _ => Text.not_isWordChar_of_isBlank) Text.stops_nil
  have hbefore : Stops isWordChar (t.reverse ++ v.reverse) := by
    rw [← List.reverse_append]
    exact stops_of_atLineStart hline hparts.indent
  obtain ⟨-, hkinds, hreverse⟩ := gap_word_unique (isGap_reverse hparts.gap) (isGap_reverse h.gap.1)
    (isWord_reverse hparts.word) (isWord_reverse h.parts.word) hbefore hindent hreverse
  refine ⟨?_, List.reverse_inj.mp hkinds⟩
  obtain rfl | ⟨v, c, rfl⟩ := List.eq_nil_or_concat v
  · rfl
  · obtain rfl : c = '\n' := by simpa [Cursor.atLineStart] using hline
    have hmem : '\n' ∈ block.indent.reverse := by
      rw [← hreverse]
      simp
    have hspace := h.indent '\n' (List.mem_reverse.mp hmem)
    simp at hspace

/-- No curly bracket follows a line of plain characters. -/
lemma BracesInside.not_behind_line (h : BracesInside (x ++ '\n' :: (w ++ '\x7b' :: y)))
    (hlines : LinesOutside (x ++ '\n' :: (w ++ '\x7b' :: y))) (hw : ∀ c ∈ w, isPlain c = true) :
    False := by
  obtain ⟨n, hbracket⟩ := hlines.exists_depth_behind hw
  have htext : x ++ '\n' :: (w ++ '\x7b' :: y) = (x ++ '\n' :: w) ++ '\x7b' :: y := by simp
  rw [htext] at h
  refine h (x ++ '\n' :: w) ((List.mem_inits _ _).mpr (List.prefix_append _ _))
    (Or.inl ⟨y, by simp⟩) (after_of_depthAfter? hbracket)

/-- No head of a block begins in the white space before a line feed, up to the line feed. -/
lemma not_word_behind_gap {q : List Char} (hg : IsGap g) (hx : x ≠ []) (hgap : u ++ x = g ++ ['\n'])
    (hparts : HeadParts w t h n s) (htext : x ++ more = t ++ (w ++ q)) : False := by
  obtain ⟨y, c, rfl⟩ := (List.eq_nil_or_concat x).resolve_left hx
  rw [List.concat_eq_append, ← List.append_assoc] at hgap
  obtain ⟨rfl, hc⟩ := List.append_inj' hgap rfl
  obtain rfl := List.singleton_inj.mp hc
  have htake := congrArg (List.takeWhile isBlank) htext
  rw [Text.takeWhile_append_of_stops hparts.isGap_indent (hparts.word.stops_isBlank q)] at htake
  have hblank : ∀ c ∈ y.concat '\n', isBlank c = true := by
    intro c hc
    rcases List.mem_append.mp (List.concat_eq_append ▸ hc) with hc | hc
    · exact hg c (List.mem_append_right u hc)
    · obtain rfl := List.mem_singleton.mp hc
      decide
  rw [List.takeWhile_append_of_pos hblank] at htake
  have hmem : '\n' ∈ t := by
    rw [← htake]
    simp
  have hspace := hparts.indent '\n' hmem
  simp at hspace

namespace WrittenBlock

/-- In the text of a block no head of a block begins but its own, and that one at its beginning. -/
theorem Proper.eq_nil_of_reads (h : block.Proper) (hkind : kind ∈ blockKinds)
    (hx : x ≠ []) (hblock : block.text = v ++ x) (htext : x ++ more = w ++ rest)
    (hread : (blockHead kind).Reads (v.reverse ++ before) w rest) :
    v = [] ∧ kind.toList = block.kind.word.toList := by
  have hkindWord := isWord_of_mem_blockKinds hkind
  obtain ⟨t, g, n, s, hparts, rfl, hline⟩ := exists_parts_of_reads hkindWord hread
  have hplain := hparts.plain
  have hbrace : ∀ c, isPlain c = false → c ∉ t ++ (kind.toList ++ (g ++ (n ++ s))) :=
    fun c hc hmem => by simp [hplain c hmem] at hc
  have hall : block.front ++ '\x7b' :: (block.tail ++ more)
      = (v ++ (t ++ (kind.toList ++ (g ++ (n ++ s))))) ++ '\x7b' :: rest := by
    have hmore := congrArg (· ++ more) hblock
    simp only [text, List.append_assoc, htext] at hmore
    simpa using hmore
  have hopen : '\x7b' ∉ block.front := fun hmem =>
    h.parts.ne_of_mem (by decide) (by decide) _ hmem rfl
  obtain hfront | ⟨z, hz, htail⟩ := eq_or_exists_append hopen hall
  · exact h.head_unique hparts hline hfront
  exfalso
  -- the head begins with a line behind the bracket
  obtain ⟨z, rfl, rfl⟩ := exists_append_of_not_mem (hbrace _ (by decide)) hz
  obtain rfl | ⟨z, c, rfl⟩ := List.eq_nil_or_concat z
  · simp [Cursor.atLineStart] at hline
  obtain rfl : c = '\n' := by simpa [Cursor.atLineStart] using hline
  obtain ⟨y, hbody, hrest⟩ | ⟨y, hy, hrest⟩ := List.append_eq_append_iff.mp
    (htail.symm.trans (List.append_assoc _ _ _))
  · -- within the body a bracket would follow the line
    cases y with
    | nil => cases hrest
    | cons d y =>
        obtain ⟨rfl, -⟩ := List.cons.inj hrest
        have hbraces := h.braces
        have hlines := h.lines
        rw [hbody] at hbraces hlines
        exact BracesInside.not_behind_line (by simpa using hbraces) (by simpa using hlines) hplain
  · -- behind the body only white space is left up to the next block
    cases y with
    | nil => cases hrest
    | cons d y =>
        obtain ⟨rfl, -⟩ := List.cons.inj hrest
        obtain ⟨y, hline, rfl⟩ := exists_append_of_not_mem (hbrace _ (by decide)) hy
        rw [hline] at hblock
        have hbehind : block.trail ++ ['\n'] = y ++ x := by simpa [text, tail] using hblock
        exact not_word_behind_gap h.trail hx hbehind.symm hparts (by simpa using htext)

/-! ### Scanning a block -/

/-- No head of a block of another kind begins in a block. -/
lemma Proper.silent_text (h : block.Proper) (hkind : kind ∈ blockKinds)
    (hne : kind ≠ block.kind.word) : Silent (blockHead kind) before block.text rest := by
  refine silent_of_forall fun v c x hblock w rest' htext hread => hne ?_
  obtain ⟨-, hword⟩ := h.eq_nil_of_reads hkind (List.cons_ne_nil c x) hblock htext hread
  exact String.toList_injective hword

/-- No head of a block begins behind the one of a block. -/
lemma Proper.silent_tail (h : block.Proper) (hkind : kind ∈ blockKinds) :
    Silent (blockHead kind) ((block.front ++ ['\x7b']).reverse ++ before) block.tail rest := by
  refine silent_of_forall fun v c x htail w rest' htext hread => ?_
  have hblock : block.text = ((block.front ++ ['\x7b']) ++ v) ++ c :: x := by
    rw [text, htail, List.append_assoc, List.append_assoc, List.append_assoc]
  rw [← List.append_assoc, ← List.reverse_append] at hread
  obtain ⟨hnil, -⟩ := h.eq_nil_of_reads hkind (List.cons_ne_nil c x) hblock htext hread
  simp at hnil

/-- A block ends with a line feed. -/
lemma text_eq (block : WrittenBlock) : block.text
    = (block.front ++ '\x7b' :: (block.body ++ '\x7d' :: block.trail)) ++ ['\n'] := by
  simp [text, tail]

lemma beginsLine_text (block : WrittenBlock) (before : List Char) :
    BeginsLine (block.text.reverse ++ before) := by
  simp [text_eq, BeginsLine, Cursor.atLineStart]

/-- A scan for models comes upon a model. -/
lemma Proper.opens_model (h : block.Proper) (hkind : block.kind = .model) :
    modelHead.Opens BeginsLine (block.front ++ ['\x7b']) block.tail [(1, block.name)] where
  ne_nil := by simp
  takes before rest hbefore := h.parts.takes hbefore fun _ _ => by
    rw [hkind]
    exact takes_lit "model"
  silent before rest := modelHead_eq ▸ h.silent_tail (by decide)
  next before := block.beginsLine_text before

/-- It passes the other blocks. -/
lemma Proper.passes_model (h : block.Proper) (hkind : block.kind ≠ .model) :
    modelHead.Passes BeginsLine block.text where
  silent before rest _ := by
    refine modelHead_eq ▸ h.silent_text (by decide) ?_
    cases hk : block.kind with
    | model => exact absurd hk hkind
    | enum | type => decide
  next before := block.beginsLine_text before

/-- A scan for declarations comes upon an enumeration or a composite type. -/
lemma Proper.opens_declaration (h : block.Proper) (hkind : block.kind ≠ .model) :
    declarationHead.Opens BeginsLine (block.front ++ ['\x7b']) block.tail [(1, block.name)] where
  ne_nil := by simp
  takes before rest hbefore := h.parts.takes hbefore fun _ _ => by
    cases hk : block.kind with
    | model => exact absurd hk hkind
    | enum => exact (takes_lit "enum").alt_left _
    | type =>
        refine (takes_lit "type").alt_right ?_
        exact fails_of_not_mayBegin (by decide) (by decide)
  silent before rest :=
    silent_declarationHead (h.silent_tail (by decide)) (h.silent_tail (by decide))
  next before := block.beginsLine_text before

/-- It passes the models. -/
lemma Proper.passes_declaration (h : block.Proper) (hkind : block.kind = .model) :
    declarationHead.Passes BeginsLine block.text where
  silent before rest _ := silent_declarationHead
    (h.silent_text (by decide) (by rw [hkind]; decide))
    (h.silent_text (by decide) (by rw [hkind]; decide))
  next before := block.beginsLine_text before

/-! ### Comments -/

/-- No comment opens in a block, and the block ends outside of literals. -/
lemma Proper.commentFree (h : block.Proper) :
    CommentFree .code .outside block.text ∧ Literal.outside.after .code block.text = .outside := by
  have hblank : ∀ c, isBlank c = true → isQuote c = false ∧ c ≠ '/' := by
    rintro c hc
    refine ⟨Text.not_isQuote_of_isBlank hc, ?_⟩
    rintro rfl
    exact absurd hc (by decide)
  have hword : ∀ c, isWordChar c = true → isQuote c = false ∧ c ≠ '/' := fun c hc =>
    ⟨(isPlain_iff.mp (isPlain_of_isWordChar hc)).1, Text.ne_of_isWordChar hc (by decide)⟩
  have hhead : ∀ c ∈ block.front ++ ['\x7b'], isQuote c = false ∧ c ≠ '/' :=
    List.forall_mem_append.mpr ⟨h.parts.forall_mem hblank hword, by decide⟩
  have hbehind : ∀ c ∈ '\x7d' :: (block.trail ++ ['\n']), isQuote c = false ∧ c ≠ '/' := by
    simp only [List.forall_mem_cons, List.forall_mem_append]
    exact ⟨by decide, fun c hc => hblank c (h.trail c hc), by decide, by simp⟩
  have hfree : ∀ {u : List Char}, (∀ c ∈ u, isQuote c = false ∧ c ≠ '/') →
      CommentFree .code .outside u := fun hu =>
    commentFree_of_forall_ne ordinary_code fun c hc => ⟨(hu c hc).2, (hu c hc).2⟩
  have houtside : ∀ {u : List Char}, (∀ c ∈ u, isQuote c = false ∧ c ≠ '/') →
      Literal.outside.after .code u = .outside := fun hu =>
    Literal.after_of_not_quote fun c hc => (hu c hc).1
  have hbody : Literal.outside.after .code block.body = .outside := after_of_depthAfter? h.balanced
  have hclose : CommentFree .code .outside block.tail := by
    refine ((commentFree_iff ordinary_code).mpr h.comments).append ordinary_code hbody
      (hfree hbehind) fun c _ d hd => ?_
    obtain rfl : '\x7d' = d := Option.some.inj hd
    simp [opensComment_cons_iff ordinary_code]
  refine ⟨(hfree hhead).append ordinary_code (houtside hhead) hclose fun c hc d _ => ?_, ?_⟩
  · obtain rfl : '\x7b' = c := by simpa using hc
    exact not_opensComment_of_ne ordinary_code (by decide) (by decide)
  · rw [text, tail, Literal.after_append, houtside hhead, Literal.after_append, hbody,
      houtside hbehind]

end WrittenBlock

/-! ### Blocks one after the other -/

variable {blocks : List WrittenBlock}

/-- The text of blocks one after the other. -/
def textOf (blocks : List WrittenBlock) : List Char := blocks.flatMap WrittenBlock.text

lemma stripComments_textOf (h : ∀ block ∈ blocks, block.Proper) :
    stripComments .code (textOf blocks) = textOf blocks := by
  refine (commentFree_iff ordinary_code).mp ?_
  rw [textOf]
  induction blocks with
  | nil => exact commentFree_nil ordinary_code
  | cons block blocks ih =>
      rw [List.forall_mem_cons] at h
      obtain ⟨hfree, hafter⟩ := h.1.commentFree
      rw [List.flatMap_cons]
      refine hfree.append ordinary_code hafter (ih h.2) fun c hc d _ => ?_
      rw [block.text_eq, List.getLast?_concat] at hc
      obtain rfl := Option.some.inj hc
      exact not_opensComment_of_ne ordinary_code (by decide) (by decide)

/-- Whether a block is a model. -/
def WrittenBlock.isModel (block : WrittenBlock) : Bool := block.kind == .model

/-- The model of a block. -/
def WrittenBlock.model (block : WrittenBlock) : Model :=
  .ofBody (String.ofList block.name) block.body

/-- The models and declarations of blocks. -/
def contentsOf (blocks : List WrittenBlock) : Contents where
  models := (blocks.filter WrittenBlock.isModel).map fun block => some block.model
  declared := (blocks.filter fun block => !block.isModel).map fun block => String.ofList block.name

/-- Blocks one after the other are read as their models and declarations. -/
theorem ofText_blocks (h : ∀ block ∈ blocks, block.Proper) :
    Contents.ofText (textOf blocks) = contentsOf blocks := by
  have htext : textOf blocks
      = blocks.flatMap fun block => (block.front ++ ['\x7b']) ++ block.tail := rfl
  have hmodel : ∀ {block : WrittenBlock}, block.isModel = true ↔ block.kind = .model := by
    simp [WrittenBlock.isModel]
  rw [Contents.ofText, stripComments_textOf h, Contents.ofStripped, contentsOf, htext]
  congr 1
  · refine map_findAll_of_opens_or_passes (fun _ => rfl) (fun _ => fails_nil (by decide))
      WrittenBlock.isModel (fun block hb hkind => (h block hb).opens_model (hmodel.mp hkind))
      (fun block hb hkind => (h block hb).passes_model (mt hmodel.mpr hkind)) ?_ rfl
    intro block hb _ rest
    have henclosed : enclosed? .code (block.tail ++ rest)
        = some (block.body, block.trail ++ '\n' :: rest) := by
      have hbody : enclosed? .code (block.body ++ '\x7d' :: (block.trail ++ '\n' :: rest))
          = some (block.body, block.trail ++ '\n' :: rest) :=
        enclosed?_of_balanced (h block hb).balanced (by decide)
      simpa [WrittenBlock.tail] using hbody
    simp [Model.ofMatch?, matchOf, henclosed, Match.group, Match.group?, WrittenBlock.model,
      Model.ofBody]
  · have hopens : ∀ block ∈ blocks, (!block.isModel) = true → declarationHead.Opens BeginsLine
        (block.front ++ ['\x7b']) block.tail [(1, block.name)] := fun block hb hkind =>
      (h block hb).opens_declaration (by simpa [WrittenBlock.isModel] using hkind)
    have hpasses : ∀ block ∈ blocks, ¬ (!block.isModel) = true →
        declarationHead.Passes BeginsLine block.text := fun block hb hkind =>
      (h block hb).passes_declaration (by simpa [WrittenBlock.isModel] using hkind)
    refine map_findAll_of_opens_or_passes (fun _ => rfl) (fun _ => fails_nil (by decide)) _
      hopens hpasses (fun block _ _ rest => ?_) rfl
    simp [matchOf, Match.group, Match.group?]

end SchemaReader.ModelFile
