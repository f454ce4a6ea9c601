/-
Literals in the lines of fields.

* `LiteralPlace`: a place for a literal among the attributes of a field, in a file;
* `exists_finds_place`: whatever the literal holds, the heads of blocks are found where they were;
* `alike_enclosed`: the models that are open at the literal go on behind it, and differ in one line;
* `ofText_of_inert`: two inert literals give the same schema.
-/
import SchemaReader.Proofs.Lexical.Separated
import SchemaReader.Proofs.ModelFile.AlikeModels
import SchemaReader.Proofs.ModelFile.AttributeLiterals
import SchemaReader.Proofs.ModelFile.WrittenBlocks
import SchemaReader.Proofs.ModelFile.WrittenFields

namespace SchemaReader.ModelFile

open Pattern
open Text (IsWord IsGap Stops isWordChar isBlank)

variable {before rest next s s' t u v w x y : List Char} {q : Pattern} {kind : String}
    {place : LiteralPlace}

/-! ### The heads of blocks -/

/-- The patterns of heads. -/
def headForms : List Pattern := [modelHead, declarationHead]

/-- A head is the head of a block of a kind. -/
lemma exists_blockHead (hq : q ∈ headForms) (h : q.Reads before w rest) :
    ∃ kind ∈ blockKinds, (blockHead kind).Reads before w rest := by
  simp only [headForms, List.mem_cons, List.not_mem_nil, or_false] at hq
  obtain rfl | rfl := hq
  · exact ⟨"model", by decide, modelHead_eq ▸ h⟩
  · simp only [declarationHead, blockHead, reads_assoc] at h ⊢
    obtain ⟨u, v, rfl, hu, hv⟩ := h
    obtain hv | hv := reads_alt_append.mp hv
    · exact ⟨"enum", by decide, u, v, rfl, hu, hv⟩
    · exact ⟨"type", by decide, u, v, rfl, hu, hv⟩

lemma headForm_facts (hq : q ∈ headForms) :
    q.isLed = true ∧ q.nullable = false ∧ q.neverReads '"' = true := by
  have hall : ∀ q ∈ headForms, q.isLed = true ∧ q.nullable = false ∧ q.neverReads '"' = true := by
    decide
  exact hall q hq

lemma lineLed_headForm (hq : q ∈ headForms) : q.LineLed := by
  simp only [headForms, List.mem_cons, List.not_mem_nil, or_false] at hq
  obtain rfl | rfl := hq
  · exact (lineLed_lineStart.append _).append _
  · exact (lineLed_lineStart.append _).append _

/-- No head goes on into a text that begins with two words. -/
lemma staysIn_headForm (hq : q ∈ headForms) (hnext : OpensWords next) (u : List Char) :
    q.StaysIn (u ++ ['\n']) next := by
  intro before x y rest hx hxu hy htext hread
  obtain ⟨kind, hkind, hblock⟩ := exists_blockHead hq hread
  have hnever : ∀ kind ∈ blockKinds, (lit kind).neverReads '\n' = true := by decide
  exact staysIn_blockHead hnext (hnever kind hkind) u before x y rest hx hxu hy htext hblock

/-- Behind two words a head needs a bracket. -/
lemma fails_headForm {t n g m behind : List Char} (hq : q ∈ headForms) (ht : IsGap t)
    (hn : IsWord n)
    (hg : IsGap g) (hne : g ≠ []) (hm : IsWord m) (hword : Stops isWordChar behind)
    (hbracket : Stops (· == '\x7b') (behind.dropWhile isBlank)) :
    q.Fails before (t ++ (n ++ (g ++ (m ++ behind)))) := by
  intro w rest htext hread
  obtain ⟨kind, hkind, hblock⟩ := exists_blockHead hq hread
  obtain ⟨t', g', n', s', hparts, rfl, -⟩ :=
    exists_parts_of_reads (isWord_of_mem_blockKinds hkind) hblock
  have hgap : ∀ {g v : List Char}, IsGap g → g ≠ [] → Stops isWordChar (g ++ v) := fun hg hne =>
    hg.stops_of_ne_nil hne (fun _ => Text.not_isWordChar_of_isBlank) _
  have hspace : Stops isWordChar (s' ++ '\x7b' :: rest) :=
    hparts.space.stops (fun _ => Text.not_isWordChar_of_isBlank) (by simp; decide)
  simp only [List.append_assoc, List.singleton_append] at htext
  obtain ⟨-, -, hrest⟩ := gap_word_unique ht hparts.isGap_indent hn hparts.word (hgap hg hne)
    (hgap hparts.gap hparts.gap_ne_nil) htext
  obtain ⟨-, -, rfl⟩ := gap_word_unique hg hparts.gap hm hparts.name hword hspace hrest
  rw [Text.dropWhile_append_of_stops hparts.space (by simp; decide)] at hbracket
  simp at hbracket

/-! ### Places for a literal -/

/-- A text that stands in a literal as it is. -/
def IsLiteralText (s : List Char) : Prop := ∀ c ∈ s, c ≠ '"' ∧ c ≠ '\\' ∧ c ≠ '\n'

instance (s : List Char) : Decidable (IsLiteralText s) := inferInstanceAs (Decidable (∀ _ ∈ _, _))

lemma IsLiteralText.keeps (hs : IsLiteralText s) : ∀ c ∈ s, Dialect.code.Keeps '"' c :=
  fun c hc => ⟨(hs c hc).1, fun _ => (hs c hc).2.1⟩

lemma IsLiteralText.literalContent (hs : IsLiteralText s) : LiteralContent .code '"' s := by
  refine literalContent_iff.mpr ⟨by decide, ?_⟩
  induction s with
  | nil => exact .nil
  | cons c s ih =>
      rw [IsLiteralText, List.forall_mem_cons] at hs
      exact .keep ⟨hs.1.1, fun _ => hs.1.2.1⟩ (ih hs.2)

lemma IsLiteralText.ne_lineFeed (hs : IsLiteralText s) : ∀ c ∈ quoted s, c ≠ '\n' := by
  simp only [quoted, List.forall_mem_cons, List.forall_mem_append]
  exact ⟨by decide, fun c hc => (hs c hc).2.2, by decide, by simp⟩

/-- A place for a literal in a file: the file up to the literal, the lines above it without their
comments, the line up to the literal, which is a field with what stands among its attributes before
the literal, and the rest of the file. -/
structure LiteralPlace where
  ahead : List Char
  above : List Char
  indent : List Char
  field : WrittenField
  behind : List Char

namespace LiteralPlace

/-- The file with a literal at the place. -/
def text (place : LiteralPlace) (s : List Char) : List Char :=
  place.ahead ++ (quoted s ++ place.behind)

/-- The line up to the literal. -/
def front (place : LiteralPlace) : List Char := place.indent ++ place.field.text

/-- The place is outside of comments and literals, and so are the beginnings of the lines above; the
field stands in a line of its own and is not the head of a block, and the literal does not stand in
a list of a relation. -/
structure Proper (place : LiteralPlace) : Prop where
  ends : EndsInText .code place.ahead
  stripped : stripComments .code place.ahead = place.above ++ '\n' :: place.front
  lines : ∀ v ∈ (place.above ++ ['\n']).inits, v ++ ['\n'] <+: place.above ++ ['\n'] →
    Literal.outside.after .code v = .outside
  indent : IsGap place.indent
  line : '\n' ∉ place.front
  field : place.field.Proper
  bracket : Stops (· == '\x7b') (place.field.behind.dropWhile isBlank)
  lists : BehindLists place.field.attributes

/-- The lines above, with the line feed of the last one. -/
def lead (place : LiteralPlace) : List Char := place.above ++ ['\n']

/-- The file behind the literal, without comments. -/
def below (place : LiteralPlace) : List Char := stripComments .code place.behind

lemma Proper.stripComments_text (h : place.Proper) (hs : IsLiteralText s) :
    stripComments .code (place.text s)
      = place.lead ++ (place.front ++ (quoted s ++ place.below)) := by
  rw [text, h.ends.stripComments_append ordinary_code, h.stripped, quoted_append,
    hs.literalContent.stripComments_eq]
  simp [lead, below, quoted]

/-! ### Heads above and below -/

lemma Proper.front_eq (place : LiteralPlace) : place.front
    = place.indent ++ (place.field.name ++
      (place.field.gap ++ (place.field.type ++ place.field.behind))) := rfl

lemma Proper.stops_behind (h : place.Proper) (v : List Char) :
    Stops isWordChar (place.field.behind ++ '"' :: v) := by
  have hquote : Stops isWordChar ('"' :: v) := by
    simp
    decide
  cases hargument : place.field.argument with
  | none => exact (h.field.bare hargument).1.append hquote
  | some argument =>
      rw [WrittenField.behind, hargument]
      simp [WrittenField.argumentText]
      decide

/-- No head begins in the line of the field. -/
lemma Proper.silent_front (h : place.Proper) (hq : q ∈ headForms) (v : List Char) :
    Silent q before place.front ('"' :: v) := by
  refine (lineLed_headForm hq).silent_piece (fun c hc => fun hfeed => h.line (hfeed ▸ hc)) ?_
  have hbracket : Stops (· == '\x7b') ((place.field.behind ++ '"' :: v).dropWhile isBlank) := by
    rw [List.dropWhile_append]
    split
    · rw [List.dropWhile_cons_of_neg (by decide)]
      simp
    · exact h.bracket.append (by simp)
  rw [front_eq]
  simp only [List.append_assoc]
  exact fails_headForm hq h.indent h.field.name h.field.gap.1 h.field.gap.2 h.field.type
    (h.stops_behind v)
    hbracket

lemma Proper.opensWords (h : place.Proper) (v : List Char) : OpensWords (place.front ++ v) := by
  refine ⟨place.indent, place.field.name, place.field.gap,
    place.field.type ++ (place.field.behind ++ v), ?_, h.indent, h.field.name, h.field.gap.1,
    h.field.gap.2, h.field.type.not_stops _⟩
  simp [front_eq]

/-- Whatever the literal holds, the heads of blocks are found where they were. -/
theorem Proper.exists_finds (h : place.Proper) (hq : q ∈ headForms) : ∃ found found',
    Finds q [] place.lead found ∧ ∀ s, IsLiteralText s →
      Finds q [] (place.lead ++ (place.front ++ (quoted s ++ place.below)))
        (extend (place.front ++ (quoted s ++ place.below)) found ++ found') := by
  obtain ⟨hled, hnull, hnever⟩ := headForm_facts hq
  obtain ⟨found, hfound⟩ := Pattern.exists_finds hnull [] place.lead
  obtain ⟨found', hfound'⟩ := Pattern.exists_finds hnull ['"'] place.below
  refine ⟨found, found', hfound, fun s hs => ?_⟩
  refine hfound.append hled (Alike.refl []) (staysIn_headForm hq (h.opensWords _) place.above) ?_
  have hliteral : ∀ {before}, Silent q before (quoted s) place.below := by
    refine (lineLed_headForm hq).silent_piece hs.ne_lineFeed ?_
    rw [quoted_append]
    exact fails_of_neverReads hnull hnever
  refine Finds.skip (by rw [quoted_append]; exact h.silent_front hq _) (Finds.skip hliteral ?_)
  refine hfound'.alike hled hnull ?_
  simpa [quoted] using alike_cons '"' _ []

/-! ### The line of the field -/

/-- The field with a literal and what stands behind it in the line. -/
def written (place : LiteralPlace) (s y : List Char) : WrittenField :=
  { place.field with attributes := place.field.attributes ++ (quoted s ++ y) }

lemma behind_written (place : LiteralPlace) (s y : List Char) :
    (place.written s y).behind = place.field.behind ++ (quoted s ++ y) := by
  change WrittenField.argumentText place.field.argument ++ (modifiersText place.field.modifiers ++
    (place.field.attributes ++ (quoted s ++ y))) = _
  simp [WrittenField.behind]

lemma text_written (place : LiteralPlace) (s y : List Char) :
    (place.written s y).text = place.field.text ++ (quoted s ++ y) := by
  change place.field.name ++ (place.field.gap ++ (place.field.type ++ (place.written s y).behind))
    = _
  simp [behind_written, WrittenField.text]

lemma Proper.written (h : place.Proper) (hs : IsLiteralText s) (hy : '\n' ∉ y) :
    (place.written s y).Proper where
  name := h.field.name
  gap := h.field.gap
  type := h.field.type
  argument := h.field.argument
  bare hnone := by
    rw [behind_written, quoted_append]
    exact ⟨h.stops_behind _, (h.field.bare hnone).2.append (by simp)⟩
  unmodified m hm := by
    obtain ⟨t, ht⟩ := hm
    have hquote : '"' ∉ m.text := by cases m <;> decide
    have htext : place.field.attributes ++ '"' :: (s ++ '"' :: y) = [] ++ (m.text ++ t) := by
      rw [← quoted_append, List.nil_append, ht, LiteralPlace.written]
    obtain ⟨z, hz, -⟩ | ⟨z, hz, -⟩ := piece_cases hquote htext
    · exact h.field.unmodified m ⟨z, hz.symm⟩
    · simp at hz
  line := by
    have hquoted : '\n' ∉ quoted s := fun hmem => hs.ne_lineFeed _ hmem rfl
    simpa [LiteralPlace.written, hquoted, hy] using h.field.line

/-- The line is read as the field. -/
lemma Proper.exists_ofText_line (h : place.Proper) {line : List Char} (hline : '\n' ∉ line) :
    ∃ y, ∀ s, IsLiteralText s →
      Line.ofText (place.front ++ (quoted s ++ line)) = .field (place.written s y).field := by
  obtain ⟨y, g, rfl, hg, hy⟩ := Text.exists_gap_behind line
  refine ⟨y, fun s hs => ?_⟩
  rw [List.mem_append, not_or] at hline
  refine (h.written hs hline.1).ofText_line ?_
  have htext : place.front ++ (quoted s ++ (y ++ g))
      = place.indent ++ ((place.written s y).text ++ g) := by
    simp [front, text_written]
  rw [htext]
  refine Text.trim_gaps h.indent hg (h.field.name.stops_isBlank _) ?_ ?_
  · have hreverse : (place.written s y).text.reverse
        = y.reverse ++ '"' :: (s.reverse ++ '"' :: place.field.text.reverse) := by
      simp [text_written, quoted]
    rw [hreverse]
    exact hy.append (by simp; decide)
  · simp [text_written, quoted]

/-- Two inert literals give fields that are alike. -/
lemma alike_field (hlists : BehindLists place.field.attributes)
    (hs : Inert place.field.attributes s)
    (hs' : Inert place.field.attributes s') :
    (place.written s y).field.Alike (place.written s' y).field := by
  have hword : ∀ name ∈ attributeNames,
      (attributeWord name).occursIn (place.field.attributes ++ (quoted s ++ y))
        = (attributeWord name).occursIn (place.field.attributes ++ (quoted s' ++ y)) :=
          fun name hname => by
    rw [occursIn_quoted hname, occursIn_quoted hname, hs.names name hname, hs'.names name hname]
  obtain ⟨lists, hlists⟩ := exists_relationLists?_quoted hlists y
  exact {
    name := rfl
    type := rfl
    isList := rfl
    optional := rfl
    isId := hword "@id" (by decide)
    isUnique := hword "@unique" (by decide)
    hasRelationAttribute := hword "@relation" (by decide)
    relationLists? := (hlists s hs _ rfl).trans (hlists s' hs' _ rfl).symm }

/-! ### Models that are open at the literal -/

/-- The lines of a text with the literal at the place. -/
lemma Proper.exists_lines (h : place.Proper) (u v : List Char) : ∃ lines line more, '\n' ∉ line ∧
    ∀ s, IsLiteralText s → Text.lines ((u ++ ['\n']) ++ (place.front ++ (quoted s ++ v)))
      = lines ++ (place.front ++ (quoted s ++ line)) :: more := by
  obtain ⟨line, more, hv⟩ := List.exists_cons_of_ne_nil (Text.segments_ne_nil (p := (· == '\n')) v)
  refine ⟨Text.lines u, line, more, fun hmem => ?_, fun s hs => ?_⟩
  · have hfeed := (Text.mem_of_mem_segments (hv ▸ List.mem_cons_self) '\n' hmem).1
    simp at hfeed
  · have hfront : ∀ c ∈ place.front ++ quoted s, (c == '\n') = false :=
      List.forall_mem_append.mpr
        ⟨fun c hc => by simpa using fun hfeed : c = '\n' => h.line (hfeed ▸ hc),
        fun c hc => by simpa using hs.ne_lineFeed c hc⟩
    have htext : (u ++ ['\n']) ++ (place.front ++ (quoted s ++ v))
        = u ++ '\n' :: ((place.front ++ quoted s) ++ v) := by simp
    rw [htext, Text.lines, Text.segments_append (by simp), Text.segments_prepend hfront, hv]
    simp [Text.lines]

/-- The models of two texts with inert literals at the place are alike. -/
lemma Proper.alike_lines (h : place.Proper) (hs : IsLiteralText s) (hs' : IsLiteralText s')
    (hinert : Inert place.field.attributes s) (hinert' : Inert place.field.attributes s')
    (u v : List Char) :
    List.Forall₂ Line.Alike
      ((Text.lines ((u ++ ['\n']) ++ (place.front ++ (quoted s ++ v)))).map .ofText)
      ((Text.lines ((u ++ ['\n']) ++ (place.front ++ (quoted s' ++ v)))).map .ofText) := by
  obtain ⟨lines, line, more, hline, hlines⟩ := h.exists_lines u v
  obtain ⟨y, hy⟩ := h.exists_ofText_line hline
  have hsame : ∀ lines : List Line, List.Forall₂ Line.Alike lines lines := fun lines =>
    List.forall₂_same.mpr fun line _ => .same line
  rw [hlines s hs, hlines s' hs', List.map_append, List.map_append, List.map_cons,
    List.map_cons, hy s hs, hy s' hs']
  exact List.rel_append (hsame _) (.cons (.field (alike_field h.lists hinert hinert')) (hsame _))

/-- Behind a text that ends outside of literals, the text up to a bracket's partner ends in the
text, or it goes on with literals as they stand. -/
lemma enclosed?_cases (hu : Literal.outside.after .code u = .outside) :
    (∃ inner, ∀ v, (enclosed? .code (u ++ v)).map (·.1) = some inner) ∨
      ∃ n, ∀ s v, IsLiteralText s → (enclosed? .code (u ++ (quoted s ++ v))).map (·.1)
        = (enclosedLoop .code n .outside [] v).map fun found => u ++ (quoted s ++ found.1) := by
  obtain ⟨inner, rest, hinner⟩ | ⟨⟨n, literal⟩, hdepth⟩ :=
    exists_enclosedLoop_or_depthAfter? .code 0 .outside [] u
  · exact Or.inl ⟨inner, fun v => by rw [enclosed?_append hinner]; rfl⟩
  · refine Or.inr ⟨n, fun s v hs => ?_⟩
    obtain rfl : literal = .outside := (after_of_depthAfter? hdepth).symm.trans hu
    have hliteral : depthAfter? .code n .outside (quoted s) = some (n, .outside) :=
      depthAfter?_literal (by decide) hs.keeps
    rw [enclosed?, enclosedLoop_of_depthAfter? hdepth, enclosedLoop_of_depthAfter? hliteral,
      enclosedLoop_body, Option.map_map]
    congr 1
    funext found
    simp [quoted]

/-- The lines above begin outside of literals. -/
lemma Proper.after_line (h : place.Proper)
    (hv : (Cursor.mk (v.reverse ++ []) [] 0).atLineStart = true)
    (hbegin : v <+: place.lead) : Literal.outside.after .code v = .outside := by
  obtain rfl | ⟨v, c, rfl⟩ := List.eq_nil_or_concat v
  · rfl
  · obtain rfl : c = '\n' := by simpa [Cursor.atLineStart] using hv
    rw [List.concat_eq_append] at hbegin ⊢
    have hbefore := h.lines v
      ((List.mem_inits _ _).mpr ((List.prefix_append v _).trans hbegin)) hbegin
    rw [Literal.after_append, hbefore]
    rfl

/-- Behind a head above it, no literal is open at the place. -/
lemma Proper.exists_behind_head (h : place.Proper) {r : List Char}
    (hlead : place.lead = v ++ (w ++ r))
    (hread : modelHead.Reads (v.reverse ++ []) w r) : ∃ r', r = r' ++ ['\n'] ∧
      Literal.outside.after .code ((r' ++ ['\n']) ++ place.front) = .outside := by
  obtain ⟨t, g, n, s, hparts, rfl, hline⟩ :=
    exists_parts_of_reads (by decide) (modelHead_eq ▸ hread)
  obtain ⟨r, rfl⟩ : ∃ r', r = r' ++ ['\n'] := by
    obtain rfl | ⟨r, c, rfl⟩ := List.eq_nil_or_concat r
    · rw [lead, List.append_nil, ← List.append_assoc] at hlead
      exact absurd (List.append_inj' hlead rfl).2 (by decide)
    · rw [lead, List.concat_eq_append, ← List.append_assoc, ← List.append_assoc] at hlead
      obtain ⟨-, hc⟩ := List.append_inj' hlead rfl
      exact ⟨r, by rw [List.concat_eq_append, hc]⟩
  refine ⟨r, rfl, ?_⟩
  have hhead : Literal.outside.after .code ((t ++ ("model".toList ++ (g ++ (n ++ s)))) ++ ['\x7b'])
      = .outside :=
    Literal.after_of_not_quote <| List.forall_mem_append.mpr
      ⟨fun c hc => (isPlain_iff.mp (hparts.plain c hc)).1, by decide⟩
  have hplace := h.ends.after_stripComments ordinary_code
  have htext : place.above ++ '\n' :: place.front = place.lead ++ place.front := by simp [lead]
  rwa [h.stripped, htext, hlead, List.append_assoc, Literal.after_append,
    h.after_line hline ⟨_, hlead.symm⟩, List.append_assoc, Literal.after_append, hhead] at hplace

/-- A model that begins above the literal is alike with either literal. -/
lemma Proper.alike_ofMatch? (h : place.Proper) (hs : IsLiteralText s) (hs' : IsLiteralText s')
    (hinert : Inert place.field.attributes s) (hinert' : Inert place.field.attributes s')
    {r : List Char}
    (hr : Literal.outside.after .code ((r ++ ['\n']) ++ place.front) = .outside)
    (caught : Captures) :
    Option.Rel Model.Alike
      (Model.ofMatch? (matchOf
        ((r ++ ['\n']) ++ (place.front ++ (quoted s ++ place.below)), caught)))
      (Model.ofMatch? (matchOf ((r ++ ['\n']) ++ (place.front ++ (quoted s' ++ place.below)),
        caught))) := by
  have hread : ∀ text : List Char, Model.ofMatch? (matchOf (text, caught))
      = ((enclosed? .code text).map (·.1)).map fun inner =>
          ⟨String.ofList ((matchOf (text, caught)).group 1), (Text.lines inner).map .ofText⟩ :=
            fun text => by
    rw [Model.ofMatch?, Option.map_map]
    rfl
  have htext : ∀ t : List Char, (r ++ ['\n']) ++ (place.front ++ t)
      = ((r ++ ['\n']) ++ place.front) ++ t :=
    fun t => (List.append_assoc _ _ _).symm
  rw [hread, hread, htext, htext]
  obtain ⟨inner, hinner⟩ | ⟨n, hopen⟩ := enclosed?_cases hr
  · rw [hinner, hinner]
    exact .some (.refl _)
  · rw [hopen s _ hs, hopen s' _ hs', Option.map_map, Option.map_map]
    cases enclosedLoop .code n .outside [] place.below with
    | none => exact .none
    | some found =>
        refine .some ⟨rfl, ?_⟩
        simp only [Function.comp_apply, ← htext]
        exact h.alike_lines hs hs' hinert hinert' r found.1

/-! ### Files -/

/-- The file with either literal has models that are alike. -/
theorem Proper.alike_ofText (h : place.Proper) (hs : IsLiteralText s) (hs' : IsLiteralText s')
    (hinert : Inert place.field.attributes s) (hinert' : Inert place.field.attributes s') :
    (Contents.ofText (place.text s)).Alike (Contents.ofText (place.text s')) := by
  rw [Contents.ofText, Contents.ofText, h.stripComments_text hs, h.stripComments_text hs']
  constructor
  · obtain ⟨found, found', hlead, hfound⟩ := h.exists_finds (q := modelHead) (by simp [headForms])
    simp only [Contents.ofStripped]
    rw [map_findAll (fun _ => rfl) (hfound s hs), map_findAll (fun _ => rfl) (hfound s' hs'),
      List.map_append, List.map_append]
    refine List.rel_append ?_ (List.forall₂_same.mpr fun model _ => ?_)
    · rw [extend, extend, List.map_map, List.map_map, List.forall₂_map_left_iff,
        List.forall₂_map_right_iff]
      refine List.forall₂_same.mpr fun yield hyield => ?_
      obtain ⟨v, w, htext, hread⟩ := hlead.exists_reads yield hyield
      obtain ⟨r, hr, hafter⟩ := h.exists_behind_head htext hread
      simp only [Function.comp_apply, hr]
      exact h.alike_ofMatch? hs hs' hinert hinert' hafter yield.2
    · cases model with
      | none => exact .none
      | some model => exact .some (.refl model)
  · obtain ⟨found, found', -, hfound⟩ := h.exists_finds (q := declarationHead) (by simp [headForms])
    simp only [Contents.ofStripped]
    rw [map_findAll (fun _ => rfl) (hfound s hs), map_findAll (fun _ => rfl) (hfound s' hs')]
    simp [extend, matchOf, Match.group, Match.group?]

end LiteralPlace

/-- **Literals among the attributes of fields.**  If a file has a literal among the attributes of a
field, any other text without double quotes, backslashes and line feeds may stand in the literal:
the file defines the same schema, as long as neither of the two texts holds the word of an attribute
that is looked for, or, where the literal stands in the arguments of a relation, a closing
parenthesis or the opening of a list.  Brackets, comment signs and heads of blocks in a literal
count for nothing. -/
theorem ofText_of_inert (h : place.Proper) (hs : IsLiteralText s) (hs' : IsLiteralText s')
    (hinert : Inert place.field.attributes s) (hinert' : Inert place.field.attributes s')
    (rawPath : String) :
    Schema.ofText .prisma (place.text s) rawPath
      = Schema.ofText .prisma (place.text s') rawPath := by
  have hdraft := draft_of_alike (h.alike_ofText hs hs' hinert hinert')
  have hsource : Source.prisma.draft? (place.text s) = Source.prisma.draft? (place.text s') :=
    congrArg some hdraft
  rw [Schema.ofText, Schema.ofText, Schema.ofTextNoted, Schema.ofTextNoted, hsource]

/-- `author User @relation(` behind a comment, the line of a key and a head. -/
def samplePlace : LiteralPlace where
  ahead := "model Post \x7b // texts\n  authorId Int\n  author User @relation(".toList
  above := "model Post \x7b \n  authorId Int".toList
  indent := "  ".toList
  field := ⟨"author".toList, " ".toList, "User".toList, none, [], " @relation(".toList⟩
  behind :=
    ", fields: [authorId], references: [id])\n\x7d\nmodel User \x7b\n  id Int @id\n\x7d\n".toList

/-- `model A {} // wrote` -/
def sampleLiteral : List Char := "model A \x7b\x7d // wrote".toList

theorem ofText_of_inert_samplePlace : samplePlace.Proper ∧
    Schema.ofText .prisma (samplePlace.text sampleLiteral) "a.prisma"
      = Schema.ofText .prisma (samplePlace.text []) "a.prisma" := by
  have hproper : samplePlace.Proper :=
    { ends := ⟨by decide +kernel, by decide +kernel⟩
      stripped := by decide +kernel
      lines := by decide +kernel
      indent := by decide
      line := by decide
      field := by decide
      bracket := by decide
      lists := by decide +kernel }
  exact ⟨hproper, ofText_of_inert hproper (by decide) (by decide) (by decide +kernel)
    (by decide +kernel)
    "a.prisma"⟩

/-- The word of an attribute in a literal makes a key, and a closing parenthesis in the name of a
relation cuts its lists off. -/
theorem literal_taken_for_attribute :
    Schema.ofText .prisma "model U \x7b\n  a String @default(\"@id\")\n\x7d".toList "inline"
      = ⟨.prisma, [⟨"U", [⟨"a", "String", false, true, none⟩], []⟩], [], "inline"⟩ ∧
    Schema.ofText .prisma "model U \x7b\n  a String @default(\"id\")\n\x7d".toList "inline"
      = ⟨.prisma, [⟨"U", [⟨"a", "String", false, false, none⟩], []⟩], [], "inline"⟩ ∧
    Schema.ofText .prisma
        "model U \x7b\n  b Int\n  c V @relation(\")\", fields: [b], references: [d])\n\x7d".toList
          "inline"
      = ⟨.prisma, [⟨"U", [⟨"b", "Int", false, false, none⟩], []⟩], [], "inline"⟩ ∧
    Schema.ofText .prisma
        "model U \x7b\n  b Int\n  c V @relation(\"\", fields: [b], references: [d])\n\x7d".toList
          "inline"
      = ⟨.prisma, [⟨"U", [⟨"b", "Int", false, false, some ⟨"V", "d"⟩⟩], []⟩],
        [⟨"U", "b", "V", "d", .oneToOne⟩], "inline"⟩ := by
  decide +kernel

end SchemaReader.ModelFile
