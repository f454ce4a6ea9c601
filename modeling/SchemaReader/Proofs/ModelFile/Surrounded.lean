/-
Model blocks with other texts around them.

* `Block`: a written model, with its text;
* `ofStripped_surrounded`: a block is read alike with other texts around it, if no word of a block
  stands in them where it matters;
* `within_draft_append`: models behind others define the tables that they define alone;
* `Block.table?_ofText_surrounded`: the table of a block does not depend on the texts around it, if
  the lines of the block begin outside of literals;
* `literal_replaces_model`: where a line begins inside a literal, the text behind can close a model
  that the literal seems to hold.
-/
import SchemaReader.Extraction
import SchemaReader.Proofs.Backing.ModelFile
import SchemaReader.Proofs.Lexical.Comments
import SchemaReader.Proofs.ModelFile.Blocks
import SchemaReader.Proofs.Schema.Parts

namespace SchemaReader.ModelFile

open Text (IsWord IsGap Stops isBlank isWordChar)
open Pattern

/-! ### Written models -/

/-- A written model: what stands before its word, behind it, the name, what stands behind the name,
and the text in brackets. -/
structure Block where
  indent : List Char
  gap : List Char
  name : List Char
  space : List Char
  body : List Char

/-- The block up to its bracket. -/
def Block.front (block : Block) : List Char :=
  block.indent ++ ("model".toList ++ (block.gap ++ (block.name ++ block.space)))

/-- The block. -/
def Block.text (block : Block) : List Char :=
  block.front ++ '\x7b' :: (block.body ++ ['\x7d'])

/-- A model stands in a line of its own, it holds no comment, its brackets and literals are closed,
and no literal goes on behind the end of a line. -/
structure Block.Proper (block : Block) : Prop where
  indent : ∀ c ∈ block.indent, (c == ' ' || c == '\t') = true
  gap : IsGap block.gap ∧ block.gap ≠ []
  name : IsWord block.name
  space : IsGap block.space
  comments : NoCommentSign .code block.body
  balanced : Balanced .code block.body
  lines : LinesOutside block.body

variable {block : Block} {before behind rest : List Char} {d e : Draft} {model : Model}
  {contents : Contents}

namespace Block

lemma Proper.parts (h : block.Proper) :
    HeadParts "model".toList block.indent block.gap block.name block.space :=
  ⟨by decide, h.indent, h.gap.1, h.gap.2, h.name, h.space⟩

lemma Proper.takes_front (h : block.Proper) : modelHead.Takes [] (block.front ++ ['\x7b']) rest
    [(1, block.name)] := h.parts.takes rfl fun _ _ => takes_lit "model"

lemma Proper.opensModel (h : block.Proper) (more : List Char) :
    OpensModel (block.text ++ more) := by
  refine ⟨block.indent, block.gap,
    block.name ++ (block.space ++ ('\x7b' :: (block.body ++ ['\x7d']) ++ more)), ?_,
    h.parts.isGap_indent, h.gap.1, h.gap.2, h.name.not_stops _⟩
  simp [text, front]

lemma Proper.not_mem_front (h : block.Proper) : '\x7b' ∉ block.front := fun hmem =>
  h.parts.ne_of_mem (by decide) (by decide) _ hmem rfl

lemma Proper.noCommentSign (h : block.Proper) : NoCommentSign .code block.text := by
  have hfront := noCommentSign_code (h.parts.ne_of_mem (by decide) (by decide))
  have hclose : NoCommentSign .code [] := by decide
  exact hfront.append (by decide) (by decide) (h.comments.append (by decide) (by decide) hclose)

/-- A block ends with a bracket, which no head of a block holds. -/
lemma staysIn_text {q : Pattern} (hq : q.neverReads '\x7d' = true) (block : Block)
    (next : List Char) : q.StaysIn block.text next := by
  have htext : block.text = (block.front ++ '\x7b' :: block.body) ++ ['\x7d'] := by simp [text]
  rw [htext]
  exact (stopsShort_of_neverReads hq).staysIn next

/-- Every model that begins in a block is closed in it. -/
lemma Proper.closed (h : block.Proper) {found : List (List Char × Captures)}
    (hfound : Finds modelHead [] block.text found) :
    ∀ yield ∈ found, (enclosed? .code yield.1).isSome = true := by
  intro yield hyield
  obtain ⟨v, w, htext, hread⟩ := hfound.exists_reads yield hyield
  rw [List.append_nil] at hread
  exact isSome_enclosed?_of_reads h.not_mem_front h.balanced h.lines htext hread

/-- A block is read as a model of its name. -/
lemma Proper.exists_mem_models (h : block.Proper) :
    ∃ model : Model, model.name = String.ofList block.name ∧
      some model ∈ (Contents.ofStripped block.text).models := by
  obtain ⟨later, hlater⟩ := Pattern.exists_finds (q := modelHead) (by decide)
    ((block.front ++ ['\x7b']).reverse ++ []) (block.body ++ ['\x7d'])
  have hfound : Finds modelHead [] block.text
      ((block.body ++ ['\x7d'], [(1, block.name)]) :: later) := by
    have hall := Finds.found (u := []) trivial h.takes_front (by simp) hlater
    simpa [text] using hall
  refine ⟨⟨String.ofList block.name, (Text.lines block.body).map .ofText⟩, rfl, ?_⟩
  have henclosed : enclosed? .code (block.body ++ '\x7d' :: []) = some (block.body, []) :=
    enclosed?_of_balanced h.balanced (by decide)
  simp only [Contents.ofStripped]
  rw [map_findAll (fun _ => rfl) hfound]
  simp [Model.ofMatch?, matchOf, henclosed, Match.group, Match.group?]

end Block

/-! ### Blocks between other texts -/

/-- The words that blocks begin with. -/
def blockKinds : List String := ["model", "enum", "type"]

lemma not_mem_words_lineFeed {w u v : List Char} (hu : w ∉ Text.words u) (hv : w ∉ Text.words v) :
    w ∉ Text.words (u ++ '\n' :: v) := by
  rw [Text.words_append (by decide), List.mem_append, not_or]
  exact ⟨hu, hv⟩

lemma isWord_of_mem_blockKinds {kind : String} (h : kind ∈ blockKinds) : IsWord kind.toList := by
  have hwords : ∀ kind ∈ blockKinds, IsWord kind.toList := by decide
  exact hwords kind h

lemma not_mem_words_nil {kind : String} (h : kind ∈ blockKinds) : kind.toList ∉ Text.words [] :=
  fun hmem => (isWord_of_mem_blockKinds h).ne_nil (List.mem_singleton.mp hmem)

/-- No block is read behind a line feed in a text that does not hold its word. -/
lemma silent_behind {kind : String} (hkind : kind ∈ blockKinds)
    (hbehind : kind.toList ∉ Text.words behind) (place : List Char) :
    Silent (blockHead kind) place ('\n' :: behind) [] := by
  refine silent_blockHead (isWord_of_mem_blockKinds hkind) (fun _ _ _ _ _ _ hy hnil => ?_)
    (not_mem_words_lineFeed (u := []) (not_mem_words_nil hkind) hbehind)
  exact absurd (List.append_eq_nil_iff.mp hnil.symm).1 hy

/-- Nor is it in such a text before a model. -/
lemma silent_before {kind : String} (hkind : kind ∈ blockKinds)
    (hbefore : kind.toList ∉ Text.words before) (hnext : OpensModel rest) :
    Silent (blockHead kind) [] (before ++ ['\n']) rest := by
  have hnever : ∀ kind ∈ blockKinds, (lit kind).neverReads '\n' = true := by decide
  exact silent_blockHead (isWord_of_mem_blockKinds hkind)
    (staysIn_blockHead hnext.opensWords (hnever kind hkind) before)
    (not_mem_words_lineFeed hbefore (not_mem_words_nil hkind))

/-- A block with a text behind it, in which no head of a block is read. -/
lemma finds_text_behind {q : Pattern} (hled : q.isLed = true) (hnull : q.nullable = false)
    (hclose : q.neverReads '\x7d' = true) {found : List (List Char × Captures)}
    (hfound : Finds q [] block.text found) (hsilent : ∀ before, Silent q before ('\n' :: behind) [])
    (before : List Char) : Finds q ('\n' :: before) (block.text ++ '\n' :: behind)
      (extend ('\n' :: behind) found) := by
  have hbehind : Finds q (block.text.reverse ++ '\n' :: before) ('\n' :: behind) [] :=
    .stop (hsilent _) (fails_nil hnull)
  simpa using hfound.append hled (alike_lineFeed before) (Block.staysIn_text hclose block _) hbehind

/-- A model that is closed does not depend on the text behind it. -/
lemma ofMatch?_of_isSome {v : List Char} (h : (enclosed? .code v).isSome = true) (caught : Captures)
    (more : List Char) :
    Model.ofMatch? (matchOf (v ++ more, caught)) = Model.ofMatch? (matchOf (v, caught)) := by
  obtain ⟨⟨inner, rest⟩, h⟩ := Option.isSome_iff_exists.mp h
  simp only [Model.ofMatch?, matchOf, enclosed?_append h, h]
  rfl

section Surrounded

variable (h : block.Proper) (hbefore : ∀ kind ∈ ["enum", "type"], kind.toList ∉ Text.words before)
  (hbehind : ∀ kind ∈ blockKinds, kind.toList ∉ Text.words behind)
  {found : List (List Char × Captures)}

include h hbehind

/-- The models of a block stand behind those that the text before it seems to begin. -/
lemma exists_finds_models (hfound : Finds modelHead [] block.text found) (before : List Char) :
    ∃ earlier, Finds modelHead [] (before ++ '\n' :: (block.text ++ '\n' :: behind))
      (earlier ++ extend ('\n' :: behind) found) := by
  obtain ⟨earlier, hearlier⟩ :=
    Pattern.exists_finds (q := modelHead) (by decide) [] (before ++ ['\n'])
  have hlast : ∀ place, Silent modelHead place ('\n' :: behind) [] :=
    silent_behind (by decide : "model" ∈ blockKinds) (hbehind "model" (by decide))
  have hblock := finds_text_behind (by decide) (by decide) (by decide) hfound hlast before.reverse
  have hstays : modelHead.StaysIn (before ++ ['\n']) (block.text ++ '\n' :: behind) :=
    staysIn_blockHead (h.opensModel _).opensWords (by decide) before
  rw [List.append_cons]
  exact ⟨_, hearlier.append (by decide) (Alike.refl []) hstays (by simpa using hblock)⟩

include hbefore

/-- The declarations of a block are those of the whole text. -/
lemma finds_declarations (hfound : Finds declarationHead [] block.text found) :
    Finds declarationHead [] (before ++ '\n' :: (block.text ++ '\n' :: behind))
      (extend ('\n' :: behind) found) := by
  have hlast : ∀ place, Silent declarationHead place ('\n' :: behind) [] := fun place =>
    silent_declarationHead (silent_behind (by decide) (hbehind "enum" (by decide)) place)
      (silent_behind (by decide) (hbehind "type" (by decide)) place)
  have hblock := finds_text_behind (by decide) (by decide) (by decide) hfound hlast before.reverse
  have hopens := h.opensModel ('\n' :: behind)
  rw [List.append_cons]
  exact Finds.skip (silent_declarationHead
    (silent_before (by decide) (hbefore "enum" (by decide)) hopens)
    (silent_before (by decide) (hbefore "type" (by decide)) hopens)) (by simpa using hblock)

/-- What is found of models and declarations in a block is found with other texts around it, behind
models that the text before it seems to begin. -/
theorem ofStripped_surrounded : ∃ models,
    Contents.ofStripped (before ++ '\n' :: (block.text ++ '\n' :: behind))
      = ⟨models ++ (Contents.ofStripped block.text).models,
          (Contents.ofStripped block.text).declared⟩ := by
  obtain ⟨found, hfound⟩ := Pattern.exists_finds (q := modelHead) (by decide) [] block.text
  obtain ⟨declared, hdeclared⟩ :=
    Pattern.exists_finds (q := declarationHead) (by decide) [] block.text
  obtain ⟨earlier, hmodels⟩ := exists_finds_models h hbehind hfound before
  have hread : (extend ('\n' :: behind) found).map (fun yield => Model.ofMatch? (matchOf yield))
      = found.map fun yield => Model.ofMatch? (matchOf yield) := by
    rw [extend, List.map_map]
    exact List.map_congr_left fun yield hyield =>
      ofMatch?_of_isSome (h.closed hfound yield hyield) yield.2 _
  refine ⟨earlier.map fun yield => Model.ofMatch? (matchOf yield), ?_⟩
  simp only [Contents.ofStripped]
  rw [map_findAll (fun _ => rfl) hmodels, List.map_append, hread,
    map_findAll (fun _ => rfl) (finds_declarations h hbefore hbehind hdeclared),
    map_findAll (fun _ => rfl) hfound, map_findAll (fun _ => rfl) hdeclared, extend, List.map_map]
  rfl

end Surrounded

/-! ### Models behind others -/

/-- A model adds its relations, then its table, with notices between them. -/
lemma exists_addTo_eq (declared : List String) (model : Model) : ∃ notices notices' notice, ∀ d,
    model.addTo declared d = ((((d.noteAll notices).addRelations (model.relations declared)).noteAll
      notices').note notice).addTable (model.table declared) := ⟨_, _, _, fun _ => rfl⟩

lemma within_addModel (declared : List String) (model : Option Model) (h : d.Within e) :
    (addModel declared d model).Within (addModel declared e model) := by
  cases model with
  | none => exact (h.note_left _).note_right _
  | some model =>
      obtain ⟨notices, notices', notice, hadd⟩ := exists_addTo_eq declared model
      rw [addModel, addModel, hadd, hadd]
      have hrelations :=
        ((h.noteAll notices).addRelations (model.relations declared)).noteAll notices'
      exact ((hrelations.note_left notice).note_right notice).addTable _

lemma grows_addModel (declared : List String) (d : Draft) (model : Option Model) :
    d.Grows (addModel declared d model) := by
  cases model with
  | none => exact d.grows_note _
  | some model =>
      obtain ⟨notices, notices', notice, hadd⟩ := exists_addTo_eq declared model
      rw [addModel, hadd]
      exact (d.grows_noteAll notices).trans ((Draft.grows_addRelations _ _).trans
        ((Draft.grows_noteAll _ notices').trans ((Draft.grows_note _ notice).trans
          (Draft.grows_addTable _ _))))

/-- Models behind others define the tables that they define alone. -/
theorem within_draft_append (models : List (Option Model)) (contents : Contents) :
    contents.draft.Within (Contents.mk (models ++ contents.models) contents.declared).draft := by
  simp only [Contents.draft, List.foldl_append]
  exact List.foldl_rel (Draft.within_empty _) fun model _ _ _ =>
    within_addModel contents.declared model

/-- Every model has a table of its name. -/
theorem isSome_table?_draft (h : some model ∈ contents.models) :
    (contents.draft.table? model.name).isSome = true := by
  obtain ⟨earlier, later, hmodels⟩ := List.append_of_mem h
  obtain ⟨notices, notices', notice, hadd⟩ := exists_addTo_eq contents.declared model
  refine isSome_table? ?_
  rw [Contents.draft, hmodels, List.foldl_append, List.foldl_cons]
  refine (Draft.grows_foldl (grows_addModel contents.declared) later _).names ?_
  rw [addModel, hadd]
  exact List.mem_map.mpr ⟨model.table contents.declared, self_mem_putTable _ _, name_table _ model⟩

/-! ### Schemas -/

/-- A model block is read alike with other texts around it: its table is the one that it defines
alone.  The text before may hold anything but declarations and comments, such as a model that is
never closed or loose quotes; the text behind holds no block. -/
theorem Block.table?_ofText_surrounded (h : block.Proper) (hbefore : NoCommentSign .code before)
    (hwords : ∀ kind ∈ ["enum", "type"], kind.toList ∉ Text.words before)
    (hbehind : NoCommentSign .code behind)
    (hwords' : ∀ kind ∈ blockKinds, kind.toList ∉ Text.words behind) (rawPath : String) : ∃ table,
      (Schema.ofText .prisma block.text rawPath).table? (String.ofList block.name) = some table ∧
      (Schema.ofText .prisma (before ++ '\n' :: (block.text ++ '\n' :: behind)) rawPath).table?
        (String.ofList block.name) = some table := by
  obtain ⟨models, hmodels⟩ := ofStripped_surrounded h hwords hwords'
  have hlineComment : '\n' ∉ Dialect.code.lineComment := by decide
  have hall : NoCommentSign .code (before ++ '\n' :: (block.text ++ '\n' :: behind)) :=
    hbefore.append_lineFeed hlineComment (h.noCommentSign.append_lineFeed hlineComment hbehind)
  obtain ⟨model, hname, hmem⟩ := h.exists_mem_models
  obtain ⟨table, htable⟩ := Option.isSome_iff_exists.mp (isSome_table?_draft hmem)
  rw [hname] at htable
  refine ⟨table, ?_, ?_⟩
  · simp only [Schema.ofText, Schema.ofTextNoted, Source.draft?, Contents.ofText,
      stripComments_of_noCommentSign h.noCommentSign]
    exact htable
  · simp only [Schema.ofText, Schema.ofTextNoted, Source.draft?, Contents.ofText,
      stripComments_of_noCommentSign hall, hmodels]
    exact (within_draft_append models _).tables _ _ htable

/-- Users, with a bracket in a literal. -/
def sampleBlock : Block where
  indent := "  ".toList
  gap := [' ']
  name := "User".toList
  space := [' ']
  body := "\n  id Int @id\n  name String @default(\"\x7b\")\n".toList

/-- Users are read alike behind a model that is never closed and before a loose quote. -/
theorem Block.table?_ofText_surrounded_sampleBlock : ∃ table,
    (Schema.ofText .prisma sampleBlock.text "a.prisma").table? "User" = some table ∧
    (Schema.ofText .prisma ("model User \x7b (\"".toList ++ '\n' ::
      (sampleBlock.text ++ '\n' :: "\" \x7d ]".toList)) "a.prisma").table? "User" = some table := by
  have hproper : sampleBlock.Proper :=
    ⟨by decide, by decide, by decide, by decide, by decide +kernel, by decide +kernel,
      by decide +kernel⟩
  exact Block.table?_ofText_surrounded hproper (by decide +kernel) (by decide) (by decide +kernel)
    (by decide) "a.prisma"

/-- A model with a line that begins inside a literal, like a model of the same name. -/
def reopenedBlock : Block where
  indent := []
  gap := [' ']
  name := ['N']
  space := [' ']
  body := "\n  a String @default(\"\nmodel N \x7b \")\n".toList

/-- A text behind such a block can close the model that the literal seems to hold, which then takes
the place of the block. -/
theorem literal_replaces_model :
    NoCommentSign .code reopenedBlock.body ∧ Balanced .code reopenedBlock.body ∧
      (Schema.ofText .prisma reopenedBlock.text "inline").table? "N"
        = some ⟨"N", [⟨"a", "String", false, false, none⟩], []⟩ ∧
      (Schema.ofText .prisma ('\n' :: (reopenedBlock.text ++ '\n' :: "\" \x7d".toList))
        "inline").table? "N" = some ⟨"N", [], []⟩ := by
  refine ⟨?_, ?_, ?_, ?_⟩
  all_goals decide +kernel

end SchemaReader.ModelFile
