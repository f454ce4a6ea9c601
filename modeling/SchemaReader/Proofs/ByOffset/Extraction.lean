/-
The extraction of a schema by byte offsets.

* `draft`: what a text of a source defines, with every slice, every group and every counter on the
  way, any of which can go wrong;
* `openingHeads`: the patterns that end with the bracket whose partner is sought;
* `StaysInBounds`: what it means that nothing but a depth of brackets goes wrong with a text, with
  `extraction_stays_in_bounds`: so it is with every text of every source;
* `depth_leaves_its_bits`: the depth of a split at the top level falls below zero, and in a text
  with more than `2 ^ 31` brackets it leaves its 32 bits.
-/
import SchemaReader.Extraction
import SchemaReader.Proofs.ByOffset.Ddl
import SchemaReader.Proofs.ByOffset.ModelFile
import SchemaReader.Proofs.ByOffset.TableModule

namespace SchemaReader.ByOffset

/-- What a text of a source defines, if the source is known. -/
def draft (source : Source) (text : List Char) : Checked (Option Draft) :=
  match source with
  | .prisma => do
    let draft ← ModelFile.draft text
    return some draft
  | .drizzle => do
    let contents ← TableModule.contents text
    return some contents.draft
  | .sql => do
    let script ← Ddl.script text
    return some script.draft
  | .unknown => return none

/-- The patterns that end with an opening bracket, each with its bracket. -/
def openingHeads : List (Pattern × Char) :=
  [(SchemaReader.Ddl.createTableHead, '('), (SchemaReader.Ddl.createIndexHead, '('),
    (SchemaReader.TableModule.tableHead, '('), (SchemaReader.TableModule.columnHead, '('),
    (SchemaReader.TableModule.indexHead, '('), (SchemaReader.TableModule.keyHead, '('),
    (SchemaReader.TableModule.blockHead, '('), (SchemaReader.TableModule.targetHead, '('),
    (SchemaReader.ModelFile.modelHead, '\x7b')]

/-- No slice of a text leaves it or cuts a character, no group is missing and no number without a
sign falls below zero.  A depth of brackets leaves its 32 bits in no text with fewer than `2 ^ 31`
brackets. -/
structure StaysInBounds (source : Source) (text : List Char) : Prop where
  /-- With fewer than `2 ^ 31` brackets nothing at all goes wrong: the extraction takes every slice,
  finds every group and counts, and what it makes of the text is what the source makes of it. -/
  draft_eq : brackets text < 2 ^ 31 → draft source text = .ok (source.draft? text)
  /-- Nothing but a depth of brackets goes wrong in any text. -/
  slip_eq : ∀ slip, draft source text = .error slip → slip = .depth
  /-- From any offset on, the partner of a bracket is sought without the counter of open brackets
  being lessened at zero. -/
  matching_eq : ∀ dialect offset,
    findMatching dialect text offset = .ok (findMatching? dialect text offset)
  /-- The masked text is as long as the text. -/
  mask_length : ∀ dialect, Text.byteLength (maskNested dialect text) = Text.byteLength text
  /-- What the masked text shows, other than spaces, stands in the text at the same byte. -/
  mask_shows : ∀ dialect before c after, maskNested dialect text = before ++ c :: after → c ≠ ' ' →
    ∃ u v, text = u ++ c :: v ∧ Text.byteLength u = Text.byteLength before
  /-- The offset of a foreign key in the masked options of a column is a boundary of the options. -/
  references_start : ∀ shown,
    SchemaReader.Ddl.inlineReferencesForm.find? (maskNested .script text) = some shown →
      (Text.dropBytes? (startOf shown) text).isSome
  /-- One byte before the end of a match stands the bracket that it ends with. -/
  opening_end : ∀ head ∈ openingHeads, ∀ found,
    found ∈ head.1.findAll text ∨ head.1.find? text = some found →
      ∃ place, endOf found = place + 1 ∧ Text.byteAt? text place = some head.2.toUInt8

variable {text : List Char} {found : Match}

theorem draft_goesWell (source : Source) (text : List Char) :
    GoesWell (brackets text) (draft source text) (source.draft? text) := by
  cases source with
  | prisma => exact (ModelFile.draft_goesWell text).bind .ok
  | drizzle => exact (TableModule.contents_goesWell text).bind .ok
  | sql => exact (Ddl.script_goesWell text).bind .ok
  | unknown => exact .ok

lemma endsWith_of_mem_openingHeads : ∀ head ∈ openingHeads,
    head.1.EndsWith head.2 ∧ isOpening head.2 = true := by
  have hround : ∀ a : Pattern, (a ++ Pattern.char '(').EndsWith '(' ∧ isOpening '(' = true :=
    fun a => ⟨Pattern.endsWith_append_char a '(', rfl⟩
  simp only [openingHeads, List.forall_mem_cons]
  exact ⟨hround _, hround _, hround _, hround _, hround _, hround _, hround _, hround _,
    ⟨ModelFile.endsWith_modelHead, rfl⟩, by simp⟩

/-- The last byte of a match of an opening head is its bracket. -/
lemma byteAt?_opening {head : Pattern × Char} (hhead : head ∈ openingHeads)
    (h : head.1.Stands text found) :
    ∃ place, endOf found = place + 1 ∧ Text.byteAt? text place = some head.2.toUInt8 := by
  obtain ⟨hends, hopening⟩ := endsWith_of_mem_openingHeads head hhead
  obtain ⟨u, htext, hend⟩ := exists_of_endsWith h hends hopening
  refine ⟨Text.byteLength u, hend, ?_⟩
  conv_lhs => rw [htext]
  rw [Text.byteAt?_append, (utf8EncodeChar_of_isOpening hopening).1]
  rfl

/-- The extraction of every text of every source stays in bounds. -/
theorem extraction_stays_in_bounds (source : Source) (text : List Char) :
    StaysInBounds source text where
  draft_eq := (draft_goesWell source text).eq_ok
  slip_eq := fun _ => (draft_goesWell source text).eq_depth
  matching_eq := fun dialect offset => findMatching_eq dialect text offset
  mask_length := fun dialect => (masks_maskNested dialect text).byteLength_eq
  mask_shows := fun dialect _ _ _ hmasked hc =>
    (masks_maskNested dialect text).exists_append hmasked hc
  references_start := fun shown hshown => by
    obtain ⟨rest, hrest⟩ := sliceFrom_shown hshown (by decide) (by decide)
    rw [hrest]
    rfl
  opening_end := fun head hhead found hfound =>
    byteAt?_opening hhead (hfound.elim Pattern.stands_of_mem_findAll Pattern.stands_of_find?)

/-- The depth is below zero at the comma of `a], b`, where the text is not cut, and nothing but the
length of a text keeps it from falling further. -/
theorem depth_leaves_its_bits :
    splitTopLevel .script ',' "a], b".toList = .ok ["a], b".toList] ∧
      draft .sql (Ddl.alterationOver (List.replicate (2 ^ 31 + 1) ']')) = .error .depth := by
  refine ⟨by rfl, ?_⟩
  rw [draft, Ddl.script_closings (Nat.lt_succ_self _)]
  rfl

end SchemaReader.ByOffset
