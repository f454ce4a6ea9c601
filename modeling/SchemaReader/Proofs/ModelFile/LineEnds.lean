/-
Model files with carriage returns at the ends of their lines.

* `Respaced`: what it takes of two texts that the heads of blocks stand at the same places of both,
  with `respaced_returned` and `respaced_flip` for carriage returns that are added or taken away;
* `Respaced.exists_takes`: a head that is taken in one of the texts is taken in the other, with the
  same name;
* `findsAlike_headOf`: so a scan comes upon the same heads in both;
* `ofText_returned`: the two texts have the same content;
* `ofTextNoted_withReturns`: the schema does not depend on how lines end.
-/
import SchemaReader.Extraction
import SchemaReader.Proofs.Lexical.LineEnds
import SchemaReader.Proofs.ModelFile.Blocks
import SchemaReader.Proofs.Pattern.Outcomes
import SchemaReader.Proofs.Text.Trim

namespace SchemaReader

namespace ModelFile

open Text (IsWord IsGap Stops isBlank isWordChar)
open Pattern

variable {R : List Char → List Char → Prop} {p : Pattern} {caught : Captures}
  {before before' rest u v w x k t g n s : List Char}

/-! ### Heads of blocks -/

/-- Texts related to one another are cut together, but between a carriage return and a line feed;
the parts are the same within a line, and white space is related to white space. -/
structure Respaced (R : List Char → List Char → Prop) : Prop where
  cut : ∀ {x y v}, R (x ++ y) v → (x.getLast? = some '\r' → y.head? ≠ some '\n') →
    ∃ x' y', v = x' ++ y' ∧ R x x' ∧ R y y'
  keeps : ∀ {x x'}, R x x' → '\n' ∉ x → x' = x
  gap : ∀ {x x'}, R x x' → IsGap x → IsGap x'
  ne_nil : ∀ {x x'}, R x x' → x ≠ [] → x' ≠ []

lemma respaced_returned : Respaced Returned where
  cut h _ := h.exists_append
  keeps h hx := (h.eq_of_not_mem (h.lineFeed_mem_iff.not.mp hx)).symm
  gap h := h.isGap_iff.mp
  ne_nil h := h.eq_nil_iff.not.mp

lemma respaced_flip : Respaced (flip Returned) where
  cut h hcut := h.exists_append_right hcut
  keeps h hx := h.eq_of_not_mem hx
  gap h := h.isGap_iff.mpr
  ne_nil h := h.eq_nil_iff.not.mpr

namespace Respaced

/-- Within a line, a piece of one text is a piece of the other. -/
lemma exists_append (hR : Respaced R) (h : R (w ++ u) v) (hw : ∀ c ∈ w, c ≠ '\n' ∧ c ≠ '\r') :
    ∃ v', v = w ++ v' ∧ R u v' := by
  have hend : w.getLast? ≠ some '\r' := fun hlast => (hw _ (List.mem_of_getLast? hlast)).2 rfl
  obtain ⟨w', v', rfl, hsame, hrest⟩ := hR.cut h fun hlast => absurd hlast hend
  obtain rfl := hR.keeps hsame fun hfeed => (hw _ hfeed).1 rfl
  exact ⟨v', rfl, hrest⟩

lemma exists_append_word (hR : Respaced R) (h : R (w ++ u) v) (hw : IsWord w) :
    ∃ v', v = w ++ v' ∧ R u v' :=
  hR.exists_append h fun _ hc => ⟨Text.ne_of_isWordChar (hw.chars _ hc) (by decide),
    Text.ne_of_isWordChar (hw.chars _ hc) (by decide)⟩

/-- White space before something else is white space of the other text. -/
lemma exists_append_gap (hR : Respaced R) (h : R (g ++ u) v) (hg : IsGap g) (hu : Stops isBlank u) :
    ∃ g' v', v = g' ++ v' ∧ IsGap g' ∧ (g ≠ [] → g' ≠ []) ∧ R u v' := by
  have hhead : u.head? ≠ some '\n' := fun hfeed => by
    have hblank := hu '\n' hfeed
    simp [isBlank] at hblank
  obtain ⟨g', v', rfl, hgap, hrest⟩ := hR.cut h fun _ => hhead
  exact ⟨g', v', rfl, hR.gap hgap hg, hR.ne_nil hgap, hrest⟩

/-- A head of a block is one of the other text, with the same words. -/
theorem exists_head (hR : Respaced R) (hparts : HeadParts k t g n s)
    (h : R (t ++ (k ++ (g ++ (n ++ (s ++ '\x7b' :: rest))))) v) :
    ∃ g' s' rest', v = t ++ (k ++ (g' ++ (n ++ (s' ++ '\x7b' :: rest')))) ∧
      HeadParts k t g' n s' ∧ R rest rest' := by
  have hindent : ∀ c ∈ t, c ≠ '\n' ∧ c ≠ '\r' := fun c hc => by
    have hspace := hparts.indent c hc
    constructor
    · rintro rfl
      simp at hspace
    · rintro rfl
      simp at hspace
  obtain ⟨v₁, rfl, h₁⟩ := hR.exists_append h hindent
  obtain ⟨v₂, rfl, h₂⟩ := hR.exists_append_word h₁ hparts.word
  obtain ⟨g', v₃, rfl, hg', hne, h₃⟩ :=
    hR.exists_append_gap h₂ hparts.gap (hparts.name.stops_isBlank _)
  obtain ⟨v₄, rfl, h₄⟩ := hR.exists_append_word h₃ hparts.name
  obtain ⟨s', v₅, rfl, hs', -, h₅⟩ := hR.exists_append_gap h₄ hparts.space (by simp; decide)
  obtain ⟨rest', rfl, hrest⟩ := hR.exists_append (w := ['\x7b']) h₅ (by simp)
  exact ⟨g', s', rest', rfl, ⟨hparts.word, hparts.indent, hg', hne hparts.gap_ne_nil,
    hparts.name, hs'⟩,
    hrest⟩

end Respaced

/-- A pattern for the word of a block: what it reads is a word, which it takes wherever the word
stands. -/
def ReadsWords (p : Pattern) : Prop :=
  ∀ {before w rest}, p.Reads before w rest → IsWord w ∧ ∀ before rest, p.Takes before w rest []

lemma readsWords_model : ReadsWords (lit "model") := by
  intro before w rest h
  obtain rfl := reads_lit.mp h
  exact ⟨by decide, fun _ _ => takes_lit "model"⟩

lemma readsWords_declaration : ReadsWords (lit "enum" ||| lit "type") := by
  rintro before w rest (h | h)
  · obtain rfl := reads_lit.mp h
    exact ⟨by decide, fun _ _ => (takes_lit "enum").alt_left _⟩
  · obtain rfl := reads_lit.mp h
    exact ⟨by decide, fun _ _ => (takes_lit "type").alt_right
      (fails_of_not_mayBegin (by decide) (by decide))⟩

/-- A head that is taken in one text is taken in the other, with the same captures; behind its
bracket the texts are related as before. -/
theorem Respaced.exists_takes (hR : Respaced R) (hp : ReadsWords p) (h : R (w ++ rest) v)
    (hbefore : (Cursor.mk before [] 0).atLineStart = (Cursor.mk before' [] 0).atLineStart)
    (htakes : (headOf p).Takes before w rest caught) :
    ∃ x x' rest', w = x ++ ['\x7b'] ∧ v = (x' ++ ['\x7b']) ++ rest' ∧
      (headOf p).Takes before' (x' ++ ['\x7b']) rest' caught ∧ R rest rest' := by
  obtain ⟨k, t, g, n, s, hparts, rfl, hline, _, _, hk⟩ :=
    exists_parts_of_reads_head (fun hk => (hp hk).1) htakes.reads
  have hword := (hp hk).2
  obtain ⟨-, rfl⟩ := htakes.unique (hparts.takes hline hword) rfl
  obtain ⟨g', s', rest', rfl, hparts', hrest⟩ := hR.exists_head hparts (by simpa using h)
  exact ⟨_, t ++ (k ++ (g' ++ (n ++ s'))), rest', rfl, by simp,
    hparts'.takes (hbefore ▸ hline) hword, hrest⟩

/-! ### Scans -/

/-- No head is read where none is read in the text without the carriage returns. -/
lemma fails_headOf_returned (hp : ReadsWords p) (h : Returned u v)
    (hbefore : (Cursor.mk before [] 0).atLineStart = (Cursor.mk before' [] 0).atLineStart)
    (hfails : (headOf p).Fails before u) : (headOf p).Fails before' v := by
  obtain hfails' | ⟨w, rest, caught, rfl, htakes⟩ := Pattern.fails_or_takes (headOf p) before' v
  · exact hfails'
  · obtain ⟨x', x, rest', -, rfl, htakes', -⟩ := respaced_flip.exists_takes hp h hbefore.symm htakes
    exact absurd htakes'.reads (hfails _ _ rfl)

/-- Scans of two texts come upon matches with the same captures, and the texts behind them are the
same up to carriage returns. -/
def FindsAlike (q : Pattern) (before before' u v : List Char) : Prop :=
  ∃ found found', Finds q before u found ∧ Finds q before' v found' ∧
    List.Forall₂ (fun yield yield' => Returned yield.1 yield'.1 ∧ yield.2 = yield'.2) found found'

lemma FindsAlike.skip {q : Pattern} (hx : Silent q before x u) (hy : Silent q before' w v)
    (h : FindsAlike q (x.reverse ++ before) (w.reverse ++ before') u v) :
    FindsAlike q before before' (x ++ u) (w ++ v) := by
  obtain ⟨found, found', hfound, hfound', hyields⟩ := h
  exact ⟨found, found', hfound.skip hx, hfound'.skip hy, hyields⟩

/-- A scan comes upon the same heads with and without the carriage returns. -/
theorem findsAlike_headOf (hp : ReadsWords p) (h : Returned u v)
    (hbefore : (Cursor.mk before [] 0).atLineStart = (Cursor.mk before' [] 0).atLineStart) :
    FindsAlike (headOf p) before before' u v := by
  induction hn : u.length using Nat.strong_induction_on generalizing u v before before' with
  | _ n ih =>
    obtain hfails | ⟨w, rest, caught, rfl, htakes⟩ := Pattern.fails_or_takes (headOf p) before u
    · have hfails' := fails_headOf_returned hp h hbefore hfails
      cases h with
      | nil => exact ⟨[], [], .stop trivial hfails, .stop trivial hfails', .nil⟩
      | @keep u v c h =>
          have hbehind : FindsAlike (headOf p) (c :: before) (c :: before') u v :=
            ih u.length (by simp [← hn]) h rfl rfl
          exact .skip (x := [c]) (w := [c]) ⟨hfails, trivial⟩ ⟨hfails', trivial⟩ hbehind
      | @line u v h =>
          have hbehind : FindsAlike (headOf p) ('\n' :: before) ('\n' :: '\r' :: before') u v :=
            ih u.length (by simp [← hn]) h rfl rfl
          -- no line begins between the carriage return and the line feed
          have hreturn : (headOf p).Fails ('\r' :: before') ('\n' :: v) :=
            lineLed_headOf p _ _ ⟨'\r', rfl, by decide⟩
          exact .skip (x := ['\n']) (w := ['\r', '\n']) ⟨hfails, trivial⟩
            ⟨hfails', hreturn, trivial⟩
            hbehind
    · obtain ⟨x, x', rest', rfl, rfl, htakes', hrest⟩ :=
        respaced_returned.exists_takes hp h hbefore htakes
      have hshorter : rest.length < n := by
        rw [← hn, List.length_append, List.length_append, List.length_singleton]
        omega
      have hline : (Cursor.mk ((x ++ ['\x7b']).reverse ++ before) [] 0).atLineStart
          = (Cursor.mk ((x' ++ ['\x7b']).reverse ++ before') [] 0).atLineStart := by
        simp [Cursor.atLineStart]
      obtain ⟨found, found', hfound, hfound', hyields⟩ := ih rest.length hshorter hrest hline rfl
      exact ⟨_, _, .found (u := []) trivial htakes (by simp) hfound,
        .found (u := []) trivial htakes' (by simp) hfound', .cons ⟨hrest, rfl⟩ hyields⟩

/-- What is made of the heads of both texts is the same, if it does not depend on the carriage
returns behind a head. -/
lemma map_findAll_returned {β : Type} (hp : ReadsWords p) (h : Returned u v) {read : Match → β}
    (hread : ∀ found, read (matchOf found.yield) = read found)
    (hsame : ∀ {rest rest'} caught, Returned rest rest' →
      read (matchOf (rest, caught)) = read (matchOf (rest', caught))) :
    ((headOf p).findAll u).map read
      = ((headOf p).findAll v).map read := by
  have halike : FindsAlike (headOf p) [] [] u v := findsAlike_headOf hp h rfl
  obtain ⟨found, found', hfound, hfound', hyields⟩ := halike
  rw [map_findAll hread hfound, map_findAll hread hfound']
  clear hfound hfound'
  induction hyields with
  | nil => rfl
  | @cons yield yield' _ _ hyield _ ih =>
      obtain ⟨rest, caught⟩ := yield
      obtain ⟨rest', caught'⟩ := yield'
      obtain ⟨hrest, rfl⟩ := hyield
      rw [List.map_cons, List.map_cons, ih, hsame caught hrest]

/-! ### Models -/

/-- The lines of a model are read without the carriage returns at their ends. -/
lemma map_ofText_lines_returned (h : Returned u v) :
    (Text.lines u).map Line.ofText = (Text.lines v).map Line.ofText := by
  have hgap : IsGap ['\r'] := by
    simp [IsGap]
    decide
  have hlines := h.lines
  generalize Text.lines u = lines at hlines ⊢
  generalize Text.lines v = lines' at hlines ⊢
  induction hlines with
  | nil => rfl
  | @cons line line' _ _ hline _ ih =>
      rw [List.map_cons, List.map_cons, ih]
      obtain rfl | rfl := hline
      · rfl
      · rw [Line.ofText, Line.ofText, Text.trim_append_gap hgap]

/-- So is a model. -/
lemma ofMatch?_returned (h : Returned rest x) (caught : Captures) :
    Model.ofMatch? (matchOf (rest, caught)) = Model.ofMatch? (matchOf (x, caught)) := by
  have hpartner : Option.Rel _ (enclosed? .code rest) (enclosed? .code x) := h.enclosed?
  simp only [Model.ofMatch?, matchOf]
  generalize enclosed? .code rest = inner at hpartner ⊢
  generalize enclosed? .code x = inner' at hpartner ⊢
  cases hpartner with
  | none => rfl
  | some hinner =>
      rw [Option.map_some, Option.map_some, map_ofText_lines_returned hinner.1]
      rfl

/-- **The content of a text does not depend on carriage returns before its line feeds.** -/
theorem ofText_returned (h : Returned u v) : Contents.ofText u = Contents.ofText v := by
  have hstripped := h.stripComments
  rw [Contents.ofText, Contents.ofText, Contents.ofStripped, Contents.ofStripped]
  congr 1
  · exact map_findAll_returned readsWords_model hstripped (fun _ => rfl) fun caught hrest =>
      ofMatch?_returned hrest caught
  · exact map_findAll_returned readsWords_declaration hstripped (fun _ => rfl) fun _ _ => rfl

/-- Lines may end within the head of a model and in a comment behind it. -/
example : (Contents.ofText
    (Text.withReturns "model\nA \x7b // of\n id Int\n\x7d".toList)).models.map
    (fun model => model.map fun m => (m.name, m.fields.map Field.name)) = [some ("A", ["id"])] := by
  decide +kernel

end ModelFile

/-- **The schema of a model file does not depend on how its lines end.**  A carriage return before
each line feed changes nothing, neither in its tables and relations nor in the notices on the way:
not in comments, not in literals with line ends or escapes at the end of a line, not within the head
of a block and not in the lines of a model, be the text well-formed or not. -/
theorem ofTextNoted_withReturns (text : List Char) (rawPath : String) :
    Schema.ofTextNoted .prisma (Text.withReturns text) rawPath
      = Schema.ofTextNoted .prisma text rawPath := by
  have hcontents : ModelFile.Contents.ofText text
      = ModelFile.Contents.ofText (Text.withReturns text) :=
    ModelFile.ofText_returned (returned_withReturns text)
  simp only [Schema.ofTextNoted, Source.draft?, hcontents]

end SchemaReader
