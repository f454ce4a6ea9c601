/-
What two readings of a text take for its top level.

* `cutOffsets`: the byte offsets at which a text is cut between separators, with
  `mem_cutOffsets_iff`: there the separator stands behind a text that leaves a reading where it was;
* `charAt?_maskNested_iff`: the same of the offsets at which the masked text shows the separator,
  where no beginning of the text closes more brackets than it opens;
* `CutsOn`, `MasksOn`: where the cutting and the masking stand behind a text;
* `topLevel_readings_agree`: so a text is cut exactly where its mask shows the separator, and behind
  the text between a bracket and its partner both readings stand where they began.
-/
import SchemaReader.Proofs.Lexical.Masking
import SchemaReader.Proofs.Lexical.Splitting

namespace SchemaReader

open Text (byteLength)

variable {dialect : Dialect} {separator : Char} {n : Nat} {literal : Literal} {s : Nat × Literal}
  {c : Char} {text u v x y : List Char} {pieces : List (List Char)}

/-! ### Where a text is cut -/

/-- The byte offsets of the separators in a text that consists of pieces with a separator of `width`
bytes between each two. -/
def offsetsBetween (width : Nat) : List (List Char) → List Nat
  | [] | [_] => []
  | piece :: next :: pieces =>
    byteLength piece ::
      (offsetsBetween width (next :: pieces)).map (byteLength piece + width + ·)

/-- The byte offsets at which a text is cut between separators at the top level. -/
def cutOffsets (dialect : Dialect) (separator : Char) (text : List Char) : List Nat :=
  offsetsBetween separator.utf8Size (topLevelPieces dialect separator text)

lemma offsetsBetween_cons (width : Nat) (piece : List Char) (hne : pieces ≠ []) :
    offsetsBetween width (piece :: pieces)
      = byteLength piece :: (offsetsBetween width pieces).map (byteLength piece + width + ·) := by
  obtain ⟨next, pieces, rfl⟩ := List.exists_cons_of_ne_nil hne
  rfl

lemma topLevelPieces_ne_nil (hplain : isPlain separator = true) (text : List Char) :
    topLevelPieces dialect separator text ≠ [] := by
  induction text using induction_on_cuts dialect separator with
  | last u hfree => simp [topLevelPieces_of_cutFree hfree]
  | cut u v hfree hlevel _ => simp [topLevelPieces_cons_of_level hplain hfree hlevel]

/-- A text consists of its pieces with separators between them. -/
lemma joinWith_topLevelPieces (hplain : isPlain separator = true) (text : List Char) :
    Text.joinWith [separator] (topLevelPieces dialect separator text) = text := by
  induction text using induction_on_cuts dialect separator with
  | last u hfree =>
      rw [topLevelPieces_of_cutFree hfree, Text.joinWith_singleton]
  | cut u v hfree hlevel ih =>
      have hne : topLevelPieces dialect separator v ≠ [] := topLevelPieces_ne_nil hplain v
      obtain ⟨next, pieces, hpieces⟩ := List.exists_cons_of_ne_nil hne
      rw [topLevelPieces_cons_of_level hplain hfree hlevel, hpieces, Text.joinWith_cons_cons,
        ← hpieces, ih, List.append_assoc, List.singleton_append]

/-- In a text that is not cut, no separator stands behind a text that leaves a reading where it
was. -/
lemma CutFree.not_level (h : CutFree dialect separator 0 .outside text)
    (htext : text = u ++ separator :: v) : ¬ Level dialect u := fun hu =>
  h u separator v htext ⟨hu.outside, by rw [hu.level, Int.add_zero], rfl⟩

/-- A separator that stands behind a text that leaves a reading where it was ends the first piece,
or it stands behind that piece and its separator. -/
lemma CutFree.eq_or_behind (h : CutFree dialect separator 0 .outside u) (hx : Level dialect x)
    (htext : u ++ separator :: v = x ++ separator :: y) :
    x = u ∨ ∃ w, x = u ++ separator :: w ∧ v = w ++ separator :: y := by
  obtain ⟨w, rfl, hw⟩ | ⟨w, rfl, hw⟩ := List.append_eq_append_iff.mp htext
  · cases w with
    | nil => exact Or.inl (by simp)
    | cons d w =>
        obtain ⟨rfl, rfl⟩ := List.cons.inj hw
        exact Or.inr ⟨w, rfl, rfl⟩
  · cases w with
    | nil => exact Or.inl (by simp)
    | cons d w =>
        -- a separator inside of the first piece would have ended it
        obtain ⟨rfl, -⟩ := List.cons.inj hw
        exact absurd hx (h.not_level rfl)

/-- A text is cut where the separator stands outside of literals and behind as many closed brackets
as opened ones. -/
theorem mem_cutOffsets_iff (hplain : isPlain separator = true) :
    n ∈ cutOffsets dialect separator text ↔
      ∃ u v, text = u ++ separator :: v ∧ Level dialect u ∧ byteLength u = n := by
  induction text using induction_on_cuts dialect separator generalizing n with
  | last u hfree =>
      rw [cutOffsets, topLevelPieces_of_cutFree hfree]
      refine ⟨fun h => by simp [offsetsBetween] at h, ?_⟩
      rintro ⟨x, y, htext, hx, -⟩
      exact absurd hx (hfree.not_level htext)
  | cut u v hfree hlevel ih =>
      rw [cutOffsets, topLevelPieces_cons_of_level hplain hfree hlevel,
        offsetsBetween_cons _ _ (topLevelPieces_ne_nil hplain v), ← cutOffsets, List.mem_cons,
        List.mem_map]
      constructor
      · rintro (rfl | ⟨m, hm, rfl⟩)
        · exact ⟨u, v, rfl, hlevel, rfl⟩
        · obtain ⟨x, y, rfl, hx, rfl⟩ := ih.mp hm
          refine ⟨u ++ separator :: x, y, by simp, (hlevel.append_separator_iff hplain).mpr hx, ?_⟩
          rw [Text.byteLength_append, Text.byteLength_cons, Nat.add_assoc]
      · rintro ⟨x, y, htext, hx, rfl⟩
        obtain rfl | ⟨w, rfl, rfl⟩ := hfree.eq_or_behind hx htext
        · exact Or.inl rfl
        · refine Or.inr ⟨byteLength w, ?_, ?_⟩
          · exact ih.mpr ⟨w, y, rfl, (hlevel.append_separator_iff hplain).mp hx, rfl⟩
          · rw [Text.byteLength_append, Text.byteLength_cons, Nat.add_assoc]

/-! ### What a mask shows -/

/-- A mask shows a character outside of literals and brackets that is no quote and no bracket. -/
def ShowsAt (depth : Nat) (literal : Literal) (c : Char) : Prop :=
  depth = 0 ∧ literal = .outside ∧ isPlain c = true

instance (depth : Nat) (literal : Literal) (c : Char) : Decidable (ShowsAt depth literal c) :=
  inferInstanceAs (Decidable (_ ∧ _))

/-- What the output of a masking gains by a character. -/
def maskOf (depth : Nat) (literal : Literal) (c : Char) : List Char :=
  if ShowsAt depth literal c then [c] else List.replicate c.utf8Size ' '

lemma byteLength_maskOf (depth : Nat) (literal : Literal) (c : Char) :
    byteLength (maskOf depth literal c) = c.utf8Size := by
  rw [maskOf]
  split
  · rw [Text.byteLength_cons, Text.byteLength_nil, Nat.add_zero]
  · exact Text.byteLength_replicate_space c.utf8Size

lemma maskOf_of_not_showsAt (h : ¬ ShowsAt n literal c) :
    maskOf n literal c = List.replicate c.utf8Size ' ' :=
  if_neg h

/-- Where the count of open brackets goes on, the masking goes on with it. -/
lemma maskNestedLoop_step (h : bracketStep? dialect n literal c = some s) (rest : List Char) :
    maskNestedLoop dialect n literal [] (c :: rest)
      = maskOf n literal c ++ maskNestedLoop dialect s.1 s.2 [] rest := by
  cases bracketStep?_eq_some_iff.mp h with
  | covered hcovers =>
      have hhidden : ¬ ShowsAt n literal c := by
        rintro ⟨-, rfl, hplain⟩
        exact absurd ((isPlain_iff.mp hplain).1.symm.trans hcovers) Bool.false_ne_true
      rw [maskNestedLoop, if_pos hcovers, maskNestedLoop_pushMask, maskOf_of_not_showsAt hhidden]
  | opening hopening =>
      have hhidden : ¬ ShowsAt n .outside c := fun hshows => by
        simp [(isPlain_iff.mp hshows.2.2).2.1] at hopening
      simp [maskNestedLoop, Literal.covers, not_isQuote_of_isOpening hopening, hopening,
        maskNestedLoop_pushMask, maskOf_of_not_showsAt hhidden]
  | @closing n hclosing =>
      have hhidden : ¬ ShowsAt (n + 1) .outside c := fun hshows => Nat.succ_ne_zero n hshows.1
      simp [maskNestedLoop, Literal.covers, not_isQuote_of_isClosing hclosing,
        not_isOpening_of_isClosing hclosing, hclosing, maskNestedLoop_pushMask,
        maskOf_of_not_showsAt hhidden]
  | plain hplain =>
      obtain ⟨hquote, hopening, hclosing⟩ := isPlain_iff.mp hplain
      cases n with
      | zero =>
          rw [maskOf, if_pos ⟨rfl, rfl, hplain⟩]
          exact maskNested_cons hplain
      | succ n =>
          have hhidden : ¬ ShowsAt (n + 1) .outside c := fun hshows => Nat.succ_ne_zero n hshows.1
          simp [maskNestedLoop, Literal.covers, hquote, hopening, hclosing, maskNestedLoop_pushMask,
            maskOf_of_not_showsAt hhidden]

/-- So it does behind a text. -/
lemma exists_maskNestedLoop (h : depthAfter? dialect n literal u = some s) :
    ∃ mask, byteLength mask = byteLength u ∧ ∀ rest,
      maskNestedLoop dialect n literal [] (u ++ rest)
        = mask ++ maskNestedLoop dialect s.1 s.2 [] rest := by
  induction u generalizing n literal with
  | nil =>
      rw [← Option.some.inj h]
      exact ⟨[], rfl, fun rest => rfl⟩
  | cons c u ih =>
      obtain ⟨s', hstep, h⟩ := Option.bind_eq_some_iff.mp h
      obtain ⟨mask, hlength, hmask⟩ := ih h
      refine ⟨maskOf n literal c ++ mask, ?_, fun rest => ?_⟩
      · rw [Text.byteLength_append, byteLength_maskOf, hlength, Text.byteLength_cons]
      · rw [List.cons_append, maskNestedLoop_step hstep, hmask, List.append_assoc]

/-- What a mask gains by a character that is no space begins with it where the character shows. -/
lemma head?_maskOf_iff (hspace : c ≠ ' ') (rest : List Char) :
    (maskOf n literal c ++ rest).head? = some c ↔ ShowsAt n literal c := by
  rw [maskOf]
  split
  · next hshows => exact iff_of_true rfl hshows
  · next hhidden =>
      refine iff_of_false ?_ hhidden
      obtain ⟨k, hk⟩ := Nat.exists_eq_succ_of_ne_zero (Nat.ne_of_gt c.utf8Size_pos)
      rw [hk, List.replicate_succ, List.cons_append, List.head?_cons, Option.some_inj]
      exact hspace.symm

/-- Behind a text that closes no more brackets than it opens, a mask shows a separator if none is
open. -/
lemma charAt?_maskNested_append_iff (hplain : isPlain separator = true) (hspace : separator ≠ ' ')
    (hu : depthAfter? dialect 0 .outside u = some s) (v : List Char) :
    Text.charAt? (maskNested dialect (u ++ separator :: v)) (byteLength u) = some separator ↔
      Level dialect u := by
  obtain ⟨mask, hlength, hmask⟩ := exists_maskNestedLoop hu
  obtain ⟨-, hlevel, hliteral⟩ := depthAfter?_eq_some_iff.mp hu
  rw [Int.natCast_zero, Int.zero_add] at hlevel
  rw [maskNested, hmask, maskNestedLoop_step (bracketStep?_of_isPlain hplain), ← hlength,
    Text.charAt?_byteLength, head?_maskOf_iff hspace]
  constructor
  · rintro ⟨hzero, houtside, -⟩
    exact ⟨by rw [← hlevel, hzero, Int.natCast_zero], by rw [← hliteral, houtside]⟩
  · intro h
    rw [h.level, Int.natCast_eq_zero] at hlevel
    exact ⟨hlevel, hliteral.trans h.outside, hplain⟩

/-- A mask shows a separator that is no space where the separator stands outside of literals and
behind as many closed brackets as opened ones. -/
theorem charAt?_maskNested_iff (hplain : isPlain separator = true) (hspace : separator ≠ ' ')
    (hle : ∀ u, u <+: text → closings dialect u ≤ openings dialect u) :
    Text.charAt? (maskNested dialect text) n = some separator ↔
      ∃ u v, text = u ++ separator :: v ∧ Level dialect u ∧ byteLength u = n := by
  obtain ⟨s, hs⟩ := forall_prefix_iff.mp hle
  constructor
  · intro h
    obtain ⟨after, hdrop, hhead⟩ := Option.bind_eq_some_iff.mp h
    obtain ⟨before, hmask, rfl⟩ := Text.dropBytes?_eq_some_iff.mp hdrop
    obtain ⟨after, rfl⟩ := List.head?_eq_some_iff.mp hhead
    -- what a mask shows stands in the text at the same offset
    obtain ⟨u, v, rfl, hu⟩ := (masks_maskNested dialect text).exists_append hmask hspace
    obtain ⟨m, l, hdepth, -⟩ := exists_depthAfter? hs
    rw [← hu, charAt?_maskNested_append_iff hplain hspace hdepth] at h
    exact ⟨u, v, rfl, h, hu⟩
  · rintro ⟨u, v, rfl, hu, rfl⟩
    obtain ⟨m, l, hdepth, -⟩ := exists_depthAfter? hs
    exact (charAt?_maskNested_append_iff hplain hspace hdepth v).mpr hu

/-! ### Where the two readings stand -/

/-- Behind a text the cutting stands at a bracket level and a place with respect to literals: it
reads on from there, whatever follows. -/
def CutsOn (dialect : Dialect) (separator : Char) (text : List Char) (depth : Int)
    (literal : Literal) : Prop :=
  ∃ done piece, ∀ rest, topLevelPiecesLoop dialect separator 0 .outside [] [] (text ++ rest)
    = topLevelPiecesLoop dialect separator depth literal done piece rest

/-- Behind a text the masking stands at a number of open brackets and a place. -/
def MasksOn (dialect : Dialect) (text : List Char) (depth : Nat) (literal : Literal) : Prop :=
  ∃ out, ∀ rest, maskNestedLoop dialect 0 .outside [] (text ++ rest)
    = maskNestedLoop dialect depth literal out rest

lemma masksOn_of_depthAfter? (h : depthAfter? dialect 0 .outside text = some s) :
    MasksOn dialect text s.1 s.2 := by
  obtain ⟨mask, -, hmask⟩ := exists_maskNestedLoop h
  refine ⟨mask.reverse, fun rest => ?_⟩
  rw [hmask, maskNestedLoop_out _ _ mask.reverse, List.reverse_reverse]

/-- A text consists of pieces with separators between them, which are trimmed and kept if anything
is left of them, and the separators are those that its mask shows. -/
structure CutsWhereShown (dialect : Dialect) (separator : Char) (text : List Char) : Prop where
  joined : Text.joinWith [separator] (topLevelPieces dialect separator text) = text
  kept : splitTopLevel dialect separator text
    = ((topLevelPieces dialect separator text).map Text.trim).filter fun piece => !piece.isEmpty
  shown : ∀ n, n ∈ cutOffsets dialect separator text ↔
    Text.charAt? (maskNested dialect text) n = some separator

lemma cutsWhereShown_of_prefix_le (hplain : isPlain separator = true) (hspace : separator ≠ ' ')
    (hle : ∀ u, u <+: text → closings dialect u ≤ openings dialect u) :
    CutsWhereShown dialect separator text where
  joined := joinWith_topLevelPieces hplain text
  kept := rfl
  shown _ := (mem_cutOffsets_iff hplain).trans (charAt?_maskNested_iff hplain hspace hle).symm

/-- **A text is cut exactly where its mask shows the separator**, if no beginning of it closes more
brackets than it opens, for each separator that is no quote, bracket or space.  This holds of what
stands between a bracket and its partner, and behind such a text no bracket and no literal is open,
neither for the cutting nor for the masking. -/
theorem topLevel_readings_agree (dialect : Dialect) (hplain : isPlain separator = true)
    (hspace : separator ≠ ' ') :
    (∀ text, (∀ u, u <+: text → closings dialect u ≤ openings dialect u) →
        CutsWhereShown dialect separator text) ∧
      ∀ text start body, bracketBodyAt? dialect text start = some body →
        CutsWhereShown dialect separator body ∧ CutsOn dialect separator body 0 .outside ∧
          MasksOn dialect body 0 .outside := by
  refine ⟨fun text => cutsWhereShown_of_prefix_le hplain hspace, fun text start body h => ?_⟩
  obtain ⟨-, -, -, -, -, -, -, hmatched, -, -⟩ := bracketBodyAt?_eq_some_iff.mp h
  have hbalanced : Balanced dialect body := matched_iff_balanced.mp hmatched
  exact ⟨cutsWhereShown_of_prefix_le hplain hspace hmatched.prefix_le,
    exists_topLevelPiecesLoop hplain hbalanced [] [], masksOn_of_depthAfter? hbalanced⟩

/-- A table whose columns hold commas in brackets and in a literal, with a bracket in the
literal. -/
def sampleTableText : List Char :=
  "t (id INT, price DECIMAL(10, 2), note TEXT DEFAULT '\u00E9,)')".toList

/-- Its columns. -/
def sampleTableBody : List Char :=
  "id INT, price DECIMAL(10, 2), note TEXT DEFAULT '\u00E9,)'".toList

/-- A column, and commas behind it of which the second stands in a bracket that is never closed. -/
def sampleOpenText : List Char := "id INT, CHECK (a, b".toList

theorem topLevel_readings_agree_samples : isPlain ',' = true ∧ ',' ≠ ' ' ∧
    bracketBodyAt? .script sampleTableText 2 = some sampleTableBody ∧
    cutOffsets .script ',' sampleTableBody = [6, 28] ∧
    Text.charAt? (maskNested .script sampleTableBody) 28 = some ',' ∧
    CutsOn .script ',' sampleTableBody 0 .outside ∧ MasksOn .script sampleTableBody 0 .outside ∧
    (∀ u, u <+: sampleOpenText → closings .script u ≤ openings .script u) ∧
    cutOffsets .script ',' sampleOpenText = [6] ∧
    Text.charAt? (maskNested .script sampleOpenText) 16 ≠ some ',' := by
  have hplain : isPlain ',' = true := by decide
  have hbody : bracketBodyAt? .script sampleTableText 2 = some sampleTableBody := by decide
  have hopen : ∀ u, u <+: sampleOpenText → closings .script u ≤ openings .script u :=
    forall_prefix_iff.mpr ⟨(1, .outside), by decide⟩
  obtain ⟨htexts, hbetween⟩ := topLevel_readings_agree .script hplain (by decide)
  obtain ⟨hshown, hcuts, hmasks⟩ := hbetween _ _ _ hbody
  have hoffsets : cutOffsets .script ',' sampleTableBody = [6, 28] := by decide
  have hopened : cutOffsets .script ',' sampleOpenText = [6] := by decide
  refine ⟨hplain, by decide, hbody, hoffsets, (hshown.shown 28).mp (by simp [hoffsets]),
    hcuts, hmasks, hopen, hopened, fun h => ?_⟩
  have hmem := ((htexts _ hopen).shown 16).mpr h
  simp [hopened] at hmem

end SchemaReader
