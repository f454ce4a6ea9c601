/-
Texts that are cut at single characters.

* `Text.segments_append`, `Text.segments_prepend`: the pieces of a text put together from two;
* `Text.segments_flatMap`: writing each character anew, the ones that are cut at as they are, writes
  each piece anew;
* `Text.mem_segments_cons`: what one more character in front makes of the pieces, with
  `Text.sublist_of_mem_segments`, `Text.mem_of_mem_segments`: what the pieces hold, and
  `Text.sublist_joinWith`: texts that are joined;
* `Text.lines_flatMap`: lines with their line feeds are cut into these lines, and an empty one at
  the end.
-/
import Mathlib.Tactic.Lemma
import SchemaReader.Text.Segments

namespace SchemaReader.Text

variable {p : Char → Bool} {c : Char} {u rest : List Char}

lemma segmentsLoop_done (done : List (List Char)) (piece text : List Char) :
    segmentsLoop p done piece text = done.reverse ++ segmentsLoop p [] piece text := by
  induction text generalizing done piece with
  | nil => simp [segmentsLoop]
  | cons c text ih =>
      simp only [segmentsLoop]
      split
      · rw [ih (piece.reverse :: done), ih [piece.reverse]]
        simp
      · exact ih done (c :: piece)

lemma segmentsLoop_append (hu : ∀ c ∈ u, p c = false) (piece : List Char) :
    segmentsLoop p [] piece (u ++ rest) = segmentsLoop p [] (u.reverse ++ piece) rest := by
  induction u generalizing piece with
  | nil => rfl
  | cons c u ih =>
      rw [List.forall_mem_cons] at hu
      simp [segmentsLoop, hu.1, ih hu.2]

/-- The piece before the first character of a class. -/
lemma segments_append_cons (hu : ∀ c ∈ u, p c = false) (hc : p c = true) :
    segments p (u ++ c :: rest) = u :: segments p rest := by
  rw [segments, segmentsLoop_append hu]
  simp only [segmentsLoop, hc, ite_true]
  rw [segmentsLoop_done]
  simp [segments]

lemma segments_append (hc : p c = true) (u rest : List Char) :
    segments p (u ++ c :: rest) = segments p u ++ segments p rest := by
  have hloop : ∀ piece, segmentsLoop p [] piece (u ++ c :: rest)
      = segmentsLoop p [] piece u ++ segments p rest := by
    induction u with
    | nil =>
        intro piece
        rw [List.nil_append]
        simp only [segmentsLoop, hc, ite_true]
        rw [segmentsLoop_done]
        rfl
    | cons d u ih =>
        intro piece
        rw [List.cons_append, segmentsLoop, segmentsLoop]
        split
        · rw [segmentsLoop_done, segmentsLoop_done _ _ u, ih, List.append_assoc]
        · exact ih _
  exact hloop []

lemma segmentsLoop_piece (piece text : List Char) :
    segmentsLoop p [] piece text
      = (segmentsLoop p [] [] text).modifyHead (piece.reverse ++ ·) := by
  induction text generalizing piece with
  | nil => simp [segmentsLoop]
  | cons c text ih =>
      simp only [segmentsLoop]
      split
      · rw [segmentsLoop_done, segmentsLoop_done [[].reverse]]
        simp
      · rw [ih (c :: piece), ih [c], List.modifyHead_modifyHead]
        congr 1
        funext w
        simp

/-- Characters that are not cut at belong to the first piece. -/
lemma segments_prepend (hu : ∀ c ∈ u, p c = false) (rest : List Char) :
    segments p (u ++ rest) = (segments p rest).modifyHead (u ++ ·) := by
  rw [segments, segmentsLoop_append hu, segmentsLoop_piece]
  simp [segments]

/-- A text without a character that is cut at is its own only piece. -/
lemma segments_of_none (hu : ∀ c ∈ u, p c = false) : segments p u = [u] := by
  simpa [segments, segmentsLoop] using segments_prepend hu []

lemma segments_ne_nil (text : List Char) : segments p text ≠ [] := by
  induction text with
  | nil => simp [segments, segmentsLoop]
  | cons c text ih =>
      cases hc : p c with
      | true =>
          rw [← List.nil_append (c :: text), segments_append_cons (by simp) hc]
          exact List.cons_ne_nil _ _
      | false =>
          rw [← List.singleton_append, segments_prepend (by simpa using hc)]
          simpa using ih

/-- A piece of a text with one more character in front: a new one, which is empty, or a piece of the
text, with the character in front of it if the text is not cut there. -/
lemma mem_segments_cons {d : Char} {piece : List Char} (h : piece ∈ segments p (d :: u)) :
    piece = [] ∨ piece ∈ segments p u ∨
      p d = false ∧ ∃ first ∈ segments p u, piece = d :: first := by
  cases hd : p d with
  | true =>
      rw [← List.nil_append (d :: u), segments_append_cons (by simp) hd] at h
      exact (List.mem_cons.mp h).imp_right Or.inl
  | false =>
      rw [← List.singleton_append, segments_prepend (by simpa using hd)] at h
      cases hsegments : segments p u with
      | nil => exact absurd hsegments (segments_ne_nil u)
      | cons first others =>
          rw [hsegments] at h
          obtain rfl | hpiece := List.mem_cons.mp h
          · exact Or.inr (Or.inr ⟨rfl, first, List.mem_cons_self, rfl⟩)
          · exact Or.inr (Or.inl (List.mem_cons_of_mem first hpiece))

/-- The pieces are pieces of the text. -/
lemma sublist_of_mem_segments {piece : List Char} (hpiece : piece ∈ segments p u) :
    piece.Sublist u := by
  induction u generalizing piece with
  | nil =>
      obtain rfl := List.mem_singleton.mp hpiece
      exact List.Sublist.refl _
  | cons d u ih =>
      obtain rfl | hmem | ⟨-, first, hmem, rfl⟩ := mem_segments_cons hpiece
      · exact List.nil_sublist _
      · exact (ih hmem).cons d
      · exact (ih hmem).cons_cons d

/-- They hold no character that is cut at. -/
lemma mem_of_mem_segments {piece : List Char} (hpiece : piece ∈ segments p u) :
    ∀ c ∈ piece, p c = false ∧ c ∈ u := by
  refine fun c hc => ⟨?_, (sublist_of_mem_segments hpiece).subset hc⟩
  induction u generalizing piece with
  | nil =>
      obtain rfl := List.mem_singleton.mp hpiece
      simp at hc
  | cons d u ih =>
      obtain rfl | hmem | ⟨hd, first, hmem, rfl⟩ := mem_segments_cons hpiece
      · simp at hc
      · exact ih hmem hc
      · obtain rfl | hc := List.mem_cons.mp hc
        · exact hd
        · exact ih hmem hc

/-- Writing each character anew, but the ones that are cut at as they are, writes each piece
anew. -/
theorem segments_flatMap {write : Char → List Char} (hcut : ∀ c, p c = true → write c = [c])
    (hother : ∀ c, p c = false → ∀ d ∈ write c, p d = false) (text : List Char) :
    segments p (text.flatMap write) = (segments p text).map (·.flatMap write) := by
  induction text with
  | nil => rfl
  | cons c text ih =>
      rw [List.flatMap_cons]
      cases hc : p c with
      | true =>
          rw [hcut c hc, List.singleton_append, ← List.nil_append (c :: text.flatMap write),
            ← List.nil_append (c :: text), segments_append_cons (by simp) hc,
            segments_append_cons (by simp) hc, ih, List.map_cons, List.flatMap_nil]
      | false =>
          rw [segments_prepend (hother c hc), ih, ← List.singleton_append,
            segments_prepend (by simpa using hc)]
          cases segments p text <;> simp

lemma joinWith_singleton (separator text : List Char) : joinWith separator [text] = text := by
  simp [joinWith]

lemma joinWith_cons_cons (separator first second : List Char) (texts : List (List Char)) :
    joinWith separator (first :: second :: texts)
      = first ++ separator ++ joinWith separator (second :: texts) := by
  simp [joinWith, List.intercalate]

lemma sublist_joinWith {separator text : List Char} {texts : List (List Char)} (h : text ∈ texts) :
    text.Sublist (joinWith separator texts) := by
  induction texts with
  | nil => simp at h
  | cons first texts ih =>
      cases texts with
      | nil => simp [List.mem_singleton.mp h, joinWith_singleton]
      | cons second texts =>
          rw [joinWith_cons_cons, List.append_assoc]
          obtain rfl | h := List.mem_cons.mp h
          · exact List.sublist_append_left _ _
          · refine (ih h).trans ?_
            exact (List.sublist_append_right separator _).trans (List.sublist_append_right first _)

/-- One text more is put behind a separator. -/
lemma joinWith_concat {separator : List Char} {texts : List (List Char)} (htexts : texts ≠ [])
    (text : List Char) :
    joinWith separator (texts ++ [text]) = joinWith separator texts ++ separator ++ text := by
  induction texts with
  | nil => exact absurd rfl htexts
  | cons first texts ih =>
      cases texts with
      | nil =>
          rw [List.singleton_append, joinWith_cons_cons, joinWith_singleton, joinWith_singleton]
      | cons second texts =>
          rw [List.cons_append, List.cons_append, joinWith_cons_cons, joinWith_cons_cons,
            ← List.cons_append, ih (List.cons_ne_nil _ _)]
          simp only [List.append_assoc]

/-- Lines with their line feeds are cut into these lines, and an empty one behind them. -/
theorem lines_flatMap {α : Type} {xs : List α} {line : α → List Char}
    (h : ∀ x ∈ xs, ∀ c ∈ line x, c ≠ '\n') :
    lines (xs.flatMap fun x => line x ++ ['\n']) = xs.map line ++ [[]] := by
  induction xs with
  | nil => rfl
  | cons x xs ih =>
      rw [List.forall_mem_cons] at h
      have hline : ∀ c ∈ line x, (c == '\n') = false := fun c hc => by simpa using h.1 c hc
      rw [List.flatMap_cons, List.append_assoc, List.singleton_append, lines,
        segments_append_cons hline (by simp), ← lines, ih h.2, List.map_cons, List.cons_append]

end SchemaReader.Text
