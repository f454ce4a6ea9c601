/-
Texts that trimming leaves as they are.

* `Text.trimWhere_of_stops`: what is left of a text between two stretches of a class;
* `Text.trim_gaps`: a text between two gaps is trimmed to itself, if white space stands neither at
  its beginning nor at its end;
* `Text.exists_gaps`: trimming takes white space off both ends, and no more is left to take:
  `Text.trim_trim`.
-/
import SchemaReader.Proofs.Text.Words

namespace SchemaReader.Text

variable {p : Char → Bool} {u v w g h : List Char}

lemma dropEndWhile_append (hv : ∀ c ∈ v, p c = true) (hu : Stops p u.reverse) :
    dropEndWhile p (u ++ v) = u := by
  have hv' : ∀ c ∈ v.reverse, p c = true := by simpa using hv
  rw [dropEndWhile, List.reverse_append, dropWhile_append_of_stops hv' hu, List.reverse_reverse]

/-- A text that neither begins nor ends with a character of a class is left of itself between
such characters. -/
lemma trimWhere_of_stops (hu : ∀ c ∈ u, p c = true) (hv : ∀ c ∈ v, p c = true)
    (hw : Stops p w) (hend : Stops p w.reverse) (hne : w ≠ []) :
    trimWhere p (u ++ (w ++ v)) = w := by
  rw [trimWhere, dropWhile_append_of_stops hu (hw.append_of_ne_nil hne v),
    dropEndWhile_append hv hend]

lemma trimWhere_self (hw : Stops p w) (hend : Stops p w.reverse) : trimWhere p w = w := by
  by_cases hne : w = []
  · subst hne
    rfl
  · simpa using trimWhere_of_stops (u := []) (v := []) (by simp) (by simp) hw hend hne

lemma trim_of_forall (hw : ∀ c ∈ w, isBlank c = false) : trim w = w :=
  trimWhere_self (fun c hc => hw c (List.mem_of_mem_head? hc)) fun c hc =>
    hw c (List.mem_reverse.mp (List.mem_of_mem_head? hc))

lemma trim_gaps (hg : IsGap g) (hh : IsGap h) (hw : Stops isBlank w)
    (hend : Stops isBlank w.reverse) (hne : w ≠ []) : trim (g ++ (w ++ h)) = w :=
  trimWhere_of_stops hg hh hw hend hne

lemma trim_gap (hg : IsGap g) : trim g = [] := by
  have hdrop : (g ++ []).dropWhile isBlank = [] := dropWhile_append_of_stops hg stops_nil
  rw [List.append_nil] at hdrop
  rw [trim, trimWhere, hdrop]
  rfl

lemma trim_gap_append (hg : IsGap g) (w : List Char) : trim (g ++ w) = trim w := by
  rw [trim, trim, trimWhere, trimWhere, List.dropWhile_append_of_pos hg]

lemma trim_append_gap (hg : IsGap g) (w : List Char) : trim (w ++ g) = trim w := by
  by_cases hw : IsGap w
  · rw [trim_gap hw, trim_gap (List.forall_mem_append.mpr ⟨hw, hg⟩)]
  · have hdrop : w.dropWhile isBlank ≠ [] := fun hnil => hw fun c hc => by
      rw [← List.takeWhile_append_dropWhile (p := isBlank) (l := w), hnil, List.append_nil] at hc
      exact List.all_eq_true.mp List.all_takeWhile c hc
    have hall : ∀ c ∈ g.reverse, isBlank c = true := fun c hc => hg c (List.mem_reverse.mp hc)
    rw [trim, trim, trimWhere, trimWhere, List.dropWhile_append,
      if_neg (by simpa using hdrop), dropEndWhile, dropEndWhile, List.reverse_append,
      List.dropWhile_append_of_pos hall]

/-- A text ends with white space or none behind what is left of it. -/
lemma exists_gap_behind (text : List Char) :
    ∃ w g, text = w ++ g ∧ IsGap g ∧ Stops isBlank w.reverse := by
  have htext := List.takeWhile_append_dropWhile (p := isBlank) (l := text.reverse)
  refine ⟨(text.reverse.dropWhile isBlank).reverse,
    (text.reverse.takeWhile isBlank).reverse, ?_, ?_, ?_⟩
  · rw [← List.reverse_append, htext, List.reverse_reverse]
  · exact fun c hc => List.all_eq_true.mp List.all_takeWhile c (List.mem_reverse.mp hc)
  · rw [List.reverse_reverse]
    exact stops_dropWhile isBlank _

/-- Trimming takes white space off the end of what it leaves of the beginning. -/
lemma exists_gap_behind_trim (text : List Char) :
    ∃ g, text.dropWhile isBlank = trim text ++ g ∧ IsGap g := by
  have hback :=
    List.takeWhile_append_dropWhile (p := isBlank) (l := (text.dropWhile isBlank).reverse)
  refine ⟨((text.dropWhile isBlank).reverse.takeWhile isBlank).reverse, ?_,
    fun c hc => List.all_eq_true.mp List.all_takeWhile c (List.mem_reverse.mp hc)⟩
  rw [trim, trimWhere, dropEndWhile, ← List.reverse_append, hback, List.reverse_reverse]

/-- Trimming takes white space off both ends. -/
lemma exists_gaps (text : List Char) :
    ∃ g g', text = g ++ trim text ++ g' ∧ IsGap g ∧ IsGap g' := by
  obtain ⟨g', hdrop, hg'⟩ := exists_gap_behind_trim text
  refine ⟨text.takeWhile isBlank, g', ?_,
    fun c hc => List.all_eq_true.mp List.all_takeWhile c hc, hg'⟩
  rw [List.append_assoc, ← hdrop, List.takeWhile_append_dropWhile]

lemma trim_trim (text : List Char) : trim (trim text) = trim text := by
  obtain ⟨g, hdrop, -⟩ := exists_gap_behind_trim text
  refine trimWhere_self (Stops.of_append (v := g) ?_) ?_
  · rw [← hdrop]
    exact stops_dropWhile isBlank text
  · rw [trim, trimWhere, dropEndWhile, List.reverse_reverse]
    exact stops_dropWhile isBlank _

/-- A text that begins with no white space is trimmed to a beginning of it. -/
lemma stops_trim (hw : Stops isBlank w) (h : Stops p w) : Stops p (trim w) := by
  obtain ⟨g, hdrop, -⟩ := exists_gap_behind_trim w
  have hself : w.dropWhile isBlank = w := dropWhile_append_of_stops (u := []) (by simp) hw
  rw [hself] at hdrop
  exact Stops.of_append (v := g) (hdrop ▸ h)

/-- Trimming leaves out, and changes nothing else. -/
lemma trim_sublist (text : List Char) : (trim text).Sublist text := by
  have hdrop : ∀ t : List Char, (t.dropWhile isBlank).Sublist t := fun t =>
    (List.dropWhile_suffix isBlank).sublist
  have hend := List.reverse_sublist.mpr (hdrop (text.dropWhile isBlank).reverse)
  rw [List.reverse_reverse] at hend
  exact hend.trans (hdrop text)

lemma IsWord.stops_reverse (hw : IsWord w) (hp : ∀ c, isWordChar c = true → p c = false) :
    Stops p w.reverse := by
  intro c hc
  exact hp c (hw.chars c (List.mem_reverse.mp (List.mem_of_mem_head? hc)))

end SchemaReader.Text
