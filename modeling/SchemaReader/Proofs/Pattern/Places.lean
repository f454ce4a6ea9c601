/-
Where matches stand.

* `Pattern.Stands`: a match is a piece of a text that the pattern reads there, with
  `stands_of_find?` and `stands_of_mem_findAll`: so is every match that is found in a text;
* `Pattern.EndsWith`: every reading of a pattern ends with a character, with `Stands.exists_before`:
  that character stands before the end of a match;
* `Stands.exists_start`: the character that a match begins with.
-/
import SchemaReader.Proofs.Pattern.First

namespace SchemaReader.Pattern

/-- A match in a text is a piece of the text that the pattern reads there. -/
def Stands (q : Pattern) (text : List Char) (found : Match) : Prop :=
  ∃ w, text = found.start.before.reverse ++ (w ++ found.stop.after) ∧
    found.stop.before = w.reverse ++ found.start.before ∧
    q.Reads found.start.before w found.stop.after

variable {q : Pattern} {text before : List Char} {found : Match} {s : Cursor} {n : Nat} {c : Char}

/-! ### Matches in texts -/

lemma Stands.eq_append (h : q.Stands text found) :
    text = found.stop.before.reverse ++ found.stop.after := by
  obtain ⟨w, htext, hstop, -⟩ := h
  rw [htext, hstop, List.reverse_append, List.reverse_reverse, List.append_assoc]

lemma stands_of_matchAt? (h : q.matchAt? ⟨before, text, n⟩ = some found) :
    q.Stands (before.reverse ++ text) found := by
  obtain ⟨w, rest, m, rfl, hread, hfound⟩ := q.reads_of_run h
  obtain rfl := Option.some.inj hfound
  exact ⟨w, rfl, rfl, hread⟩

lemma stands_of_findLoop (h : findLoop q before n text = some found) :
    q.Stands (before.reverse ++ text) found := by
  induction text generalizing before n with
  | nil => exact stands_of_matchAt? h
  | cons c text ih =>
      rw [findLoop] at h
      split at h
      · next hmatch =>
          obtain rfl := Option.some.inj h
          exact stands_of_matchAt? hmatch
      · simpa using ih h

lemma stands_of_findFrom? (h : q.findFrom? s = some found) :
    q.Stands (s.before.reverse ++ s.after) found := stands_of_findLoop h

theorem stands_of_find? (h : q.find? text = some found) : q.Stands text found :=
  stands_of_findFrom? h

/-- The search for all matches stays in the text: wherever it goes on, the text is what stands
before the place and what stands after it. -/
lemma stands_of_mem_findAllLoop {fuel : Nat} {known : List Match}
    (hknown : ∀ m ∈ known, q.Stands text m) (htext : text = s.before.reverse ++ s.after) :
    ∀ m ∈ findAllLoop q fuel s known, q.Stands text m := by
  induction fuel generalizing s known with
  | zero => simpa [findAllLoop] using hknown
  | succ fuel ih =>
      rw [findAllLoop]
      split
      · simpa using hknown
      · next found hfind =>
          have hfound : q.Stands text found := htext ▸ stands_of_findFrom? hfind
          have hmore : ∀ m ∈ found :: known, q.Stands text m :=
            List.forall_mem_cons.mpr ⟨hfound, hknown⟩
          split
          · split
            · exact fun m hm => hmore m (List.mem_reverse.mp hm)
            · next c rest hafter =>
                refine ih hmore ?_
                rw [hfound.eq_append, hafter, Cursor.advance, List.reverse_cons, List.append_assoc,
                  List.singleton_append]
          · exact ih hmore hfound.eq_append

theorem stands_of_mem_findAll (h : found ∈ q.findAll text) : q.Stands text found :=
  stands_of_mem_findAllLoop (by simp) rfl found h

/-! ### The ends of matches -/

/-- Whatever a pattern reads ends with a character. -/
def EndsWith (q : Pattern) (c : Char) : Prop :=
  ∀ before w rest, q.Reads before w rest → ∃ v, w = v ++ [c]

lemma endsWith_char (c : Char) : (char c).EndsWith c := by
  rintro before w rest ⟨d, hd, rfl⟩
  obtain rfl : d = c := by simpa using hd
  exact ⟨[], rfl⟩

lemma EndsWith.append (h : q.EndsWith c) (a : Pattern) : (a ++ q).EndsWith c := by
  rintro before w rest ⟨u, v, rfl, -, hv⟩
  obtain ⟨v, rfl⟩ := h _ _ _ hv
  exact ⟨u ++ v, by simp⟩

lemma endsWith_append_char (a : Pattern) (c : Char) : (a ++ char c).EndsWith c :=
  (endsWith_char c).append a

/-- The last character of a match stands right before its end. -/
theorem Stands.exists_before (h : q.Stands text found) (hq : q.EndsWith c) :
    ∃ u, found.stop.before = c :: u.reverse ∧ text = u ++ c :: found.stop.after := by
  obtain ⟨w, htext, hstop, hread⟩ := h
  obtain ⟨v, rfl⟩ := hq _ _ _ hread
  refine ⟨found.start.before.reverse ++ v, ?_, ?_⟩
  · rw [hstop]
    simp
  · rw [htext]
    simp

/-- Nothing is found in a text without the last character. -/
lemma EndsWith.find?_eq_none (hq : q.EndsWith c) (htext : c ∉ text) : q.find? text = none := by
  cases hfound : q.find? text with
  | none => rfl
  | some found =>
      obtain ⟨u, -, rfl⟩ := (stands_of_find? hfound).exists_before hq
      simp at htext

/-- A match begins with a character that the pattern may begin with. -/
theorem Stands.exists_start (h : q.Stands text found) (hnull : q.nullable = false) :
    ∃ c rest, text = found.start.before.reverse ++ c :: rest ∧ q.mayBegin c = true := by
  obtain ⟨w, htext, -, hread⟩ := h
  cases w with
  | nil => simp [nullable_of_reads q hread] at hnull
  | cons c w => exact ⟨c, w ++ found.stop.after, htext, mayBegin_of_reads q hread⟩

end SchemaReader.Pattern
