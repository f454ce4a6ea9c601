/-
What stands behind a match, by byte offsets.

* `startOf`, `endOf`: the byte offsets of a match in its text;
* `bodyBehind`, `restBehind`: for a match that ends with an opening bracket, the slice up to the
  bracket's partner and the slice behind the partner;
* `exists_of_endsWith`: the last byte of such a match is the bracket, with `bodyBehind_eq` and
  `restBehind_eq`: nothing goes wrong in either slice;
* `sliceFrom_shown`: the offset of what shows in a masked text is the place of a character of the
  text itself;
* `brackets_after_le`, `brackets_group_of_find?_le`, `brackets_group_of_mem_findAll_le`: what stands
  behind a match, and what its groups remember, has no more brackets than the text.
-/
import SchemaReader.Proofs.ByOffset.Lexical
import SchemaReader.Proofs.Lexical.Masking
import SchemaReader.Proofs.Pattern.Places

namespace SchemaReader.ByOffset

/-- The byte offset at which a match begins. -/
def startOf (found : Match) : Nat := Text.byteLength found.start.before

/-- The byte offset at which a match ends. -/
def endOf (found : Match) : Nat := Text.byteLength found.stop.before

/-- What stands between the bracket that a match ends with and its partner. -/
def bodyBehind (dialect : Dialect) (text : List Char) (found : Match) :
    Checked (Option (List Char)) := do
  let opening ← decrement (endOf found)
  bracketBody dialect text opening

/-- What stands behind the partner of the bracket that a match ends with. -/
def restBehind (dialect : Dialect) (text : List Char) (found : Match) :
    Checked (Option (List Char)) := do
  let opening ← decrement (endOf found)
  let some close ← findMatching dialect text opening | pure none
  let rest ← sliceFrom text (close + 1)
  return some rest

variable {dialect : Dialect} {q : Pattern} {text : List Char} {found : Match} {c : Char} {m n : Nat}

/-- What follows a match is the slice behind it. -/
lemma sliceFrom_endOf (h : q.Stands text found) :
    sliceFrom text (endOf found) = .ok found.stop.after := by
  rw [endOf, ← Text.byteLength_reverse]
  conv_lhs => rw [h.eq_append]
  exact sliceFrom_append _ _

/-- A match that ends with an opening bracket ends one byte behind that bracket. -/
theorem exists_of_endsWith (h : q.Stands text found) (hq : q.EndsWith c) (hc : isOpening c = true) :
    ∃ u, text = u ++ c :: found.stop.after ∧ endOf found = Text.byteLength u + 1 := by
  obtain ⟨u, hbefore, htext⟩ := h.exists_before hq
  refine ⟨u, htext, ?_⟩
  rw [endOf, hbefore, Text.byteLength_cons, Text.byteLength_reverse, utf8Size_of_isOpening hc,
    Nat.add_comm]

theorem bodyBehind_eq (h : q.Stands text found) (hq : q.EndsWith c) (hc : isOpening c = true) :
    bodyBehind dialect text found = .ok ((enclosed? dialect found.stop.after).map (·.1)) := by
  obtain ⟨u, htext, hend⟩ := exists_of_endsWith h hq hc
  rw [bodyBehind, hend, decrement, ok_bind, bracketBody_eq, bracketBodyAt?, htext,
    Text.dropBytes?_append, Option.bind_some, bracketBody?, if_pos hc]

/-- The arguments of a call, or the list of a statement, behind a head that closes with its
parenthesis. -/
lemma bodyBehind_of_mem_findAll (h : found ∈ (q ++ Pattern.char '(').findAll text) :
    bodyBehind dialect text found = .ok ((enclosed? dialect found.stop.after).map (·.1)) :=
  bodyBehind_eq (Pattern.stands_of_mem_findAll h) (Pattern.endsWith_append_char q '(') rfl

theorem restBehind_eq (h : q.Stands text found) (hq : q.EndsWith c) (hc : isOpening c = true) :
    restBehind dialect text found = .ok ((enclosed? dialect found.stop.after).map (·.2)) := by
  obtain ⟨u, htext, hend⟩ := exists_of_endsWith h hq hc
  rw [restBehind, hend, decrement, ok_bind, findMatching_eq, ok_bind, findMatching?,
    bracketBodyAt?, htext, Text.dropBytes?_append, Option.bind_some, bracketBody?, if_pos hc]
  cases hinner : enclosed? dialect found.stop.after with
  | none => rfl
  | some inner =>
      -- behind the opening bracket, the body and the closing bracket, each at its offset
      obtain ⟨v, d, hafter, hd, hbody, -⟩ := exists_of_enclosedLoop hinner
      rw [List.reverse_nil, List.nil_append] at hbody
      have hclose : Text.byteLength u + 1 + Text.byteLength inner.1 + 1
          = Text.byteLength (u ++ c :: (v ++ [d])) := by
        rw [Text.byteLength_append, Text.byteLength_cons, Text.byteLength_concat,
          utf8Size_of_isOpening hc, utf8Size_of_isClosing hd, hbody]
        omega
      have hwhole : u ++ c :: found.stop.after = (u ++ c :: (v ++ [d])) ++ inner.2 := by
        simp [hafter]
      simp only [Option.map_some]
      rw [hclose, hwhole, sliceFrom_append]
      rfl

/-- The offset of what shows in a masked text is the place of a character of the text. -/
theorem sliceFrom_shown (h : q.find? (maskNested dialect text) = some found)
    (hnull : q.nullable = false) (hblank : q.mayBegin ' ' = false) :
    ∃ rest, Text.dropBytes? (startOf found) text = some rest := by
  obtain ⟨c, rest, hmasked, hbegin⟩ := (Pattern.stands_of_find? h).exists_start hnull
  have hc : c ≠ ' ' := by
    rintro rfl
    simp [hblank] at hbegin
  obtain ⟨u, v, rfl, hu⟩ := (masks_maskNested dialect text).exists_append hmasked hc
  refine ⟨c :: v, ?_⟩
  rw [startOf, ← Text.byteLength_reverse, ← hu, Text.dropBytes?_append]

lemma brackets_after_le (h : q.Stands text found) (hn : brackets text ≤ n) :
    brackets found.stop.after ≤ n := by
  refine brackets_le ?_ hn
  conv_rhs => rw [h.eq_append]
  exact List.sublist_append_right _ _

lemma brackets_group_of_find?_le (h : q.find? text = some found) (hnull : q.nullable = false)
    (hn : brackets text ≤ n) : brackets (found.group m) ≤ n :=
  brackets_le (Pattern.isInfix_group_of_find? hnull h m).sublist hn

lemma brackets_group_of_mem_findAll_le (h : found ∈ q.findAll text) (hnull : q.nullable = false)
    (hn : brackets text ≤ n) : brackets (found.group m) ≤ n :=
  brackets_le (Pattern.isInfix_group_of_mem_findAll hnull h m).sublist hn

/-- The arguments of a call, or the list of a statement, are a piece of the text. -/
lemma brackets_arguments_le {body : List Char} (h : q.Stands text found)
    (hbody : (enclosed? dialect found.stop.after).map (·.1) = some body) (hn : brackets text ≤ n) :
    brackets body ≤ n := by
  obtain ⟨inner, hinner, rfl⟩ := Option.map_eq_some_iff.mp hbody
  exact (brackets_enclosed?_le hinner (brackets_after_le h hn)).1

end SchemaReader.ByOffset
