/-
Texts cut at byte offsets.

* `Text.byteLength_append`, `Text.dropBytes?_append`: the bytes of a text lead to what follows it;
* `Text.takeBytes?`, `Text.slice?`: a piece of a text between two offsets, if they are in order and
  a character begins or the text ends at each;
* `Text.dropBytes?_eq_some_iff`, `Text.slice?_append`: such pieces are those of an append;
* `Text.byteAt?`: the byte of a text at an offset, with `Text.byteAt?_append` and
  `Text.exists_of_byteAt?`: a byte below 128 is a whole character, also if the offset is not known
  to be the place of one.
-/
import Mathlib.Data.List.Basic
import Mathlib.Tactic.Lemma
import SchemaReader.Text.Bytes

namespace SchemaReader.Text

variable {text rest u v w : List Char} {c : Char} {b : UInt8} {n : Nat}

/-! ### Lengths -/

@[simp] lemma byteLength_nil : byteLength [] = 0 := rfl

lemma byteLength_foldl (n : Nat) (text : List Char) :
    text.foldl (fun n c => n + c.utf8Size) n = n + byteLength text := by
  induction text generalizing n with
  | nil => rfl
  | cons c text ih =>
      have hcons : byteLength (c :: text) = 0 + c.utf8Size + byteLength text := ih _
      rw [List.foldl_cons, ih, hcons]
      omega

lemma byteLength_cons (c : Char) (text : List Char) :
    byteLength (c :: text) = c.utf8Size + byteLength text := by
  rw [byteLength, List.foldl_cons, byteLength_foldl, Nat.zero_add]

lemma byteLength_append (u v : List Char) :
    byteLength (u ++ v) = byteLength u + byteLength v := by
  rw [byteLength, List.foldl_append, ← byteLength, byteLength_foldl]

lemma byteLength_reverse (text : List Char) : byteLength text.reverse = byteLength text := by
  induction text with
  | nil => rfl
  | cons c text ih =>
      rw [List.reverse_cons, byteLength_append, ih, byteLength_cons, byteLength_cons]
      simp only [byteLength, List.foldl_nil]
      omega

lemma byteLength_replicate_space (n : Nat) : byteLength (List.replicate n ' ') = n := by
  induction n with
  | zero => rfl
  | succ n ih =>
      have hspace : ' '.utf8Size = 1 := rfl
      rw [List.replicate_succ, byteLength_cons, ih, hspace, Nat.add_comm]

lemma byteLength_concat (text : List Char) (c : Char) :
    byteLength (text ++ [c]) = byteLength text + c.utf8Size := by
  rw [byteLength_append, byteLength_cons, byteLength_nil, Nat.add_zero]

/-- A text with a character takes at least the bytes of that character, of which there is one. -/
lemma exists_byteLength_cons (c : Char) (text : List Char) :
    ∃ n, byteLength (c :: text) = n + 1 ∧ c.utf8Size ≤ n + 1 ∧
      n + 1 - c.utf8Size = byteLength text := by
  have hpos := c.utf8Size_pos
  rw [byteLength_cons]
  exact ⟨c.utf8Size + byteLength text - 1, by omega, by omega, by omega⟩

/-! ### Pieces of texts -/

/-- The first bytes of a text, if a character ends there. -/
def takeBytes? : (count : Nat) → List Char → Option (List Char)
  | 0, _ => some []
  | _ + 1, [] => none
  | count + 1, c :: rest =>
    if c.utf8Size ≤ count + 1 then (takeBytes? (count + 1 - c.utf8Size) rest).map (c :: ·) else none

/-- The piece of a text from one byte offset to another, if the offsets are in order, inside the
text and between characters. -/
def slice? (text : List Char) (start stop : Nat) : Option (List Char) :=
  if start ≤ stop then (dropBytes? start text).bind (takeBytes? (stop - start)) else none

/-- The bytes of a text lead to what follows it. -/
theorem dropBytes?_append (u v : List Char) : dropBytes? (byteLength u) (u ++ v) = some v := by
  induction u with
  | nil => cases v <;> rfl
  | cons c u ih =>
      obtain ⟨n, hn, hle, hrest⟩ := exists_byteLength_cons c u
      rw [hn, List.cons_append, dropBytes?, if_pos hle, hrest, ih]

lemma takeBytes?_append (u v : List Char) : takeBytes? (byteLength u) (u ++ v) = some u := by
  induction u with
  | nil => cases v <;> rfl
  | cons c u ih =>
      obtain ⟨n, hn, hle, hrest⟩ := exists_byteLength_cons c u
      rw [hn, List.cons_append, takeBytes?, if_pos hle, hrest, ih, Option.map_some]

/-- What is left of a text after a number of bytes is what follows a beginning of that length. -/
theorem dropBytes?_eq_some_iff :
    dropBytes? n text = some rest ↔ ∃ u, text = u ++ rest ∧ byteLength u = n := by
  constructor
  · intro h
    induction text generalizing n with
    | nil =>
        cases n with
        | zero => exact ⟨[], Option.some.inj h, rfl⟩
        | succ n => simp [dropBytes?] at h
    | cons c text ih =>
        cases n with
        | zero => exact ⟨[], Option.some.inj h, rfl⟩
        | succ n =>
            rw [dropBytes?] at h
            split at h
            · obtain ⟨u, rfl, hu⟩ := ih h
              exact ⟨c :: u, rfl, by rw [byteLength_cons]; omega⟩
            · simp at h
  · rintro ⟨u, rfl, rfl⟩
    exact dropBytes?_append u rest

/-- The middle of three texts, at the offsets of its ends. -/
theorem slice?_append (u v w : List Char) :
    slice? (u ++ (v ++ w)) (byteLength u) (byteLength u + byteLength v) = some v := by
  rw [slice?, if_pos (Nat.le_add_right _ _), dropBytes?_append, Option.bind_some,
    Nat.add_sub_cancel_left, takeBytes?_append]

/-! ### Bytes -/

/-- The bytes of a text. -/
def bytes (text : List Char) : List UInt8 := text.flatMap String.utf8EncodeChar

/-- The byte of a text at an offset, if the text goes that far. -/
def byteAt? (text : List Char) (offset : Nat) : Option UInt8 := (bytes text)[offset]?

lemma bytes_append (u v : List Char) : bytes (u ++ v) = bytes u ++ bytes v := List.flatMap_append

lemma length_bytes (text : List Char) : (bytes text).length = byteLength text := by
  induction text with
  | nil => rfl
  | cons c text ih =>
      rw [bytes, List.flatMap_cons, ← bytes, List.length_append, String.length_utf8EncodeChar, ih,
        byteLength_cons]

/-- The byte behind a beginning of a text is the first one of the next character. -/
lemma byteAt?_append (u : List Char) (c : Char) (v : List Char) :
    byteAt? (u ++ c :: v) (byteLength u) = (String.utf8EncodeChar c).head? := by
  rw [byteAt?, bytes_append, ← length_bytes u, List.getElem?_append_right (Nat.le_refl _),
    Nat.sub_self, ← List.head?_eq_getElem?, bytes, List.flatMap_cons, List.head?_append]
  cases hc : String.utf8EncodeChar c with
  | nil => exact absurd hc String.utf8EncodeChar_ne_nil
  | cons b bs => rfl

/-- A byte below 128 is the only one of its character. -/
lemma utf8EncodeChar_of_mem (hmem : b ∈ String.utf8EncodeChar c) (hb : b.toNat < 128) :
    String.utf8EncodeChar c = [b] ∧ c.toNat = b.toNat := by
  have hc : c.val.toNat < 1114112 := by
    have := c.valid
    simp only [UInt32.isValidChar, Nat.isValidChar] at this
    omega
  simp only [String.utf8EncodeChar] at hmem ⊢
  split at hmem
  · next hle =>
      obtain rfl := List.mem_singleton.mp hmem
      rw [if_pos hle, UInt8.toNat_ofNat_of_lt' (Nat.lt_of_le_of_lt hle (by decide))]
      exact ⟨rfl, rfl⟩
  · -- a byte of a character with more than one of them has its highest bit set
    split at hmem
    · simp only [List.mem_cons, List.not_mem_nil, or_false] at hmem
      obtain rfl | rfl := hmem <;> simp at hb <;> omega
    · split at hmem
      · simp only [List.mem_cons, List.not_mem_nil, or_false] at hmem
        obtain rfl | rfl | rfl := hmem <;> simp at hb <;> omega
      · simp only [List.mem_cons, List.not_mem_nil, or_false] at hmem
        obtain rfl | rfl | rfl | rfl := hmem <;> simp at hb <;> omega

/-- A byte below 128 is a character, wherever it is found. -/
theorem exists_of_byteAt? (h : byteAt? text n = some b) (hb : b.toNat < 128) :
    ∃ c rest, dropBytes? n text = some (c :: rest) ∧ c.toNat = b.toNat := by
  induction text generalizing n with
  | nil => simp [byteAt?, bytes] at h
  | cons c text ih =>
      rw [byteAt?, bytes, List.flatMap_cons, ← bytes] at h
      rw [List.getElem?_append, String.length_utf8EncodeChar] at h
      split at h
      · next hlt =>
          -- inside a character, so that character is this one byte
          obtain ⟨hbyte, hnat⟩ := utf8EncodeChar_of_mem (List.mem_of_getElem? h) hb
          have hsize := String.length_utf8EncodeChar c
          rw [hbyte, List.length_singleton] at hsize
          obtain rfl : n = 0 := by omega
          exact ⟨c, text, rfl, hnat⟩
      · next hge =>
          obtain ⟨d, rest, hdrop, hnat⟩ := ih h
          have hpos := c.utf8Size_pos
          obtain ⟨m, rfl⟩ : ∃ m, n = m + 1 := Nat.exists_eq_succ_of_ne_zero (by omega)
          exact ⟨d, rest, by rw [dropBytes?, if_pos (Nat.le_of_not_lt hge), hdrop], hnat⟩

end SchemaReader.Text
