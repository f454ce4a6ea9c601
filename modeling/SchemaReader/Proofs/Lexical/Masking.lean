/-
Masked texts, byte for byte.

* `spaces`: as many spaces as a text has bytes;
* `Masks`: one text is another one with some characters blanked out, each into as many spaces as it
  has bytes, with `masks_maskNested`: so a text is masked, whatever it holds;
* `Masks.byteLength_eq`, `Masks.exists_append`: a masked text is as long as the text, and where it
  shows a character that is no space, the text has the same character at the same byte;
* `maskNested_append`, `maskNested_bracket`, `maskNested_literal`: what a closed text is masked to.
-/
import SchemaReader.Proofs.Lexical.Closed
import SchemaReader.Proofs.Text.Slices

namespace SchemaReader

variable {dialect : Dialect} {P : Char → Prop} {text masked before after u rest : List Char}
  {c : Char}

/-! ### The loop -/

/-- As many spaces as a text has bytes. -/
def spaces (text : List Char) : List Char := List.replicate (Text.byteLength text) ' '

lemma spaces_cons (c : Char) (text : List Char) :
    spaces (c :: text) = List.replicate c.utf8Size ' ' ++ spaces text := by
  rw [spaces, Text.byteLength_cons, List.replicate_add, ← spaces]

lemma spaces_ne_nil (c : Char) (text : List Char) : spaces (c :: text) ≠ [] := by
  have hsize := c.utf8Size_pos
  intro h
  rw [spaces, List.replicate_eq_nil_iff, Text.byteLength_cons] at h
  omega

lemma spaces_append (u v : List Char) : spaces (u ++ v) = spaces u ++ spaces v := by
  rw [spaces, Text.byteLength_append, List.replicate_add, ← spaces, ← spaces]

lemma reverse_pushMask (c : Char) (out : List Char) :
    (pushMask c out).reverse = out.reverse ++ List.replicate c.utf8Size ' ' := by
  simp [pushMask]

lemma maskNestedLoop_out (depth : Nat) (literal : Literal) (out text : List Char) :
    maskNestedLoop dialect depth literal out text
      = out.reverse ++ maskNestedLoop dialect depth literal [] text := by
  induction text generalizing depth literal out with
  | nil => simp [maskNestedLoop]
  | cons c text ih =>
      have hmask : ∀ depth literal, maskNestedLoop dialect depth literal (pushMask c out) text
          = out.reverse ++ maskNestedLoop dialect depth literal (pushMask c []) text := by
        intro depth literal
        rw [ih, ih _ _ (pushMask c []), reverse_pushMask, reverse_pushMask]
        simp
      simp only [maskNestedLoop, hmask]
      split
      · rfl
      · split
        · rfl
        · split
          · rfl
          · split
            · rw [ih, ih _ _ [c]]
              simp
            · rfl

/-- A masked character at the front of the rest. -/
lemma maskNestedLoop_pushMask (depth : Nat) (literal : Literal) (c : Char) (text : List Char) :
    maskNestedLoop dialect depth literal (pushMask c []) text
      = List.replicate c.utf8Size ' ' ++ maskNestedLoop dialect depth literal [] text := by
  rw [maskNestedLoop_out, reverse_pushMask, List.reverse_nil, List.nil_append]

/-! ### What masking keeps -/

/-- The second text is the first one with some of its characters blanked out. -/
inductive Masks : (text masked : List Char) → Prop where
  | nil : Masks [] []
  | keep (c : Char) {text masked : List Char} : Masks text masked → Masks (c :: text) (c :: masked)
  | blank (c : Char) {text masked : List Char} : Masks text masked →
      Masks (c :: text) (List.replicate c.utf8Size ' ' ++ masked)

/-- Masking goes on behind a character with the character or with spaces in its place. -/
lemma exists_maskNestedLoop_cons (dialect : Dialect) (depth : Nat) (literal : Literal) (c : Char)
    (text : List Char) : ∃ depth' literal', ∃ head ∈ [[c], List.replicate c.utf8Size ' '],
      maskNestedLoop dialect depth literal [] (c :: text)
        = head ++ maskNestedLoop dialect depth' literal' [] text := by
  have hblank : List.replicate c.utf8Size ' ' ∈ [[c], List.replicate c.utf8Size ' '] := by simp
  rw [maskNestedLoop]
  split
  · exact ⟨_, _, _, hblank, maskNestedLoop_pushMask ..⟩
  · split
    · exact ⟨_, _, _, hblank, maskNestedLoop_pushMask ..⟩
    · split
      · exact ⟨_, _, _, hblank, maskNestedLoop_pushMask ..⟩
      · split
        · exact ⟨_, _, [c], List.mem_cons_self, maskNestedLoop_out ..⟩
        · exact ⟨_, _, _, hblank, maskNestedLoop_pushMask ..⟩

theorem masks_maskNested (dialect : Dialect) (text : List Char) :
    Masks text (maskNested dialect text) := by
  suffices hloop : ∀ depth literal, Masks text (maskNestedLoop dialect depth literal [] text) from
    hloop 0 .outside
  induction text with
  | nil => exact fun _ _ => .nil
  | cons c text ih =>
      intro depth literal
      obtain ⟨depth', literal', head, hhead, heq⟩ :=
        exists_maskNestedLoop_cons dialect depth literal c text
      rw [heq]
      simp only [List.mem_cons, List.not_mem_nil, or_false] at hhead
      obtain rfl | rfl := hhead
      · exact .keep c (ih _ _)
      · exact .blank c (ih _ _)

/-- A masked text is as long as the text. -/
theorem Masks.byteLength_eq (h : Masks text masked) :
    Text.byteLength masked = Text.byteLength text := by
  induction h with
  | nil => rfl
  | keep c _ ih => rw [Text.byteLength_cons, Text.byteLength_cons, ih]
  | blank c _ ih =>
      rw [Text.byteLength_append, Text.byteLength_replicate_space, ih, Text.byteLength_cons]

/-- What shows in a masked text stands in the text at the same byte. -/
theorem Masks.exists_append (h : Masks text masked) (hmasked : masked = before ++ c :: after)
    (hc : c ≠ ' ') :
    ∃ u v, text = u ++ c :: v ∧ Text.byteLength u = Text.byteLength before := by
  induction h generalizing before with
  | nil => simp at hmasked
  | @keep d text masked _ ih =>
      cases before with
      | nil =>
          obtain ⟨rfl, rfl⟩ := List.cons.inj hmasked
          exact ⟨[], text, rfl, rfl⟩
      | cons e before =>
          obtain ⟨rfl, htail⟩ := List.cons.inj hmasked
          obtain ⟨u, v, rfl, hu⟩ := ih htail
          exact ⟨d :: u, v, rfl, by rw [Text.byteLength_cons, Text.byteLength_cons, hu]⟩
  | @blank d text masked _ ih =>
      -- the character shows behind the spaces, since it is none of them
      obtain ⟨x, hbefore, htail⟩ : ∃ x, before = List.replicate d.utf8Size ' ' ++ x ∧
          masked = x ++ c :: after := by
        obtain ⟨x, hbefore, hx⟩ | ⟨y, hspaces, hy⟩ := List.append_eq_append_iff.mp hmasked
        · exact ⟨x, hbefore, hx⟩
        · cases y with
          | nil => exact ⟨[], by simpa using hspaces.symm, hy.symm⟩
          | cons e y =>
              obtain ⟨rfl, -⟩ := List.cons.inj hy
              have hmem : c ∈ List.replicate d.utf8Size ' ' := by simp [hspaces]
              exact absurd (List.eq_of_mem_replicate hmem) hc
      obtain ⟨u, v, rfl, hu⟩ := ih htail
      refine ⟨d :: u, v, rfl, ?_⟩
      rw [hbefore, Text.byteLength_append, Text.byteLength_replicate_space, Text.byteLength_cons,
        hu]

/-- The first character of a text stays or becomes a space. -/
lemma exists_maskNested_cons (c : Char) (text : List Char) :
    ∃ m, maskNested dialect (c :: text) = c :: m ∨ maskNested dialect (c :: text) = ' ' :: m := by
  have hmasks := masks_maskNested dialect (c :: text)
  generalize maskNested dialect (c :: text) = masked at hmasks ⊢
  cases hmasks with
  | keep => exact ⟨_, Or.inl rfl⟩
  | blank =>
      obtain ⟨n, hn⟩ : ∃ n, c.utf8Size = n + 1 :=
        Nat.exists_eq_succ_of_ne_zero (Nat.ne_of_gt c.utf8Size_pos)
      rw [hn, List.replicate_succ, List.cons_append]
      exact ⟨_, Or.inr rfl⟩

/-! ### Masks of closed texts -/

lemma maskNestedLoop_of_literal {q : Char} (hq : isQuote q = true)
    (hu : ∀ c ∈ u, dialect.Keeps q c) (depth : Nat) (rest : List Char) :
    maskNestedLoop dialect depth (.inside q false) [] (u ++ q :: rest)
      = spaces (u ++ [q]) ++ maskNestedLoop dialect depth .outside [] rest := by
  induction u with
  | nil =>
      simp only [List.nil_append, maskNestedLoop, Literal.covers, ite_true,
        Literal.step_quote hq, maskNestedLoop_pushMask, spaces_cons]
      simp [spaces, Text.byteLength]
  | cons c u ih =>
      rw [List.forall_mem_cons] at hu
      simp [maskNestedLoop, Literal.covers, Literal.step_inside hu.1, ih hu.2,
        maskNestedLoop_pushMask, spaces_cons]

/-- Inside a bracket, a closed text becomes spaces. -/
lemma maskNestedLoop_inside (h : Closed dialect P u) (depth : Nat) (rest : List Char) :
    maskNestedLoop dialect (depth + 1) .outside [] (u ++ rest)
      = spaces u ++ maskNestedLoop dialect (depth + 1) .outside [] rest := by
  induction h generalizing depth rest with
  | nil => simp [spaces, Text.byteLength]
  | plain hc =>
      obtain ⟨hq, ho, hc⟩ := isPlain_iff.mp hc
      simp [maskNestedLoop, Literal.covers, hq, ho, hc, maskNestedLoop_pushMask, spaces,
        Text.byteLength]
  | append _ _ ihu ihv => simp [ihu, ihv, spaces_append]
  | bracket _ ho hc _ ih =>
      simp [maskNestedLoop, Literal.covers, not_isQuote_of_isOpening ho, ho, ih,
        not_isQuote_of_isClosing hc, not_isOpening_of_isClosing hc, hc, maskNestedLoop_pushMask,
        spaces_cons, spaces_append]
      simp [spaces, Text.byteLength]
  | literal _ hq hu =>
      simp [maskNestedLoop, Literal.covers, Literal.step, hq, maskNestedLoop_of_literal hq hu,
        maskNestedLoop_pushMask, spaces_cons]

lemma maskNested_cons {c : Char} (hc : isPlain c = true) :
    maskNested dialect (c :: rest) = c :: maskNested dialect rest := by
  obtain ⟨hq, ho, hc⟩ := isPlain_iff.mp hc
  rw [maskNested, maskNestedLoop]
  simp only [Literal.covers, hq, ho, hc, Bool.false_eq_true, ite_false, beq_self_eq_true, ite_true]
  rw [maskNestedLoop_out]
  rfl

lemma maskNested_bracket {o c : Char} (ho : isOpening o = true) (hc : isClosing c = true)
    (h : Closed dialect P u) : maskNested dialect (o :: (u ++ c :: rest))
      = spaces (o :: (u ++ [c])) ++ maskNested dialect rest := by
  simp [maskNested, maskNestedLoop, Literal.covers, not_isQuote_of_isOpening ho, ho,
    maskNestedLoop_inside h, not_isQuote_of_isClosing hc, not_isOpening_of_isClosing hc, hc,
    maskNestedLoop_pushMask, spaces_cons, spaces_append]
  simp [spaces, Text.byteLength]

lemma maskNested_literal {q : Char} (hq : isQuote q = true) (hu : ∀ c ∈ u, dialect.Keeps q c) :
    maskNested dialect (q :: (u ++ q :: rest))
      = spaces (q :: (u ++ [q])) ++ maskNested dialect rest := by
  simp [maskNested, maskNestedLoop, Literal.covers, Literal.step, hq,
    maskNestedLoop_of_literal hq hu, maskNestedLoop_pushMask, spaces_cons]

lemma maskNested_nil : maskNested dialect [] = [] := rfl

/-- A closed text is masked on its own, whatever follows it. -/
theorem maskNested_append (h : Closed dialect P u) (rest : List Char) :
    maskNested dialect (u ++ rest) = maskNested dialect u ++ maskNested dialect rest := by
  induction h generalizing rest with
  | nil => rfl
  | plain hc => simp [maskNested_cons hc, maskNested_nil]
  | append _ _ ihu ihv => simp [ihu, ihv]
  | bracket _ ho hc hu =>
      simp only [List.cons_append, List.append_assoc, List.nil_append]
      rw [maskNested_bracket ho hc hu, maskNested_bracket ho hc hu]
      simp [maskNested_nil]
  | literal _ hq hu =>
      simp only [List.cons_append, List.append_assoc, List.nil_append]
      rw [maskNested_literal hq hu, maskNested_literal hq hu]
      simp [maskNested_nil]

lemma maskNested_of_plain (h : ∀ c ∈ u, isPlain c = true) (rest : List Char) :
    maskNested dialect (u ++ rest) = u ++ maskNested dialect rest := by
  induction u with
  | nil => rfl
  | cons c u ih =>
      rw [List.forall_mem_cons] at h
      rw [List.cons_append, maskNested_cons h.1, ih h.2, List.cons_append]

end SchemaReader
