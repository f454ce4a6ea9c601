/-
Texts that are read from bytes.

* `Text.decodeLoop_bytes`: the bytes of a text are read as the text, whatever follows;
* `Text.DecodeState.Sound`: a broken start of a character that no control character can come out of,
  with `Text.decodeByte_gainsNoLine`: what one byte makes of it;
* `Text.decodeLoop_line`: bytes without a line feed are read as characters without one, and a line
  feed behind them as itself;
* `Text.exists_decodeLossy_line`: so between two texts, any bytes up to a line feed are read as a
  piece of one line.
-/
import SchemaReader.Proofs.Text.Slices

namespace SchemaReader.Text

variable {bits high low n : Nat} {out : Decoded} {state : DecodeState} {rest : List UInt8}

/-! ### Leads -/

/-- The first byte of two. -/
lemma Lead.ofByte?_two (hlow : 0xC2 ≤ n) (hhigh : n ≤ 0xDF) :
    Lead.ofByte? n = some ⟨1, n - 0xC0, 0x80, 0xBF⟩ := by
  simp [Lead.ofByte?, hlow, hhigh]

/-- The first byte of three; the second one leaves out overlong forms and surrogates. -/
lemma Lead.ofByte?_three (n : Nat) (hlow : 0xE0 ≤ n) (hhigh : n ≤ 0xEF) :
    ∃ low high, Lead.ofByte? n = some ⟨2, n - 0xE0, low, high⟩ ∧
      ∀ d, 0x80 ≤ d → d ≤ 0xBF → (n = 0xE0 → 0xA0 ≤ d) → (n = 0xED → d ≤ 0x9F) →
        low ≤ d ∧ d ≤ high := by
  have hfirst : ¬ (0xC2 ≤ n ∧ n ≤ 0xDF) := by omega
  by_cases hoverlong : n = 0xE0
  · subst hoverlong
    exact ⟨0xA0, 0xBF, rfl, fun d _ hd hmore _ => ⟨hmore rfl, hd⟩⟩
  · by_cases hsurrogate : n = 0xED
    · subst hsurrogate
      exact ⟨0x80, 0x9F, rfl, fun d hd _ _ hless => ⟨hd, hless rfl⟩⟩
    · refine ⟨0x80, 0xBF, ?_, fun d hd hd' _ _ => ⟨hd, hd'⟩⟩
      have hrange : 0xE1 ≤ n := by omega
      simp [Lead.ofByte?, hoverlong, hsurrogate, hrange, hhigh]
      omega

/-- The first byte of four; the second one leaves out overlong forms and what is past the last code
point. -/
lemma Lead.ofByte?_four (n : Nat) (hlow : 0xF0 ≤ n) (hhigh : n ≤ 0xF4) :
    ∃ low high, Lead.ofByte? n = some ⟨3, n - 0xF0, low, high⟩ ∧
      ∀ d, 0x80 ≤ d → d ≤ 0xBF → (n = 0xF0 → 0x90 ≤ d) → (n = 0xF4 → d ≤ 0x8F) →
        low ≤ d ∧ d ≤ high := by
  obtain rfl | rfl | hmiddle : n = 0xF0 ∨ n = 0xF4 ∨ (0xF1 ≤ n ∧ n ≤ 0xF3) := by omega
  · exact ⟨0x90, 0xBF, rfl, fun d _ hd hmore _ => ⟨hmore rfl, hd⟩⟩
  · exact ⟨0x80, 0x8F, rfl, fun d hd _ _ hless => ⟨hd, hless rfl⟩⟩
  · refine ⟨0x80, 0xBF, ?_, fun d hd hd' _ _ => ⟨hd, hd'⟩⟩
    obtain rfl | rfl | rfl : n = 0xF1 ∨ n = 0xF2 ∨ n = 0xF3 := by omega
    all_goals rfl

/-! ### Valid characters -/

lemma decodeLoop_cons (out : Decoded) (state : DecodeState) (byte : UInt8) (rest : List UInt8) :
    decodeLoop out state (byte :: rest)
      = decodeLoop (decodeByte out state byte).1 (decodeByte out state byte).2 rest := rfl

lemma decodeLoop_lead {k : Nat} (hn : n < 256) (hmin : 0x80 ≤ n)
    (hlead : Lead.ofByte? n = some ⟨k + 1, bits, low, high⟩) :
    decodeLoop out .between (UInt8.ofNat n :: rest)
      = decodeLoop out (.inside k bits low high) rest := by
  rw [decodeLoop_cons, decodeByte, decodeFirst, UInt8.toNat_ofNat_of_lt' hn,
    if_neg (by omega), hlead]
  rfl

lemma decodeLoop_inside_succ {k : Nat} (hn : n < 256) (hbounds : low ≤ n ∧ n ≤ high) :
    decodeLoop out (.inside (k + 1) bits low high) (UInt8.ofNat n :: rest)
      = decodeLoop out (.inside k (bits * 64 + (n - 0x80)) 0x80 0xBF) rest := by
  rw [decodeLoop_cons, decodeByte, UInt8.toNat_ofNat_of_lt' hn, if_pos (by simpa using hbounds)]

lemma decodeLoop_inside_zero (hn : n < 256) (hbounds : low ≤ n ∧ n ≤ high) :
    decodeLoop out (.inside 0 bits low high) (UInt8.ofNat n :: rest)
      = decodeLoop (out.push (Char.ofNat (bits * 64 + (n - 0x80)))) .between rest := by
  rw [decodeLoop_cons, decodeByte, UInt8.toNat_ofNat_of_lt' hn, if_pos (by simpa using hbounds)]

/-- The bytes of a character are read as the character. -/
lemma decodeLoop_utf8EncodeChar (c : Char) :
    decodeLoop out .between (String.utf8EncodeChar c ++ rest)
      = decodeLoop (out.push c) .between rest := by
  have hvalid : c.val.toNat < 0xD800 ∨ 0xDFFF < c.val.toNat ∧ c.val.toNat < 0x110000 := c.valid
  have hchar : Char.ofNat c.val.toNat = c := Char.ofNat_toNat c
  simp only [String.utf8EncodeChar]
  generalize c.val.toNat = v at hvalid hchar
  split
  · next hone =>
      rw [List.singleton_append, decodeLoop_cons, decodeByte, decodeFirst,
        UInt8.toNat_ofNat_of_lt' (show v < 256 by omega), if_pos (by omega), hchar]
  · split
    · next htwo =>
        have hbits : (v / 64 % 32 + 192 - 192) * 64 + (v % 64 + 128 - 128) = v := by omega
        rw [List.cons_append, List.singleton_append,
          decodeLoop_lead (by omega) (by omega) (Lead.ofByte?_two (by omega) (by omega)),
          decodeLoop_inside_zero (by omega) (by omega), hbits, hchar]
    · split
      · next hthree =>
          obtain ⟨low, high, hlead, hsecond⟩ :=
            Lead.ofByte?_three (v / 4096 % 16 + 224) (by omega) (by omega)
          have hbits : ((v / 4096 % 16 + 224 - 224) * 64 + (v / 64 % 64 + 128 - 128)) * 64
              + (v % 64 + 128 - 128) = v := by omega
          rw [List.cons_append, List.cons_append, List.singleton_append,
            decodeLoop_lead (by omega) (by omega) hlead,
            decodeLoop_inside_succ (by omega)
              (hsecond _ (by omega) (by omega) (by omega) (by omega)),
            decodeLoop_inside_zero (by omega) (by omega), hbits, hchar]
      · next hfour =>
          obtain ⟨low, high, hlead, hsecond⟩ :=
            Lead.ofByte?_four (v / 262144 % 8 + 240) (by omega) (by omega)
          have hbits : (((v / 262144 % 8 + 240 - 240) * 64 + (v / 4096 % 64 + 128 - 128)) * 64
              + (v / 64 % 64 + 128 - 128)) * 64 + (v % 64 + 128 - 128) = v := by omega
          rw [List.cons_append, List.cons_append, List.cons_append, List.singleton_append,
            decodeLoop_lead (by omega) (by omega) hlead,
            decodeLoop_inside_succ (by omega)
              (hsecond _ (by omega) (by omega) (by omega) (by omega)),
            decodeLoop_inside_succ (by omega) (by omega),
            decodeLoop_inside_zero (by omega) (by omega), hbits, hchar]

/-- The bytes of a text are read as the text. -/
theorem decodeLoop_bytes (text : List Char) : decodeLoop out .between (bytes text ++ rest)
    = decodeLoop ⟨text.reverse ++ out.reversed, out.valid⟩ .between rest := by
  induction text generalizing out with
  | nil => rfl
  | cons c text ih =>
      rw [bytes, List.flatMap_cons, ← bytes, List.append_assoc, decodeLoop_utf8EncodeChar, ih,
        List.reverse_cons, List.append_assoc]
      rfl

/-- Valid bytes are read without a replacement. -/
theorem decodeLossy_bytes (text : List Char) : decodeLossy (bytes text) = (text, true) := by
  have hloop : decodeLoop ⟨[], true⟩ .between (bytes text ++ []) = _ := decodeLoop_bytes text
  rw [List.append_nil] at hloop
  rw [decodeLossy, hloop, decodeLoop]
  simp

/-! ### Lines of any bytes -/

/-- The byte of a line feed. -/
def lineFeedByte : UInt8 := 0x0A

/-- No control character can come out of the character that was begun. -/
def DecodeState.Sound : DecodeState → Prop
  | .between => True
  | .inside _ bits low _ => 0x80 ≤ low ∧ 16 ≤ bits * 64 + (low - 0x80)

/-- What a lead begins is of this kind. -/
lemma Lead.sound {lead : Lead} (h : Lead.ofByte? n = some lead) :
    (DecodeState.inside (lead.following - 1) lead.bits lead.low lead.high).Sound := by
  simp only [Lead.ofByte?, Bool.and_eq_true, decide_eq_true_eq, beq_iff_eq] at h
  split_ifs at h <;> cases h <;> simp only [DecodeState.Sound] <;> omega

lemma ofNat_ne_lineFeed (hn : n ≠ 10) : Char.ofNat n ≠ '\n' := by
  intro h
  by_cases hvalid : n.isValidChar
  · have hcode : (Char.ofNat n).toNat = n := by
      rw [Char.ofNat, dif_pos hvalid]
      rfl
    rw [h] at hcode
    exact hn hcode.symm
  · have hcode : (Char.ofNat n).toNat = 0 := by
      rw [Char.ofNat, dif_neg hvalid]
      rfl
    rw [h] at hcode
    cases hcode

/-- What the output gains, newest first, and where the reading stands then: no line feed comes, and
none is on its way. -/
def GainsNoLine (out : Decoded) (next : Decoded × DecodeState) : Prop :=
  next.2.Sound ∧ ∃ new, '\n' ∉ new ∧ next.1.reversed = new ++ out.reversed

lemma decodeFirst_gainsNoLine (hn : n ≠ 10) (out : Decoded) :
    GainsNoLine out (decodeFirst out n) := by
  rw [decodeFirst]
  split
  · exact ⟨trivial, [Char.ofNat n], by simpa using (ofNat_ne_lineFeed hn).symm, rfl⟩
  · split
    · next lead hlead => exact ⟨Lead.sound hlead, [], by simp, rfl⟩
    · exact ⟨trivial, ['\uFFFD'], by decide, rfl⟩

lemma decodeByte_gainsNoLine (hstate : state.Sound) {byte : UInt8} (hbyte : byte ≠ lineFeedByte)
    (out : Decoded) : GainsNoLine out (decodeByte out state byte) := by
  have hn : byte.toNat ≠ 10 := fun h => hbyte (UInt8.toNat_inj.mp h)
  cases state with
  | between => exact decodeFirst_gainsNoLine hn out
  | inside following bits low high =>
      obtain ⟨hlow, hbits⟩ := hstate
      rw [decodeByte]
      split
      · next hbounds =>
          simp only [Bool.and_eq_true, decide_eq_true_eq] at hbounds
          cases following with
          | zero =>
              refine ⟨trivial, [_], ?_, rfl⟩
              simpa using (ofNat_ne_lineFeed (by omega)).symm
          | succ following => exact ⟨⟨Nat.le_refl _, by omega⟩, [], by simp, rfl⟩
      · obtain ⟨hsound, new, hnew, hreversed⟩ := decodeFirst_gainsNoLine hn out.replace
        refine ⟨hsound, new ++ ['\uFFFD'], ?_, by rw [hreversed]; simp [Decoded.replace]⟩
        rw [List.mem_append, not_or]
        exact ⟨hnew, by decide⟩

/-- A line feed ends what was begun and is read as itself. -/
lemma decodeByte_lineFeed (hstate : state.Sound) (out : Decoded) :
    ∃ new valid, '\n' ∉ new ∧
      decodeByte out state lineFeedByte = (⟨'\n' :: (new ++ out.reversed), valid⟩, .between) := by
  cases state with
  | between => exact ⟨[], out.valid, by simp, rfl⟩
  | inside following bits low high =>
      refine ⟨['\uFFFD'], false, by decide, ?_⟩
      have hout : ¬ (low ≤ lineFeedByte.toNat ∧ lineFeedByte.toNat ≤ high) := by
        have hvalue : lineFeedByte.toNat = 10 := rfl
        have := hstate.1
        omega
      rw [decodeByte, if_neg (by simpa using hout)]
      rfl

/-- Bytes without a line feed are read as characters without one. -/
theorem decodeLoop_line (hstate : state.Sound) {line : List UInt8} (hline : lineFeedByte ∉ line)
    (out : Decoded) (rest : List UInt8) : ∃ new valid, '\n' ∉ new ∧
      decodeLoop out state (line ++ lineFeedByte :: rest)
        = decodeLoop ⟨'\n' :: (new ++ out.reversed), valid⟩ .between rest := by
  induction line generalizing out state with
  | nil =>
      obtain ⟨new, valid, hnew, hbyte⟩ := decodeByte_lineFeed hstate out
      exact ⟨new, valid, hnew, by rw [List.nil_append, decodeLoop_cons, hbyte]⟩
  | cons byte line ih =>
      rw [List.mem_cons, not_or] at hline
      obtain ⟨hsound, new, hnew, hreversed⟩ := decodeByte_gainsNoLine hstate (Ne.symm hline.1) out
      obtain ⟨more, valid, hmore, hloop⟩ := ih hsound hline.2 (decodeByte out state byte).1
      refine ⟨more ++ new, valid, by rw [List.mem_append, not_or]; exact ⟨hmore, hnew⟩, ?_⟩
      rw [List.cons_append, decodeLoop_cons, hloop, hreversed, List.append_assoc]

/-- Between two texts, any bytes up to a line feed are read as a piece of one line. -/
theorem exists_decodeLossy_line (u : List Char) {line : List UInt8} (hline : lineFeedByte ∉ line)
    (v : List Char) : ∃ junk, '\n' ∉ junk ∧
      (decodeLossy (bytes u ++ line ++ [lineFeedByte] ++ bytes v)).1
        = u ++ (junk ++ '\n' :: v) := by
  have hstate : DecodeState.between.Sound := trivial
  obtain ⟨new, valid, hnew, hloop⟩ := decodeLoop_line hstate hline ⟨u.reverse, true⟩ (bytes v)
  have hall : decodeLoop ⟨[], true⟩ .between (bytes u ++ (line ++ lineFeedByte :: bytes v))
      = ⟨v.reverse ++ '\n' :: (new ++ u.reverse), valid⟩ := by
    rw [decodeLoop_bytes, List.append_nil, hloop, ← List.append_nil (bytes v), decodeLoop_bytes]
    rfl
  refine ⟨new.reverse, by simpa using hnew, ?_⟩
  rw [decodeLossy]
  simp [hall]

end SchemaReader.Text
