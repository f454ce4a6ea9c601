/-
Texts as UTF-8 bytes.

* `byteLength`: how many bytes a text takes;
* `dropBytes?`: what is left of a text after a number of bytes;
* `decode?`: the text that bytes spell, if they are valid;
* `decodeLossy`: the text that bytes spell, each longest broken start of a character replaced by
  the replacement character.
-/

namespace SchemaReader.Text

/-- The number of bytes of a text. -/
def byteLength (text : List Char) : Nat :=
  text.foldl (fun n c => n + c.utf8Size) 0

/-- What follows the first `count` bytes of a text, if a character starts there. -/
def dropBytes? : (count : Nat) → List Char → Option (List Char)
  | 0, text => some text
  | _ + 1, [] => none
  | count + 1, c :: rest =>
    if c.utf8Size ≤ count + 1 then dropBytes? (count + 1 - c.utf8Size) rest else none

/-! ### Decoding -/

/-- The start of a character of more than one byte, with what its next byte must be. -/
structure Lead where
  /-- How many bytes follow the first. -/
  following : Nat
  /-- The bits that the first byte gives. -/
  bits : Nat
  /-- The least value of the second byte. -/
  low : Nat
  /-- The greatest value of the second byte. -/
  high : Nat

/-- What a first byte announces.  The bounds on the second byte leave out overlong forms,
surrogates and code points past the last one. -/
def Lead.ofByte? (b : Nat) : Option Lead :=
  if 0xC2 ≤ b && b ≤ 0xDF then some ⟨1, b - 0xC0, 0x80, 0xBF⟩
  else if b == 0xE0 then some ⟨2, 0, 0xA0, 0xBF⟩
  else if b == 0xED then some ⟨2, 0xD, 0x80, 0x9F⟩
  else if 0xE1 ≤ b && b ≤ 0xEF then some ⟨2, b - 0xE0, 0x80, 0xBF⟩
  else if b == 0xF0 then some ⟨3, 0, 0x90, 0xBF⟩
  else if 0xF1 ≤ b && b ≤ 0xF3 then some ⟨3, b - 0xF0, 0x80, 0xBF⟩
  else if b == 0xF4 then some ⟨3, 4, 0x80, 0x8F⟩
  else none

/-- Where the decoder stands: between characters, or inside one. -/
inductive DecodeState where
  /-- Between two characters. -/
  | between
  /-- Inside a character that still needs `following + 1` bytes, the next of them from `low` to
  `high`. -/
  | inside (following bits low high : Nat)

/-- The decoder's output so far, newest character first, and whether any byte was replaced. -/
structure Decoded where
  /-- The characters, newest first. -/
  reversed : List Char
  /-- Whether every byte so far was part of a valid character. -/
  valid : Bool

/-- One more character. -/
def Decoded.push (out : Decoded) (c : Char) : Decoded :=
  { out with reversed := c :: out.reversed }

/-- One more replacement character. -/
def Decoded.replace (out : Decoded) : Decoded :=
  ⟨'\uFFFD' :: out.reversed, false⟩

/-- Reads a byte between two characters. -/
def decodeFirst (out : Decoded) (b : Nat) : Decoded × DecodeState :=
  if b < 0x80 then (out.push (Char.ofNat b), .between)
  else match Lead.ofByte? b with
    | some lead => (out, .inside (lead.following - 1) lead.bits lead.low lead.high)
    | none => (out.replace, .between)

/-- Reads one byte.  A byte that cannot continue the character it meets ends that character's
broken start, which one replacement stands for, and is then read as a first byte. -/
def decodeByte (out : Decoded) (state : DecodeState) (byte : UInt8) : Decoded × DecodeState :=
  let b := byte.toNat
  match state with
  | .between => decodeFirst out b
  | .inside following bits low high =>
    if low ≤ b && b ≤ high then
      let bits' := bits * 64 + (b - 0x80)
      match following with
      | 0 => (out.push (Char.ofNat bits'), .between)
      | n + 1 => (out, .inside n bits' 0x80 0xBF)
    else decodeFirst out.replace b

/-- Reads bytes to their end; a character broken off there is replaced too. -/
def decodeLoop (out : Decoded) (state : DecodeState) : List UInt8 → Decoded
  | [] => match state with
    | .between => out
    | .inside .. => out.replace
  | byte :: rest =>
    let step := decodeByte out state byte
    decodeLoop step.1 step.2 rest

/-- The text that bytes spell, with replacements, and whether none was needed. -/
def decodeLossy (bytes : List UInt8) : List Char × Bool :=
  let out := decodeLoop ⟨[], true⟩ .between bytes
  (out.reversed.reverse, out.valid)

/-- The text that bytes spell, if all of them are valid. -/
def decode? (bytes : List UInt8) : Option (List Char) :=
  let out := decodeLossy bytes
  if out.2 then some out.1 else none

end SchemaReader.Text
