/-
The four kinds of TOML strings.

* `readBasic?`, `readLiteral?`: strings on one line, with and without escapes;
* `readBasicBlock?`, `readLiteralBlock?`: strings over several lines;
* `readQuoted?`: a string of any kind.
-/

namespace SchemaReader

/-- Whether a string may hold a character as it stands: everything but line breaks and the other
controls of ASCII. -/
def isPlainChar (c : Char) : Bool :=
  c == '\t' || (0x20 ≤ c.toNat && c.toNat != 0x7F)

/-- A blank within a line. -/
def isLineBlank (c : Char) : Bool :=
  c == ' ' || c == '\t'

/-! ### Escapes -/

/-- The value of a hexadecimal digit. -/
def hexValue? (c : Char) : Option Nat :=
  if '0' ≤ c && c ≤ '9' then some (c.toNat - '0'.toNat)
  else if 'a' ≤ c && c ≤ 'f' then some (c.toNat - 'a'.toNat + 10)
  else if 'A' ≤ c && c ≤ 'F' then some (c.toNat - 'A'.toNat + 10)
  else none

/-- The character of a code point in hexadecimal digits; surrogates and numbers past the last
code point are none. -/
def charOfHex? (digits : List Char) : Option Char := do
  let code ← digits.foldlM (fun n c => (hexValue? c).map (16 * n + ·)) 0
  if code < 0xD800 || (0xE000 ≤ code && code < 0x110000) then some (Char.ofNat code) else none

/-- The character that a one-letter escape stands for. -/
def shortEscape? : Char → Option Char
  | 'b' => some '\x08'
  | 't' => some '\t'
  | 'n' => some '\n'
  | 'f' => some '\x0c'
  | 'r' => some '\r'
  | '"' => some '"'
  | '\\' => some '\\'
  | _ => none

/-! ### Strings on one line -/

/-- Reads a string with escapes after its opening quote: its text, on top of an earlier one in
reverse, and what follows. -/
def readBasic? (text : List Char) : List Char → Option (List Char × List Char)
  | '"' :: rest => some (text.reverse, rest)
  | '\\' :: 'u' :: a :: b :: c :: d :: rest => match charOfHex? [a, b, c, d] with
    | some escaped => readBasic? (escaped :: text) rest
    | none => none
  | '\\' :: 'U' :: a :: b :: c :: d :: e :: f :: g :: h :: rest =>
    match charOfHex? [a, b, c, d, e, f, g, h] with
    | some escaped => readBasic? (escaped :: text) rest
    | none => none
  | '\\' :: c :: rest => match shortEscape? c with
    | some escaped => readBasic? (escaped :: text) rest
    | none => none
  | c :: rest => if isPlainChar c then readBasic? (c :: text) rest else none
  | [] => none

/-- Reads a string without escapes after its opening apostrophe. -/
def readLiteral? (text : List Char) : List Char → Option (List Char × List Char)
  | '\'' :: rest => some (text.reverse, rest)
  | c :: rest => if isPlainChar c then readLiteral? (c :: text) rest else none
  | [] => none

/-! ### Strings over several lines -/

/-- A text without the line break at its start. -/
def withoutLineBreak : List Char → List Char
  | '\n' :: rest => rest
  | '\r' :: '\n' :: rest => rest
  | text => text

/-- Whether nothing but blanks stands before the next line break. -/
def endsLine (text : List Char) : Bool :=
  match text.dropWhile isLineBlank with
  | '\n' :: _ => true
  | '\r' :: '\n' :: _ => true
  | _ => false

/-- Reads a string with escapes after its three opening quotes.  A backslash at the end of a line
takes away all blanks and line breaks that follow, which `trimming` says are being passed over.
Up to two quotes may stand before the three that close the string. -/
def readBasicBlock? (trimming : Bool) (text : List Char) :
    List Char → Option (List Char × List Char)
  | '"' :: '"' :: '"' :: '"' :: '"' :: rest => some (('"' :: '"' :: text).reverse, rest)
  | '"' :: '"' :: '"' :: '"' :: rest => some (('"' :: text).reverse, rest)
  | '"' :: '"' :: '"' :: rest => some (text.reverse, rest)
  | '\r' :: '\n' :: rest =>
    if trimming then readBasicBlock? true text rest
    else readBasicBlock? false ('\n' :: text) rest
  | '\\' :: 'u' :: a :: b :: c :: d :: rest => match charOfHex? [a, b, c, d] with
    | some escaped => readBasicBlock? false (escaped :: text) rest
    | none => none
  | '\\' :: 'U' :: a :: b :: c :: d :: e :: f :: g :: h :: rest =>
    match charOfHex? [a, b, c, d, e, f, g, h] with
    | some escaped => readBasicBlock? false (escaped :: text) rest
    | none => none
  | '\\' :: c :: rest =>
    if endsLine (c :: rest) then readBasicBlock? true text (c :: rest)
    else match shortEscape? c with
      | some escaped => readBasicBlock? false (escaped :: text) rest
      | none => none
  | c :: rest =>
    if trimming && (isLineBlank c || c == '\n') then readBasicBlock? true text rest
    else if isPlainChar c || c == '\n' then readBasicBlock? false (c :: text) rest
    else none
  | [] => none

/-- Reads a string without escapes after its three opening apostrophes. -/
def readLiteralBlock? (text : List Char) : List Char → Option (List Char × List Char)
  | '\'' :: '\'' :: '\'' :: '\'' :: '\'' :: rest => some (('\'' :: '\'' :: text).reverse, rest)
  | '\'' :: '\'' :: '\'' :: '\'' :: rest => some (('\'' :: text).reverse, rest)
  | '\'' :: '\'' :: '\'' :: rest => some (text.reverse, rest)
  | '\r' :: '\n' :: rest => readLiteralBlock? ('\n' :: text) rest
  | c :: rest =>
    if isPlainChar c || c == '\n' then readLiteralBlock? (c :: text) rest else none
  | [] => none

/-! ### Strings of any kind -/

/-- Reads a string of any kind. -/
def readQuoted? : List Char → Option (List Char × List Char)
  | '"' :: '"' :: '"' :: rest => readBasicBlock? false [] (withoutLineBreak rest)
  | '"' :: rest => readBasic? [] rest
  | '\'' :: '\'' :: '\'' :: rest => readLiteralBlock? [] (withoutLineBreak rest)
  | '\'' :: rest => readLiteral? [] rest
  | _ => none

end SchemaReader
