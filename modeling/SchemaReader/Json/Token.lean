/-
The tokens of JSON texts.

* `Token`: punctuation, strings, numbers and the three words;
* `Token.scan?`: the tokens of a text, if it has nothing else in it but blanks.
-/
import SchemaReader.Json.Basic

namespace SchemaReader

/-- A token of a JSON text. -/
inductive Token where
  | openArray
  | closeArray
  | openObject
  | closeObject
  | colon
  | comma
  | string (content : QuotedText)
  | number (text : List Char)
  | word (text : List Char)
  deriving DecidableEq, Repr

/-! ### Strings -/

/-- Four hexadecimal digits as a number. -/
def hexDigits? (digits : List Char) : Option Nat :=
  digits.foldlM (fun n c =>
    if '0' ≤ c && c ≤ '9' then some (16 * n + (c.toNat - '0'.toNat))
    else if 'a' ≤ c && c ≤ 'f' then some (16 * n + (c.toNat - 'a'.toNat + 10))
    else if 'A' ≤ c && c ≤ 'F' then some (16 * n + (c.toNat - 'A'.toNat + 10))
    else none) 0

/-- The character that a one-letter escape stands for. -/
def escapedChar? : Char → Option Char
  | '"' => some '"'
  | '\\' => some '\\'
  | '/' => some '/'
  | 'b' => some '\x08'
  | 'f' => some '\x0c'
  | 'n' => some '\n'
  | 'r' => some '\r'
  | 't' => some '\t'
  | _ => none

/-- Whether a code point is the first half of a surrogate pair. -/
def isHighSurrogate (code : Nat) : Bool := 0xD800 ≤ code && code ≤ 0xDBFF

/-- Whether a code point is the second half of a surrogate pair. -/
def isLowSurrogate (code : Nat) : Bool := 0xDC00 ≤ code && code ≤ 0xDFFF

/-- The text of code points among which surrogates stand in pairs; `none` if one stands alone.
`text` is what came before, in reverse. -/
def joinSurrogates (text : List Char) : List Nat → QuotedText
  | [] => some text.reverse
  | [code] =>
    if isHighSurrogate code || isLowSurrogate code then none
    else some (Char.ofNat code :: text).reverse
  | code :: next :: rest =>
    if isHighSurrogate code then
      if isLowSurrogate next then
        joinSurrogates
          (Char.ofNat (0x10000 + (code - 0xD800) * 0x400 + (next - 0xDC00)) :: text) rest
      else none
    else if isLowSurrogate code then none
    else joinSurrogates (Char.ofNat code :: text) (next :: rest)

/-- Reads a string after its opening quote: the code points, on top of earlier ones in reverse,
and what follows the closing quote.  Controls of ASCII have to be escaped. -/
def scanString? (codes : List Nat) : List Char → Option (QuotedText × List Char)
  | '"' :: rest => some (joinSurrogates [] codes.reverse, rest)
  | '\\' :: 'u' :: a :: b :: c :: d :: rest =>
    match hexDigits? [a, b, c, d] with
    | some code => scanString? (code :: codes) rest
    | none => none
  | '\\' :: c :: rest =>
    match escapedChar? c with
    | some escaped => scanString? (escaped.toNat :: codes) rest
    | none => none
  | c :: rest => if c.toNat < 0x20 then none else scanString? (c.toNat :: codes) rest
  | [] => none

/-! ### Numbers -/

/-- Reads digits, at least one. -/
def scanDigits? (text : List Char) : Option (List Char × List Char) :=
  match text.span Char.isDigit with
  | ([], _) => none
  | found => some found

/-- Reads the whole part of a number: a zero, or digits that begin with another. -/
def scanWhole? : List Char → Option (List Char × List Char)
  | '0' :: rest => some (['0'], rest)
  | text => scanDigits? text

/-- Reads the fraction of a number, if it has one. -/
def scanFraction? : List Char → Option (List Char × List Char)
  | '.' :: rest => (scanDigits? rest).map fun found => ('.' :: found.1, found.2)
  | text => some ([], text)

/-- Reads the sign of an exponent, if it has one. -/
def scanSign : List Char → List Char × List Char
  | '+' :: rest => (['+'], rest)
  | '-' :: rest => (['-'], rest)
  | text => ([], text)

/-- Reads the exponent of a number, if it has one. -/
def scanExponent? : List Char → Option (List Char × List Char)
  | [] => some ([], [])
  | c :: rest =>
    if c == 'e' || c == 'E' then
      let sign := scanSign rest
      (scanDigits? sign.2).map fun found => (c :: (sign.1 ++ found.1), found.2)
    else some ([], c :: rest)

/-- Reads a number after its sign. -/
def scanNumber? (text : List Char) : Option (List Char × List Char) := do
  let whole ← scanWhole? text
  let fraction ← scanFraction? whole.2
  let exponent ← scanExponent? fraction.2
  return (whole.1 ++ fraction.1 ++ exponent.1, exponent.2)

/-! ### Tokens -/

/-- The blanks between tokens. -/
def isJsonBlank (c : Char) : Bool :=
  c == ' ' || c == '\n' || c == '\t' || c == '\r'

/-- Reads a word of ASCII letters. -/
def scanWord (text : List Char) : List Char × List Char :=
  text.span Char.isAlpha

/-- Reads the token that begins with a character. -/
def Token.scanOne? (c : Char) (rest : List Char) : Option (Token × List Char) :=
  match c with
  | '[' => some (.openArray, rest)
  | ']' => some (.closeArray, rest)
  | '\x7b' => some (.openObject, rest)
  | '\x7d' => some (.closeObject, rest)
  | ':' => some (.colon, rest)
  | ',' => some (.comma, rest)
  | '"' => (scanString? [] rest).map fun found => (.string found.1, found.2)
  | '-' => (scanNumber? rest).map fun found => (.number ('-' :: found.1), found.2)
  | c =>
    if c.isDigit then (scanNumber? (c :: rest)).map fun found => (.number found.1, found.2)
    else if c.isAlpha then
      let found := scanWord rest
      some (.word (c :: found.1), found.2)
    else none

/-- The loop of `Token.scan?`, with the tokens so far in reverse.  Every round reads at least one
character. -/
def scanLoop (tokens : List Token) : (fuel : Nat) → List Char → Option (List Token)
  | _, [] => some tokens.reverse
  | 0, _ :: _ => none
  | fuel + 1, c :: rest =>
    if isJsonBlank c then scanLoop tokens fuel rest
    else match Token.scanOne? c rest with
      | some (token, rest) => scanLoop (token :: tokens) fuel rest
      | none => none

/-- The tokens of a text. -/
def Token.scan? (text : List Char) : Option (List Token) :=
  scanLoop [] text.length text

end SchemaReader
