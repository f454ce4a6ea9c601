/-
Numbers, truth values, dates and times of TOML.

* `integerOf?`, `isFloat`, `isDateTime`: the kinds of written values beside truth values;
* `Toml.ofWord?`: the value of a run of characters without blanks and punctuation.
-/
import SchemaReader.Text.Magnitude
import SchemaReader.Text.Segments
import SchemaReader.Toml.Basic

namespace SchemaReader

/-! ### Digits -/

/-- Whether a text is digits of a kind with single underscores between them, beginning and ending
with a digit. -/
def areDigits (isDigit : Char → Bool) (text : List Char) : Bool :=
  (Text.segments (· == '_') text).all fun part => !part.isEmpty && part.all isDigit

/-- A text without underscores. -/
def withoutUnderscores (text : List Char) : List Char :=
  text.filter (· != '_')

/-- A text without the sign it may begin with. -/
def withoutSign : List Char → List Char
  | '+' :: rest => rest
  | '-' :: rest => rest
  | text => text

/-- Whether a text is a decimal whole number without sign: digits that do not begin with a zero,
or a zero alone. -/
def isWholeNumber (text : List Char) : Bool :=
  areDigits Char.isDigit text && (text == ['0'] || text.head? != some '0')

/-! ### Integers -/

/-- The value of a digit in bases up to sixteen. -/
def digitValue (c : Char) : Nat :=
  if c.isDigit then c.toNat - '0'.toNat
  else if 'a' ≤ c && c ≤ 'f' then c.toNat - 'a'.toNat + 10
  else if 'A' ≤ c && c ≤ 'F' then c.toNat - 'A'.toNat + 10
  else 16

/-- The least number that does not fit in 63 bits. -/
def integerBound : Nat := Nat.pow 2 63

/-- The number that digits of a base write, if it fits in 63 bits. -/
def ofBase? (base : Nat) (text : List Char) : Option Int :=
  if areDigits (fun c => digitValue c < base) text then
    let value := (withoutUnderscores text).foldl (fun n c => base * n + digitValue c) 0
    if value < integerBound then some value else none
  else none

/-- The value of a written integer, if it fits in 64 bits with its sign. -/
def integerOf? (text : List Char) : Option Int :=
  match text with
  | '0' :: 'x' :: digits => ofBase? 16 digits
  | '0' :: 'o' :: digits => ofBase? 8 digits
  | '0' :: 'b' :: digits => ofBase? 2 digits
  | _ =>
    let unsigned := withoutSign text
    if isWholeNumber unsigned then
      let size : Int := Text.ofDigits (withoutUnderscores unsigned)
      let value := if text.head? == some '-' then -size else size
      if -(integerBound : Int) ≤ value && value < integerBound then some value else none
    else none

/-! ### Floating-point numbers -/

/-- Whether a text is an exponent after its letter: digits that may have a sign. -/
def isExponent (text : List Char) : Bool :=
  areDigits Char.isDigit (withoutSign text)

/-- Whether a character begins an exponent. -/
def isExponentLetter (c : Char) : Bool :=
  c == 'e' || c == 'E'

/-- Whether a text is what follows the whole part of a floating-point number: a fraction, an
exponent or both. -/
def isFloatTail (text : List Char) : Bool :=
  match text with
  | '.' :: rest =>
    let fraction := Text.firstSegment isExponentLetter rest
    let exponent := rest.drop fraction.length
    areDigits Char.isDigit fraction && (exponent.isEmpty || isExponent (exponent.drop 1))
  | c :: rest => isExponentLetter c && isExponent rest
  | [] => false

/-- Whether a text is a floating-point number.  One too great for double precision is none,
unless it is negative. -/
def isFloat (text : List Char) : Bool :=
  let unsigned := withoutSign text
  let whole := Text.firstSegment (fun c => c == '.' || isExponentLetter c) unsigned
  let special := unsigned == "inf".toList || unsigned == "nan".toList
  let finite := isWholeNumber whole && isFloatTail (unsigned.drop whole.length) &&
    (text.head? == some '-' || Text.isFinite (withoutUnderscores text))
  special || finite

/-! ### Dates and times -/

/-- The number of two digits within bounds. -/
def twoDigits? (low high : Nat) (a b : Char) : Option Nat :=
  if a.isDigit && b.isDigit then
    let value := Text.ofDigits [a, b]
    if low ≤ value && value ≤ high then some value else none
  else none

/-- How many days a month has. -/
def daysInMonth (year month : Nat) : Nat :=
  let leap := year % 4 == 0 && (year % 100 != 0 || year % 400 == 0)
  if month == 2 then (if leap then 29 else 28)
  else if [4, 6, 9, 11].contains month then 30
  else 31

/-- What follows the date at the beginning of a text. -/
def afterDate? : List Char → Option (List Char)
  | a :: b :: c :: d :: '-' :: e :: f :: '-' :: g :: h :: rest => do
    if !([a, b, c, d].all Char.isDigit) then none
    else
      let month ← twoDigits? 1 12 e f
      let day ← twoDigits? 1 31 g h
      if day ≤ daysInMonth (Text.ofDigits [a, b, c, d]) month then some rest else none
  | _ => none

/-- What follows a fraction of a second, if there is one. -/
def afterSecondFraction? : List Char → Option (List Char)
  | '.' :: c :: rest => if c.isDigit then some (rest.dropWhile Char.isDigit) else none
  | '.' :: [] => none
  | text => some text

/-- What follows the time at the beginning of a text. -/
def afterTime? : List Char → Option (List Char)
  | a :: b :: ':' :: c :: d :: ':' :: e :: f :: rest => do
    let _ ← twoDigits? 0 23 a b
    let _ ← twoDigits? 0 59 c d
    let _ ← twoDigits? 0 60 e f
    afterSecondFraction? rest
  | _ => none

/-- Whether a text is the offset of a time zone, or nothing. -/
def isOffset : List Char → Bool
  | [] => true
  | ['Z'] | ['z'] => true
  | [sign, a, b, ':', c, d] =>
    (sign == '+' || sign == '-') && (twoDigits? 0 23 a b).isSome && (twoDigits? 0 59 c d).isSome
  | _ => false

/-- Whether a text is a time with the offset of its zone, or without. -/
def isTimeWithOffset (text : List Char) : Bool :=
  (afterTime? text).any isOffset

/-- Whether a text is a date. -/
def isDate (text : List Char) : Bool :=
  (afterDate? text).any List.isEmpty

/-- Whether a text is a date, a time, or a date and a time around the letter T. -/
def isDateTime (text : List Char) : Bool :=
  match afterDate? text with
  | some [] => true
  | some (c :: time) => (c == 'T' || c == 't') && isTimeWithOffset time
  | none => (afterTime? text).any List.isEmpty

/-! ### Words -/

/-- The value of a run of letters, digits, signs, points, colons and underscores. -/
def Toml.ofWord? (text : List Char) : Option Toml :=
  if text == "true".toList then some (.boolean true)
  else if text == "false".toList then some (.boolean false)
  else if let some value := integerOf? text then some (.integer value)
  else if isFloat text then some (.float text)
  else if isDateTime text then some (.dateTime text)
  else none

end SchemaReader
