/-
The size of written decimal numbers.

* `ofDigits`: the number that decimal digits write;
* `isFinite`: whether a decimal number is small enough for double precision.
-/

namespace SchemaReader.Text

/-- The number that decimal digits write. -/
def ofDigits (digits : List Char) : Nat :=
  digits.foldl (fun n c => 10 * n + (c.toNat - '0'.toNat)) 0

/-- A number written with digits, a point and an exponent: the digits before and after the point,
and the exponent. -/
structure Decimal where
  whole : List Char
  fraction : List Char
  exponent : Int
  deriving DecidableEq, Repr

/-- The exponent that follows the letter for it. -/
def exponentOf : List Char → Int
  | '-' :: digits => -(ofDigits digits : Int)
  | '+' :: digits => ofDigits digits
  | digits => ofDigits digits

/-- The parts of a written number without its sign. -/
def Decimal.ofText (text : List Char) : Decimal :=
  let whole := text.takeWhile Char.isDigit
  let rest := text.dropWhile Char.isDigit
  let fraction := match rest with
    | '.' :: rest => rest.takeWhile Char.isDigit
    | _ => []
  ⟨whole, fraction, exponentOf ((rest.dropWhile fun c => c != 'e' && c != 'E').drop 1)⟩

/-- The least number that double precision rounds to infinity: half a step above the greatest
finite one. -/
def infinityBound : Nat := Nat.pow 2 1024 - Nat.pow 2 970

/-- Whether double precision has a finite value for a number.  A power of ten above 400 leaves
none for any number but zero. -/
def Decimal.isFinite (number : Decimal) : Bool :=
  let digits := number.whole ++ number.fraction
  let power := number.exponent - number.fraction.length
  if ofDigits digits == 0 || power + digits.length ≤ 0 then true
  else if power > 400 then false
  else if power ≥ 0 then ofDigits digits * Nat.pow 10 power.toNat < infinityBound
  else ofDigits digits / Nat.pow 10 (-power).toNat < infinityBound

/-- Whether double precision has a finite value for a written number, whatever its sign. -/
def isFinite (text : List Char) : Bool :=
  (Decimal.ofText (text.dropWhile fun c => c == '-' || c == '+')).isFinite

end SchemaReader.Text
