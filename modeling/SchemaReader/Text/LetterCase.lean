/-
Letter case, as far as words of ASCII letters can feel it.

* `upper`: the capitals of a text, complete for every character whose capitals are ASCII letters.
  So comparing an image with an ASCII word gives what the mapping of the whole character set
  gives;
* `lower`: the small letters of a text, complete for every character with an ASCII letter among
  its small letters.  So searching an image for an ASCII word gives what the mapping of the whole
  character set gives; all other characters stay as they are;
* `isLetter`: whether a character is a given ASCII letter when case is ignored.
-/

namespace SchemaReader.Text

/-- The capitals of one character.  Beside the ASCII letters, the dotless i, the long s, the
sharp s and the ligatures of ASCII letters have ASCII capitals. -/
def upperChar (c : Char) : List Char :=
  match c with
  | '\u0131' => ['I']
  | '\u017F' => ['S']
  | '\u00DF' => ['S', 'S']
  | '\uFB00' => ['F', 'F']
  | '\uFB01' => ['F', 'I']
  | '\uFB02' => ['F', 'L']
  | '\uFB03' => ['F', 'F', 'I']
  | '\uFB04' => ['F', 'F', 'L']
  | '\uFB05' => ['S', 'T']
  | '\uFB06' => ['S', 'T']
  | c => [c.toUpper]

/-- The small letters of one character.  Beside the ASCII letters, the Kelvin sign becomes `k`,
and the dotted capital i becomes `i` under a combining dot. -/
def lowerChar (c : Char) : List Char :=
  match c with
  | '\u212A' => ['k']
  | '\u0130' => ['i', '\u0307']
  | c => [c.toLower]

/-- A text in capitals. -/
def upper (text : List Char) : List Char :=
  text.flatMap upperChar

/-- A text in small letters. -/
def lower (text : List Char) : List Char :=
  text.flatMap lowerChar

/-- Whether a character is the given ASCII capital or one of its other forms: the small letter,
the long s for `S`, the Kelvin sign for `K`. -/
def isLetter (capital c : Char) : Bool :=
  c.toUpper == capital || (capital == 'S' && c == '\u017F') || (capital == 'K' && c == '\u212A')

end SchemaReader.Text
