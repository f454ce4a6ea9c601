/-
Blank characters, and the trimming of text.

* `isBlank`: the white space of the character set;
* `trimWhere`, `trim`: a text without a class of characters at both ends.
-/

namespace SchemaReader.Text

/-- White space: the ASCII controls from tabulator to carriage return, the space, and the spaces
and line separators of the whole character set.  The zero-width characters are no white space. -/
def isBlank (c : Char) : Bool :=
  let code := c.toNat
  (0x09 ≤ code && code ≤ 0x0D) || code == 0x20 || code == 0x85 || code == 0xA0 ||
    code == 0x1680 || (0x2000 ≤ code && code ≤ 0x200A) || code == 0x2028 || code == 0x2029 ||
    code == 0x202F || code == 0x205F || code == 0x3000

/-- A text without the longest end of it that lies in a class. -/
def dropEndWhile (p : Char → Bool) (text : List Char) : List Char :=
  (text.reverse.dropWhile p).reverse

/-- A text without the characters of a class at either end. -/
def trimWhere (p : Char → Bool) (text : List Char) : List Char :=
  dropEndWhile p (text.dropWhile p)

/-- A text without the white space at either end. -/
def trim (text : List Char) : List Char :=
  trimWhere isBlank text

end SchemaReader.Text
