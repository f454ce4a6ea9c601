/-
Cutting a text at single characters.

* `segments`: the pieces between the characters of a class, always at least one;
* `firstSegment`, `lastSegment`: the piece before the first and after the last of them;
* `lines`: the pieces between line feeds;
* `joinWith`: the pieces put together again around a separator;
* `occursIn`: whether one text is a piece of another.
-/
import SchemaReader.Text.Blank

namespace SchemaReader.Text

/-- The loop of `segments`: `piece` is the current piece and `done` the finished ones, both in
reverse. -/
def segmentsLoop (p : Char → Bool) (done : List (List Char)) (piece : List Char) :
    List Char → List (List Char)
  | [] => (piece.reverse :: done).reverse
  | c :: rest =>
    if p c then segmentsLoop p (piece.reverse :: done) [] rest
    else segmentsLoop p done (c :: piece) rest

/-- The pieces of a text between the characters of a class.  A text without such a character is
its own only piece, and the empty text is one empty piece. -/
def segments (p : Char → Bool) (text : List Char) : List (List Char) :=
  segmentsLoop p [] [] text

/-- The part of a text before the first character of a class. -/
def firstSegment (p : Char → Bool) (text : List Char) : List Char :=
  text.takeWhile fun c => !p c

/-- The part of a text after the last character of a class. -/
def lastSegment (p : Char → Bool) (text : List Char) : List Char :=
  (text.reverse.takeWhile fun c => !p c).reverse

/-- The lines of a text, without their line feeds. -/
def lines (text : List Char) : List (List Char) :=
  segments (· == '\n') text

/-- The texts of a list with a separator between each two. -/
def joinWith (separator : List Char) (texts : List (List Char)) : List Char :=
  separator.intercalate texts

/-- Whether one text occurs in another. -/
def occursIn (part : List Char) : List Char → Bool
  | [] => part.isEmpty
  | c :: rest => part.isPrefixOf (c :: rest) || occursIn part rest

end SchemaReader.Text
