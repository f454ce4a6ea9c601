/-
The top level of a text: what is neither in a literal nor in brackets.

* `splitTopLevel`: the pieces of a text between separators at the top level;
* `maskNested`: the text with all that is not at the top level blanked out, byte for byte.
-/
import SchemaReader.Lexical.Brackets
import SchemaReader.Text.Blank

namespace SchemaReader

/-- The loop of `topLevelPieces`: `depth` counts open brackets and falls below zero where more
are closed than were opened; `piece` is the current piece and `done` the finished ones, both in
reverse.  The depth is an integer for a counter of 32 bits with a sign, and the two agree on every
text with fewer than `2 ^ 31` brackets. -/
def topLevelPiecesLoop (dialect : Dialect) (separator : Char) (depth : Int) (literal : Literal)
    (done : List (List Char)) (piece : List Char) : List Char → List (List Char)
  | [] => (piece.reverse :: done).reverse
  | c :: rest =>
    if literal.covers c then
      topLevelPiecesLoop dialect separator depth (literal.step dialect c) done (c :: piece) rest
    else if isOpening c then
      topLevelPiecesLoop dialect separator (depth + 1) .outside done (c :: piece) rest
    else if isClosing c then
      topLevelPiecesLoop dialect separator (depth - 1) .outside done (c :: piece) rest
    else if c == separator && depth == 0 then
      topLevelPiecesLoop dialect separator depth .outside (piece.reverse :: done) [] rest
    else topLevelPiecesLoop dialect separator depth .outside done (c :: piece) rest

/-- The pieces of a text between the separators outside literals at bracket depth zero, exactly
as they stand. -/
def topLevelPieces (dialect : Dialect) (separator : Char) (text : List Char) : List (List Char) :=
  topLevelPiecesLoop dialect separator 0 .outside [] [] text

/-- The pieces of a text between separators at the top level, trimmed, the empty ones left
out. -/
def splitTopLevel (dialect : Dialect) (separator : Char) (text : List Char) : List (List Char) :=
  ((topLevelPieces dialect separator text).map Text.trim).filter fun piece => !piece.isEmpty

/-- One space for every byte of a character, on top of an output in reverse. -/
def pushMask (c : Char) (out : List Char) : List Char :=
  List.replicate c.utf8Size ' ' ++ out

/-- The loop of `maskNested`, with the output so far in reverse.  A closing bracket that nothing
opened leaves the depth at zero. -/
def maskNestedLoop (dialect : Dialect) (depth : Nat) (literal : Literal) (out : List Char) :
    List Char → List Char
  | [] => out.reverse
  | c :: rest =>
    if literal.covers c then
      maskNestedLoop dialect depth (literal.step dialect c) (pushMask c out) rest
    else if isOpening c then
      maskNestedLoop dialect (depth + 1) .outside (pushMask c out) rest
    else if isClosing c then
      maskNestedLoop dialect (depth - 1) .outside (pushMask c out) rest
    else if depth == 0 then maskNestedLoop dialect depth .outside (c :: out) rest
    else maskNestedLoop dialect depth .outside (pushMask c out) rest

/-- A text with its literals, its brackets and all that stands in brackets blanked out.  Each
blanked character becomes as many spaces as it has bytes, so byte offsets stay what they were. -/
def maskNested (dialect : Dialect) (text : List Char) : List Char :=
  maskNestedLoop dialect 0 .outside [] text

end SchemaReader
