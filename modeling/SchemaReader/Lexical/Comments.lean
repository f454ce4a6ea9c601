/-
Taking the comments out of a text.

* `stripComments`: the text without its comments.  A line comment goes without the line feed
  that ends it, and a block comment leaves its line feeds and one space behind, so the lines of
  the text stay what they were.  What looks like a comment inside a literal is text.
-/
import SchemaReader.Lexical.Dialect

namespace SchemaReader

/-- Where the removal of comments stands. -/
inductive CommentMode where
  /-- In the text proper. -/
  | text (literal : Literal)
  /-- In a line comment. -/
  | line
  /-- Before the second character of the sign that opened a block comment. -/
  | blockSign
  /-- In a block comment; `star` if the character before was an asterisk. -/
  | block (star : Bool)
  deriving DecidableEq, Repr

/-- Reads a character of the text proper: the next mode, and what the output gains.  `rest` is
the text after the character, which shows whether a comment opens here. -/
def CommentMode.ofText (dialect : Dialect) (literal : Literal) (c : Char) (rest : List Char) :
    CommentMode × List Char :=
  if literal.covers c then (.text (literal.step dialect c), [c])
  else if dialect.lineComment.isPrefixOf (c :: rest) then (.line, [])
  else if dialect.blockComment && ['/', '*'].isPrefixOf (c :: rest) then (.blockSign, [])
  else (.text .outside, [c])

/-- Reads a character: the next mode, and what the output gains.  The line feed after a line
comment is read as text. -/
def CommentMode.step (dialect : Dialect) (c : Char) (rest : List Char) :
    CommentMode → CommentMode × List Char
  | .text literal => CommentMode.ofText dialect literal c rest
  | .line => if c == '\n' then CommentMode.ofText dialect .outside c rest else (.line, [])
  | .blockSign => (.block false, [])
  | .block star =>
    if star && c == '/' then (.text .outside, [' '])
    else (.block (c == '*'), if c == '\n' then ['\n'] else [])

/-- What the output gains at the end of the text: a block comment that nothing closes leaves its
space too. -/
def CommentMode.atEnd : CommentMode → List Char
  | .blockSign | .block _ => [' ']
  | .text _ | .line => []

/-- The loop of `stripComments`, with the output so far in reverse. -/
def stripCommentsLoop (dialect : Dialect) (mode : CommentMode) (out : List Char) :
    List Char → List Char
  | [] => out.reverseAux mode.atEnd
  | c :: rest =>
    let next := mode.step dialect c rest
    stripCommentsLoop dialect next.1 (next.2.reverseAux out) rest

/-- A text without its comments. -/
def stripComments (dialect : Dialect) (text : List Char) : List Char :=
  stripCommentsLoop dialect (.text .outside) [] text

end SchemaReader
