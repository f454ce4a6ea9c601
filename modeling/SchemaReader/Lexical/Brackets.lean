/-
Brackets and their partners.

* `enclosed?`: the text from an opening bracket to its partner, and what follows the partner.
  Round, square and curly brackets count alike, and brackets in literals do not count;
* `bracketBody?`: the same for a text that begins with the bracket, without what follows;
* `findMatching?`: the byte offset of the partner of the bracket at a byte offset.
-/
import SchemaReader.Lexical.Dialect
import SchemaReader.Text.Bytes

namespace SchemaReader

/-- An opening bracket of one of the three kinds. -/
def isOpening (c : Char) : Bool :=
  c == '(' || c == '[' || c == '{'

/-- A closing bracket of one of the three kinds. -/
def isClosing (c : Char) : Bool :=
  c == ')' || c == ']' || c == '}'

/-- The loop of `enclosed?`: `depth` brackets are open inside the one whose partner is sought,
and `body` is the text so far in reverse. -/
def enclosedLoop (dialect : Dialect) (depth : Nat) (literal : Literal) (body : List Char) :
    List Char → Option (List Char × List Char)
  | [] => none
  | c :: rest =>
    if literal.covers c then
      enclosedLoop dialect depth (literal.step dialect c) (c :: body) rest
    else if isOpening c then enclosedLoop dialect (depth + 1) .outside (c :: body) rest
    else if isClosing c then
      match depth with
      | 0 => some (body.reverse, rest)
      | depth + 1 => enclosedLoop dialect depth .outside (c :: body) rest
    else enclosedLoop dialect depth .outside (c :: body) rest

/-- For the text after an opening bracket: the text up to the bracket's partner, and the text
after the partner. -/
def enclosed? (dialect : Dialect) (text : List Char) : Option (List Char × List Char) :=
  enclosedLoop dialect 0 .outside [] text

/-- What stands between the opening bracket at the start of a text and its partner. -/
def bracketBody? (dialect : Dialect) : List Char → Option (List Char)
  | [] => none
  | c :: rest => if isOpening c then (enclosed? dialect rest).map (·.1) else none

/-- What stands between the opening bracket at a byte offset and its partner. -/
def bracketBodyAt? (dialect : Dialect) (text : List Char) (offset : Nat) : Option (List Char) :=
  (Text.dropBytes? offset text).bind (bracketBody? dialect)

/-- The byte offset of the partner of the opening bracket at a byte offset, if there is a bracket
and it has a partner. -/
def findMatching? (dialect : Dialect) (text : List Char) (offset : Nat) : Option Nat :=
  (bracketBodyAt? dialect text offset).map fun body => offset + 1 + Text.byteLength body

end SchemaReader
