/-
Identifiers as the source formats write them, bare, quoted or qualified.

* `cleanIdentifier`: the bare name behind a written identifier;
* `leadingIdentifier`: the bare name at the start of a list entry, without what follows it;
* `identifierList`: the bare names of a list, with or without its brackets.
-/
import SchemaReader.Lexical.TopLevel
import SchemaReader.Text.Segments

namespace SchemaReader

/-- The bare name of an identifier: its last part after a period, without quotes and square
brackets at either end. -/
def cleanIdentifier (text : List Char) : List Char :=
  let last := Text.lastSegment (· == '.') (Text.trim text)
  Text.trimWhere (fun c => isQuote c || c == '[' || c == ']') (Text.trim last)

/-- Whether a character ends the first word of an entry: white space or an opening parenthesis. -/
def endsFirstWord (c : Char) : Bool :=
  Text.isBlank c || c == '('

/-- The bare name at the start of a list entry: `email` for `email(sort: Desc)`, `user_id` for
`"user_id" DESC`. -/
def leadingIdentifier (text : List Char) : List Char :=
  cleanIdentifier (Text.firstSegment endsFirstWord (Text.trim text))

/-- A trimmed text without the square brackets or parentheses around it.  Only the first and the
last character are looked at. -/
def withoutOuterBrackets (text : List Char) : List Char :=
  match text with
  | '[' :: rest => if rest.getLast? = some ']' then rest.dropLast else text
  | '(' :: rest => if rest.getLast? = some ')' then rest.dropLast else text
  | _ => text

/-- The bare names of the entries of a list separated by commas; entries without a name are left
out. -/
def identifierList (dialect : Dialect) (text : List Char) : List (List Char) :=
  ((splitTopLevel dialect ',' (withoutOuterBrackets (Text.trim text))).map
    leadingIdentifier).filter fun name => !name.isEmpty

end SchemaReader
