/-
Writing JSON.

* `encodeChar`, `quote`: characters and strings as literals write them;
* `Layout`: with or without line breaks;
* `Json.render`: the text of a value.
-/
import SchemaReader.Json.Basic

namespace SchemaReader

/-- A hexadecimal digit, in small letters. -/
def hexDigit (n : Nat) : Char :=
  Nat.digitChar n

/-- How a literal writes a character: quotes, backslashes and the controls of ASCII as escapes,
every other character as itself. -/
def encodeChar (c : Char) : List Char :=
  if c == '"' then ['\\', '"']
  else if c == '\\' then ['\\', '\\']
  else if c == '\n' then ['\\', 'n']
  else if c == '\r' then ['\\', 'r']
  else if c == '\t' then ['\\', 't']
  else if c == '\x08' then ['\\', 'b']
  else if c == '\x0c' then ['\\', 'f']
  else if c.toNat < 0x20 then
    ['\\', 'u', '0', '0', hexDigit (c.toNat / 16), hexDigit (c.toNat % 16)]
  else [c]

/-- The literal of a string; half of a surrogate pair stands for a string without a content. -/
def quote (content : QuotedText) : List Char :=
  match content with
  | some text => '"' :: (text.flatMap encodeChar ++ ['"'])
  | none => "\"\\ud800\"".toList

/-- How a value is laid out. -/
inductive Layout where
  /-- On one line, without spaces. -/
  | compact
  /-- An item or member a line, two spaces deeper than what it stands in. -/
  | indented
  deriving DecidableEq, Repr

/-- The break before an item at a depth. -/
def Layout.lineBreak : Layout → Nat → List Char
  | .compact, _ => []
  | .indented, depth => '\n' :: List.replicate (2 * depth) ' '

/-- What stands between a key and its value. -/
def Layout.colon : Layout → List Char
  | .compact => [':']
  | .indented => [':', ' ']

mutual

/-- The text of a value that stands at a depth. -/
def Json.render (layout : Layout) (depth : Nat) : Json → List Char
  | .null => "null".toList
  | .bool true => "true".toList
  | .bool false => "false".toList
  | .number text => text
  | .string content => quote content
  | .array [] => ['[', ']']
  | .array (item :: rest) =>
    '[' :: (layout.lineBreak (depth + 1) ++ item.render layout (depth + 1) ++
      renderItems layout (depth + 1) rest ++ layout.lineBreak depth ++ [']'])
  | .object [] => ['\x7b', '\x7d']
  | .object ((key, value) :: rest) =>
    '\x7b' :: (layout.lineBreak (depth + 1) ++ quote key ++ layout.colon ++
      value.render layout (depth + 1) ++ renderMembers layout (depth + 1) rest ++
      layout.lineBreak depth ++ ['\x7d'])

/-- The text of the further items of an array at a depth. -/
def renderItems (layout : Layout) (depth : Nat) : List Json → List Char
  | [] => []
  | item :: rest =>
    ',' :: (layout.lineBreak depth ++ item.render layout depth ++ renderItems layout depth rest)

/-- The text of the further members of an object at a depth. -/
def renderMembers (layout : Layout) (depth : Nat) : List (QuotedText × Json) → List Char
  | [] => []
  | (key, value) :: rest =>
    ',' :: (layout.lineBreak depth ++ quote key ++ layout.colon ++ value.render layout depth ++
      renderMembers layout depth rest)

end

/-- The text of a value. -/
def Json.toText (layout : Layout) (value : Json) : List Char :=
  value.render layout 0

end SchemaReader
