/-
JSON values.

* `Json`: a value as its text gives it, objects with all their members in order;
* `Json.height`: how deeply arrays and objects nest;
* `Json.isReadable`: whether every string is one and every number is in range.
-/
import SchemaReader.Text.Magnitude

namespace SchemaReader

/-- The content of a string literal, or `none` if its escapes name half of a surrogate pair
without the other half. -/
abbrev QuotedText := Option (List Char)

/-- A JSON value. -/
inductive Json where
  | null
  | bool (value : Bool)
  /-- A number, as it is written. -/
  | number (text : List Char)
  | string (content : QuotedText)
  | array (items : List Json)
  /-- An object with its members in order; a key may come twice. -/
  | object (members : List (QuotedText × Json))

/-- The value of a string. -/
def Json.ofString (text : String) : Json := .string (some text.toList)

/-! ### Measures -/

mutual

/-- How deeply arrays and objects nest in a value. -/
def Json.height : Json → Nat
  | .array items => heightOfItems items + 1
  | .object members => heightOfMembers members + 1
  | _ => 0

/-- The greatest height of the items of an array. -/
def heightOfItems : List Json → Nat
  | [] => 0
  | item :: rest => max item.height (heightOfItems rest)

/-- The greatest height of the members of an object. -/
def heightOfMembers : List (QuotedText × Json) → Nat
  | [] => 0
  | (_, value) :: rest => max value.height (heightOfMembers rest)

end

mutual

/-- Whether every string in a value has a content and every number is in range. -/
def Json.isReadable : Json → Bool
  | .number text => Text.isFinite text
  | .string content => content.isSome
  | .array items => itemsReadable items
  | .object members => membersReadable members
  | _ => true

/-- Whether all items of an array are readable. -/
def itemsReadable : List Json → Bool
  | [] => true
  | item :: rest => item.isReadable && itemsReadable rest

/-- Whether all members of an object are readable, their keys included. -/
def membersReadable : List (QuotedText × Json) → Bool
  | [] => true
  | (key, value) :: rest => key.isSome && value.isReadable && membersReadable rest

end

end SchemaReader
