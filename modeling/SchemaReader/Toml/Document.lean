/-
Reading TOML documents.

* `readKey?`: a dotted key;
* `readValue?`: a value, arrays and tables in braces included;
* `TomlDocument`: the entries read so far and the table that is open;
* `tomlOfText?`: the entries of a document.
-/
import SchemaReader.Toml.Quoted
import SchemaReader.Toml.Scalar

namespace SchemaReader

/-! ### Keys -/

/-- A character of a bare key. -/
def isBareKeyChar (c : Char) : Bool :=
  c.isAlphanum || c == '-' || c == '_'

/-- Reads one part of a key: bare, or a string on one line. -/
def readKeyPart? : List Char → Option (List Char × List Char)
  | '"' :: rest => readBasic? [] rest
  | '\'' :: rest => readLiteral? [] rest
  | text => match text.span isBareKeyChar with
    | ([], _) => none
    | found => some found

/-- How many parts a key may not reach, and how deeply values may not nest. -/
def nestingLimit : Nat := 80

/-- Reads the parts of a key with the blanks around them; at most `parts` are allowed. -/
def readKeyParts? : (parts : Nat) → List Char → Option (List (List Char) × List Char)
  | 0, _ => none
  | parts + 1, text => do
    let (part, rest) ← readKeyPart? (text.dropWhile isLineBlank)
    match rest.dropWhile isLineBlank with
    | '.' :: rest => do
      let (further, rest) ← readKeyParts? parts rest
      return (part :: further, rest)
    | rest => return ([part], rest)

/-- Reads a key with the blanks around it. -/
def readKey? (text : List Char) : Option (List (List Char) × List Char) :=
  readKeyParts? (nestingLimit - 1) text

/-! ### Blanks and comments -/

/-- What follows the comment after its sign. -/
def afterComment (text : List Char) : List Char :=
  text.dropWhile isPlainChar

/-- What follows the rest of a line that holds nothing but blanks and a comment. -/
def afterLine? (text : List Char) : Option (List Char) :=
  let text := text.dropWhile isLineBlank
  let text := match text with
    | '#' :: rest => afterComment rest
    | text => text
  match text with
  | [] => some []
  | '\n' :: rest => some rest
  | '\r' :: '\n' :: rest => some rest
  | _ => none

/-- What follows blanks, line breaks and comments; `inComment` says that a comment is being
passed over. -/
def skipFiller (inComment : Bool) : List Char → List Char
  | [] => []
  | '\r' :: '\n' :: rest => skipFiller false rest
  | c :: rest =>
    if inComment && isPlainChar c then skipFiller true rest
    else if c == '#' then skipFiller true rest
    else if isLineBlank c || c == '\n' then skipFiller false rest
    else c :: rest

/-! ### Values -/

/-- Reads a value of some kind and tells what follows. -/
abbrev ValueReader := List Char → Option (Toml × List Char)

/-- A character of a number, a truth value, a date or a time. -/
def isScalarChar (c : Char) : Bool :=
  c.isAlphanum || c == '+' || c == '-' || c == '_' || c == '.' || c == ':'

/-- Reads the time after a date and a space, if there is one. -/
def readDayTime? (date rest : List Char) : Option (List Char × List Char) :=
  match rest with
  | ' ' :: time =>
    let found := time.span isScalarChar
    if found.1.isEmpty then none
    else some (date ++ ' ' :: found.1, found.2)
  | _ => none

/-- Reads a number, a truth value, a date or a time. -/
def readScalar? (text : List Char) : Option (Toml × List Char) :=
  let found := text.span isScalarChar
  match if isDate found.1 then readDayTime? found.1 found.2 else none with
  | some (both, rest) =>
    if isTimeWithOffset (both.drop (found.1.length + 1)) then some (.dateTime both, rest)
    else none
  | none => (Toml.ofWord? found.1).map fun value => (value, found.2)

/-- Reads the items of an array after its bracket; `items` are the ones before, in reverse.  A
comma may follow the last item.  Every round reads at least one character. -/
def readItems? (value : ValueReader) : (fuel : Nat) → List Toml → ValueReader
  | 0, _, _ => none
  | fuel + 1, items, text =>
    match skipFiller false text with
    | ']' :: rest => some (.array items.reverse, rest)
    | text => do
      let (item, rest) ← value text
      match skipFiller false rest with
      | ']' :: rest => some (.array (item :: items).reverse, rest)
      | ',' :: rest => readItems? value fuel (item :: items) rest
      | _ => none

/-- Splits a key into the parts before the last, and the last. -/
def splitKey? (key : List (List Char)) : Option (List (List Char) × List Char) :=
  key.getLast?.map fun last => (key.dropLast, last)

/-- Reads the entries of a table in braces; a key is expected.  Every round reads at least one
character. -/
def readMembers? (value : ValueReader) : (fuel : Nat) → TomlEntries → ValueReader
  | 0, _, _ => none
  | fuel + 1, entries, text => do
    let (key, rest) ← readKey? text
    let (path, last) ← splitKey? key
    match rest with
    | '=' :: rest =>
      let (item, rest) ← value (rest.dropWhile isLineBlank)
      let entries ← insertDotted? false .braces path last item entries
      match rest.dropWhile isLineBlank with
      | '\x7d' :: rest => some (.table .braces entries, rest)
      | ',' :: rest => readMembers? value fuel entries rest
      | _ => none
    | _ => none

/-- Reads a value; `depth` arrays and tables may nest in it. -/
def readValue? : (depth : Nat) → ValueReader
  | _, '"' :: rest => (readQuoted? ('"' :: rest)).map fun found => (.string found.1, found.2)
  | _, '\'' :: rest => (readQuoted? ('\'' :: rest)).map fun found => (.string found.1, found.2)
  | depth + 1, '[' :: rest => readItems? (readValue? depth) (rest.length + 1) [] rest
  | depth + 1, '\x7b' :: rest =>
    match rest.dropWhile isLineBlank with
    | '\x7d' :: rest => some (.table .braces [], rest)
    | rest => readMembers? (readValue? depth) (rest.length + 1) [] rest
  | _, text => readScalar? text

/-! ### Documents -/

/-- What has been read of a document. -/
structure TomlDocument where
  /-- The entries of the whole document. -/
  entries : TomlEntries
  /-- The keys of the header that is in force; none at the start. -/
  header : List (List Char)

/-- A document with one more key and value under the header in force. -/
def TomlDocument.define? (document : TomlDocument) (key : List (List Char)) (value : Toml) :
    Option TomlDocument := do
  let (path, last) ← splitKey? key
  let entries ← updateAt? (insertDotted? false .header path last value) document.header
    document.entries
  return { document with entries }

/-- A document with a table opened by a header. -/
def TomlDocument.open? (document : TomlDocument)
    (opening : List Char → TomlEntries → Option TomlEntries) (key : List (List Char)) :
    Option TomlDocument := do
  let (path, last) ← splitKey? key
  let entries ← updateAt? (opening last) path document.entries
  return ⟨entries, key⟩

/-- Reads a header of a table after its bracket. -/
def TomlDocument.header? (document : TomlDocument) (text : List Char) :
    Option (TomlDocument × List Char) := do
  match (← readKey? text) with
  | (key, ']' :: rest) => return (← document.open? defineTable? key, ← afterLine? rest)
  | _ => none

/-- Reads a header of repeated tables after its two brackets. -/
def TomlDocument.doubleHeader? (document : TomlDocument) (text : List Char) :
    Option (TomlDocument × List Char) := do
  match (← readKey? text) with
  | (key, ']' :: ']' :: rest) => return (← document.open? appendTable? key, ← afterLine? rest)
  | _ => none

/-- Reads a key and its value. -/
def TomlDocument.pair? (document : TomlDocument) (text : List Char) :
    Option (TomlDocument × List Char) := do
  match (← readKey? text) with
  | (key, '=' :: rest) => do
    let (value, rest) ← readValue? (nestingLimit - 1) (rest.dropWhile isLineBlank)
    return (← document.define? key value, ← afterLine? rest)
  | _ => none

/-- Reads a line that is not blank. -/
def TomlDocument.line? (document : TomlDocument) : List Char → Option (TomlDocument × List Char)
  | '[' :: '[' :: rest => document.doubleHeader? rest
  | '[' :: rest => document.header? rest
  | text => document.pair? text

/-- Reads lines to the end of the text.  Every round reads at least one character. -/
def TomlDocument.read? : (fuel : Nat) → TomlDocument → List Char → Option TomlDocument
  | fuel, document, text =>
    match fuel, text.dropWhile isLineBlank with
    | _, [] => some document
    | 0, _ :: _ => none
    | fuel + 1, text =>
      if text.head? == some '#' || text.head? == some '\n' || text.head? == some '\r' then
        match afterLine? text with
        | some rest => TomlDocument.read? fuel document rest
        | none => none
      else match document.line? text with
        | some (document, rest) => TomlDocument.read? fuel document rest
        | none => none

/-- A text without the byte order mark at its start. -/
def withoutByteOrderMark : List Char → List Char
  | '\uFEFF' :: rest => rest
  | text => text

/-- The entries of a document. -/
def tomlOfText? (text : List Char) : Option TomlEntries :=
  let text := withoutByteOrderMark text
  (TomlDocument.read? text.length ⟨[], []⟩ text).map TomlDocument.entries

end SchemaReader
