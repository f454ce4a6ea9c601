/-
Table calls of a table module.

* `stringLiteral?`: the content of a string literal;
* `columnNames`: the columns that a list of references such as `t.email` names;
* `ColumnEntry`: an entry of a column object, with `ColumnEntry.ofText`;
* `IndexCall`: a call of the callback that follows the columns; `indexCalls` and `keyCalls`
  find them;
* `TableCall`: a declared table; `TableCall.ofMatch` reads one.
-/
import SchemaReader.Lexical.TopLevel
import SchemaReader.Pattern.Words
import SchemaReader.Schema.Basic
import SchemaReader.Text.Segments

namespace SchemaReader.TableModule

open SchemaReader.Pattern (blanks someBlanks word lit inSquares opt char many1)

/-! ### Literals and lists -/

/-- The content of a text that begins and ends with the same quote. -/
def stringLiteral? (text : List Char) : Option (List Char) :=
  match Text.trim text with
  | [] => none
  | c :: rest =>
    if isQuote c && rest.getLast? == some c then some rest.dropLast else none

/-- The column that a reference names: its second part, or its only one, without quotes. -/
def columnName? (reference : List Char) : Option String :=
  let path := Text.firstSegment (fun c => Text.isBlank c || c == '(') reference
  let parts := (Text.segments (· == '.') path).map (Text.trimWhere isQuote)
  match parts with
  | _ :: name :: _ => if name.isEmpty then none else some (String.ofList name)
  | [name] => if name.isEmpty then none else some (String.ofList name)
  | [] => none

/-- A trimmed text without the square brackets around it, if it has both. -/
def withoutSquares (text : List Char) : List Char :=
  match text with
  | '[' :: rest => if rest.getLast? == some ']' then rest.dropLast else text
  | _ => text

/-- The columns that a list of references names. -/
def columnNames (text : List Char) : List String :=
  (splitTopLevel .code ',' (withoutSquares (Text.trim text))).filterMap columnName?

/-- What stands between the parenthesis that a match ends with and its partner. -/
def argumentsAfter? (found : Match) : Option (List Char) :=
  (enclosed? .code found.stop.after).map (·.1)

/-- A named argument that is a list, group 1. -/
def listArgument (name : String) : Pattern :=
  .wordEdge ++ lit name ++ blanks ++ char ':' ++ blanks ++ inSquares 1

/-! ### Columns -/

/-- A column of a column object. -/
structure ColumnEntry where
  name : String
  /-- The function that makes the column. -/
  type : String
  nullable : Bool
  primaryKey : Bool
  unique : Bool
  /-- The variable and the key that the column points at. -/
  references : Option (String × String)
  deriving DecidableEq, Repr

/-- What an entry of a column object is. -/
inductive Entry where
  | column (column : ColumnEntry)
  /-- A column whose call is never closed. -/
  | unterminated
  | unrecognized
  deriving DecidableEq, Repr

/-- A single or double quote, or none. -/
def keyQuote : Pattern := opt (.one fun c => c == '\'' || c == '"')

/-- A column up to the parenthesis of its function; group 1 is the key, group 2 the function. -/
def columnHead : Pattern :=
  .textStart ++ keyQuote ++ .group 1 word ++ keyQuote ++ blanks ++ char ':' ++ blanks ++
    .group 2 word ++ blanks ++ char '('

/-- The call of a method in a chain. -/
def methodCall (name : String) : Pattern := lit name ++ blanks ++ char '('

/-- A reference in a chain: a function without arguments that gives a key, group 2, of a
variable, group 1. -/
def referencesCall : Pattern :=
  methodCall ".references" ++ blanks ++ char '(' ++ blanks ++ char ')' ++ blanks ++
    opt (char ':' ++ blanks ++
      many1 (fun c => Text.isWordChar c || c == '<' || c == '>' || c == '[' || c == ']') ++
      blanks) ++
    lit "=>" ++ blanks ++ .group 1 word ++ char '.' ++ .group 2 word

/-- The column with a given head and chain of calls. -/
def ColumnEntry.ofChain (head : Match) (chain : List Char) : ColumnEntry := {
  name := String.ofList (head.group 1)
  type := String.ofList (head.group 2)
  nullable := !(methodCall ".notNull").occursIn chain
  primaryKey := (methodCall ".primaryKey").occursIn chain
  unique := (methodCall ".unique").occursIn chain
  references := (referencesCall.find? chain).map fun found =>
    (String.ofList (found.group 1), String.ofList (found.group 2)) }

/-- Reads an entry of a column object. -/
def Entry.ofText (text : List Char) : Entry :=
  match columnHead.find? text with
  | none => .unrecognized
  | some head => match enclosed? .code head.stop.after with
    | none => .unterminated
    | some inner => .column (.ofChain head inner.2)

/-! ### The callback -/

/-- An index that a callback declares. -/
structure IndexCall where
  name : Option String
  columns : List String
  unique : Bool
  deriving DecidableEq, Repr

/-- A character that is no quote. -/
def notQuote (c : Char) : Bool := !isQuote c

/-- An index up to the parenthesis of its columns; group 1 is the function, group 2 the name. -/
def indexHead : Pattern :=
  .wordEdge ++ .group 1 (lit "uniqueIndex" ||| lit "index" ||| lit "unique") ++ blanks ++
    char '(' ++ blanks ++ opt (.one isQuote ++ .group 2 (.many notQuote) ++ .one isQuote) ++
    blanks ++ char ')' ++ blanks ++ lit ".on" ++ blanks ++ char '('

/-- The index of a match of `indexHead`; one without columns is none. -/
def IndexCall.ofMatch? (found : Match) : Option IndexCall :=
  (argumentsAfter? found).bind fun arguments =>
    let columns := columnNames arguments
    if columns.isEmpty then none
    else some {
      name := ((found.group? 2).filter fun name => !name.isEmpty).map String.ofList
      columns
      unique := found.group 1 != ['i', 'n', 'd', 'e', 'x'] }

/-- The indexes that a callback declares. -/
def indexCalls (callback : List Char) : List IndexCall :=
  (indexHead.findAll callback).filterMap IndexCall.ofMatch?

/-- A composite key up to its parenthesis. -/
def keyHead : Pattern := .wordEdge ++ lit "primaryKey" ++ blanks ++ char '('

/-- The columns of a composite key: those of its argument `columns`, or else its arguments. -/
def keyColumns (arguments : List Char) : List String :=
  match (listArgument "columns").find? arguments with
  | some found => columnNames (found.group 1)
  | none => columnNames arguments

/-- The composite keys that a callback declares. -/
def keyCalls (callback : List Char) : List (List String) :=
  (keyHead.findAll callback).filterMap fun found => (argumentsAfter? found).map keyColumns

/-- What a callback declares. -/
structure Callback where
  indexes : List IndexCall
  keys : List (List String)
  deriving DecidableEq, Repr

/-- Reads a callback. -/
def Callback.ofText (text : List Char) : Callback := ⟨indexCalls text, keyCalls text⟩

/-! ### Table calls -/

/-- A declared table. -/
structure TableCall where
  /-- The variable. -/
  binding : String
  name : String
  entries : List Entry
  /-- The arguments after the columns. -/
  callbacks : List Callback
  deriving DecidableEq, Repr

/-- Why a table call declares no table. -/
inductive TableCallFault where
  | unterminated
  | unnamed
  | withoutColumns
  deriving DecidableEq, Repr

/-- A declared table up to the parenthesis of its arguments; group 1 is the variable. -/
def tableHead : Pattern :=
  opt (lit "export" ++ someBlanks) ++ lit "const" ++ someBlanks ++ .group 1 word ++ blanks ++
    char '=' ++ blanks ++ (lit "pgTable" ||| lit "mysqlTable" ||| lit "sqliteTable") ++ blanks ++
    char '('

/-- The entries of a column object; an object that is never closed has none. -/
def entriesOf (object : List Char) : List Entry :=
  (splitTopLevel .code ',' ((bracketBody? .code object).getD [])).map .ofText

/-- Reads the arguments of a table call. -/
def TableCall.ofArguments (binding : String) (arguments : List (List Char)) :
    Except TableCallFault TableCall :=
  match arguments.head?.bind stringLiteral? with
  | none => .error .unnamed
  | some name => match arguments.tail with
    | ('\x7b' :: object) :: callbacks => .ok {
        binding
        name := String.ofList name
        entries := entriesOf ('\x7b' :: object)
        callbacks := callbacks.map .ofText }
    | _ => .error .withoutColumns

/-- The table call of a match of `tableHead`. -/
def TableCall.ofMatch (found : Match) : Except TableCallFault TableCall :=
  match argumentsAfter? found with
  | none => .error .unterminated
  | some arguments =>
    TableCall.ofArguments (String.ofList (found.group 1)) (splitTopLevel .code ',' arguments)

end SchemaReader.TableModule
