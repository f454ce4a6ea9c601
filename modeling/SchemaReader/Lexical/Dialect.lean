/-
How a source format writes comments and string literals.

* `Dialect`: the line comment, whether there are block comments, whether a backslash escapes;
* `Dialect.code`, `Dialect.script`: the dialect of model files and table modules, and the one of
  data definition scripts;
* `Literal`: where a reading from left to right stands with respect to string literals, with
  `Literal.covers` (whether a character belongs to a literal) and `Literal.step`.
-/

namespace SchemaReader

/-- The rules of a source format for comments and string literals. -/
structure Dialect where
  /-- What opens a comment that runs to the end of the line. -/
  lineComment : List Char
  /-- Whether a slash and an asterisk open a comment. -/
  blockComment : Bool
  /-- Whether a backslash inside a literal takes the next character's meaning away.  Where it
  does not, a quote inside a literal is written twice, which reads as one literal after another. -/
  backslashEscapes : Bool
  deriving DecidableEq, Repr

/-- Two slashes and block comments; backslashes escape. -/
def Dialect.code : Dialect := ⟨['/', '/'], true, true⟩

/-- Two dashes and block comments; a backslash is a character like any other. -/
def Dialect.script : Dialect := ⟨['-', '-'], true, false⟩

/-- The three quotes; each opens a literal that only itself closes. -/
def isQuote (c : Char) : Bool :=
  c == '"' || c == '\'' || c == '`'

/-- Where a reading from left to right stands. -/
inductive Literal where
  /-- Outside every literal. -/
  | outside
  /-- Inside a literal opened by `quote`; `escaped` if the character before took the meaning of
  the next one away. -/
  | inside (quote : Char) (escaped : Bool)
  deriving DecidableEq, Repr

/-- Whether the character read next belongs to a literal, its quotes included. -/
def Literal.covers : Literal → Char → Bool
  | .outside, c => isQuote c
  | .inside _ _, _ => true

/-- Where the reading stands after one more character. -/
def Literal.step (dialect : Dialect) : Literal → Char → Literal
  | .outside, c => if isQuote c then .inside c false else .outside
  | .inside quote true, _ => .inside quote false
  | .inside quote false, c =>
    if dialect.backslashEscapes && c == '\\' then .inside quote true
    else if c == quote then .outside
    else .inside quote false

end SchemaReader
