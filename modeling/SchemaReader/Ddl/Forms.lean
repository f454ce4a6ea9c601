/-
The written forms of data definition statements, as patterns.

* `identifier`: plain, quoted or bracketed, with or without a qualifier;
* `createTableHead`, `createIndexHead`, `addForeignKeyForm`: statements, up to the parenthesis
  that opens their list or to their end;
* `foreignKeyForm`, `primaryKeyForm`, `uniqueForm`, `indexForm`: the constraints of a table;
* `columnForm`, `referencesForm` and the options of a column.
-/
import SchemaReader.Pattern.Words

namespace SchemaReader.Ddl

open SchemaReader.Pattern (blanks someBlanks word keyword keywordBefore inParens many1 opt char)

/-! ### Identifiers -/

/-- A character of a plain identifier. -/
def isNameChar (c : Char) : Bool :=
  Text.isWordChar c || c == '$'

/-- A text between two quotes of one kind, at least one character long. -/
def quoted (quote : Char) : Pattern :=
  char quote ++ many1 (· != quote) ++ char quote

/-- One part of an identifier: plain, between double quotes or backquotes, or in square
brackets. -/
def namePart : Pattern :=
  many1 isNameChar ||| quoted '"' ||| quoted (Char.ofNat 0x60) |||
    (char '[' ++ many1 (· != ']') ++ char ']')

/-- An identifier, qualified by at most one other part. -/
def identifier : Pattern :=
  namePart ++ opt (blanks ++ char '.' ++ blanks ++ namePart)

/-! ### Statements -/

/-- The words that make a creation conditional. -/
def ifNotExists : Pattern :=
  keywordBefore "IF" ++ keywordBefore "NOT" ++ keywordBefore "EXISTS"

/-- A created table up to the opening parenthesis; group 1 is its name. -/
def createTableHead : Pattern :=
  .wordEdge ++ keywordBefore "CREATE" ++
    opt ((keyword "GLOBAL" ||| keyword "LOCAL") ++ someBlanks) ++
    opt ((keyword "TEMPORARY" ||| keyword "TEMP" ||| keyword "UNLOGGED") ++ someBlanks) ++
    keywordBefore "TABLE" ++ opt ifNotExists ++ .group 1 identifier ++ blanks ++ char '('

/-- The access method of an index. -/
def usingMethod : Pattern := keywordBefore "USING" ++ word

/-- A created index up to the opening parenthesis; group 1 is there for a unique index, group 2
is its name and group 3 its table. -/
def createIndexHead : Pattern :=
  .wordEdge ++ keywordBefore "CREATE" ++ opt (.group 1 (keywordBefore "UNIQUE")) ++
    keywordBefore "INDEX" ++ opt (keywordBefore "CONCURRENTLY") ++ opt ifNotExists ++
    opt (.group 2 identifier ++ someBlanks) ++ keywordBefore "ON" ++
    opt (keywordBefore "ONLY") ++ .group 3 identifier ++ blanks ++
    opt (usingMethod ++ blanks) ++ char '('

/-- The name that a constraint may have in front. -/
def constraintName : Pattern := keywordBefore "CONSTRAINT" ++ identifier ++ someBlanks

/-- What a foreign key points at: the group `n` is the table and the group `n + 1` the list of
its columns, if there is one. -/
def referencesForm (n : Nat) : Pattern :=
  keywordBefore "REFERENCES" ++ .group n identifier ++ blanks ++ opt (inParens (n + 1))

/-- The columns of a foreign key, group `n`, and what they point at, groups `n + 1` and
`n + 2`. -/
def foreignKeyBody (n : Nat) : Pattern :=
  keywordBefore "FOREIGN" ++ keyword "KEY" ++ blanks ++ inParens n ++ blanks ++
    referencesForm (n + 1)

/-- A foreign key added to a table; group 1 is the table. -/
def addForeignKeyForm : Pattern :=
  .wordEdge ++ keywordBefore "ALTER" ++ keywordBefore "TABLE" ++ opt (keywordBefore "ONLY") ++
    opt (keywordBefore "IF" ++ keywordBefore "EXISTS") ++ .group 1 identifier ++ someBlanks ++
    keywordBefore "ADD" ++ opt constraintName ++ foreignKeyBody 2

/-! ### Constraints of a table -/

/-- A foreign key; group 1 lists its columns, group 2 is the other table and group 3 lists its
columns. -/
def foreignKeyForm : Pattern :=
  .textStart ++ opt constraintName ++ foreignKeyBody 1

/-- A primary key; group 1 lists its columns. -/
def primaryKeyForm : Pattern :=
  .textStart ++ opt constraintName ++ keywordBefore "PRIMARY" ++ keyword "KEY" ++ blanks ++
    inParens 1

/-- A uniqueness constraint; group 1 is the constraint's name, group 2 the index's name and
group 3 lists the columns. -/
def uniqueForm : Pattern :=
  .textStart ++ opt (keywordBefore "CONSTRAINT" ++ .group 1 identifier ++ someBlanks) ++
    keyword "UNIQUE" ++ opt (someBlanks ++ (keyword "KEY" ||| keyword "INDEX")) ++
    opt (someBlanks ++ .group 2 identifier) ++ blanks ++ inParens 3

/-- An index; group 1 is its name and group 2 lists the columns. -/
def indexForm : Pattern :=
  .textStart ++ (keyword "INDEX" ||| keyword "KEY") ++ opt (someBlanks ++ .group 1 identifier) ++
    blanks ++ opt (usingMethod ++ blanks) ++ inParens 2

/-- A plain first word and, as group 1, the word after it. -/
def secondWordForm : Pattern :=
  .textStart ++ many1 isNameChar ++ someBlanks ++ .group 1 word

/-! ### Columns -/

/-- The words of a type that has two of them, or the one word of any other type. -/
def typeWords : Pattern :=
  (keywordBefore "DOUBLE" ++ keyword "PRECISION") |||
    (keywordBefore "CHARACTER" ++ keyword "VARYING") ||| word

/-- A type: its words, its arguments, its time zone and its array bounds. -/
def typeForm : Pattern :=
  typeWords ++ opt (blanks ++ char '(' ++ .many (· != ')') ++ char ')') ++
    opt (someBlanks ++ keyword "WITH" ++ opt (keyword "OUT") ++ someBlanks ++
      keywordBefore "TIME" ++ keyword "ZONE") ++
    .star (blanks ++ char '[' ++ blanks ++ .many Text.isDigit ++ blanks ++ char ']')

/-- The name of a column, group 1, and its type, group 2. -/
def columnForm : Pattern :=
  .textStart ++ .group 1 identifier ++ someBlanks ++ .group 2 typeForm

/-- The foreign key of a column; group 1 is the other table and group 2 lists its columns. -/
def inlineReferencesForm : Pattern := .wordEdge ++ referencesForm 1

/-- The option that forbids nulls. -/
def notNullForm : Pattern :=
  .wordEdge ++ keywordBefore "NOT" ++ keyword "NULL" ++ .wordEdge

/-- The option that makes a column the primary key. -/
def inlinePrimaryKeyForm : Pattern :=
  .wordEdge ++ keywordBefore "PRIMARY" ++ keyword "KEY" ++ .wordEdge

/-- The option that makes a column unique. -/
def inlineUniqueForm : Pattern := .wordEdge ++ keyword "UNIQUE" ++ .wordEdge

end SchemaReader.Ddl
