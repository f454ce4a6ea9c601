/-
Patterns that the source formats share.

* `Pattern.blanks`, `Pattern.someBlanks`: white space;
* `Pattern.word`: one or more word characters;
* `Pattern.keyword`: a word in letters of any case;
* `Pattern.inParens`, `Pattern.inSquares`: a text in brackets up to the first closing one.
-/
import SchemaReader.Pattern.Search
import SchemaReader.Text.LetterCase

namespace SchemaReader

/-- White space, if there is any. -/
def Pattern.blanks : Pattern := .many Text.isBlank

/-- White space, at least one character. -/
def Pattern.someBlanks : Pattern := .many1 Text.isBlank

/-- One or more word characters. -/
def Pattern.word : Pattern := .many1 Text.isWordChar

/-- A word, given in capitals, in letters of any case. -/
def Pattern.keywordText : List Char → Pattern
  | [] => .empty
  | [c] => .one (Text.isLetter c)
  | c :: rest => .one (Text.isLetter c) ++ .keywordText rest

/-- A word, given in capitals, in letters of any case. -/
def Pattern.keyword (word : String) : Pattern := .keywordText word.toList

/-- A keyword and the white space after it. -/
def Pattern.keywordBefore (word : String) : Pattern := .keyword word ++ .someBlanks

/-- A text in parentheses that holds no closing parenthesis, remembered under a number. -/
def Pattern.inParens (n : Nat) : Pattern :=
  .char '(' ++ .group n (.many (· != ')')) ++ .char ')'

/-- A text in square brackets that holds no closing bracket, remembered with the brackets. -/
def Pattern.inSquares (n : Nat) : Pattern :=
  .group n (.char '[' ++ .many (· != ']') ++ .char ']')

end SchemaReader
