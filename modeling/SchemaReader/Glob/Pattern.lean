/-
Wildcard patterns for paths.

* `GlobToken`: one sign of a pattern;
* `GlobFault`: why a text is no pattern, and where;
* `globTokens`: the signs of a text;
* `matchesGlob`: whether a name fits the signs;
* `escapeGlob`: the pattern that only one name fits.
-/

namespace SchemaReader

/-! ### Signs -/

/-- A member of a class of characters. -/
inductive ClassMember where
  | single (c : Char)
  /-- All characters from one to another. -/
  | range (low high : Char)
  deriving DecidableEq, Repr

/-- Whether a character is a member. -/
def ClassMember.covers (c : Char) : ClassMember → Bool
  | .single d => c == d
  | .range low high => low ≤ c && c ≤ high

/-- One sign of a pattern. -/
inductive GlobToken where
  /-- A character that stands for itself. -/
  | char (c : Char)
  /-- Any character. -/
  | anyChar
  /-- Any characters, of any number. -/
  | anyChars
  /-- Directories nested in each other, of any number. -/
  | anyDirectories
  /-- A character of a class, or one outside it. -/
  | oneOf (inside : Bool) (members : List ClassMember)
  deriving DecidableEq, Repr

/-- What is wrong with a text that is no pattern. -/
inductive GlobFaultKind where
  /-- More than two asterisks in a row. -/
  | wildcards
  /-- Two asterisks beside something else. -/
  | recursiveWildcards
  /-- A class that is not closed. -/
  | range
  deriving DecidableEq, Repr

/-- Why a text is no pattern, and at which character. -/
structure GlobFault where
  kind : GlobFaultKind
  position : Nat
  deriving DecidableEq, Repr

/-- What is said about a fault. -/
def GlobFaultKind.message : GlobFaultKind → String
  | .wildcards => "wildcards are either regular `*` or recursive `**`"
  | .recursiveWildcards => "recursive wildcards must form a single path component"
  | .range => "invalid range pattern"

/-- What is said about a fault and its place. -/
def GlobFault.message (fault : GlobFault) : String :=
  "Pattern syntax error near position " ++ toString fault.position ++ ": " ++ fault.kind.message

/-! ### Reading patterns -/

/-- The members that the characters of a class name. -/
def classMembers : List Char → List ClassMember
  | low :: '-' :: high :: rest => .range low high :: classMembers rest
  | c :: rest => .single c :: classMembers rest
  | [] => []

/-- Reads a class after its opening bracket: whether it is meant as it stands, its characters, and
what follows.  The first character is a member even if it closes brackets. -/
def readClass? (text : List Char) : Option (GlobToken × List Char) :=
  let found (inside : Bool) (first : Char) (rest : List Char) :=
    match rest.span (· != ']') with
    | (_, []) => none
    | (others, _ :: rest) => some (.oneOf inside (classMembers (first :: others)), rest)
  match text with
  | '!' :: first :: rest => found false first rest
  | '!' :: [] => none
  | first :: rest => found true first rest
  | [] => none

/-- The loop of `globTokens`: `position` characters have been read, `afterSlash` says whether a
part of the path begins here, and `tokens` are the signs so far in reverse.  Every round reads at
least one character. -/
def globLoop (tokens : List GlobToken) (afterSlash : Bool) (position : Nat) :
    (fuel : Nat) → List Char → Except GlobFault (List GlobToken)
  | _, [] => .ok tokens.reverse
  | 0, _ :: _ => .ok tokens.reverse
  | _ + 1, '*' :: '*' :: '*' :: _ => .error ⟨.wildcards, position + 2⟩
  | fuel + 1, '*' :: '*' :: rest =>
    if !afterSlash then .error ⟨.recursiveWildcards, position - 1⟩
    else match rest with
      | [] => .ok (.anyDirectories :: tokens).reverse
      | '/' :: rest => globLoop (.anyDirectories :: tokens) true (position + 3) fuel rest
      | _ :: _ => .error ⟨.recursiveWildcards, position + 2⟩
  | fuel + 1, '*' :: rest => globLoop (.anyChars :: tokens) false (position + 1) fuel rest
  | fuel + 1, '?' :: rest => globLoop (.anyChar :: tokens) false (position + 1) fuel rest
  | fuel + 1, '[' :: rest => match readClass? rest with
    | some (token, after) =>
      globLoop (token :: tokens) false (position + 1 + (rest.length - after.length)) fuel after
    | none => .error ⟨.range, position⟩
  | fuel + 1, c :: rest => globLoop (.char c :: tokens) (c == '/') (position + 1) fuel rest

/-- The signs of a text, if it is a pattern. -/
def globTokens (text : List Char) : Except GlobFault (List GlobToken) :=
  globLoop [] true 0 text.length text

/-- The pattern that fits one name only: every sign that means something is put in a class. -/
def escapeGlob (name : List Char) : List Char :=
  name.flatMap fun c => if ['?', '*', '[', ']'].contains c then ['[', c, ']'] else [c]

/-! ### Fitting names -/

/-- Whether a test holds of some end of a list. -/
def anySuffix (test : List Char → Bool) : List Char → Bool
  | [] => test []
  | c :: rest => test (c :: rest) || anySuffix test rest

/-- Whether a name fits the signs of a pattern. -/
def matchesGlob : List GlobToken → List Char → Bool
  | [], name => name.isEmpty
  | .anyChars :: tokens, name => anySuffix (matchesGlob tokens) name
  | .anyDirectories :: tokens, name => anySuffix (matchesGlob tokens) name
  | _ :: _, [] => false
  | .char d :: tokens, c :: rest => c == d && matchesGlob tokens rest
  | .anyChar :: tokens, _ :: rest => matchesGlob tokens rest
  | .oneOf inside members :: tokens, c :: rest =>
    (members.any (ClassMember.covers c) == inside) && matchesGlob tokens rest

end SchemaReader
