/-
Patterns of text, matched by trying the preferred reading first.

* `Cursor`: a place in a text, with what stands before and after it;
* `Pattern`: what a piece of text may look like;
* `Pattern.run`: matching from a cursor on, in continuation style.  A choice prefers its left
  side, a repetition prefers to go on, and an earlier decision is only taken back when all that
  follows has failed;
* `Pattern.matchAt?`: the preferred match at a cursor, as a `Match`.
-/
import SchemaReader.Text.Blank
import SchemaReader.Text.WordChar

namespace SchemaReader

/-! ### Places in a text -/

/-- A place in a text. -/
structure Cursor where
  /-- What stands before the place, nearest character first. -/
  before : List Char
  /-- What stands after the place. -/
  after : List Char
  /-- How many characters stand before the place. -/
  offset : Nat
  deriving DecidableEq, Repr

/-- The start of a text. -/
def Cursor.start (text : List Char) : Cursor := ⟨[], text, 0⟩

/-- The place one character further on, for a place before the character `c` and the text
`rest`. -/
def Cursor.advance (s : Cursor) (c : Char) (rest : List Char) : Cursor :=
  ⟨c :: s.before, rest, s.offset + 1⟩

/-- The place one character further back; the start of a text stays where it is. -/
def Cursor.back (s : Cursor) : Cursor :=
  match s.before with
  | [] => s
  | c :: before => ⟨before, c :: s.after, s.offset - 1⟩

/-- The loop of `Cursor.skipWhile`. -/
def skipWhileLoop (p : Char → Bool) (before : List Char) (offset : Nat) : List Char → Cursor
  | [] => ⟨before, [], offset⟩
  | c :: rest =>
    if p c then skipWhileLoop p (c :: before) (offset + 1) rest else ⟨before, c :: rest, offset⟩

/-- The first place from a cursor on where no character of a class follows. -/
def Cursor.skipWhile (p : Char → Bool) (s : Cursor) : Cursor :=
  skipWhileLoop p s.before s.offset s.after

/-- The text between two places. -/
def Cursor.textTo (s t : Cursor) : List Char :=
  s.after.take (t.offset - s.offset)

/-- Whether a word begins or ends at a place: exactly one of its neighbours is a word
character. -/
def Cursor.atWordEdge (s : Cursor) : Bool :=
  s.before.head?.any Text.isWordChar != s.after.head?.any Text.isWordChar

/-- Whether a line begins at a place: at the start of the text or after a line feed. -/
def Cursor.atLineStart (s : Cursor) : Bool :=
  s.before.head?.all (· == '\n')

/-! ### Patterns -/

/-- What a piece of text may look like. -/
inductive Pattern where
  /-- Nothing at all. -/
  | empty
  /-- One character of a class. -/
  | one (p : Char → Bool)
  /-- Characters of a class, any number of them. -/
  | many (p : Char → Bool)
  /-- One pattern after another. -/
  | seq (a b : Pattern)
  /-- One of two patterns, the first if it can be. -/
  | alt (a b : Pattern)
  /-- A pattern any number of times, as often as it can be. -/
  | star (a : Pattern)
  /-- A pattern whose text is remembered under a number. -/
  | group (n : Nat) (a : Pattern)
  /-- Nothing, at the beginning or end of a word. -/
  | wordEdge
  /-- Nothing, at the beginning of a line. -/
  | lineStart
  /-- Nothing, at the beginning of the text. -/
  | textStart
  /-- Nothing, at the end of the text. -/
  | textEnd

instance : Append Pattern := ⟨Pattern.seq⟩
instance : OrOp Pattern := ⟨Pattern.alt⟩

/-- A pattern or nothing, the pattern if it can be. -/
def Pattern.opt (a : Pattern) : Pattern := .alt a .empty

/-- Characters of a class, at least one. -/
def Pattern.many1 (p : Char → Bool) : Pattern := .one p ++ .many p

/-- One given character. -/
def Pattern.char (c : Char) : Pattern := .one (· == c)

/-- The given characters one after the other. -/
def Pattern.text : List Char → Pattern
  | [] => .empty
  | [c] => .char c
  | c :: rest => .char c ++ .text rest

/-- A given text. -/
def Pattern.lit (text : String) : Pattern := .text text.toList

/-! ### Matching -/

/-- The texts that groups remember, newest first. -/
abbrev Captures := List (Nat × List Char)

/-- What is tried after a pattern has matched. -/
abbrev Continuation (α : Type) := Cursor → Captures → Option α

/-- Tries a continuation at a place and at up to `count` places before it, the last one
first. -/
def giveBack {α : Type} (k : Cursor → Option α) : (count : Nat) → Cursor → Option α
  | 0, s => k s
  | count + 1, s => match k s with
    | some r => some r
    | none => giveBack k count s.back

/-- Tries to go on with a repetition, at most `fuel` times, and otherwise its continuation.  A
round that reads nothing is not allowed. -/
def repeatBody {α : Type} (body : Continuation α → Continuation α) (k : Continuation α) :
    (fuel : Nat) → Continuation α
  | 0, s, m => k s m
  | fuel + 1, s, m =>
    match body (fun t m' => if t.offset = s.offset then none else repeatBody body k fuel t m')
        s m with
    | some r => some r
    | none => k s m

/-- Matches a pattern from a cursor on and then tries the continuation; the first success in the
order of preference counts. -/
def Pattern.run {α : Type} : Pattern → Continuation α → Continuation α
  | .empty, k, s, m => k s m
  | .one p, k, s, m => match s.after with
    | [] => none
    | c :: rest => if p c then k (s.advance c rest) m else none
  | .many p, k, s, m =>
    let longest := s.skipWhile p
    giveBack (fun t => k t m) (longest.offset - s.offset) longest
  | .seq a b, k, s, m => a.run (fun t m' => b.run k t m') s m
  | .alt a b, k, s, m => match a.run k s m with
    | some r => some r
    | none => b.run k s m
  | .star a, k, s, m => repeatBody (fun k' t m' => a.run k' t m') k s.after.length s m
  | .group n a, k, s, m => a.run (fun t m' => k t ((n, s.textTo t) :: m')) s m
  | .wordEdge, k, s, m => if s.atWordEdge then k s m else none
  | .lineStart, k, s, m => if s.atLineStart then k s m else none
  | .textStart, k, s, m => if s.before.isEmpty then k s m else none
  | .textEnd, k, s, m => if s.after.isEmpty then k s m else none

/-- A match of a pattern. -/
structure Match where
  /-- Where it begins. -/
  start : Cursor
  /-- Where it ends. -/
  stop : Cursor
  /-- What its groups remember. -/
  captures : Captures
  deriving DecidableEq, Repr

/-- The text of a group, if the group took part in the match. -/
def Match.group? (found : Match) (n : Nat) : Option (List Char) :=
  found.captures.lookup n

/-- The text of a group, empty if the group took no part. -/
def Match.group (found : Match) (n : Nat) : List Char :=
  (found.group? n).getD []

/-- The preferred match of a pattern at a cursor. -/
def Pattern.matchAt? (p : Pattern) (s : Cursor) : Option Match :=
  p.run (fun t m => some ⟨s, t, m⟩) s []

end SchemaReader
