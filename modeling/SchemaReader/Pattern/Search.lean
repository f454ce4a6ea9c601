/-
Looking for a pattern in a text.

* `Pattern.findFrom?`, `Pattern.find?`: the first place where a pattern matches, with the
  preferred match there;
* `Pattern.occursIn`: whether there is one;
* `Pattern.findAll`: all matches from left to right that do not overlap.
-/
import SchemaReader.Pattern.Basic

namespace SchemaReader

/-- The loop of `Pattern.findFrom?` over the text after a cursor. -/
def findLoop (p : Pattern) (before : List Char) (offset : Nat) : List Char → Option Match
  | [] => p.matchAt? ⟨before, [], offset⟩
  | c :: rest =>
    match p.matchAt? ⟨before, c :: rest, offset⟩ with
    | some found => some found
    | none => findLoop p (c :: before) (offset + 1) rest

/-- The first match of a pattern from a cursor on. -/
def Pattern.findFrom? (p : Pattern) (s : Cursor) : Option Match :=
  findLoop p s.before s.offset s.after

/-- The first match of a pattern in a text. -/
def Pattern.find? (p : Pattern) (text : List Char) : Option Match :=
  p.findFrom? (.start text)

/-- Whether a pattern matches anywhere in a text. -/
def Pattern.occursIn (p : Pattern) (text : List Char) : Bool :=
  (p.find? text).isSome

/-- The loop of `Pattern.findAll`.  The search goes on where the last match ended, and one
character further on after an empty match.  Every round reads at least one character, so a fuel
of one more than the text has characters is never used up. -/
def findAllLoop (p : Pattern) : (fuel : Nat) → Cursor → List Match → List Match
  | 0, _, found => found.reverse
  | fuel + 1, s, found =>
    match p.findFrom? s with
    | none => found.reverse
    | some m =>
      if m.stop.offset = m.start.offset then
        match m.stop.after with
        | [] => (m :: found).reverse
        | c :: rest => findAllLoop p fuel (m.stop.advance c rest) (m :: found)
      else findAllLoop p fuel m.stop (m :: found)

/-- All matches of a pattern in a text, from left to right, none overlapping the one before. -/
def Pattern.findAll (p : Pattern) (text : List Char) : List Match :=
  findAllLoop p (text.length + 1) (.start text) []

end SchemaReader
