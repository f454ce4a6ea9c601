/-
The paths that a pattern fits.

* `GlobPart`: what a pattern says about one part of a path;
* `GlobPattern`: the parts of a pattern; `GlobPattern.ofText` reads one;
* `GlobPattern.expand`: the paths in a tree that fit, directory by directory in the order of the
  names.
-/
import SchemaReader.FileTree.Basic
import SchemaReader.Glob.Pattern

namespace SchemaReader

/-! ### Patterns by parts -/

/-- What a pattern says about one part of a path. -/
inductive GlobPart where
  /-- The part itself. -/
  | exactly (name : List Char)
  /-- A part that fits signs. -/
  | fitting (tokens : List GlobToken)
  /-- Parts of any number. -/
  | anyDepth
  deriving DecidableEq, Repr

/-- The character that a sign stands for, if it stands for one. -/
def GlobToken.char? : GlobToken → Option Char
  | .char c => some c
  | _ => none

/-- The part that signs describe. -/
def GlobPart.ofTokens (tokens : List GlobToken) : GlobPart :=
  match tokens.mapM GlobToken.char? with
  | some name => .exactly name
  | none => if tokens.contains .anyDirectories then .anyDepth else .fitting tokens

/-- A pattern. -/
structure GlobPattern where
  /-- Whether the pattern begins at the root. -/
  absolute : Bool
  parts : List GlobPart
  /-- Whether only directories fit. -/
  directoriesOnly : Bool
  deriving DecidableEq, Repr

/-- Parts of any number that follow each other are one of them. -/
def collapseDepths : List GlobPart → List GlobPart
  | .anyDepth :: .anyDepth :: rest => collapseDepths (.anyDepth :: rest)
  | part :: rest => part :: collapseDepths rest
  | [] => []

/-- The parts of a text between slashes; an empty last one is none. -/
def terminatedParts (text : List Char) : List (List Char) :=
  let parts := pathParts text
  if parts.getLast? == some [] then parts.dropLast else parts

/-- Reads a pattern.  The text as a whole has to be a pattern, and so has each part of it. -/
def GlobPattern.ofText (text : List Char) : Except GlobFault GlobPattern := do
  let _ ← globTokens text
  let absolute := isAbsolute text
  let relative := if absolute then text.drop 1 else text
  let parts ← (terminatedParts relative).mapM globTokens
  return ⟨absolute, collapseDepths (parts.map .ofTokens), text.getLast? == some '/'⟩

/-! ### Expansion -/

/-- A path with what it leads to. -/
structure FoundPath where
  path : List Char
  node : Node

/-- The path of something in a directory.  What is in the current directory goes by its name
alone. -/
def childPath (directory name : List Char) : List Char :=
  if directory == ['.'] then name else joinPath directory name

/-- A path if something is there. -/
def FileTree.found? (tree : FileTree) (path : List Char) : Option FoundPath :=
  (tree.node? path).map fun node => ⟨path, node⟩

/-- What is found in a directory, by its path. -/
def FoundPath.children (directory : FoundPath) : List FoundPath :=
  directory.node.list.map fun entry => ⟨childPath directory.path entry.1, entry.2⟩

/-- The last part of a path. -/
def lastPart (path : List Char) : List Char :=
  Text.lastSegment (· == '/') path

/-- Whether one of two named lists of findings comes before the other by its name. -/
def findingBefore (a b : List Char × List FoundPath) : Bool :=
  !(b.1 < a.1)

mutual

/-- What a visit finds in everything below a directory: each entry before what is below it, and
the entries in the order of their names. -/
def findBelow (visit : FoundPath → List FoundPath) (path : List Char) : Node → List FoundPath
  | .file _ => []
  | .directory entries =>
    ((findInEntries visit path entries).mergeSort findingBefore).flatMap fun entry => entry.2

/-- What a visit finds in entries and below them, entry by entry. -/
def findInEntries (visit : FoundPath → List FoundPath) (path : List Char) :
    List (List Char × Node) → List (List Char × List FoundPath)
  | [] => []
  | (name, node) :: rest =>
    let inner := childPath path name
    (name, visit ⟨inner, node⟩ ++ findBelow visit inner node) :: findInEntries visit path rest

end

/-- A path that all parts of a pattern have led to, if it may be the result. -/
def GlobPattern.accept (pattern : GlobPattern) (found : FoundPath) : List FoundPath :=
  if pattern.directoriesOnly && found.node.isFile then [] else [found]

/-- Whether a part that fits signs may be one of the two names that every directory has for itself
and the one above it: only if the signs begin with a point. -/
def fitsSpecial (tokens : List GlobToken) (name : List Char) : Bool :=
  tokens.head? == some (.char '.') && matchesGlob tokens name

/-- Whether a name fits one part of a pattern. -/
def GlobPart.fits : GlobPart → List Char → Bool
  | .exactly expected, name => name == expected
  | .fitting tokens, name => matchesGlob tokens name
  | .anyDepth, _ => true

/-- The step to a part that is given by its name. -/
def FileTree.enter? (tree : FileTree) (place : FoundPath) (name : List Char) :
    Option FoundPath :=
  let special := name == ['.'] || name == ['.', '.']
  if special && place.node.isFile then none
  else tree.found? (if place.path == ['.'] then name else joinPath place.path name)

/-- The paths that fit the parts of a pattern from a path on. -/
def GlobPattern.expandFrom (pattern : GlobPattern) (tree : FileTree) :
    List GlobPart → FoundPath → List FoundPath
  | [], found => pattern.accept found
  | .exactly name :: parts, found =>
    match tree.enter? found name with
    | some next => pattern.expandFrom tree parts next
    | none => []
  | .fitting tokens :: parts, found =>
    let special := [['.', '.'], ['.']].filter fun name =>
      found.node.isDirectory && fitsSpecial tokens name
    let above := special.filterMap fun name => tree.found? (joinPath found.path name)
    let below := found.children.filter fun child => matchesGlob tokens (lastPart child.path)
    (above ++ below).flatMap (pattern.expandFrom tree parts)
  | [.anyDepth], found =>
    findBelow (fun child => if child.node.isDirectory then [child] else []) found.path found.node
  | .anyDepth :: part :: parts, found =>
    findBelow (fun child =>
      if part.fits (lastPart child.path) then pattern.expandFrom tree parts child else [])
      found.path found.node

/-- The paths in a tree that fit a pattern. -/
def GlobPattern.expand (pattern : GlobPattern) (tree : FileTree) : List FoundPath :=
  match tree.found? (if pattern.absolute then ['/'] else ['.']) with
  | some start => pattern.expandFrom tree pattern.parts start
  | none => []

end SchemaReader
