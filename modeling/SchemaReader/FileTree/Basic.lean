/-
A tree of files and directories.

* `Node`: a file or a directory;
* `FileTree`: a tree with a current directory;
* `FileTree.locate`: the place that a written path leads to;
* `FileTree.isFile`, `FileTree.isDirectory`, `FileTree.read`, `FileTree.list`: what stands there;
* `FileTree.createFile?`: a new empty file, with the directories above it.
-/
import SchemaReader.FileTree.Path

namespace SchemaReader

/-! ### Trees -/

/-- A file or a directory. -/
inductive Node where
  | file (content : List UInt8)
  /-- A directory with what is in it, by name. -/
  | directory (entries : List (List Char × Node))

/-- Whether a node is a file. -/
def Node.isFile : Node → Bool
  | .file _ => true
  | .directory _ => false

/-- Whether a node is a directory. -/
def Node.isDirectory (node : Node) : Bool := !node.isFile

/-- What a directory holds under a name. -/
def Node.child? (name : List Char) : Node → Option Node
  | .file _ => none
  | .directory entries => entries.lookup name

/-- The node at the end of a list of names. -/
def Node.at? (node : Node) : List (List Char) → Option Node
  | [] => some node
  | name :: names => (node.child? name).bind fun child => child.at? names

/-- Entries with a name set to a node. -/
def putNode (name : List Char) (node : Node) : List (List Char × Node) → List (List Char × Node)
  | [] => [(name, node)]
  | (n, old) :: rest => if n == name then (n, node) :: rest else (n, old) :: putNode name node rest

/-- A directory with a node put at the end of a list of names; all but the last name have to be
directories that are there. -/
def Node.put? (node new : Node) : List (List Char) → Option Node
  | [] => some new
  | name :: names => match node with
    | .file _ => none
    | .directory entries => match names, entries.lookup name with
      | [], _ => some (.directory (putNode name new entries))
      | _ :: _, some child => (child.put? new names).map fun child =>
        .directory (putNode name child entries)
      | _ :: _, none => none

/-- Whether one name comes before another, character by character. -/
def nameBefore (a b : List Char × Node) : Bool :=
  !(b.1 < a.1)

/-- What a directory holds, in the order of the names. -/
def Node.list : Node → List (List Char × Node)
  | .file _ => []
  | .directory entries => entries.mergeSort nameBefore

/-- A tree of files and directories. -/
structure FileTree where
  /-- The root of the tree. -/
  root : Node
  /-- The names that lead from the root to the current directory. -/
  current : List (List Char)

/-! ### Places -/

/-- Why a path leads nowhere, or why what is there cannot be read. -/
inductive FileFault where
  | notFound
  | notDirectory
  | isDirectory
  /-- A path that holds the character zero. -/
  | zeroInPath
  /-- A text that is not valid UTF-8. -/
  | invalidText
  deriving DecidableEq, Repr

/-- What the system says about a fault. -/
def FileFault.message : FileFault → String
  | .notFound => "No such file or directory (os error 2)"
  | .notDirectory => "Not a directory (os error 20)"
  | .isDirectory => "Is a directory (os error 21)"
  | .zeroInPath => "file name contained an unexpected NUL byte"
  | .invalidText => "stream did not contain valid UTF-8"

/-- The place that one part of a path leads to: an empty part and a point stay, two points go up,
and the root has nothing above it. -/
def placeAfter (place : List (List Char)) (part : List Char) : List (List Char) :=
  if part.isEmpty || part == ['.'] then place
  else if part == ['.', '.'] then place.dropLast
  else place ++ [part]

/-- Goes from a place one part further.  Every part needs a directory to start from, and something
at the place that it leads to. -/
def FileTree.step (tree : FileTree) (place : List (List Char)) (part : List Char) :
    Except FileFault (List (List Char)) :=
  match tree.root.at? place with
  | none => .error .notFound
  | some (.file _) => .error .notDirectory
  | some (.directory _) =>
    let next := placeAfter place part
    if (tree.root.at? next).isSome then .ok next else .error .notFound

/-- The place that a path starts from. -/
def FileTree.start (tree : FileTree) (path : List Char) : List (List Char) :=
  if isAbsolute path then [] else tree.current

/-- The place that a written path leads to, as names from the root. -/
def FileTree.locate (tree : FileTree) (path : List Char) : Except FileFault (List (List Char)) :=
  if path.isEmpty then .error .notFound
  else if path.contains (Char.ofNat 0) then .error .zeroInPath
  else (pathParts path).foldlM tree.step (tree.start path)

/-- The node that a written path leads to. -/
def FileTree.node (tree : FileTree) (path : List Char) : Except FileFault Node := do
  match tree.root.at? (← tree.locate path) with
  | some node => .ok node
  | none => .error .notFound

/-- The node that a written path leads to, if it leads to one. -/
def FileTree.node? (tree : FileTree) (path : List Char) : Option Node :=
  (tree.node path).toOption

/-- Whether a path leads to a file. -/
def FileTree.isFile (tree : FileTree) (path : List Char) : Bool :=
  (tree.node? path).any Node.isFile

/-- Whether a path leads to a directory. -/
def FileTree.isDirectory (tree : FileTree) (path : List Char) : Bool :=
  (tree.node? path).any Node.isDirectory

/-- The content of the file that a path leads to. -/
def FileTree.read (tree : FileTree) (path : List Char) : Except FileFault (List UInt8) := do
  match (← tree.node path) with
  | .file content => .ok content
  | .directory _ => .error .isDirectory

/-- What the directory that a path leads to holds, in the order of the names. -/
def FileTree.list (tree : FileTree) (path : List Char) : List (List Char × Node) :=
  match tree.node? path with
  | some node => node.list
  | none => []

/-! ### Changes -/

/-- A tree with a directory made at a path, if nothing is there and the directory above is. -/
def FileTree.makeDirectory? (tree : FileTree) (path : List Char) : Option FileTree := do
  let parts := namingParts path
  let name ← parts.getLast?
  if name == ['.'] || name == ['.', '.'] then none
  else
    let above ← parentPath? path
    let place ← (tree.locate (if above.isEmpty then ['.'] else above)).toOption
    match tree.root.at? place with
    | some (.directory entries) =>
      if (entries.lookup name).isSome then none
      else return { tree with root := ← tree.root.put? (.directory []) (place ++ [name]) }
    | _ => none

/-- A tree with a directory at a path, and with all directories above it.  The recursion is on the
number of parts of the path, which `depth` has to exceed. -/
def FileTree.makeDirectories? (tree : FileTree) : (depth : Nat) → List Char → Option FileTree
  | 0, _ => none
  | depth + 1, path =>
    if path.isEmpty || tree.isDirectory path then some tree
    else do
      let above ← parentPath? path
      let tree ← tree.makeDirectories? depth above
      if tree.isDirectory path then some tree else tree.makeDirectory? path

/-- A tree with an empty file at a path.  A file that is there loses its content; the directory
above has to be there. -/
def FileTree.emptyFile? (tree : FileTree) (path : List Char) : Option FileTree := do
  let parts := pathParts path
  let name ← parts.getLast?
  if name.isEmpty || name == ['.'] || name == ['.', '.'] || path.contains (Char.ofNat 0) then none
  else
    let above := path.take (path.length - name.length)
    let place ← (tree.locate (if above.isEmpty then ['.'] else above)).toOption
    match tree.root.at? place with
    | some (.directory entries) =>
      if (entries.lookup name).any Node.isDirectory then none
      else return { tree with root := ← tree.root.put? (.file []) (place ++ [name]) }
    | _ => none

/-- A tree with an empty file at a path, and with the directories above it. -/
def FileTree.createFile? (tree : FileTree) (path : List Char) : Option FileTree := do
  let tree ← match parentPath? path with
    | some above => tree.makeDirectories? (path.length + 1) above
    | none => some tree
  tree.emptyFile? path

end SchemaReader
