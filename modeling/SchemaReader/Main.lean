/-
The program.  It looks at the files that a command line may need, runs the command line on what
was seen, and does what the outcome says.

* `surroundings`: the tree of files that a command line may need;
* `Outcome.perform`: the outcome made real;
* `main`: both, one after the other.
-/
import SchemaReader.CommandLine.Survey

namespace SchemaReader

/-! ### Looking at files -/

/-- The written path of a place. -/
def placePath (place : List (List Char)) : String :=
  String.ofList ('/' :: Text.joinWith ['/'] place)

/-- What stands at a place: a directory, not looked into, or a file, not read. -/
def glance? (place : List (List Char)) : IO (Option Node) := do
  try
    let real ← IO.FS.realPath (placePath place)
    return some (if ← real.isDir then .directory [] else .file [])
  catch _ => return none

/-- The tree with what stands at a place, if it is not there yet. -/
def FileTree.withPlace (tree : FileTree) (place : List (List Char)) : IO FileTree := do
  if (tree.root.at? place).isSome then return tree
  match (← glance? place).bind fun node => tree.root.put? node place with
  | some root => return { tree with root }
  | none => return tree

/-- The tree with what stands along a path. -/
def FileTree.withPath (tree : FileTree) (path : List Char) : IO FileTree := do
  let mut tree := tree
  let mut place := tree.start path
  for part in pathParts path do
    place := placeAfter place part
    tree ← tree.withPlace place
  return tree

/-- The tree with what the directory at a place holds, to any depth if that is wanted. -/
partial def FileTree.withEntries (tree : FileTree) (place : List (List Char)) (deep : Bool) :
    IO FileTree := do
  match tree.root.at? place with
  | some (.directory _) =>
    let mut tree := tree
    for entry in (← (← IO.FS.realPath (placePath place)).readDir) do
      let inner := place ++ [entry.fileName.toList]
      tree ← tree.withPlace inner
      if deep then tree ← tree.withEntries inner deep
    return tree
  | _ => return tree

/-- The tree with what the directory at a path holds. -/
def FileTree.withDirectory (tree : FileTree) (path : List Char) (deep : Bool) : IO FileTree := do
  let tree ← tree.withPath path
  match tree.locate path with
  | .ok place => tree.withEntries place deep
  | .error _ => return tree

/-- The tree with the content of the file at a path. -/
def FileTree.withContent (tree : FileTree) (path : List Char) : IO FileTree := do
  let tree ← tree.withPath path
  match tree.locate path, tree.isFile path with
  | .ok place, true =>
    let content ← IO.FS.readBinFile (placePath place)
    match tree.root.put? (.file content.toList) place with
    | some root => return { tree with root }
    | none => return tree
  | _, _ => return tree

/-- The tree of the current directory and what is above it. -/
def currentTree : IO FileTree := do
  let directory := (← IO.currentDir).toString.toList
  let tree : FileTree := ⟨.directory [], (pathParts directory).filter fun part => !part.isEmpty⟩
  tree.withPath directory

/-- The tree of what a command line may need. -/
def surroundings (commandLine : List String) : IO FileTree := do
  let tree ← currentTree
  let .run arguments := Invocation.ofArguments commandLine | return tree
  let tree ← match arguments.config with
    | some path => tree.withContent path
    | none => pure tree
  let .ok config := arguments.loadConfig tree | return tree
  let survey := arguments.survey config
  let tree ← survey.paths.foldlM FileTree.withPath tree
  let tree ← survey.directories.foldlM (fun tree path => tree.withDirectory path survey.deep) tree
  match arguments.target? tree config with
  | some path => tree.withContent path
  | none => return tree

/-! ### Outcomes made real -/

/-- Sends lines to where notices go. -/
def LogSink.send (lines : List String) : LogSink → IO Unit
  | .nowhere => return
  | .console => lines.forM IO.eprintln
  | .file path => do
    if let some above := parentPath? path then
      if !above.isEmpty then IO.FS.createDirAll (String.ofList above)
    IO.FS.writeFile (String.ofList path) (String.join (lines.map (· ++ "\n")))

/-- Does what an outcome says, and returns its status. -/
def Outcome.perform (outcome : Outcome) : IO UInt32 := do
  outcome.log.sink.send (outcome.notices.map outcome.log.line)
  IO.print outcome.output
  IO.eprint outcome.complaint
  return outcome.status.toUInt32

end SchemaReader

/-- Runs a command line. -/
def main (commandLine : List String) : IO UInt32 := do
  (SchemaReader.run (← SchemaReader.surroundings commandLine) commandLine).perform
