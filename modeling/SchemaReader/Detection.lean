/-
Finding the schema file of a project.

* `Detected`: a file and what kind of source it is;
* `firstFile?`, `suffixedModule`, `migration?`: the stages of the search;
* `detect`: the first hit of the stages in their order: model files, table modules, table modules
  by their suffix, scripts, migrations.
-/
import SchemaReader.Config.Basic
import SchemaReader.Glob.Expand
import SchemaReader.Notice
import SchemaReader.Schema.Basic

namespace SchemaReader

/-- A schema file and its kind. -/
structure Detected where
  path : List Char
  source : Source
  deriving DecidableEq, Repr

/-- A result with the notices on the way to it, oldest first. -/
structure Noted (α : Type) where
  notices : List Notice
  value : α

/-- The paths of candidates below a root. -/
def candidates (root : List Char) (names : List String) : List (List Char) :=
  names.map fun name => joinPath root name.toList

/-- The first candidate that is a file. -/
def firstFile? (tree : FileTree) (root : List Char) (names : List String) : Option (List Char) :=
  (candidates root names).find? tree.isFile

/-- One notice for every candidate that is looked at: all up to the first file. -/
def probes (tree : FileTree) (root : List Char) (names : List String) : List Notice :=
  let paths := candidates root names
  let missed := paths.takeWhile fun path => !tree.isFile path
  (paths.take (missed.length + 1)).map fun _ => .probing

/-! ### Table modules by their suffix -/

/-- The pattern of files in a directory that end in a suffix. -/
def suffixPattern (directory : List Char) (suffix : String) : List Char :=
  escapeGlob directory ++ "/*".toList ++ suffix.toList

/-- The first file, in the order of the names, that a pattern fits. -/
def firstFitting? (tree : FileTree) (pattern : GlobPattern) : Option (List Char) :=
  ((pattern.expand tree).find? fun found => tree.isFile found.path).map FoundPath.path

/-- The first file with the suffix in the first directory that has one.  A directory that is not
there is passed over, and the pattern is only read for one that is. -/
def suffixedModule (tree : FileTree) (root : List Char) (suffix : String) :
    List String → Except GlobFault (Option (List Char))
  | [] => .ok none
  | name :: names => do
    let directory := joinPath root name.toList
    if tree.isDirectory directory then
      let pattern ← GlobPattern.ofText (suffixPattern directory suffix)
      match firstFitting? tree pattern with
      | some path => .ok (some path)
      | none => suffixedModule tree root suffix names
    else suffixedModule tree root suffix names

/-! ### Migrations -/

/-- The scripts directly in a directory, in the order of their names. -/
def migrationScripts (tree : FileTree) (directory : List Char) : List (List Char) :=
  ((tree.list directory).filter fun entry =>
    entry.2.isFile && hasExtension "sql".toList entry.1).map (·.1)

/-- Whether the name of a script says that it holds the whole schema. -/
def namesWholeSchema (name : List Char) : Bool :=
  let name := Text.lower name
  Text.occursIn "schema".toList name || Text.occursIn "init".toList name

/-- The script of a directory to read: the first that holds the whole schema by its name, or else
the last one. -/
def chosenScript? (scripts : List (List Char)) : Option (List Char) :=
  (scripts.find? namesWholeSchema).or scripts.getLast?

/-- The script to read in the first migration directory that has any. -/
def migration? (tree : FileTree) (root : List Char) : List String → Option (List Char)
  | [] => none
  | name :: names =>
    let directory := joinPath root name.toList
    match chosenScript? (migrationScripts tree directory) with
    | some script => some (joinPath directory script)
    | none => migration? tree root names

/-- One notice for every migration directory without scripts before the first with one. -/
def emptyMigrations (tree : FileTree) (root : List Char) (names : List String) : List Notice :=
  let directories := (candidates root names).filter tree.isDirectory
  (directories.takeWhile fun directory => (migrationScripts tree directory).isEmpty).map
    fun _ => .migrationsWithoutScripts

/-! ### The search -/

/-- What the stages of the search find; the fault of a suffix that is no pattern ends the
search. -/
def detect (tree : FileTree) (places : SearchPlaces) (root : List Char) :
    Except GlobFault (Option Detected) := do
  if let some path := firstFile? tree root places.modelFiles then return some ⟨path, .prisma⟩
  if let some path := firstFile? tree root places.tableModules then return some ⟨path, .drizzle⟩
  if let some path ← suffixedModule tree root places.tableModuleSuffix places.tableModuleDirs then
    return some ⟨path, .drizzle⟩
  if let some path := firstFile? tree root places.scripts then return some ⟨path, .sql⟩
  return (migration? tree root places.migrationDirs).map fun path => ⟨path, .sql⟩

/-- The notices of a search, oldest first. -/
def detectNotices (tree : FileTree) (places : SearchPlaces) (root : List Char) : List Notice :=
  let models := probes tree root places.modelFiles
  if (firstFile? tree root places.modelFiles).isSome then models
  else
    let modules := models ++ probes tree root places.tableModules
    if (firstFile? tree root places.tableModules).isSome then modules
    else match suffixedModule tree root places.tableModuleSuffix places.tableModuleDirs with
      | .error _ => modules
      | .ok (some _) => modules ++ [.suffixedFileFound]
      | .ok none =>
        let scripts := modules ++ probes tree root places.scripts
        if (firstFile? tree root places.scripts).isSome then scripts
        else
          let migrations := scripts ++ emptyMigrations tree root places.migrationDirs
          if (migration? tree root places.migrationDirs).isSome then migrations
          else migrations ++ [.nothingFound]

end SchemaReader
