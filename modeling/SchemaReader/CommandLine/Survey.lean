/-
What a run may look at in a tree of files, known before it is run.

* `Survey`: paths, and directories with what they hold;
* `Arguments.survey`: the survey of a command line under a configuration;
* `Arguments.target?`: the one file that is read as a schema.
-/
import SchemaReader.CommandLine.Run

namespace SchemaReader

/-- What a run may look at. -/
structure Survey where
  /-- The paths that are looked at. -/
  paths : List (List Char)
  /-- The directories that are looked into. -/
  directories : List (List Char)
  /-- Whether they are looked into to any depth. -/
  deep : Bool
  deriving DecidableEq, Repr

/-- What a search looks at below a root.  Only a suffix with a slash in it leads deeper than the
directories themselves. -/
def SearchPlaces.survey (places : SearchPlaces) (root : List Char) : Survey := {
  paths := candidates root (places.modelFiles ++ places.tableModules ++ places.scripts)
  directories := candidates root (places.tableModuleDirs ++ places.migrationDirs)
  deep := places.tableModuleSuffix.toList.contains '/' }

/-- A survey with one more path. -/
def Survey.withPath (survey : Survey) (path : List Char) : Survey :=
  { survey with paths := path :: survey.paths }

/-- The paths that a log touches: its file and the directory above. -/
def LogSink.paths : LogSink → List (List Char)
  | .file path => [path, (parentPath? path).getD []]
  | _ => []

/-- What a command line under a configuration looks at: the file that it names, or else the places
of a search, and those of the log. -/
def Arguments.survey (arguments : Arguments) (config : Config) : Survey :=
  let survey := match arguments.file with
    | some file => ⟨[file], [], false⟩
    | none => config.places.survey (arguments.path.getD ['.'])
  config.logging.sink.paths.foldl Survey.withPath survey

/-- The file that is read as a schema: the one that is named, or else the one that a search finds
once the log is there. -/
def Arguments.target? (arguments : Arguments) (tree : FileTree) (config : Config) :
    Option (List Char) :=
  match arguments.file with
  | some file => some file
  | none =>
    let tree := (config.logging.prepare? tree).getD tree
    match detect tree config.places (arguments.path.getD ['.']) with
    | .ok (some found) => some found.path
    | _ => none

end SchemaReader
