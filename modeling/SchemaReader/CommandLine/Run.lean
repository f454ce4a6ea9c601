/-
Running a command line on a tree of files.

* `LogSink`: where notices go, and `LogSettings.sink`;
* `Outcome`: all that a run leaves behind;
* `run`: the outcome of a command line.
-/
import SchemaReader.Analysis
import SchemaReader.CommandLine.Arguments
import SchemaReader.Response.Encode

namespace SchemaReader

/-! ### Logs -/

/-- Where notices go. -/
inductive LogSink where
  | nowhere
  | console
  | file (path : List Char)
  deriving DecidableEq, Repr

/-- A log: where it goes, whether its lines are JSON, and the lowest level that is logged. -/
structure Log where
  sink : LogSink
  json : Bool
  level : Severity
  deriving DecidableEq, Repr

/-- The log when nothing is said of one. -/
def Log.silent : Log := ⟨.nowhere, false, .info⟩

/-- Where settings send notices: to a file if one is named, or else to the console if that is
wanted. -/
def LogSettings.sink (settings : LogSettings) : LogSink :=
  match settings.file with
  | some path => .file path.toList
  | none => if settings.stdout then .console else .nowhere

/-- The log of settings. -/
def LogSettings.log (settings : LogSettings) : Log := {
  sink := settings.sink
  json := Text.lower settings.format.toList == "json".toList
  level := .ofText settings.level }

/-- The log of a configuration. -/
def Config.logging (config : Config) : Log :=
  match config.log with
  | some settings => settings.log
  | none => .silent

/-- The notices that a log takes: those of its level and graver ones. -/
def Log.take (log : Log) (notices : List Notice) : List Notice :=
  if log.sink == .nowhere then []
  else notices.filter fun notice => log.level.rank ≤ notice.severity.rank

/-- The line of a log for a notice. -/
def Log.line (log : Log) (notice : Notice) : String :=
  if log.json then
    String.ofList ((jsonObject [("level", .ofString notice.severity.name),
      ("message", .ofString notice.message)]).toText .compact)
  else notice.severity.name ++ " " ++ notice.message

/-! ### Outcomes -/

/-- All that a run leaves behind. -/
structure Outcome where
  /-- The status: 0 for success, 1 for a fault, 2 for a command line that is not understood. -/
  status : Nat
  /-- What is printed. -/
  output : String
  /-- What failed, if something did. -/
  failure : Option String
  /-- The log, and the notices that it takes. -/
  log : Log
  notices : List Notice
  /-- The files afterwards, the log file among them. -/
  tree : FileTree

/-- The outcome of a run that ends before there is a log. -/
def Outcome.early (tree : FileTree) (status : Nat) (output : String) (failure : Option String) :
    Outcome :=
  ⟨status, output, failure, .silent, [], tree⟩

/-- The form of a command line. -/
def usageText : String := "Usage: schema_unify [OPTIONS] [PATH]\n"

/-- What is said on the error stream about a run without success. -/
def Outcome.complaint (outcome : Outcome) : String :=
  match outcome.failure with
  | some doing => "Error: " ++ doing ++ "\n"
  | none => if outcome.status == 2 then usageText else ""

/-- The name and the version of the program. -/
def versionText : String := "schema_unify 0.1.0\n"

/-- How the program is used. -/
def helpText : String :=
  "Extract a unified database schema from a project\n\n" ++ usageText ++ "\n" ++
  "Arguments:\n" ++
  "  [PATH]  Project root to search (defaults to the current directory)\n\n" ++
  "Options:\n" ++
  "  -c, --config <CONFIG>  TOML configuration file\n" ++
  "      --compact          Emit compact JSON instead of pretty-printed\n" ++
  "  -f, --file <FILE>      Read this schema file directly instead of detecting one\n" ++
  "      --format <FORMAT>  Format of the file given with --file " ++
  "[possible values: prisma, drizzle, sql]\n" ++
  "  -h, --help             Print help\n" ++
  "  -V, --version          Print version\n"

/-! ### Runs -/

/-- The tree with the log's file, empty, if it can be made. -/
def Log.prepare? (log : Log) (tree : FileTree) : Option FileTree :=
  match log.sink with
  | .file path => tree.createFile? path
  | _ => some tree

/-- The configuration that arguments name, or the default one. -/
def Arguments.loadConfig (arguments : Arguments) (tree : FileTree) : Except Fault Config :=
  match arguments.config with
  | some path => SchemaReader.loadConfig tree path
  | none => .ok .default

/-- What arguments are answered with: the schema of the file they name, or the response about the
project.  A failure comes with what was being done and the notices up to it. -/
def Arguments.answer (arguments : Arguments) (tree : FileTree) (places : SearchPlaces) :
    Except (String × List Notice) (Response × List Notice) :=
  match arguments.file, arguments.format with
  | some file, some format => match analyzeFile tree file format with
    | .ok (schema, notices) => .ok (.found schema, notices)
    | .error _ => .error ("reading " ++ String.ofList file, [])
  | _, _ =>
    let root := arguments.path.getD ['.']
    match analyze tree places root with
    | .ok answered => .ok answered
    | .error _ => .error ("analyzing project schema", detectNotices tree places root)

/-- The outcome of arguments under a configuration, once its log is there. -/
def Arguments.run (arguments : Arguments) (tree : FileTree) (config : Config) : Outcome :=
  let log := config.logging
  match arguments.answer tree config.places with
  | .error (doing, notices) => ⟨1, "", some doing, log, log.take notices, tree⟩
  | .ok (response, notices) =>
    let text := response.toText (config.pretty && !arguments.compact)
    ⟨0, text ++ "\n", none, log, log.take notices, tree⟩

/-- The outcome of a command line: the configuration is loaded first, then the log is made, then
the request is answered. -/
def run (tree : FileTree) (commandLine : List String) : Outcome :=
  match Invocation.ofArguments commandLine with
  | .misused => .early tree 2 "" none
  | .version => .early tree 0 versionText none
  | .help => .early tree 0 helpText none
  | .run arguments => match arguments.loadConfig tree with
    | .error _ =>
      let path := String.ofList (arguments.config.getD [])
      .early tree 1 "" (some ("loading configuration from " ++ path))
    | .ok config => match config.logging.prepare? tree with
      | none => .early tree 1 "" (some "initializing logging")
      | some tree => arguments.run tree config

end SchemaReader
