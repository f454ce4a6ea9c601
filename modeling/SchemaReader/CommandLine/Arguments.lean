/-
The arguments of the command line.

* `CommandOption`: the options that take a value;
* `Arguments`: what has been said, every option at most once;
* `Invocation`: what a command line asks for; `Invocation.ofArguments` reads one.
-/
import SchemaReader.Schema.Basic

namespace SchemaReader

/-- The options that take a value. -/
inductive CommandOption where
  /-- The configuration file. -/
  | config
  /-- The schema file to read instead of searching for one. -/
  | file
  /-- The format of that file. -/
  | format
  deriving DecidableEq, Repr

/-- What a command line says. -/
structure Arguments where
  /-- The root of the project. -/
  path : Option (List Char)
  config : Option (List Char)
  file : Option (List Char)
  format : Option Source
  /-- Whether the response is to be on one line whatever the configuration says. -/
  compact : Bool
  deriving DecidableEq, Repr

/-- Nothing said. -/
def Arguments.empty : Arguments := ⟨none, none, none, none, false⟩

/-- What a command line asks for. -/
inductive Invocation where
  | run (arguments : Arguments)
  | version
  | help
  /-- The command line is not understood. -/
  | misused
  deriving DecidableEq, Repr

/-! ### Single arguments -/

/-- The format of a name. -/
def formatOf? (name : List Char) : Option Source :=
  match String.ofList name with
  | "prisma" => some .prisma
  | "drizzle" => some .drizzle
  | "sql" => some .sql
  | _ => none

/-- The arguments with the value of an option, if the option is new and the value is one for it.
The name of a file cannot be empty. -/
def Arguments.set? (arguments : Arguments) (value : List Char) :
    CommandOption → Option Arguments
  | .config => if arguments.config.isSome then none else some { arguments with config := value }
  | .file =>
    if arguments.file.isSome || value.isEmpty then none else some { arguments with file := value }
  | .format =>
    if arguments.format.isSome then none
    else (formatOf? value).map fun format => { arguments with format }

/-- The arguments with the root of the project, if it is new and not empty. -/
def Arguments.setPath? (arguments : Arguments) (path : List Char) : Option Arguments :=
  if arguments.path.isSome || path.isEmpty then none else some { arguments with path }

/-- The arguments with the response on one line, if that is new. -/
def Arguments.setCompact? (arguments : Arguments) : Option Arguments :=
  if arguments.compact then none else some { arguments with compact := true }

/-- The option of a long name that takes a value. -/
def longOption? (name : List Char) : Option CommandOption :=
  match String.ofList name with
  | "config" => some .config
  | "file" => some .file
  | "format" => some .format
  | _ => none

/-- What comes of one argument. -/
inductive Step where
  /-- The arguments so far, and the option that waits for its value. -/
  | next (arguments : Arguments) (pending : Option CommandOption)
  /-- The command line ends here. -/
  | stop (invocation : Invocation)
  deriving DecidableEq, Repr

/-- The step to arguments, or to a misuse if there are none. -/
def Step.ofArguments? : Option Arguments → Step
  | some arguments => .next arguments none
  | none => .stop .misused

/-- Reads an argument that begins with two dashes; `name` is what follows them. -/
def longStep (arguments : Arguments) (name : List Char) : Step :=
  match name.span (· != '=') with
  | (name, '=' :: value) => match longOption? name with
    | some option => .ofArguments? (arguments.set? value option)
    | none => .stop .misused
  | (name, _) => match longOption? name with
    | some option => .next arguments (some option)
    | none => match String.ofList name with
      | "compact" => .ofArguments? arguments.setCompact?
      | "version" => .stop .version
      | "help" => .stop .help
      | _ => .stop .misused

/-- Reads an option of one letter that takes a value; `attached` is what follows the letter, and
an equals sign before the value does not belong to it. -/
def shortValueStep (arguments : Arguments) (option : CommandOption) (attached : List Char) :
    Step :=
  match attached with
  | [] => .next arguments (some option)
  | '=' :: value => .ofArguments? (arguments.set? value option)
  | value => .ofArguments? (arguments.set? value option)

/-- Reads an argument that begins with one dash; `letters` is what follows it. -/
def shortStep (arguments : Arguments) (letters : List Char) : Step :=
  match letters with
  | 'c' :: attached => shortValueStep arguments .config attached
  | 'f' :: attached => shortValueStep arguments .file attached
  | 'V' :: _ => .stop .version
  | 'h' :: _ => .stop .help
  | _ => .stop .misused

/-! ### Command lines -/

/-- What arguments ask for in the end: a file and its format come together or not at all. -/
def Arguments.finish (arguments : Arguments) : Invocation :=
  if arguments.file.isSome == arguments.format.isSome then .run arguments else .misused

/-- Reads arguments that are all taken for paths. -/
def readPaths (arguments : Arguments) : List (List Char) → Invocation
  | [] => arguments.finish
  | path :: rest => match arguments.setPath? path with
    | some arguments => readPaths arguments rest
    | none => .misused

/-- Reads one argument.  An option that waits for its value takes the next argument, but none that
looks like an option. -/
def argumentStep (arguments : Arguments) (pending : Option CommandOption)
    (argument : List Char) : Step :=
  match argument, pending with
  | '-' :: '-' :: name, none => longStep arguments name
  | '-' :: c :: letters, none => shortStep arguments (c :: letters)
  | '-' :: _ :: _, some _ => .stop .misused
  | value, some option => .ofArguments? (arguments.set? value option)
  | path, none => .ofArguments? (arguments.setPath? path)

/-- Reads arguments one after the other.  After two dashes alone all are paths. -/
def readArguments (arguments : Arguments) (pending : Option CommandOption) :
    List (List Char) → Invocation
  | [] => if pending.isSome then .misused else arguments.finish
  | argument :: rest =>
    if argument == ['-', '-'] then
      if pending.isSome then .misused else readPaths arguments rest
    else match argumentStep arguments pending argument with
      | .next arguments pending => readArguments arguments pending rest
      | .stop invocation => invocation

/-- What a command line asks for. -/
def Invocation.ofArguments (arguments : List String) : Invocation :=
  readArguments .empty none (arguments.map String.toList)

end SchemaReader
