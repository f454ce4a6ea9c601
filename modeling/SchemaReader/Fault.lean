/-
What can go wrong around extraction.

* `Fault`: the causes; extraction itself has none;
* `FaultKind`: the kinds that causes fall under, with the words that each kind begins with;
* `Fault.message`: what is said about a cause.
-/
import SchemaReader.FileTree.Basic
import SchemaReader.Glob.Pattern

namespace SchemaReader

/-- The kinds of faults. -/
inductive FaultKind where
  | configuration
  | file
  | serialization
  | pattern
  | unknown
  deriving DecidableEq, Repr

/-- The words that a message of a kind begins with. -/
def FaultKind.heading : FaultKind → String
  | .configuration => "Configuration error"
  | .file => "IO error"
  | .serialization => "Serialization error"
  | .pattern => "Pattern error"
  | .unknown => "Unknown error"

/-- A message of a kind. -/
def FaultKind.describe (kind : FaultKind) (detail : String) : String :=
  kind.heading ++ ": " ++ detail

/-- Why a request has no response. -/
inductive Fault where
  /-- The configuration file cannot be read. -/
  | unreadableConfig (cause : FileFault)
  /-- The configuration file holds no configuration. -/
  | invalidConfig
  /-- A schema file cannot be read. -/
  | unreadableFile (cause : FileFault)
  /-- The suffix of table modules is no pattern. -/
  | invalidPattern (cause : GlobFault)
  /-- A request is not one. -/
  | invalidRequest
  deriving DecidableEq, Repr

/-- The kind of a cause. -/
def Fault.kind : Fault → FaultKind
  | .unreadableConfig _ | .invalidConfig => .configuration
  | .unreadableFile _ => .file
  | .invalidPattern _ => .pattern
  | .invalidRequest => .serialization

/-- What is said about a cause after the words of its kind. -/
def Fault.detail : Fault → String
  | .unreadableConfig cause => "Failed to read config file: " ++ cause.message
  | .invalidConfig => "Failed to parse config file"
  | .unreadableFile cause => cause.message
  | .invalidPattern cause => cause.message
  | .invalidRequest => "the text is not a request"

/-- What is said about a cause. -/
def Fault.message (fault : Fault) : String :=
  fault.kind.describe fault.detail

end SchemaReader
