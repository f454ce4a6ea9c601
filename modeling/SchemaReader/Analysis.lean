/-
Answering requests about the projects in a tree of files.

* `loadConfig`: the configuration that a file holds;
* `analyzeFile`: the schema of a file of a known kind;
* `analyze`: the schema of the project at a root, found by search;
* `handle`: the response to a request.
-/
import SchemaReader.Config.Decode
import SchemaReader.Detection
import SchemaReader.Extraction
import SchemaReader.Fault
import SchemaReader.Response.Decode
import SchemaReader.Text.Bytes

namespace SchemaReader

/-! ### Configuration -/

/-- The configuration that the bytes of a file hold. -/
def Config.ofBytes (bytes : List UInt8) : Except Fault Config :=
  match Text.decode? bytes with
  | none => .error (.unreadableConfig .invalidText)
  | some text => match Config.ofText? text with
    | none => .error .invalidConfig
    | some config => .ok config

/-- The configuration that the file at a path holds. -/
def loadConfig (tree : FileTree) (path : List Char) : Except Fault Config :=
  match tree.read path with
  | .error cause => .error (.unreadableConfig cause)
  | .ok bytes => Config.ofBytes bytes

/-! ### Files of a known kind -/

/-- The schema that bytes hold, and the notices on the way, oldest first.  Bytes that are no text
are replaced, which is noted. -/
def schemaOfBytes (source : Source) (bytes : List UInt8) (rawPath : String) :
    Schema × List Notice :=
  let (text, valid) := Text.decodeLossy bytes
  let (schema, notices) := Schema.ofTextNoted source text rawPath
  (schema, if valid then notices else .invalidBytesReplaced :: notices)

/-- The schema of the file at a path, and the notices on the way. -/
def analyzeFile (tree : FileTree) (path : List Char) (source : Source) :
    Except Fault (Schema × List Notice) :=
  match tree.read path with
  | .error cause => .error (.unreadableFile cause)
  | .ok bytes => .ok (schemaOfBytes source bytes (String.ofList path))

/-! ### Projects -/

/-- The response of a search: the schema of what was found, or that nothing was. -/
def respond (tree : FileTree) : Option Detected → Except Fault (Response × List Notice)
  | none => .ok (.notFound, [])
  | some found => do
    let (schema, notices) ← analyzeFile tree found.path found.source
    return (.found schema, .sourceDetected :: notices)

/-- The response about the project at a root, and the notices on the way. -/
def analyze (tree : FileTree) (places : SearchPlaces) (root : List Char) :
    Except Fault (Response × List Notice) := do
  match detect tree places root with
  | .error cause => .error (.invalidPattern cause)
  | .ok found =>
    let (response, notices) ← respond tree found
    return (response, detectNotices tree places root ++ notices)

/-- The root that a request is about: the path it names, or the current directory. -/
def Request.root (request : Request) : List Char :=
  match request.path with
  | some path => path.toList
  | none => ['.']

/-- The response to a request, and the notices on the way. -/
def handle (tree : FileTree) (places : SearchPlaces) (request : Request) :
    Except Fault (Response × List Notice) :=
  analyze tree places request.root

end SchemaReader
