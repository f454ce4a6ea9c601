/-
What the reader has to say while it works.

* `Severity`: the five levels, from the finest to the gravest, with `Severity.ofText` for the
  level a configuration names and `Severity.name`;
* `Notice`: every event worth a line in a log, with its `Notice.severity` and `Notice.message`.
-/
import SchemaReader.Text.LetterCase

namespace SchemaReader

/-! ### Levels -/

/-- How grave an event is. -/
inductive Severity where
  | trace
  | debug
  | info
  | warn
  | error
  deriving DecidableEq, Repr

/-- The rank of a level; a graver one has a higher rank. -/
def Severity.rank : Severity → Nat
  | .trace => 0
  | .debug => 1
  | .info => 2
  | .warn => 3
  | .error => 4

/-- The name of a level in capitals. -/
def Severity.name : Severity → String
  | .trace => "TRACE"
  | .debug => "DEBUG"
  | .info => "INFO"
  | .warn => "WARN"
  | .error => "ERROR"

/-- The level that a text names, in letters of any case; any other text names `info`. -/
def Severity.ofText (text : String) : Severity :=
  match String.ofList (Text.lower text.toList) with
  | "trace" => .trace
  | "debug" => .debug
  | "warn" => .warn
  | "error" => .error
  | _ => .info

/-! ### Events -/

/-- An event of extraction, detection or analysis. -/
inductive Notice where
  /-- A relation along an edge that is already recorded. -/
  | duplicateRelation
  /-- An entry of a created table that is neither a constraint nor a column. -/
  | unrecognizedTableEntry
  /-- A created table was read. -/
  | createdTableRead
  /-- The entry list of a created table is never closed. -/
  | unterminatedCreateTable
  /-- An index on a table that no statement creates. -/
  | indexOnUnknownTable
  /-- A foreign key added to a table that no statement creates. -/
  | foreignKeyOnUnknownTable
  /-- A line of a model that is no field. -/
  | unrecognizedFieldLine
  /-- An attribute of a model that lists no columns. -/
  | blockAttributeWithoutColumns
  /-- A model was read. -/
  | modelRead
  /-- A model is never closed. -/
  | unterminatedModel
  /-- A table call is never closed. -/
  | unterminatedTableCall
  /-- A table call whose first argument is no string literal. -/
  | unnamedTableCall
  /-- A table call whose second argument is no object. -/
  | tableCallWithoutColumns
  /-- An entry of a column object that is no column. -/
  | unrecognizedColumnEntry
  /-- A table call was read. -/
  | tableCallRead
  /-- A file is looked for. -/
  | probing
  /-- A file was found by its suffix. -/
  | suffixedFileFound
  /-- A migration directory holds no scripts. -/
  | migrationsWithoutScripts
  /-- No stage of the search found a file. -/
  | nothingFound
  /-- The search found a file. -/
  | sourceDetected
  /-- Bytes of a schema file were replaced. -/
  | invalidBytesReplaced
  /-- A schema was read to its end. -/
  | extractionFinished
  deriving DecidableEq, Repr

/-- How grave an event is: what is passed over is a trace, what is achieved a debug line, and
only the detected source and replaced bytes are for every reader. -/
def Notice.severity : Notice → Severity
  | .duplicateRelation | .unrecognizedTableEntry | .unterminatedCreateTable
  | .indexOnUnknownTable | .foreignKeyOnUnknownTable | .unrecognizedFieldLine
  | .blockAttributeWithoutColumns | .unterminatedModel | .unterminatedTableCall
  | .unnamedTableCall | .tableCallWithoutColumns | .unrecognizedColumnEntry | .probing => .trace
  | .createdTableRead | .modelRead | .tableCallRead | .suffixedFileFound
  | .migrationsWithoutScripts | .nothingFound | .extractionFinished => .debug
  | .sourceDetected => .info
  | .invalidBytesReplaced => .warn

/-- The line that a log has for an event. -/
def Notice.message : Notice → String
  | .duplicateRelation => "Skipping duplicate relation"
  | .unrecognizedTableEntry => "Skipping unrecognized table entry"
  | .createdTableRead => "Extracted SQL table"
  | .unterminatedCreateTable => "Skipping unterminated CREATE TABLE"
  | .indexOnUnknownTable => "Dropping index on unknown table"
  | .foreignKeyOnUnknownTable => "Dropping foreign key on unknown table"
  | .unrecognizedFieldLine => "Skipping unrecognized Prisma field line"
  | .blockAttributeWithoutColumns => "Skipping block attribute without column list"
  | .modelRead => "Extracted Prisma model"
  | .unterminatedModel => "Skipping unterminated model block"
  | .unterminatedTableCall => "Skipping unterminated table call"
  | .unnamedTableCall => "Skipping table call without a name literal"
  | .tableCallWithoutColumns => "Skipping table call without a column object"
  | .unrecognizedColumnEntry => "Skipping unrecognized column entry"
  | .tableCallRead => "Extracted Drizzle table"
  | .probing => "Probing schema location"
  | .suffixedFileFound => "Found suffixed Drizzle schema"
  | .migrationsWithoutScripts => "Migration directory has no SQL files"
  | .nothingFound => "No schema source found"
  | .sourceDetected => "Detected schema source"
  | .invalidBytesReplaced => "Schema file is not valid UTF-8, replacing invalid bytes"
  | .extractionFinished => "Extraction finished"

end SchemaReader
