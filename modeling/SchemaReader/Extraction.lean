/-
The schema of a text.

* `Source.draft?`: what a text of a known source defines;
* `Schema.ofText`: the schema of a text, empty for an unknown source;
* `Schema.ofTextNoted`: the same with the notices on the way.
-/
import SchemaReader.Ddl.Script
import SchemaReader.ModelFile.Model
import SchemaReader.TableModule.Module

namespace SchemaReader

/-- What a text of a source defines, if the source is known. -/
def Source.draft? (source : Source) (text : List Char) : Option Draft :=
  match source with
  | .prisma => some (ModelFile.Contents.ofText text).draft
  | .drizzle => some (TableModule.Contents.ofText text).draft
  | .sql => some (Ddl.Script.ofText text).draft
  | .unknown => none

/-- The schema of a text, and the notices on the way in the order in which they came. -/
def Schema.ofTextNoted (source : Source) (text : List Char) (rawPath : String) :
    Schema × List Notice :=
  match source.draft? text with
  | some draft => (draft.schema source rawPath, (draft.note .extractionFinished).notices.reverse)
  | none => (Schema.unknown rawPath, [])

/-- The schema of a text. -/
def Schema.ofText (source : Source) (text : List Char) (rawPath : String) : Schema :=
  (Schema.ofTextNoted source text rawPath).1

end SchemaReader
