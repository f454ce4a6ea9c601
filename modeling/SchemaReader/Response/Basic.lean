/-
Requests and responses.

* `Request`: what is asked for;
* `Response`: a schema, with an error when none was found; `Response.notFound` is that one.
-/
import SchemaReader.Schema.Basic

namespace SchemaReader

/-- A request for the schema of a project. -/
structure Request where
  /-- The root of the project, if it is not the current directory. -/
  path : Option String
  deriving DecidableEq, Repr

/-- The answer to a request. -/
structure Response where
  schema : Schema
  /-- Why there is no schema, if there is none. -/
  error : Option String
  deriving DecidableEq, Repr

/-- What a response says when the search has found nothing. -/
def notFoundMessage : String :=
  "No database schema found. Checked for Prisma, Drizzle, and SQL schema files."

/-- The response with a schema. -/
def Response.found (schema : Schema) : Response := ⟨schema, none⟩

/-- The response when the search has found nothing. -/
def Response.notFound : Response := ⟨Schema.unknown "", some notFoundMessage⟩

/-- Whether a response has a schema. -/
def Response.isFound (response : Response) : Bool := response.error.isNone

end SchemaReader
