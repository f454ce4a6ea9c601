/-
The configuration.

* `SearchPlaces`: where schema files are looked for;
* `LogSettings`: what is logged, and where to;
* `Config`: both, and the layout of responses, with the defaults of each.
-/

namespace SchemaReader

/-- Where schema files are looked for, below the root of a project. -/
structure SearchPlaces where
  /-- Model files. -/
  modelFiles : List String
  /-- Table modules. -/
  tableModules : List String
  /-- Directories that may hold table modules named with the suffix. -/
  tableModuleDirs : List String
  /-- The suffix of table modules; wildcards in it are understood. -/
  tableModuleSuffix : String
  /-- Data definition scripts. -/
  scripts : List String
  /-- Directories of migration scripts. -/
  migrationDirs : List String
  deriving DecidableEq, Repr

/-- The places that are searched when nothing else is said. -/
def SearchPlaces.default : SearchPlaces := {
  modelFiles := ["prisma/schema.prisma"]
  tableModules := ["drizzle/schema.ts", "src/db/schema.ts", "src/schema.ts", "db/schema.ts",
    "src/lib/db/schema.ts"]
  tableModuleDirs := ["drizzle", "src/db", "db"]
  tableModuleSuffix := ".schema.ts"
  scripts := ["schema.sql", "db/schema.sql", "database/schema.sql", "sql/schema.sql",
    "src/db/schema.sql", "supabase/schema.sql"]
  migrationDirs := ["migrations", "db/migrations", "supabase/migrations"] }

/-- What is logged, and where to. -/
structure LogSettings where
  /-- The name of the lowest level that is logged. -/
  level : String
  /-- The file of the log, if it is not the console. -/
  file : Option String
  /-- The name of the format. -/
  format : String
  /-- Whether a log without a file goes to the console. -/
  stdout : Bool
  deriving DecidableEq, Repr

/-- The settings of a log of which nothing is said. -/
def LogSettings.default : LogSettings := ⟨"info", none, "text", true⟩

/-- The configuration. -/
structure Config where
  places : SearchPlaces
  /-- Whether responses are laid out over several lines. -/
  pretty : Bool
  /-- The log, if there is one. -/
  log : Option LogSettings
  deriving DecidableEq, Repr

/-- The configuration when nothing is said. -/
def Config.default : Config := ⟨.default, true, none⟩

end SchemaReader
