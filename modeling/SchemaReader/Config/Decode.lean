/-
The configuration from TOML.

* `settingsOf?`: the values of a group of settings, written by their keys or in their order;
* `Config.ofEntries?`: the configuration of a document's entries;
* `Config.ofText?`: the configuration of a text.
-/
import SchemaReader.Config.Basic
import SchemaReader.Toml.Document

namespace SchemaReader

/-! ### Records -/

/-- The values of a group of settings, in the order of their keys; a missing one is `none`.  A
table has them by key, and other keys are passed over.  An array has them in their order, and
items past the last are passed over.  A date or time has none of them. -/
def settingsOf? (keys : List String) : Toml → Option (List (Option Toml))
  | .table _ entries => some (keys.map fun key => valueAt? key.toList entries)
  | .array items => some ((List.range keys.length).map fun i => items[i]?)
  | .tables items =>
    some ((List.range keys.length).map fun i => items[i]?.map fun t => .table .header t)
  | .dateTime _ => some (keys.map fun _ => none)
  | _ => none

/-! ### Values -/

/-- The text of a string. -/
def Toml.string? : Toml → Option String
  | .string text => some (String.ofList text)
  | _ => none

/-- The truth value of a boolean. -/
def Toml.bool? : Toml → Option Bool
  | .boolean value => some value
  | _ => none

/-- The texts of an array of strings. -/
def Toml.strings? : Toml → Option (List String)
  | .array items => items.mapM Toml.string?
  | _ => none

/-- The value of a setting, or its default if it is missing. -/
def settingOr {α : Type} (default : α) (read : Toml → Option α) : Option Toml → Option α
  | some value => read value
  | none => some default

/-! ### The configuration -/

/-- Reads where schema files are looked for. -/
def SearchPlaces.ofToml? (value : Toml) : Option SearchPlaces := do
  let default := SearchPlaces.default
  match (← settingsOf? ["prisma_paths", "drizzle_paths", "drizzle_dirs", "drizzle_suffix",
      "sql_paths", "migration_dirs"] value) with
  | [models, modules, dirs, suffix, scripts, migrations] => return {
      modelFiles := ← settingOr default.modelFiles Toml.strings? models
      tableModules := ← settingOr default.tableModules Toml.strings? modules
      tableModuleDirs := ← settingOr default.tableModuleDirs Toml.strings? dirs
      tableModuleSuffix := ← settingOr default.tableModuleSuffix Toml.string? suffix
      scripts := ← settingOr default.scripts Toml.strings? scripts
      migrationDirs := ← settingOr default.migrationDirs Toml.strings? migrations }
  | _ => none

/-- Reads the layout of responses. -/
def prettyOfToml? (value : Toml) : Option Bool := do
  match (← settingsOf? ["pretty"] value) with
  | [pretty] => settingOr Config.default.pretty Toml.bool? pretty
  | _ => none

/-- Reads the settings of the log. -/
def LogSettings.ofToml? (value : Toml) : Option LogSettings := do
  let default := LogSettings.default
  match (← settingsOf? ["level", "file", "format", "stdout"] value) with
  | [level, file, format, stdout] => return {
      level := ← settingOr default.level Toml.string? level
      file := ← settingOr default.file (fun v => v.string?.map some) file
      format := ← settingOr default.format Toml.string? format
      stdout := ← settingOr default.stdout Toml.bool? stdout }
  | _ => none

/-- The configuration of a document's entries. -/
def Config.ofEntries? (entries : TomlEntries) : Option Config := do
  let default := Config.default
  return {
    places := ← settingOr default.places SearchPlaces.ofToml? (valueAt? "detection".toList entries)
    pretty := ← settingOr default.pretty prettyOfToml? (valueAt? "output".toList entries)
    log := ← settingOr default.log (fun v => (LogSettings.ofToml? v).map some)
      (valueAt? "logging".toList entries) }

/-- The configuration of a text. -/
def Config.ofText? (text : List Char) : Option Config :=
  (tomlOfText? text).bind Config.ofEntries?

end SchemaReader
