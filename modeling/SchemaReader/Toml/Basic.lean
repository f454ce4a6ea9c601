/-
TOML values and tables.

* `Toml`: a value, or a table with the way in which it came to be;
* `valueAt?`, `putEntry`: the entries of a table by their keys;
* `insertDotted?`: a value under a dotted key;
* `defineTable?`, `appendTable?`: the tables that headers open;
* `updateAt?`: a change to the table that a header has opened.
-/

namespace SchemaReader

/-- How a table came to be, which decides what may be added to it later. -/
inductive TableOrigin where
  /-- Written in braces; nothing is ever added. -/
  | braces
  /-- Made by a dotted key; other dotted keys may add to it. -/
  | dotted
  /-- Made by a header that names something inside it; its own header may follow. -/
  | implied
  /-- Opened by its own header. -/
  | header
  deriving DecidableEq, Repr

/-- A TOML value. -/
inductive Toml where
  | string (text : List Char)
  | integer (value : Int)
  /-- A floating-point number, as it is written. -/
  | float (text : List Char)
  | boolean (value : Bool)
  /-- A date, a time or both, as written. -/
  | dateTime (text : List Char)
  | array (items : List Toml)
  | table (origin : TableOrigin) (entries : List (List Char × Toml))
  /-- The tables that repeated headers in double brackets open. -/
  | tables (items : List (List (List Char × Toml)))

/-- The entries of a table. -/
abbrev TomlEntries := List (List Char × Toml)

/-! ### Entries -/

/-- The value of a key. -/
def valueAt? (key : List Char) (entries : TomlEntries) : Option Toml :=
  entries.lookup key

/-- A table with a key's value set. -/
def putEntry (key : List Char) (value : Toml) : TomlEntries → TomlEntries
  | [] => [(key, value)]
  | (k, v) :: rest => if k == key then (k, value) :: rest else (k, v) :: putEntry key value rest

/-! ### Keys and values -/

/-- Adds a value under a key that is not taken; `viaDots` says that dotted keys have led to the
table.  Only a table made by dotted keys can be added to that way. -/
def insertEntry? (viaDots : Bool) (origin : TableOrigin) (key : List Char) (value : Toml)
    (entries : TomlEntries) : Option TomlEntries :=
  if viaDots && origin != .dotted then none
  else match valueAt? key entries with
    | some _ => none
    | none => some (entries ++ [(key, value)])

/-- Adds a value under a dotted key, given as the parts before the last and the last one.  Missing
tables on the way are made. -/
def insertDotted? (viaDots : Bool) (origin : TableOrigin) (path : List (List Char))
    (key : List Char) (value : Toml) (entries : TomlEntries) : Option TomlEntries :=
  match path with
  | [] => insertEntry? viaDots origin key value entries
  | part :: path => match valueAt? part entries with
    | none => (insertDotted? true .dotted path key value []).map fun inner =>
      entries ++ [(part, .table .dotted inner)]
    | some (.table .dotted inner) => (insertDotted? true .dotted path key value inner).map
      fun inner => putEntry part (.table .dotted inner) entries
    | some (.table .implied inner) => (insertDotted? true .implied path key value inner).map
      fun inner => putEntry part (.table .implied inner) entries
    | some (.tables items) => match items.getLast? with
      | none => none
      | some inner => (insertDotted? true .header path key value inner).map fun inner =>
        putEntry part (.tables (items.dropLast ++ [inner])) entries
    | some _ => none

/-! ### Headers -/

/-- Makes a change to the table at a path of header keys.  Missing tables on the way are made;
of repeated tables the last is meant. -/
def updateAt? (change : TomlEntries → Option TomlEntries) (path : List (List Char))
    (entries : TomlEntries) : Option TomlEntries :=
  match path with
  | [] => change entries
  | part :: path => match valueAt? part entries with
    | none => (updateAt? change path []).map fun inner =>
      entries ++ [(part, .table .implied inner)]
    | some (.table .braces _) => none
    | some (.table origin inner) => (updateAt? change path inner).map fun inner =>
      putEntry part (.table origin inner) entries
    | some (.tables items) => match items.getLast? with
      | none => none
      | some inner => (updateAt? change path inner).map fun inner =>
        putEntry part (.tables (items.dropLast ++ [inner])) entries
    | some _ => none

/-- Opens a table under a key: a new one, or one that was only implied so far. -/
def defineTable? (key : List Char) (entries : TomlEntries) : Option TomlEntries :=
  match valueAt? key entries with
  | none => some (entries ++ [(key, .table .header [])])
  | some (.table .implied inner) => some (putEntry key (.table .header inner) entries)
  | some _ => none

/-- Opens one more of the repeated tables under a key. -/
def appendTable? (key : List Char) (entries : TomlEntries) : Option TomlEntries :=
  match valueAt? key entries with
  | none => some (entries ++ [(key, .tables [[]])])
  | some (.tables items) => some (putEntry key (.tables (items ++ [[]])) entries)
  | some _ => none

end SchemaReader
