/-
Table modules as they are written.

* `Value`, `Argument`: what a column's function is called with;
* `Method`, `ColumnDef`: a column with its chain of calls;
* `IndexDef`, `CallbackItem`, `CallbackDef`: what a callback declares, in an object or in a list;
* `TableDef`, `BlockDef`, `Item`: tables and blocks of relations, which a module lists in any order;
* each of them with its `tokens`, and `Proper`: words are words and literals have contents.
-/
import SchemaReader.Proofs.TableModule.Tokens

namespace SchemaReader.TableModule

open Text (IsWord)

/-! ### Values -/

/-- A value: a word or a literal. -/
inductive Value where
  | word (word : String)
  | literal (quote : Char) (content : String)
  deriving DecidableEq, Repr

/-- A value as it is written. -/
def Value.token : Value → Token
  | .word w => .word w
  | .literal q u => .literal q u

/-- An object of values. -/
abbrev Options := List (String × Value)

/-- `{ key: value, ... }`. -/
def optionTokens (options : Options) : List Token :=
  bracketed '\x7b' '\x7d' (commaSeparated (options.map fun option =>
    [.word option.1, .sign ':', option.2.token]))

def ProperOptions (options : Options) : Prop :=
  ∀ option ∈ options, IsWord option.1.toList ∧ option.2.token.Proper

instance (options : Options) : Decidable (ProperOptions options) :=
  inferInstanceAs (Decidable (∀ option ∈ options, _))

/-- An argument of the function that makes a column. -/
inductive Argument where
  | value (value : Value)
  | options (options : Options)
  deriving DecidableEq, Repr

/-- An argument as it is written. -/
def Argument.tokens : Argument → List Token
  | .value v => [v.token]
  | .options entries => optionTokens entries

def Argument.Proper : Argument → Prop
  | .value v => v.token.Proper
  | .options entries => ProperOptions entries

instance : (argument : Argument) → Decidable argument.Proper
  | .value v => inferInstanceAs (Decidable v.token.Proper)
  | .options entries => inferInstanceAs (Decidable (ProperOptions entries))

/-! ### Columns -/

/-- A method in the chain of a column. -/
inductive Method where
  | notNull
  | primaryKey
  | unique
  /-- A function that gives the column of a variable, with its type, if it is stated, and perhaps
  with options behind it. -/
  | references (binding column : String) (type : Option String) (options : Option Options)
  deriving DecidableEq, Repr

/-- The function of a reference: `() => v.c` or `(): type => v.c`. -/
def referenceTokens (binding column : String) (type : Option String) : List Token :=
  [.sign '(', .sign ')'] ++ (type.toList.flatMap fun type => [.sign ':', .word type]) ++
    [.arrow, .path binding column]

/-- A method as it is called. -/
def Method.tokens : Method → List Token
  | .notNull => .member "notNull" :: bracketed '(' ')' []
  | .primaryKey => .member "primaryKey" :: bracketed '(' ')' []
  | .unique => .member "unique" :: bracketed '(' ')' []
  | .references binding column type options =>
      .member "references" :: bracketed '(' ')' (referenceTokens binding column type ++
        options.toList.flatMap fun options => .sign ',' :: optionTokens options)

def Method.Proper : Method → Prop
  | .references binding column type options => IsWord binding.toList ∧ IsWord column.toList ∧
      (∀ t ∈ type, IsWord t.toList) ∧ ∀ o ∈ options, ProperOptions o
  | .notNull | .primaryKey | .unique => True

instance : (method : Method) → Decidable method.Proper
  | .references binding column type options =>
      inferInstanceAs (Decidable (IsWord binding.toList ∧ IsWord column.toList ∧
        (∀ t ∈ type, IsWord t.toList) ∧ ∀ o ∈ options, ProperOptions o))
  | .notNull | .primaryKey | .unique => isTrue trivial

/-- What a method points at. -/
def Method.target? : Method → Option (String × String)
  | .references binding column _ _ => some (binding, column)
  | .notNull | .primaryKey | .unique => none

/-- A column: its key, the function that makes it and the chain of calls on it. -/
structure ColumnDef where
  key : String
  type : String
  arguments : List Argument
  methods : List Method
  deriving DecidableEq, Repr

/-- `key: type(arguments).method(...)...`. -/
def ColumnDef.tokens (column : ColumnDef) : List Token :=
  [.word column.key, .sign ':', .word column.type] ++
    bracketed '(' ')' (commaSeparated (column.arguments.map Argument.tokens)) ++
      column.methods.flatMap Method.tokens

structure ColumnDef.Proper (column : ColumnDef) : Prop where
  key : IsWord column.key.toList
  type : IsWord column.type.toList
  arguments : ∀ argument ∈ column.arguments, argument.Proper
  methods : ∀ method ∈ column.methods, method.Proper

instance (column : ColumnDef) : Decidable column.Proper :=
  decidable_of_iff (IsWord column.key.toList ∧ IsWord column.type.toList ∧
      (∀ argument ∈ column.arguments, argument.Proper) ∧ ∀ method ∈ column.methods, method.Proper)
    ⟨fun h => ⟨h.1, h.2.1, h.2.2.1, h.2.2.2⟩, fun h => ⟨h.1, h.2, h.3, h.4⟩⟩

/-! ### Callbacks -/

/-- The three functions that make an index. -/
inductive IndexFunction where
  | index
  | uniqueIndex
  | unique
  deriving DecidableEq, Repr

/-- The name of the function. -/
def IndexFunction.name : IndexFunction → String
  | .index => "index"
  | .uniqueIndex => "uniqueIndex"
  | .unique => "unique"

/-- A column of an index, with the modifiers that are called on it. -/
structure IndexColumn where
  name : String
  modifiers : List String
  deriving DecidableEq, Repr

/-- The call of a modifier. -/
def modifierTokens (modifier : String) : List Token := .member modifier :: bracketed '(' ')' []

/-- `t.c.modifier()...`, for the parameter `t` of a callback. -/
def IndexColumn.tokens (parameter : String) (column : IndexColumn) : List Token :=
  .path parameter column.name :: column.modifiers.flatMap modifierTokens

structure IndexColumn.Proper (column : IndexColumn) : Prop where
  name : IsWord column.name.toList
  modifiers : ∀ modifier ∈ column.modifiers, IsWord modifier.toList

instance (column : IndexColumn) : Decidable column.Proper :=
  decidable_of_iff (IsWord column.name.toList ∧ ∀ modifier ∈ column.modifiers,
    IsWord modifier.toList)
    ⟨fun h => ⟨h.1, h.2⟩, fun h => ⟨h.1, h.2⟩⟩

/-- An index of a callback. -/
structure IndexDef where
  function : IndexFunction
  /-- The quote and the content of the literal that names the index. -/
  name : Option (Char × String)
  columns : List IndexColumn
  deriving DecidableEq, Repr

/-- `index('name').on(t.c, ...)`. -/
def IndexDef.tokens (parameter : String) (index : IndexDef) : List Token :=
  .word index.function.name ::
    bracketed '(' ')' (index.name.toList.map fun name => .literal name.1 name.2) ++
      (.member "on" :: bracketed '(' ')'
        (commaSeparated (index.columns.map (IndexColumn.tokens parameter))))

/-- The name of an index has no quote of any kind in it. -/
structure IndexDef.Proper (index : IndexDef) : Prop where
  name : ∀ name ∈ index.name, IsContent name.1 name.2.toList ∧
    ∀ c ∈ name.2.toList, isQuote c = false
  columns : ∀ column ∈ index.columns, column.Proper

instance (index : IndexDef) : Decidable index.Proper :=
  decidable_of_iff ((∀ name ∈ index.name, IsContent name.1 name.2.toList ∧
      ∀ c ∈ name.2.toList, isQuote c = false) ∧
        ∀ column ∈ index.columns, column.Proper)
    ⟨fun h => ⟨h.1, h.2⟩, fun h => ⟨h.1, h.2⟩⟩

/-- What a callback declares: an index or a composite key. -/
inductive CallbackItem where
  | index (index : IndexDef)
  | primaryKey (columns : List String)
  deriving DecidableEq, Repr

/-- `[t.c, ...]`. -/
def pathList (paths : List (String × String)) : List Token :=
  bracketed '[' ']' (commaSeparated (paths.map fun path => [.path path.1 path.2]))

def ProperPaths (paths : List (String × String)) : Prop :=
  ∀ path ∈ paths, IsWord path.1.toList ∧ IsWord path.2.toList

instance (paths : List (String × String)) : Decidable (ProperPaths paths) :=
  inferInstanceAs (Decidable (∀ path ∈ paths, _))

/-- An index, or `primaryKey({ columns: [t.c, ...] })`. -/
def CallbackItem.tokens (parameter : String) : CallbackItem → List Token
  | .index made => made.tokens parameter
  | .primaryKey columns => .word "primaryKey" :: bracketed '(' ')' (bracketed '\x7b' '\x7d'
      ([.word "columns", .sign ':'] ++ pathList (columns.map fun column => (parameter, column))))

def CallbackItem.Proper : CallbackItem → Prop
  | .index made => made.Proper
  | .primaryKey columns => ∀ column ∈ columns, IsWord column.toList

instance : (item : CallbackItem) → Decidable item.Proper
  | .index made => inferInstanceAs (Decidable made.Proper)
  | .primaryKey columns => inferInstanceAs (Decidable (∀ column ∈ columns, IsWord column.toList))

/-- The items of a callback: an object, in which each has a key, or a list. -/
inductive CallbackBody where
  | object (entries : List (String × CallbackItem))
  | list (items : List CallbackItem)
  deriving DecidableEq, Repr

/-- The items. -/
def CallbackBody.items : CallbackBody → List CallbackItem
  | .object entries => entries.map Prod.snd
  | .list items => items

/-- `({ key: item, ... })` or `[item, ...]`. -/
def CallbackBody.tokens (parameter : String) : CallbackBody → List Token
  | .object entries => bracketed '(' ')' (bracketed '\x7b' '\x7d' (commaSeparated
      (entries.map fun entry => [.word entry.1, .sign ':'] ++ entry.2.tokens parameter)))
  | .list items => bracketed '[' ']' (commaSeparated (items.map (CallbackItem.tokens parameter)))

/-- The third argument of a table call. -/
structure CallbackDef where
  parameter : String
  body : CallbackBody
  deriving DecidableEq, Repr

/-- `(t) => body`. -/
def CallbackDef.tokens (callback : CallbackDef) : List Token :=
  bracketed '(' ')' [.word callback.parameter] ++
    (.arrow :: callback.body.tokens callback.parameter)

structure CallbackDef.Proper (callback : CallbackDef) : Prop where
  parameter : IsWord callback.parameter.toList
  keys : ∀ entries, callback.body = .object entries → ∀ entry ∈ entries, IsWord entry.1.toList
  items : ∀ item ∈ callback.body.items, item.Proper

instance : (callback : CallbackDef) → Decidable callback.Proper
  | ⟨parameter, .object entries⟩ =>
      decidable_of_iff (IsWord parameter.toList ∧ (∀ entry ∈ entries, IsWord entry.1.toList) ∧
          ∀ item ∈ entries.map Prod.snd, item.Proper)
        ⟨fun h => ⟨h.1, fun _ heq => (CallbackBody.object.inj heq) ▸ h.2.1, h.2.2⟩,
          fun h => ⟨h.1, h.2 entries rfl, h.3⟩⟩
  | ⟨parameter, .list items⟩ =>
      decidable_of_iff (IsWord parameter.toList ∧ ∀ item ∈ items, item.Proper)
        ⟨fun h => ⟨h.1, fun _ heq => by simp at heq, h.2⟩, fun h => ⟨h.1, h.3⟩⟩

/-! ### Tables -/

/-- The three functions that make a table. -/
inductive TableFunction where
  | pgTable
  | mysqlTable
  | sqliteTable
  deriving DecidableEq, Repr

/-- The name of the function. -/
def TableFunction.name : TableFunction → String
  | .pgTable => "pgTable"
  | .mysqlTable => "mysqlTable"
  | .sqliteTable => "sqliteTable"

/-- A declaration: whether it is exported, and whether a semicolon ends it. -/
structure Declared where
  exported : Bool
  ended : Bool
  deriving DecidableEq, Repr

/-- `export const name =`. -/
def Declared.opening (declared : Declared) (name : String) : List Token :=
  (if declared.exported then [.word "export"] else []) ++ [.word "const", .word name, .sign '=']

/-- `;`. -/
def Declared.closing (declared : Declared) : List Token :=
  if declared.ended then [.sign ';'] else []

/-- A table. -/
structure TableDef where
  declared : Declared
  /-- The variable. -/
  binding : String
  function : TableFunction
  quote : Char
  name : String
  columns : List ColumnDef
  callback : Option CallbackDef
  deriving DecidableEq, Repr

/-- The arguments of a table call. -/
def TableDef.arguments (table : TableDef) : List (List Token) :=
  [[.literal table.quote table.name],
    bracketed '\x7b' '\x7d' (commaSeparated (table.columns.map ColumnDef.tokens))] ++
      table.callback.toList.map CallbackDef.tokens

/-- `export const v = pgTable('name', { columns }, callback);`. -/
def TableDef.tokens (table : TableDef) : List Token :=
  table.declared.opening table.binding ++ .word table.function.name ::
    (bracketed '(' ')' (commaSeparated table.arguments) ++ table.declared.closing)

structure TableDef.Proper (table : TableDef) : Prop where
  binding : IsWord table.binding.toList
  name : IsContent table.quote table.name.toList
  columns : ∀ column ∈ table.columns, column.Proper
  callback : ∀ callback ∈ table.callback, callback.Proper

instance (table : TableDef) : Decidable table.Proper :=
  decidable_of_iff (IsWord table.binding.toList ∧ IsContent table.quote table.name.toList ∧
      (∀ column ∈ table.columns, column.Proper) ∧ ∀ callback ∈ table.callback, callback.Proper)
    ⟨fun h => ⟨h.1, h.2.1, h.2.2.1, h.2.2.2⟩, fun h => ⟨h.1, h.2, h.3, h.4⟩⟩

/-! ### Blocks of relations -/

/-- A relation of a block. -/
inductive TargetDef where
  | one (binding : String)
  | oneAlong (binding : String) (fields references : List (String × String))
  | many (binding : String)
  deriving DecidableEq, Repr

/-- `one(w)`, `one(w, { fields: [u.c, ...], references: [w.d, ...] })` or `many(w)`. -/
def TargetDef.tokens : TargetDef → List Token
  | .one binding => .word "one" :: bracketed '(' ')' [.word binding]
  | .oneAlong binding fields references => .word "one" :: bracketed '(' ')'
      ([.word binding, .sign ','] ++ bracketed '\x7b' '\x7d'
        ([.word "fields", .sign ':'] ++ pathList fields ++
          ([.sign ',', .word "references", .sign ':'] ++ pathList references)))
  | .many binding => .word "many" :: bracketed '(' ')' [.word binding]

def TargetDef.Proper : TargetDef → Prop
  | .one binding | .many binding => IsWord binding.toList
  | .oneAlong binding fields references =>
      IsWord binding.toList ∧ ProperPaths fields ∧ ProperPaths references

instance : (target : TargetDef) → Decidable target.Proper
  | .one binding | .many binding => inferInstanceAs (Decidable (IsWord binding.toList))
  | .oneAlong binding fields references =>
      inferInstanceAs (Decidable (IsWord binding.toList ∧ ProperPaths fields ∧
        ProperPaths references))

/-- A block of relations. -/
structure BlockDef where
  declared : Declared
  name : String
  /-- The variable of the table. -/
  binding : String
  parameters : List String
  entries : List (String × TargetDef)
  deriving DecidableEq, Repr

/-- The function of a block: `({ one, many }) => ({ key: one(w), ... })`. -/
def BlockDef.bodyTokens (block : BlockDef) : List Token :=
  bracketed '(' ')' (bracketed '\x7b' '\x7d'
    (commaSeparated (block.parameters.map fun parameter => [.word parameter]))) ++
      (.arrow :: bracketed '(' ')' (bracketed '\x7b' '\x7d' (commaSeparated
        (block.entries.map fun entry => [.word entry.1, .sign ':'] ++ entry.2.tokens))))

/-- `export const name = relations(v, ({ one, many }) => ({ key: one(w), ... }));`. -/
def BlockDef.tokens (block : BlockDef) : List Token :=
  block.declared.opening block.name ++ .word "relations" ::
    (bracketed '(' ')' (commaSeparated [[.word block.binding], block.bodyTokens]) ++
      block.declared.closing)

structure BlockDef.Proper (block : BlockDef) : Prop where
  name : IsWord block.name.toList
  binding : IsWord block.binding.toList
  parameters : ∀ parameter ∈ block.parameters, IsWord parameter.toList
  keys : ∀ entry ∈ block.entries, IsWord entry.1.toList
  targets : ∀ entry ∈ block.entries, entry.2.Proper

instance (block : BlockDef) : Decidable block.Proper :=
  decidable_of_iff (IsWord block.name.toList ∧ IsWord block.binding.toList ∧
      (∀ parameter ∈ block.parameters, IsWord parameter.toList) ∧
      (∀ entry ∈ block.entries, IsWord entry.1.toList) ∧ ∀ entry ∈ block.entries, entry.2.Proper)
    ⟨fun h => ⟨h.1, h.2.1, h.2.2.1, h.2.2.2.1, h.2.2.2.2⟩, fun h => ⟨h.1, h.2, h.3, h.4, h.5⟩⟩

/-! ### Modules -/

/-- An item of a module. -/
inductive Item where
  | table (table : TableDef)
  | relations (block : BlockDef)
  deriving DecidableEq, Repr

/-- An item as it is written. -/
def Item.tokens : Item → List Token
  | .table made => made.tokens
  | .relations block => block.tokens

def Item.Proper : Item → Prop
  | .table made => made.Proper
  | .relations block => block.Proper

instance : (item : Item) → Decidable item.Proper
  | .table made => inferInstanceAs (Decidable made.Proper)
  | .relations block => inferInstanceAs (Decidable block.Proper)

/-- The tables of a module, in the order of their declaration. -/
def tablesOf (items : List Item) : List TableDef :=
  items.filterMap fun
    | .table table => some table
    | .relations _ => none

/-- The blocks of relations of a module. -/
def blocksOf (items : List Item) : List BlockDef :=
  items.filterMap fun
    | .relations block => some block
    | .table _ => none

end SchemaReader.TableModule
