/-
Data definition scripts as they are written.

* `IsName`: a plain ASCII name that is none of the words with a meaning of their own;
* `Ordinary`: the pieces of a script other than types;
* `ColumnDef`, `Clause`, `TableDef`, `Statement`: the parts of a script, each with its `pieces` and
  with what it is read as;
* `Statement.Proper`: names are names and types are types.
-/
import SchemaReader.Ddl.Script
import SchemaReader.Proofs.Ddl.Columns
import SchemaReader.Proofs.Lexical.Lists

namespace SchemaReader.Ddl

open Text (IsWord IsGap IsKeyword Spells Stops isWordChar isBlank)

/-! ### Names -/

/-- The words of the forms, the first words of constraints and the names of types. -/
def reservedWords : List String :=
  ["CREATE", "GLOBAL", "LOCAL", "TEMPORARY", "TEMP", "UNLOGGED", "TABLE", "IF", "NOT", "EXISTS",
   "NULL", "USING", "CONCURRENTLY", "ON", "ONLY", "REFERENCES", "ALTER", "ADD", "PRECISION",
   "VARYING", "WITH", "OUT", "ZONE"] ++ constraintWords ++ typeNames

/-- A plain name: an ASCII word that is none of the reserved ones. -/
structure IsName (name : String) : Prop where
  isWord : IsWord name.toList
  ascii : ∀ c ∈ name.toList, c.toNat < 128
  free : String.ofList (Text.upper name.toList) ∉ reservedWords

instance (name : String) : Decidable (IsName name) :=
  decidable_of_iff (IsWord name.toList ∧ (∀ c ∈ name.toList, c.toNat < 128) ∧
      String.ofList (Text.upper name.toList) ∉ reservedWords)
    ⟨fun h => ⟨h.1, h.2.1, h.2.2⟩, fun h => ⟨h.1, h.2, h.3⟩⟩

lemma IsName.not_spells {name : String} (h : IsName name) {K : String} (hK : K ∈ reservedWords) :
    ¬ Spells K.toList name.toList := by
  intro hspells
  refine h.free ?_
  rw [hspells.upper_eq h.ascii, String.ofList_toList]
  exact hK

/-! ### Ordinary pieces -/

/-- The signs of a script. -/
def scriptSigns : List Char := ['(', ')', ',', ';']

/-- The pieces of a script other than types: keywords, names and signs. -/
inductive Ordinary : Piece → Prop
  | keyword {K : String} : IsKeyword K.toList → Ordinary (.keyword K)
  | name {name : String} : IsName name → Ordinary (.name name)
  | sign {c : Char} : c ∈ scriptSigns → Ordinary (.sign c)

lemma not_isWordChar_of_mem_scriptSigns {c : Char} (h : c ∈ scriptSigns) :
    isWordChar c = false := by
  have hall : ∀ c ∈ scriptSigns, isWordChar c = false := by decide
  exact hall c h

/-- An ordinary piece avoids every reserved word that it is not itself. -/
lemma Ordinary.avoids {piece : Piece} (h : Ordinary piece) {K : String} (hK : IsKeyword K.toList)
    (hreserved : K ∈ reservedWords) (hne : piece ≠ .keyword K) : piece.Avoids K := by
  cases h with
  | keyword hL => exact Piece.keyword_avoids hK hL fun hKL => hne (hKL ▸ rfl)
  | name hname =>
      rintro s rfl
      exact Or.inl ⟨hname.isWord, hname.not_spells hreserved⟩
  | sign hc => exact Piece.sign_avoids (not_isWordChar_of_mem_scriptSigns hc)

/-- The ways to write an ordinary piece: words, and single signs. -/
lemma Ordinary.isWord_or_sign {piece : Piece} (h : Ordinary piece) {s : List Char}
    (hs : piece.Spelled s) : IsWord s ∨ ∃ c ∈ scriptSigns, s = [c] := by
  cases h with
  | keyword hK => exact Or.inl (Piece.isWord_of_spelled_keyword hK hs)
  | name hname => exact Or.inl (Piece.isWord_of_spelled_name hname.isWord hs)
  | sign hc => exact Or.inr ⟨_, hc, hs⟩

lemma Ordinary.solid {piece : Piece} (h : Ordinary piece) : piece.Solid := by
  intro s hs
  rcases h.isWord_or_sign hs with hw | ⟨c, hc, rfl⟩
  · have hsolid : (Piece.verbatim s).Solid := solid_of_isWord fun _ ht => ht ▸ hw
    exact hsolid s rfl
  · have hblank : ∀ c ∈ scriptSigns, isBlank c = false := by decide
    exact ⟨by simp, by simpa using hblank c hc, by simpa using hblank c hc⟩

/-! ### Foreign keys -/

/-- A foreign key with both lists of columns. -/
structure KeyDef where
  columns : List String
  table : String
  targets : List String
  deriving DecidableEq, Repr

/-- `FOREIGN KEY (columns) REFERENCES table (targets)`. -/
def KeyDef.pieces (key : KeyDef) : List Piece :=
  [.keyword "FOREIGN", .keyword "KEY"] ++ (parenthesized (namePieces key.columns) ++
    ([.keyword "REFERENCES", .name key.table] ++ parenthesized (namePieces key.targets)))

/-- What a foreign key is read as. -/
def KeyDef.key (key : KeyDef) : ForeignKey := ⟨key.columns, key.table, some key.targets⟩

/-- The columns that point, each with what it points at. -/
def KeyDef.pairs (key : KeyDef) : List (String × Reference) :=
  (key.columns.zip key.targets).map fun pair => (pair.1, ⟨key.table, pair.2⟩)

structure KeyDef.Proper (key : KeyDef) : Prop where
  columns : ∀ name ∈ key.columns, IsName name
  table : IsName key.table
  targets : ∀ name ∈ key.targets, IsName name

instance (key : KeyDef) : Decidable key.Proper :=
  decidable_of_iff ((∀ name ∈ key.columns, IsName name) ∧ IsName key.table ∧
      ∀ name ∈ key.targets, IsName name)
    ⟨fun h => ⟨h.1, h.2.1, h.2.2⟩, fun h => ⟨h.1, h.2, h.3⟩⟩

/-- The name of a constraint, if it has one. -/
def constraintPieces (name : Option String) : List Piece :=
  name.toList.flatMap fun name => [.keyword "CONSTRAINT", .name name]

/-! ### Columns -/

/-- An option of a column. -/
inductive ColumnOption where
  | notNull
  | primaryKey
  | unique
  | references (table column : String)
  deriving DecidableEq, Repr

/-- An option as it is written. -/
def ColumnOption.pieces : ColumnOption → List Piece
  | .notNull => [.keyword "NOT", .keyword "NULL"]
  | .primaryKey => [.keyword "PRIMARY", .keyword "KEY"]
  | .unique => [.keyword "UNIQUE"]
  | .references table column =>
      [.keyword "REFERENCES", .name table] ++ parenthesized [.name column]

/-- What an option points at. -/
def ColumnOption.target? : ColumnOption → Option Reference
  | .references table column => some ⟨table, column⟩
  | _ => none

def ColumnOption.Proper : ColumnOption → Prop
  | .references table column => IsName table ∧ IsName column
  | _ => True

instance : (option : ColumnOption) → Decidable option.Proper
  | .references table column => inferInstanceAs (Decidable (IsName table ∧ IsName column))
  | .notNull | .primaryKey | .unique => isTrue trivial

/-- A column with its options, in any order. -/
structure ColumnDef where
  name : String
  type : ColumnType
  options : List ColumnOption
  deriving DecidableEq, Repr

def ColumnDef.pieces (column : ColumnDef) : List Piece :=
  .name column.name :: .verbatim column.type.text :: column.options.flatMap ColumnOption.pieces

/-- What a column is read as. -/
def ColumnDef.entry (column : ColumnDef) : ColumnEntry := {
  name := column.name
  type := String.ofList column.type.text
  nullable := !column.options.contains .notNull
  primaryKey := column.options.contains .primaryKey
  unique := column.options.contains .unique
  references := (column.options.findSome? ColumnOption.target?).map fun target =>
    ⟨[column.name], target.table, some [target.column]⟩ }

structure ColumnDef.Proper (column : ColumnDef) : Prop where
  name : IsName column.name
  type : column.type.Proper
  options : ∀ option ∈ column.options, option.Proper

instance (column : ColumnDef) : Decidable column.Proper :=
  decidable_of_iff (IsName column.name ∧ column.type.Proper ∧
      ∀ option ∈ column.options, option.Proper)
    ⟨fun h => ⟨h.1, h.2.1, h.2.2⟩, fun h => ⟨h.1, h.2, h.3⟩⟩

/-! ### Clauses -/

/-- A clause of a created table. -/
inductive Clause where
  | primaryKey (columns : List String)
  | unique (name : Option String) (columns : List String)
  /-- An index, under the word `KEY` or the word `INDEX`. -/
  | index (asKey : Bool) (name : Option String) (columns : List String)
  | foreignKey (name : Option String) (key : KeyDef)
  deriving DecidableEq, Repr

/-- The optional name of an index and the list of its columns. -/
def indexPieces (name : Option String) (columns : List String) : List Piece :=
  name.toList.map Piece.name ++ parenthesized (namePieces columns)

/-- A clause as it is written. -/
def Clause.pieces : Clause → List Piece
  | .primaryKey columns =>
      [.keyword "PRIMARY", .keyword "KEY"] ++ parenthesized (namePieces columns)
  | .unique name columns => .keyword "UNIQUE" :: indexPieces name columns
  | .index asKey name columns =>
      .keyword (if asKey then "KEY" else "INDEX") :: indexPieces name columns
  | .foreignKey name key => constraintPieces name ++ key.pieces

/-- What a clause is read as. -/
def Clause.entry : Clause → TableEntry
  | .primaryKey columns => .primaryKey columns
  | .unique name columns => .unique name columns
  | .index _ name columns => .index name columns
  | .foreignKey _ key => .foreignKey key.key

def Clause.Proper : Clause → Prop
  | .primaryKey columns => ∀ name ∈ columns, IsName name
  | .unique name columns | .index _ name columns =>
      (∀ n ∈ name, IsName n) ∧ ∀ name ∈ columns, IsName name
  | .foreignKey name key => (∀ n ∈ name, IsName n) ∧ key.Proper

instance : (clause : Clause) → Decidable clause.Proper
  | .primaryKey columns => inferInstanceAs (Decidable (∀ name ∈ columns, IsName name))
  | .unique name columns | .index _ name columns =>
      inferInstanceAs (Decidable ((∀ n ∈ name, IsName n) ∧ ∀ name ∈ columns, IsName name))
  | .foreignKey name key => inferInstanceAs (Decidable ((∀ n ∈ name, IsName n) ∧ key.Proper))

/-! ### Statements -/

/-- A created table, its columns before its clauses. -/
structure TableDef where
  name : String
  columns : List ColumnDef
  clauses : List Clause
  deriving DecidableEq, Repr

/-- The columns and clauses: the pieces of each, and what it is read as. -/
def TableDef.items (table : TableDef) : List (List Piece × TableEntry) :=
  table.columns.map (fun column => (column.pieces, .column column.entry)) ++
    table.clauses.map fun clause => (clause.pieces, clause.entry)

/-- What a created table is read as. -/
def TableDef.created (table : TableDef) : CreateTable :=
  ⟨table.name, table.items.map Prod.snd⟩

structure TableDef.Proper (table : TableDef) : Prop where
  name : IsName table.name
  columns : ∀ column ∈ table.columns, column.Proper
  clauses : ∀ clause ∈ table.clauses, clause.Proper

instance (table : TableDef) : Decidable table.Proper :=
  decidable_of_iff (IsName table.name ∧ (∀ column ∈ table.columns, column.Proper) ∧
      ∀ clause ∈ table.clauses, clause.Proper)
    ⟨fun h => ⟨h.1, h.2.1, h.2.2⟩, fun h => ⟨h.1, h.2, h.3⟩⟩

/-- What holds of proper columns and of proper clauses holds of all that a created table lists. -/
lemma TableDef.Proper.forall_mem_items {table : TableDef} {p : List Piece × TableEntry → Prop}
    (h : table.Proper)
    (hcolumn : ∀ column : ColumnDef, column.Proper → p (column.pieces, .column column.entry))
    (hclause : ∀ clause : Clause, clause.Proper → p (clause.pieces, clause.entry)) :
    ∀ item ∈ table.items, p item := by
  rw [TableDef.items, List.forall_mem_append, List.forall_mem_map, List.forall_mem_map]
  exact ⟨fun column hmem => hcolumn column (h.columns column hmem),
    fun clause hmem => hclause clause (h.clauses clause hmem)⟩

/-- A statement of a script. -/
inductive Statement where
  | createTable (table : TableDef)
  | createIndex (unique : Bool) (name table : String) (columns : List String)
  /-- A foreign key added to a table, with the name of the constraint, if it has one. -/
  | addForeignKey (table : String) (name : Option String) (key : KeyDef)
  deriving DecidableEq, Repr

/-- A statement as it is written, up to its semicolon. -/
def Statement.pieces : Statement → List Piece
  | .createTable table =>
      [.keyword "CREATE", .keyword "TABLE", .name table.name] ++
        parenthesized (separated (table.items.map Prod.fst)) ++ [.sign ';']
  | .createIndex unique name table columns =>
      .keyword "CREATE" :: (if unique then [.keyword "UNIQUE"] else []) ++
        [.keyword "INDEX", .name name, .keyword "ON", .name table] ++
          parenthesized (namePieces columns) ++ [.sign ';']
  | .addForeignKey table name key =>
      [.keyword "ALTER", .keyword "TABLE", .name table, .keyword "ADD"] ++
        constraintPieces name ++ key.pieces ++ [.sign ';']

def Statement.Proper : Statement → Prop
  | .createTable table => table.Proper
  | .createIndex _ name table columns =>
      IsName name ∧ IsName table ∧ ∀ name ∈ columns, IsName name
  | .addForeignKey table name key => IsName table ∧ (∀ n ∈ name, IsName n) ∧ key.Proper

instance : (statement : Statement) → Decidable statement.Proper
  | .createTable table => inferInstanceAs (Decidable table.Proper)
  | .createIndex _ name table columns =>
      inferInstanceAs (Decidable (IsName name ∧ IsName table ∧ ∀ name ∈ columns, IsName name))
  | .addForeignKey table name key =>
      inferInstanceAs (Decidable (IsName table ∧ (∀ n ∈ name, IsName n) ∧ key.Proper))

/-- The table that a statement creates. -/
def Statement.created? : Statement → Option CreateTable
  | .createTable table => some table.created
  | _ => none

/-- The index that a statement creates. -/
def Statement.index? : Statement → Option CreateIndex
  | .createIndex unique name table columns => some ⟨table, some name, columns, unique⟩
  | _ => none

/-- The foreign key that a statement adds. -/
def Statement.added? : Statement → Option AddForeignKey
  | .addForeignKey table _ key => some ⟨table, key.key⟩
  | _ => none

/-- What a script is read as: its statements, kind by kind. -/
def scriptOf (statements : List Statement) : Script := {
  tables := (statements.filterMap Statement.created?).map some
  indexes := statements.filterMap Statement.index?
  foreignKeys := statements.filterMap Statement.added? }

end SchemaReader.Ddl
