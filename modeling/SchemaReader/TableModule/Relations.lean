/-
Relation blocks of a table module.

* `Target`: one relation of a block, to one or to many rows of another table;
* `RelationBlock`: the relations of a table; `relationBlocks` finds the blocks of a text.
-/
import SchemaReader.TableModule.Call

namespace SchemaReader.TableModule

open SchemaReader.Pattern (blanks lit char)

/-- One relation of a block. -/
inductive Target where
  /-- To many rows of the table of a variable. -/
  | many (binding : List Char)
  /-- To one row of the table of a variable, along no stated columns. -/
  | one (binding : List Char)
  /-- To one row of the table of a variable, along pairs of columns. -/
  | oneAlong (binding : List Char) (pairs : List (String × String))
  deriving DecidableEq, Repr

/-- The relations of a table. -/
structure RelationBlock where
  /-- The variable of the table. -/
  binding : List Char
  targets : List Target
  deriving DecidableEq, Repr

/-- One relation up to its parenthesis; group 1 tells one from many. -/
def targetHead : Pattern :=
  .wordEdge ++ .group 1 (lit "one" ||| lit "many") ++ blanks ++ char '('

/-- The names in a named argument that is a list, if it is there. -/
def listedIn (name : String) (arguments : List Char) : List String :=
  match (listArgument name).find? arguments with
  | some found => columnNames (found.group 1)
  | none => []

/-- Reads the arguments of one relation. -/
def Target.ofArguments? (isMany : Bool) (arguments : List (List Char)) : Option Target :=
  match arguments with
  | [] => none
  | binding :: rest =>
    if isMany then some (.many binding)
    else match rest with
      | [] => some (.one binding)
      | options :: _ =>
        some (.oneAlong binding ((listedIn "fields" options).zip (listedIn "references" options)))

/-- The relation of a match of `targetHead`. -/
def Target.ofMatch? (found : Match) : Option Target :=
  (argumentsAfter? found).bind fun arguments =>
    Target.ofArguments? (found.group 1 == ['m', 'a', 'n', 'y']) (splitTopLevel .code ',' arguments)

/-- A block up to its parenthesis. -/
def blockHead : Pattern := .wordEdge ++ lit "relations" ++ blanks ++ char '('

/-- The block of a match of `blockHead`. -/
def RelationBlock.ofMatch? (found : Match) : Option RelationBlock :=
  (argumentsAfter? found).bind fun arguments =>
    match splitTopLevel .code ',' arguments with
    | binding :: body :: _ =>
      some ⟨binding, (targetHead.findAll body).filterMap Target.ofMatch?⟩
    | _ => none

/-- The relation blocks of a text without comments. -/
def relationBlocks (text : List Char) : List RelationBlock :=
  (blockHead.findAll text).filterMap RelationBlock.ofMatch?

end SchemaReader.TableModule
