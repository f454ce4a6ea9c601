/-
The foreign keys and the relations of the schema of a text.

* `references_backed`: the invariants of drafts, read off the schema of a text of any source.
-/
import SchemaReader.Extraction
import SchemaReader.Proofs.Backing.ModelFile
import SchemaReader.Proofs.Backing.Script
import SchemaReader.Proofs.Backing.TableModule

namespace SchemaReader

/-- Every foreign key that a column of the schema of a text has runs along a relation of the
schema; and where the text is a model file or a script, every relation leaves a table of the
schema.  (The relation blocks of a table module may name variables that are no table.) -/
theorem references_backed (source : Source) (text : List Char) (rawPath : String) :
    (∀ t ∈ (Schema.ofText source text rawPath).tables, ∀ c ∈ t.columns, ∀ ref,
      c.references = some ref → ∃ r ∈ (Schema.ofText source text rawPath).relations,
        r.fromTable = t.name ∧ r.fromColumn = c.name ∧ r.toTable = ref.table) ∧
    (source = .prisma ∨ source = .sql →
      ∀ r ∈ (Schema.ofText source text rawPath).relations,
        ∃ t ∈ (Schema.ofText source text rawPath).tables, t.name = r.fromTable) := by
  cases source with
  | prisma =>
      have h := ModelFile.draft_backed_rooted (.ofText text)
      exact ⟨h.1, fun _ => h.2⟩
  | drizzle => exact ⟨TableModule.draft_backed (.ofText text), by simp⟩
  | sql =>
      have h := Ddl.draft_backed_rooted (.ofText text)
      exact ⟨h.1, fun _ => h.2⟩
  | unknown => exact ⟨by simp [Schema.ofText, Schema.ofTextNoted, Source.draft?, Schema.unknown],
      by simp⟩

end SchemaReader
