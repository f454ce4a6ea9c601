/-
What a schema keeps of all that was added to it.

* `Ddl.draft_distinct`, `ModelFile.draft_distinct`, `TableModule.draft_distinct`: the drafts of the
  three kinds of texts hold no two tables of one name and no two relations along one edge;
* `schema_runSteps`: of the tables of one name the last content is kept in the first place, and of
  the relations along one edge the first.
-/
import SchemaReader.Extraction
import SchemaReader.Proofs.Backing.ModelFile
import SchemaReader.Proofs.Backing.Script
import SchemaReader.Proofs.Schema.Runs

namespace SchemaReader

variable {d : Draft}

/-! ### Scripts -/

namespace Ddl

lemma distinct_addCreated (h : d.Distinct) (statement : Option CreateTable) :
    (addCreated d statement).Distinct := by
  cases statement with
  | none => exact h.note _
  | some statement => exact (((h.noteAll _).addRelations _).note _).addTable _

lemma distinct_createIndex (h : d.Distinct) (statement : CreateIndex) :
    (statement.addTo d).Distinct := by
  rw [statement.addTo_eq]
  exact h.amendTable _ (name_addNamedIndex _ _ _) _ _

lemma distinct_addForeignKey (h : d.Distinct) (statement : AddForeignKey) :
    (statement.addTo d).Distinct := by
  rw [statement.addTo_eq]
  exact h.amendTable _ (name_linkEdges _) _ _

lemma draft_distinct (script : Script) : script.draft.Distinct := by
  rw [Script.draft]
  refine List.foldlRecOn (motive := Draft.Distinct) script.foreignKeys _ ?_
    fun _ h statement _ => distinct_addForeignKey h statement
  refine List.foldlRecOn (motive := Draft.Distinct) script.indexes _ ?_
    fun _ h statement _ => distinct_createIndex h statement
  exact List.foldlRecOn (motive := Draft.Distinct) script.tables _ Draft.distinct_empty
    fun _ h statement _ => distinct_addCreated h statement

end Ddl

/-! ### Model files -/

namespace ModelFile

lemma distinct_addModel (declared : List String) (h : d.Distinct) (model : Option Model) :
    (addModel declared d model).Distinct := by
  cases model with
  | none => exact h.note _
  | some model => exact ((((h.noteAll _).addRelations _).noteAll _).note _).addTable _

lemma draft_distinct (contents : Contents) : contents.draft.Distinct :=
  List.foldlRecOn (motive := Draft.Distinct) contents.models _ Draft.distinct_empty
    fun _ h model _ => distinct_addModel contents.declared h model

end ModelFile

/-! ### Table modules -/

namespace TableModule

lemma distinct_addTo (contents : Contents) (h : d.Distinct) (call : TableCall) :
    (call.addTo contents d).Distinct := by
  refine Draft.Distinct.addTable (Draft.Distinct.note ?_ _) _
  refine List.foldlRecOn (motive := Draft.Distinct) call.entries _ h fun d h entry _ => ?_
  rw [Entry.addTo.eq_def]
  split
  · exact h.note _
  · exact h.addRelations _

lemma draft_distinct (contents : Contents) : contents.draft.Distinct := by
  refine Draft.Distinct.addRelations ?_ _
  exact List.foldlRecOn (motive := Draft.Distinct) contents.tables _
    (Draft.distinct_empty.noteAll _) fun _ h call _ => distinct_addTo contents h call

end TableModule

/-! ### Schemas -/

/-- The schema of a text holds no two tables of one name and no two relations along one edge. -/
lemma nodup_ofText (source : Source) (text : List Char) (rawPath : String) :
    ((Schema.ofText source text rawPath).tables.map Table.name).Nodup ∧
      ((Schema.ofText source text rawPath).relations.map Relation.edge).Nodup := by
  have hdraft : ∀ d ∈ source.draft? text, d.Distinct := by
    cases source with
    | prisma => rintro _ ⟨⟩; exact ModelFile.draft_distinct _
    | drizzle => rintro _ ⟨⟩; exact TableModule.draft_distinct _
    | sql => rintro _ ⟨⟩; exact Ddl.draft_distinct _
    | unknown => simp [Source.draft?]
  rw [Schema.ofText, Schema.ofTextNoted]
  cases hread : source.draft? text with
  | none => simp [Schema.unknown]
  | some d => exact ⟨(hdraft d hread).tables, (hdraft d hread).relations⟩

/-- What steps leave in a schema, for any steps from nothing on.  No two tables have one name, and
the names come in the order in which they were first added.  A table holds what was last added under
its name, with the changes made to it since then, and a change of one table changes no other table
and no relation.  Of the relations along one edge the first is kept, in order, and adding a relation
tells whether it is.  So no text of any source gives two tables of one name or two relations along
one edge. -/
theorem schema_runSteps (steps : List DraftStep) (source : Source) (rawPath : String) :
    (((runSteps steps).schema source rawPath).tables.map Table.name).Nodup ∧
    ((runSteps steps).schema source rawPath).tables.map Table.name
      = (firstBy Table.name (steps.filterMap DraftStep.added?)).map Table.name ∧
    (∀ before table after, steps = before ++ .addTable table :: after →
      (∀ t, .addTable t ∈ after → t.name ≠ table.name) →
        ((runSteps steps).schema source rawPath).table? table.name
          = some ((after.filterMap (DraftStep.editOf? table.name)).foldl TableEdit.applyTo table)) ∧
    (∀ name change,
      ((runSteps (steps ++ [.edit name change])).schema source rawPath).tables
        = (((runSteps steps).schema source rawPath).tables.map fun t =>
            if t.name = name then change.applyTo t else t) ∧
      ((runSteps (steps ++ [.edit name change])).schema source rawPath).relations
        = ((runSteps steps).schema source rawPath).relations) ∧
    ((runSteps steps).schema source rawPath).relations
      = firstBy Relation.edge (steps.filterMap DraftStep.relation?) ∧
    (∀ relation, ((runSteps steps).addRelation relation).2 = true
      ↔ relation.edge ∉ (steps.filterMap DraftStep.relation?).map Relation.edge) ∧
    ∀ text, ((Schema.ofText source text rawPath).tables.map Table.name).Nodup ∧
      ((Schema.ofText source text rawPath).relations.map Relation.edge).Nodup := by
  refine ⟨nodup_names_runSteps steps, names_runSteps steps, ?_, fun name change => ⟨?_, ?_⟩,
    relations_runSteps steps, addRelation_runSteps steps, fun text => nodup_ofText _ text _⟩
  · rintro before table after rfl hlast
    exact table?_runSteps before table hlast
  · exact tables_edit steps name change
  · simp [Draft.schema, DraftStep.applyTo]

/-- A table that is added, changed, replaced and changed again, with another table and one of its
relations in between. -/
theorem schema_runSteps_replaced :
    ((runSteps [.addTable (.empty "b"), .edit "b" (.addColumn ⟨"old", "INT", true, false, none⟩),
        .addTable (.empty "a"), .addTable (.empty "b"),
        .edit "b" (.addColumn ⟨"id", "INT", true, false, none⟩),
        .edit "b" (.markPrimaryKey ["id"])]).schema .sql "x.sql").table? "b"
      = some ⟨"b", [⟨"id", "INT", true, true, none⟩], []⟩ := by
  refine (schema_runSteps _ .sql "x.sql").2.2.1 [.addTable (.empty "b"),
    .edit "b" (.addColumn ⟨"old", "INT", true, false, none⟩), .addTable (.empty "a")] (.empty "b")
    [.edit "b" (.addColumn ⟨"id", "INT", true, false, none⟩), .edit "b" (.markPrimaryKey ["id"])]
    rfl ?_
  simp

end SchemaReader
