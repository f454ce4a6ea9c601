/-
The draft of a model file.

* `relations_draft`: the relations of a model file are the first along their edges of those of its
  closed models;
* `tables_draft_of_nodup`, `mem_relations_draft_of_nodup`: where the names of the closed models
  differ, the tables are those of the models in order, and the relations are for each model the
  first of its own.
-/
import SchemaReader.Proofs.Schema.GivenAt
import SchemaReader.Proofs.Schema.LastDeclared
import SchemaReader.Proofs.TableModule.Draft

namespace SchemaReader.ModelFile

variable {d : Draft} {rs : List Relation} {contents : Contents}

/-! ### Relations -/

lemma records_addModel (declared : List String) (h : d.Records rs) (model : Option Model) :
    (addModel declared d model).Records
      (rs ++ model.toList.flatMap (Model.relations declared)) := by
  cases model with
  | none => simpa [addModel, Draft.Records] using h
  | some model =>
      have hnoted : (d.noteAll model.fieldNotices).Records rs := by simpa [Draft.Records] using h
      simpa [addModel, Model.addTo, Draft.Records] using hnoted.addRelations
        (model.relations declared)

/-- The relations of a model file are the first along their edges of those of its models. -/
theorem relations_draft (contents : Contents) : contents.draft.relations = firstBy Relation.edge
    (contents.models.reduceOption.flatMap (Model.relations contents.declared)) := by
  have hmodels : ∀ (models : List (Option Model)) {d : Draft} {rs : List Relation}, d.Records rs →
      (models.foldl (addModel contents.declared) d).Records
        (rs ++ models.reduceOption.flatMap (Model.relations contents.declared)) := by
    intro models
    induction models with
    | nil => exact fun h => by simpa using h
    | cons model models ih =>
        intro d rs h
        have hmore := ih (records_addModel contents.declared h model)
        cases model <;> simpa [List.reduceOption_cons_of_none,
          List.reduceOption_cons_of_some] using hmore
  have hempty : Draft.empty.Records [] := by simp [Draft.Records, Draft.empty, firstBy]
  simpa [Contents.draft, Draft.Records] using hmodels contents.models hempty

/-- Where the names of models differ, no model takes the edge of a relation of another one: the
relations of a model file are for each model the first of its own. -/
theorem mem_relations_draft_of_nodup (h : (contents.models.reduceOption.map Model.name).Nodup)
    {r : Relation} : r ∈ contents.draft.relations ↔ ∃ model ∈ contents.models.reduceOption,
      r ∈ firstBy Relation.edge (model.relations contents.declared) := by
  rw [relations_draft, mem_firstBy_iff, List.find?_flatMap]
  simp only [mem_firstBy_iff]
  constructor
  · intro hfind
    obtain ⟨before, model, after, hmodels, hmodel, -⟩ := List.findSome?_eq_some_iff.mp hfind
    exact ⟨model, by simp [hmodels], hmodel⟩
  · rintro ⟨model, hmem, hmodel⟩
    obtain ⟨before, after, hmodels⟩ := List.append_of_mem hmem
    refine List.findSome?_eq_some_iff.mpr ⟨before, model, after, hmodels, hmodel,
      fun other hother => ?_⟩
    have hnames : other.name ≠ model.name := by
      rw [hmodels, List.map_append] at h
      exact (List.nodup_append.mp h).2.2 _ (List.mem_map_of_mem hother) _ (by simp)
    refine List.find?_eq_none.mpr fun c hc hedge => hnames ?_
    have hsame : c.edge = r.edge := by simpa using hedge
    have hfrom : c.fromTable = r.fromTable := congrArg Prod.fst hsame
    rw [← fromTable_of_mem_relations hc, hfrom,
      fromTable_of_mem_relations (List.mem_of_find?_eq_some hmodel)]

/-! ### Tables -/

/-- Where the names of models differ, the tables of a model file are those of its models in
order. -/
theorem tables_draft_of_nodup (h : (contents.models.reduceOption.map Model.name).Nodup) :
    contents.draft.tables = contents.tables := by
  have hmodels : ∀ (models : List (Option Model)) (d : Draft),
      (d.tables.map Table.name ++ models.reduceOption.map Model.name).Nodup →
      (models.foldl (addModel contents.declared) d).tables
        = d.tables ++ models.reduceOption.map (Model.table contents.declared) := by
    intro models
    induction models with
    | nil => simp
    | cons model models ih =>
        intro d hd
        cases model with
        | none => exact ih (d.note .unterminatedModel) hd
        | some model =>
            rw [List.reduceOption_cons_of_some, List.map_cons] at hd
            have hfresh : ∀ t ∈ d.tables, t.name ≠ (model.table contents.declared).name := by
              intro t ht
              rw [name_table]
              exact (List.nodup_append.mp hd).2.2 _ (List.mem_map_of_mem ht) _ (by simp)
            have htables : (addModel contents.declared d (some model)).tables
                = d.tables ++ [model.table contents.declared] := by
              simp [addModel, Model.addTo, putTable_of_fresh hfresh]
            rw [List.foldl_cons, ih _ (by simpa [htables] using hd), htables,
              List.reduceOption_cons_of_some, List.map_cons, List.append_assoc,
              List.singleton_append]
  simpa [Contents.draft, Draft.empty, Contents.tables] using hmodels contents.models .empty h

end SchemaReader.ModelFile
