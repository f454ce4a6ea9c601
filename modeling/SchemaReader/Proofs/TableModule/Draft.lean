/-
The draft of a table module.

* `relations_draft`: the relations of a table module are the first of those of its columns and of
  its blocks;
* `tables_draft`, `tables_draft_of_nodup`: its tables, which are those of its calls if their names
  differ;
* `tableOf_binding`: where variables differ, each stands for its own table;
* `tables_draft_of_calls_eq`, `relations_draft_of_calls_eq`: what further blocks change.
-/
import SchemaReader.Proofs.Backing.TableModule
import SchemaReader.Proofs.Schema.Runs
import SchemaReader.Proofs.Text.Trim
import SchemaReader.Proofs.Text.Words

namespace SchemaReader

variable {d : Draft} {rs : List Relation}

namespace TableModule

variable {contents contents' : Contents} {call : TableCall}

/-- The relations of the columns of a table call. -/
def TableCall.relations (contents : Contents) (call : TableCall) : List Relation :=
  call.entries.filterMap (Entry.relation? contents call.name)

lemma records_entry (contents : Contents) (table : String) (entry : Entry) (h : d.Records rs) :
    (entry.addTo contents table d).Records (rs ++ (entry.relation? contents table).toList) := by
  cases entry with
  | column entry => exact h.addRelations _
  | unterminated => exact h.addRelations _
  | unrecognized => simpa [Entry.addTo, Entry.relation?, Draft.Records] using h

lemma records_addTo (contents : Contents) (call : TableCall) (h : d.Records rs) :
    (call.addTo contents d).Records (rs ++ call.relations contents) := by
  have hentries : ∀ (entries : List Entry) {d : Draft} {rs : List Relation}, d.Records rs →
      (entries.foldl (Entry.addTo contents call.name) d).Records
        (rs ++ entries.filterMap (Entry.relation? contents call.name)) := by
    intro entries
    induction entries with
    | nil => exact fun h => by simpa using h
    | cons entry entries ih =>
        intro d rs h
        have hmore := ih (records_entry contents call.name entry h)
        cases hentry : entry.relation? contents call.name <;> simpa [hentry] using hmore
  exact hentries call.entries h

/-- The relations of a table module are the first along their edges of those of its columns and of
its blocks. -/
theorem relations_draft (contents : Contents) : contents.draft.relations
    = firstBy Relation.edge (contents.tables.flatMap (TableCall.relations contents) ++
        contents.blocks.flatMap (RelationBlock.relations contents)) := by
  have hcalls : ∀ (calls : List TableCall) {d : Draft} {rs : List Relation}, d.Records rs →
      (calls.foldl (TableCall.addTo contents) d).Records
        (rs ++ calls.flatMap (TableCall.relations contents)) := by
    intro calls
    induction calls with
    | nil => exact fun h => by simpa using h
    | cons call calls ih => exact fun h => by simpa using ih (records_addTo contents call h)
  have hempty : (Draft.empty.noteAll contents.faults).Records [] := by
    simp [Draft.Records, Draft.empty, firstBy]
  simpa [Contents.draft, Draft.Records] using (hcalls contents.tables hempty).addRelations _

/-- The tables of a module, each put in after the ones before. -/
lemma tables_draft (contents : Contents) : contents.draft.tables
    = (contents.tables.map (TableCall.table contents)).foldl (fun ts t => putTable t ts) [] := by
  have hcalls : ∀ (calls : List TableCall) (d : Draft),
      (calls.foldl (TableCall.addTo contents) d).tables
      = (calls.map (TableCall.table contents)).foldl (fun ts t => putTable t ts) d.tables := by
    intro calls
    induction calls with
    | nil => exact fun _ => rfl
    | cons call calls ih =>
        intro d
        rw [List.foldl_cons, ih, List.map_cons, List.foldl_cons]
        simp [TableCall.addTo, (relations_entries contents call.name call.entries d).1]
  simp [Contents.draft, hcalls, Draft.empty]

/-- The tables of a table module, if their names differ. -/
theorem tables_draft_of_nodup (h : (contents.tables.map TableCall.name).Nodup) :
    contents.draft.tables = contents.tables.map (TableCall.table contents) := by
  have hstep : ∀ (d : Draft) (call : TableCall), (call.addTo contents d).tables
      = putTable (call.table contents) d.tables := by
    intro d call
    simp [TableCall.addTo, (relations_entries contents call.name call.entries d).1]
  have htables := tables_foldl_of_nodup hstep contents.tables (Draft.empty.noteAll contents.faults)
    (by simpa [Draft.empty, Function.comp_def] using h)
  simpa [Contents.draft, Draft.empty] using htables

/-! ### Variables -/

lemma find?_eq_some_iff_of_nodup {α κ : Type} [BEq κ] [LawfulBEq κ] {key : α → κ} {xs : List α}
    {x : α} (h : (xs.map key).Nodup) (k : κ) :
    (xs.find? fun y => key y == k) = some x ↔ x ∈ xs ∧ key x = k := by
  induction xs with
  | nil => simp
  | cons y xs ih =>
      rw [List.map_cons, List.nodup_cons] at h
      by_cases hy : key y = k
      · have hother : x ∈ xs → key x ≠ k := fun hx hk => h.1 (hy ▸ hk ▸ List.mem_map_of_mem hx)
        simp only [List.find?_cons, hy, beq_self_eq_true, Option.some.injEq, List.mem_cons]
        constructor
        · rintro rfl
          exact ⟨Or.inl rfl, hy⟩
        · rintro ⟨rfl | hx, hk⟩
          · rfl
          · exact absurd hk (hother hx)
      · have hbeq : (key y == k) = false := by simpa using hy
        rw [List.find?_cons, hbeq, ih h.2, List.mem_cons]
        constructor
        · exact fun hx => ⟨Or.inr hx.1, hx.2⟩
        · rintro ⟨rfl | hx, hk⟩
          · exact absurd hk hy
          · exact ⟨hx, hk⟩

/-- Where variables differ, each stands for its own table. -/
lemma tableOf_binding (h : (contents.tables.map TableCall.binding).Nodup)
    (hcall : call ∈ contents.tables) : contents.tableOf call.binding = call.name := by
  have hreverse : (contents.tables.reverse.map TableCall.binding).Nodup := by
    rw [List.map_reverse]
    exact List.nodup_reverse.mpr h
  have hfind : (contents.tables.reverse.find? fun c => c.binding == call.binding) = some call :=
    (find?_eq_some_iff_of_nodup hreverse call.binding).mpr ⟨List.mem_reverse.mpr hcall, rfl⟩
  rw [Contents.tableOf, hfind]

/-- A variable is written without white space around it. -/
lemma tableOfText_toList {binding : String} (hbinding : Text.IsWord binding.toList) :
    contents.tableOfText binding.toList = contents.tableOf binding := by
  have htrim : Text.trim binding.toList = binding.toList := Text.trimWhere_self
    (by simpa using hbinding.stops_isBlank [])
    (hbinding.stops_reverse fun _ => Text.not_isBlank_of_isWordChar)
  rw [Contents.tableOfText, htrim, String.ofList_toList]

/-! ### Blocks -/

/-- The tables do not depend on the blocks. -/
lemma tables_draft_of_calls_eq (h : contents'.calls = contents.calls) :
    contents'.draft.tables = contents.draft.tables := by
  obtain ⟨calls, blocks⟩ := contents
  obtain ⟨_, blocks'⟩ := contents'
  obtain rfl := h
  simp only [Contents.draft, tables_addRelations]
  rfl

/-- The relations of further blocks come behind the others. -/
lemma relations_draft_of_calls_eq (h : contents'.calls = contents.calls) {added : List Relation}
    (hblocks : contents'.blocks.flatMap (RelationBlock.relations contents)
      = contents.blocks.flatMap (RelationBlock.relations contents) ++ added) :
    contents'.draft.relations = firstBy Relation.edge
      (contents.tables.flatMap (TableCall.relations contents) ++
        contents.blocks.flatMap (RelationBlock.relations contents) ++ added) := by
  obtain ⟨calls, blocks⟩ := contents
  obtain ⟨_, blocks'⟩ := contents'
  obtain rfl := h
  rw [relations_draft, List.append_assoc, ← hblocks]
  rfl

end TableModule

end SchemaReader
