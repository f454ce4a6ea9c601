/-
Scripts put together.

* `Findings`, `Scanned`: what the scans of a text for the three kinds of statements come upon, and
  `Scanned.ofStripped`: the script of the text consists of that;
* `Scanned.append`, `Scanned.skip`: the scans of two texts put together, and of a text in whose
  beginning no statement does;
* `ofStripped_append_line`: the script of two texts with a line feed between them consists of the
  two scripts, if no statement goes on from the first text into the second;
* `exists_ofStripped_before`, `ofStripped_append_behind`: texts before and behind a script that
  leave its statements as they are.
-/
import SchemaReader.Proofs.Ddl.Borders

namespace SchemaReader.Ddl

open Text (Stops Mentions isWordChar)
open Pattern

variable {before before' u next text : List Char} {q : Pattern}

/-! ### The scans of a text -/

/-- What the scans for the three kinds of statements come upon: the text behind each match, and its
captures. -/
structure Findings where
  tables : List (List Char × Captures)
  indexes : List (List Char × Captures)
  foreignKeys : List (List Char × Captures)

/-- The scans of a text behind another one come upon the findings. -/
structure Scanned (before text : List Char) (found : Findings) : Prop where
  tables : Finds createTableHead before text found.tables
  indexes : Finds createIndexHead before text found.indexes
  foreignKeys : Finds addForeignKeyForm before text found.foreignKeys

namespace Findings

variable {found found₁ found₂ : Findings}

/-- The statements that are found. -/
def script (found : Findings) : Script where
  tables := found.tables.map fun yield => CreateTable.ofMatch? (matchOf yield)
  indexes := found.indexes.filterMap fun yield => CreateIndex.ofMatch? (matchOf yield)
  foreignKeys := found.foreignKeys.map fun yield => AddForeignKey.ofMatch (matchOf yield)

/-- The same findings with a text added behind. -/
def extend (next : List Char) (found : Findings) : Findings where
  tables := Pattern.extend next found.tables
  indexes := Pattern.extend next found.indexes
  foreignKeys := Pattern.extend next found.foreignKeys

/-- Findings and those behind them. -/
def append (found₁ found₂ : Findings) : Findings where
  tables := found₁.tables ++ found₂.tables
  indexes := found₁.indexes ++ found₂.indexes
  foreignKeys := found₁.foreignKeys ++ found₂.foreignKeys

/-- The lists of the tables and indexes that are found are closed. -/
def Closed (found : Findings) : Prop :=
  ∀ yield ∈ found.tables ++ found.indexes, (enclosed? .script yield.1).isSome = true

/-- A list that is closed does not depend on the text behind it. -/
lemma listAfter?_matchOf {v : List Char} (caught : Captures)
    (h : (enclosed? .script v).isSome = true) (next : List Char) :
    listAfter? (matchOf (v ++ next, caught)) = listAfter? (matchOf (v, caught)) :=
  map_enclosed?_append h next

/-- Statements whose lists are closed do not depend on the text behind them. -/
theorem script_extend (h : found.Closed) (next : List Char) :
    (found.extend next).script = found.script := by
  have hlist : ∀ yield ∈ found.tables ++ found.indexes,
      listAfter? (matchOf (yield.1 ++ next, yield.2)) = listAfter? (matchOf yield) :=
    fun yield hyield => listAfter?_matchOf yield.2 (h yield hyield) next
  rw [List.forall_mem_append] at hlist
  simp only [script, extend, Pattern.extend, List.map_map, List.filterMap_map, Script.mk.injEq]
  refine ⟨List.map_congr_left fun yield hyield => ?_,
    List.filterMap_congr fun yield hyield => ?_, rfl⟩
  · simp only [Function.comp_apply, CreateTable.ofMatch?, hlist.1 yield hyield]
    rfl
  · simp only [Function.comp_apply, CreateIndex.ofMatch?, hlist.2 yield hyield]
    rfl

end Findings

/-- A script and the statements of another one behind its own, kind by kind. -/
def Script.append (script other : Script) : Script where
  tables := script.tables ++ other.tables
  indexes := script.indexes ++ other.indexes
  foreignKeys := script.foreignKeys ++ other.foreignKeys

lemma Findings.script_append (found₁ found₂ : Findings) :
    (found₁.append found₂).script = found₁.script.append found₂.script := by
  simp [Findings.script, Findings.append, Script.append]

lemma exists_scanned (before text : List Char) : ∃ found, Scanned before text found := by
  have hscan : ∀ q ∈ heads, ∃ found, Finds q before text found := fun q hq =>
    Pattern.exists_finds (nullable_of_mem_heads hq) before text
  obtain ⟨tables, htables⟩ := hscan _ createTableHead_mem_heads
  obtain ⟨indexes, hindexes⟩ := hscan _ createIndexHead_mem_heads
  obtain ⟨keys, hkeys⟩ := hscan _ addForeignKeyForm_mem_heads
  exact ⟨⟨tables, indexes, keys⟩, htables, hindexes, hkeys⟩

/-- Every list that a created table or index opens in a text is closed there. -/
def ClosesLists (text : List Char) : Prop :=
  ∀ q ∈ [createTableHead, createIndexHead], ∀ v w rest, text = v ++ (w ++ rest) →
    q.Reads v.reverse w rest → (enclosed? .script rest).isSome = true

lemma closesLists_of_closesParens (h : ClosesParens u) : ClosesLists u := by
  intro q hq v w rest htext hread
  obtain ⟨w, rfl⟩ : ∃ w', w = w' ++ ['('] := by
    simp only [List.mem_cons, List.not_mem_nil, or_false] at hq
    obtain rfl | rfl := hq
    · exact exists_list_createTableHead hread
    · exact exists_list_createIndexHead hread
  exact (h (v ++ w) rest (by simp [htext])).2

namespace Scanned

variable {found found₁ found₂ : Findings}

/-- The script of a text consists of what is found in it. -/
theorem ofStripped (h : Scanned [] text found) : Script.ofStripped text = found.script := by
  have hindexes : (createIndexHead.findAll text).filterMap CreateIndex.ofMatch?
      = found.indexes.filterMap fun yield => CreateIndex.ofMatch? (matchOf yield) := by
    have hread : (createIndexHead.findAll text).map CreateIndex.ofMatch?
        = found.indexes.map fun yield => CreateIndex.ofMatch? (matchOf yield) :=
      map_findAll (fun _ => rfl) h.indexes
    simpa [List.filterMap_map, Function.id_comp, Function.comp_def]
      using congrArg (List.filterMap id) hread
  rw [Script.ofStripped, hindexes, map_findAll (fun _ => rfl) h.tables,
    map_findAll (fun _ => rfl) h.foreignKeys]
  rfl

/-- The scans of two texts are the scans of both. -/
lemma append (halike : Alike before before') (hstays : ∀ q ∈ heads, q.StaysIn u next)
    (h₁ : Scanned before' u found₁) (h₂ : Scanned (u.reverse ++ before) next found₂) :
    Scanned before (u ++ next) ((found₁.extend next).append found₂) := by
  have hfinds : ∀ q ∈ heads, ∀ f₁ f₂, Finds q before' u f₁ → Finds q (u.reverse ++ before) next f₂ →
      Finds q before (u ++ next) (extend next f₁ ++ f₂) := fun q hq _ _ =>
    Finds.append (isLed_of_mem_heads hq) halike (hstays q hq)
  exact ⟨hfinds _ createTableHead_mem_heads _ _ h₁.tables h₂.tables,
    hfinds _ createIndexHead_mem_heads _ _ h₁.indexes h₂.indexes,
    hfinds _ addForeignKeyForm_mem_heads _ _ h₁.foreignKeys h₂.foreignKeys⟩

/-- Scans pass over a text in which no statement begins. -/
lemma skip (hu : Still u next) (h : Scanned (u.reverse ++ before) next found) :
    Scanned before (u ++ next) found where
  tables := h.tables.skip (hu _ createTableHead_mem_heads before)
  indexes := h.indexes.skip (hu _ createIndexHead_mem_heads before)
  foreignKeys := h.foreignKeys.skip (hu _ addForeignKeyForm_mem_heads before)

lemma alike (halike : Alike before before') (h : Scanned before' text found) :
    Scanned before text found := by
  have hfinds : ∀ q ∈ heads, ∀ f, Finds q before' text f → Finds q before text f := fun q hq _ h =>
    h.alike (isLed_of_mem_heads hq) (nullable_of_mem_heads hq) halike
  exact ⟨hfinds _ createTableHead_mem_heads _ h.tables,
    hfinds _ createIndexHead_mem_heads _ h.indexes,
    hfinds _ addForeignKeyForm_mem_heads _ h.foreignKeys⟩

/-- Behind a line feed, scans come upon what they come upon at the beginning of a text. -/
lemma lineFeed (h : Scanned [] text found) (before : List Char) :
    Scanned before ('\n' :: text) found :=
  skip (u := ['\n']) (still_outside (by simp; decide)) (h.alike (alike_lineFeed before))

/-- Where every list is closed, the ones that are found are. -/
lemma closed (h : Scanned [] u found) (hu : ClosesLists u) : found.Closed := by
  have hlist : ∀ q ∈ [createTableHead, createIndexHead], ∀ {yields : List (List Char × Captures)},
      Finds q [] u yields → ∀ yield ∈ yields, (enclosed? .script yield.1).isSome = true := by
    intro q hq yields hfinds yield hyield
    obtain ⟨v, w, htext, hread⟩ := hfinds.exists_reads yield hyield
    exact hu q hq v w _ htext (by simpa using hread)
  exact List.forall_mem_append.mpr ⟨hlist _ (by simp) h.tables, hlist _ (by simp) h.indexes⟩

end Scanned

/-! ### Scripts with a line feed between them -/

/-- The script of two texts with a line feed between them consists of their scripts. -/
theorem ofStripped_append_line (hstays : ∀ q ∈ heads, q.StaysIn u ('\n' :: next))
    (hclosed : ClosesLists u) : Script.ofStripped (u ++ '\n' :: next)
      = (Script.ofStripped u).append (Script.ofStripped next) := by
  obtain ⟨found₁, h₁⟩ := exists_scanned [] u
  obtain ⟨found₂, h₂⟩ := exists_scanned [] next
  rw [(Scanned.append (Alike.refl []) hstays h₁ (h₂.lineFeed _)).ofStripped, h₁.ofStripped,
    h₂.ofStripped, Findings.script_append, Findings.script_extend (h₁.closed hclosed)]

/-! ### Texts without statements -/

/-- No statement begins in a text that mentions none of the words that statements begin with. -/
lemma still_of_not_mentions (hu : ∀ K ∈ leadingWords, ¬ Mentions K u)
    (hend : Stops isWordChar u.reverse ∨ Stops isWordChar next) : Still u next := by
  intro q hq before
  obtain ⟨K, b, hhead⟩ := exists_isHead hq
  exact hhead.ledBy.silent_of_not_mentions hhead.isKeyword (hu K hhead.leads) hend

/-- Such a text has no statements. -/
lemma ofStripped_of_not_mentions (hu : ∀ K ∈ leadingWords, ¬ Mentions K u) :
    Script.ofStripped u = ⟨[], [], []⟩ := by
  have hnone : Scanned u.reverse [] ⟨[], [], []⟩ := by
    have hfinds : ∀ q ∈ heads, Finds q u.reverse [] [] := fun q hq =>
      .stop trivial (fails_nil (nullable_of_mem_heads hq))
    exact ⟨hfinds _ createTableHead_mem_heads, hfinds _ createIndexHead_mem_heads,
      hfinds _ addForeignKeyForm_mem_heads⟩
  have hscanned : Scanned [] (u ++ []) ⟨[], [], []⟩ :=
    Scanned.skip (still_of_not_mentions hu (Or.inr Text.stops_nil)) (by simpa using hnone)
  rw [List.append_nil] at hscanned
  exact hscanned.ofStripped

/-- Behind a script, a text without statements changes nothing. -/
theorem ofStripped_append_behind (hstays : ∀ q ∈ heads, q.StaysIn u ('\n' :: next))
    (hclosed : ClosesLists u) (hnext : ∀ K ∈ leadingWords, ¬ Mentions K next) :
    Script.ofStripped (u ++ '\n' :: next) = Script.ofStripped u := by
  rw [ofStripped_append_line hstays hclosed, ofStripped_of_not_mentions hnext]
  simp [Script.append]

/-- Before a script that begins with a created table, a text without indexes and foreign keys adds
only tables. -/
theorem exists_ofStripped_before (hnext : OpensCreate next)
    (hplain : ∀ c ∈ u, opensNamePart c = false) (hindex : ¬ Mentions "INDEX" u)
    (halter : ¬ Mentions "ALTER" u) : ∃ tables, Script.ofStripped (u ++ '\n' :: next)
      = (Script.mk tables [] []).append (Script.ofStripped next) := by
  obtain ⟨found, h⟩ := exists_scanned [] next
  have hbehind := h.alike (alike_lineFeed u.reverse)
  obtain ⟨tables, htables⟩ :=
    Pattern.exists_finds (nullable_of_mem_heads createTableHead_mem_heads) [] (u ++ ['\n'])
  have hcreated := Finds.append (isLed_of_mem_heads createTableHead_mem_heads) (Alike.refl [])
    (staysIn_createTableHead hnext hplain) htables (by simpa using hbehind.tables)
  have hindexes : Finds createIndexHead [] (u ++ ['\n'] ++ next) found.indexes :=
    Finds.skip (silent_createIndexHead_of_not_mentions hnext hindex)
      (by simpa using hbehind.indexes)
  have hkeys : Finds addForeignKeyForm [] (u ++ ['\n'] ++ next) found.foreignKeys := by
    refine Finds.skip ?_ (by simpa using hbehind.foreignKeys)
    refine isHead_addForeignKeyForm.ledBy.silent_of_not_mentions (by decide) ?_ (Or.inl ?_)
    · rw [Text.mentions_append (by decide), not_or]
      exact ⟨halter, Text.not_mentions_nil (by decide)⟩
    · simp
      decide
  have hscanned : Scanned [] (u ++ '\n' :: next)
      ⟨extend next tables ++ found.tables, found.indexes, found.foreignKeys⟩ := by
    rw [List.append_cons]
    exact ⟨hcreated, hindexes, hkeys⟩
  refine ⟨(extend next tables).map fun yield => CreateTable.ofMatch? (matchOf yield), ?_⟩
  rw [hscanned.ofStripped, h.ofStripped]
  simp [Findings.script, Script.append]

end SchemaReader.Ddl
