/-
Scans of written statements.

* `ScansAs`: a scan of a written statement comes upon matches that are read as certain results, with
  `scansAs_of_silent` and `scansAs_of_takes`;
* `exists_finds`: what a scan comes upon in a script, statement by statement.
-/
import SchemaReader.Proofs.Ddl.Syntax

namespace SchemaReader.Ddl

open Text (IsGap Stops isWordChar)
open Pattern

variable {before text rest : List Char} {q : Pattern} {statement : Statement} {β : Type}

/-! ### Scans of statements -/

/-- A scan of a written statement comes upon matches that are read as `results`, and goes on behind
the statement. -/
def ScansAs (q : Pattern) (read : Match → β) (statement : Statement) (results : List β) : Prop :=
  ∀ before text rest found, Stops isWordChar before → Writes statement.pieces text rest →
    Finds q (text.reverse ++ before) rest found →
      ∃ found', Finds q before (text ++ rest) found' ∧
        found'.map (fun yield => read (matchOf yield))
          = results ++ found.map fun yield => read (matchOf yield)

lemma scansAs_of_silent {read : Match → β} (h : ∀ before text rest, Stops isWordChar before →
    Writes statement.pieces text rest → Silent q before text rest) :
    ScansAs q read statement [] := by
  intro before text rest found hbefore htext hfound
  exact ⟨found, hfound.skip (h _ _ _ hbefore htext), rfl⟩

lemma scansAs_of_takes {read : Match → β} {result : β}
    (h : ∀ before text rest, Stops isWordChar before → Writes statement.pieces text rest →
      ∃ w v caught, text = w ++ v ∧ w ≠ [] ∧ q.Takes before w (v ++ rest) caught ∧
        Silent q (w.reverse ++ before) v rest ∧ read (matchOf (v ++ rest, caught)) = result) :
    ScansAs q read statement [result] := by
  intro before text rest found hbefore htext hfound
  obtain ⟨w, v, caught, rfl, hw, htakes, hv, hread⟩ := h _ _ _ hbefore htext
  refine ⟨(v ++ rest, caught) :: found, ?_, by simp [hread]⟩
  have hfound' : Finds q (v.reverse ++ (w.reverse ++ before)) rest found := by simpa using hfound
  have hall : Finds q before ([] ++ (w ++ (v ++ rest))) ((v ++ rest, caught) :: found) :=
    .found trivial htakes hw (hfound'.skip hv)
  simpa using hall

/-- The pieces of a statement end with the semicolon. -/
lemma exists_pieces_sign (statement : Statement) :
    ∃ ps, statement.pieces = ps ++ [.sign ';'] := by
  cases statement with
  | createTable => exact ⟨_, rfl⟩
  | createIndex => exact ⟨_, rfl⟩
  | addForeignKey => exact ⟨_, rfl⟩

lemma stops_reverse_statement (h : Writes statement.pieces text rest) (before : List Char) :
    Stops isWordChar (text.reverse ++ before) := by
  obtain ⟨ps, hps⟩ := exists_pieces_sign statement
  rw [hps] at h
  obtain ⟨u, _, rfl, -, _, g, _, rfl, rfl, hg, -, rfl⟩ := writes_append.mp h
  have hsplit : (u ++ ([';'] ++ (g ++ []))).reverse ++ before
      = g.reverse ++ ';' :: (u.reverse ++ before) := by simp
  rw [hsplit]
  refine IsGap.stops (fun c hc => hg c (List.mem_reverse.mp hc))
    (fun _ => Text.not_isWordChar_of_isBlank) ?_
  simpa using not_isWordChar_of_mem_scriptSigns (c := ';') (by decide)

/-- A scan of written statements comes upon the matches of each of them in turn. -/
theorem exists_finds {read : Match → β} {results : Statement → List β}
    {statements : List Statement} (hq : q.WordLed)
    (h : ∀ statement ∈ statements, ScansAs q read statement (results statement))
    (hbefore : Stops isWordChar before)
    (htext : Writes (statements.flatMap Statement.pieces) text []) :
    ∃ found, Finds q before text found ∧
      found.map (fun yield => read (matchOf yield)) = statements.flatMap results := by
  induction statements generalizing before text with
  | nil =>
      obtain rfl := htext
      exact ⟨[], .stop trivial hq.fails_nil, rfl⟩
  | cons statement statements ih =>
      rw [List.forall_mem_cons] at h
      rw [List.flatMap_cons] at htext
      obtain ⟨u, v, rfl, hu, hv⟩ := writes_append.mp htext
      rw [List.append_nil] at hu
      obtain ⟨found, hfound, hread⟩ := ih h.2 (stops_reverse_statement hu before) hv
      obtain ⟨found', hfound', hread'⟩ := h.1 _ _ _ _ hbefore hu hfound
      exact ⟨found', hfound', by rw [hread', hread, List.flatMap_cons]⟩

end SchemaReader.Ddl
