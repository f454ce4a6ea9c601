/-
The heads of declared tables, part by part.

* `functionCall`, `assignedCall`, `constDeclaration`: a function for tables with the parenthesis of
  its call, the variable that the call is assigned to, and the declaration from the word `const` on;
* `silent_tableHead_word`, `silent_tableHead_of_not_isWordChar`: no table begins within a word,
  unless a declaration can go on behind it, nor outside of words;
* `takes_tableHead_const`, `takes_tableHead_export`: what is taken of a head, put together from what
  is taken of its parts.
-/
import Mathlib.Data.List.Infix
import SchemaReader.Proofs.Pattern.Words
import SchemaReader.TableModule.Call

namespace SchemaReader.TableModule

open Pattern
open Text (IsWord IsGap Stops isWordChar isBlank)

variable {before u w g g₁ g₂ rest : List Char} {caught : Captures}

/-! ### Parts of heads -/

/-- A function for tables and the parenthesis of its call. -/
def functionCall : Pattern :=
  (lit "pgTable" ||| lit "mysqlTable" ||| lit "sqliteTable") ++ (blanks ++ char '(')

/-- Such a call behind the variable that it is assigned to. -/
def assignedCall : Pattern :=
  .group 1 word ++ (blanks ++ (char '=' ++ (blanks ++ functionCall)))

/-- A declared table from the word `const` on. -/
def constDeclaration : Pattern := lit "const" ++ (someBlanks ++ assignedCall)

/-! ### Where no table begins -/

lemma fails_tableHead_iff : tableHead.Fails before rest ↔
    (lit "export" ++ (someBlanks ++ constDeclaration)).Fails before rest ∧
      constDeclaration.Fails before rest := by
  simp only [tableHead, fails_assoc, fails_opt_append]
  exact Iff.rfl

/-- At a word, a declaration would have to go on behind it. -/
lemma fails_tableHead_word (hw : ∀ c ∈ w, isWordChar c = true) (hstop : Stops isWordChar rest)
    (hexport : w = "export".toList → ∀ before, (someBlanks ++ constDeclaration).Fails before rest)
    (hconst : w = "const".toList → ∀ before, (someBlanks ++ assignedCall).Fails before rest) :
    tableHead.Fails before (w ++ rest) := by
  rw [fails_tableHead_iff]
  exact ⟨fails_lit_append (by decide) (someBlanks_avoids_isWordChar.append _) hw hstop fun heq =>
      hexport heq _,
    fails_lit_append (by decide) (someBlanks_avoids_isWordChar.append _) hw hstop fun heq =>
      hconst heq _⟩

lemma silent_tableHead_word (hw : ∀ c ∈ w, isWordChar c = true) (hstop : Stops isWordChar rest)
    (hexport : ∀ before, (someBlanks ++ constDeclaration).Fails before rest)
    (hconst : ∀ before, (someBlanks ++ assignedCall).Fails before rest) :
    Silent tableHead before w rest := by
  induction w generalizing before with
  | nil => trivial
  | cons c w ih =>
      exact ⟨fails_tableHead_word hw hstop (fun _ => hexport) fun _ => hconst,
        ih (List.forall_mem_cons.mp hw).2⟩

/-- No table begins within a word of which no end is one of the two that a table can begin with. -/
lemma silent_tableHead_of_tails (hw : ∀ c ∈ w, isWordChar c = true) (hstop : Stops isWordChar rest)
    (hne : ∀ x ∈ w.tails, x ≠ "export".toList ∧ x ≠ "const".toList) :
    Silent tableHead before w rest := by
  induction w generalizing before with
  | nil => trivial
  | cons c w ih =>
      rw [List.tails_cons, List.forall_mem_cons] at hne
      exact ⟨fails_tableHead_word hw hstop (fun heq => absurd heq hne.1.1)
          fun heq => absurd heq hne.1.2, ih (List.forall_mem_cons.mp hw).2 hne.2⟩

lemma fails_tableHead_of_not_isWordChar {c : Char} (hc : isWordChar c = false) :
    tableHead.Fails before (c :: rest) := by
  have hstop : Stops isWordChar (c :: rest) := by simpa using hc
  exact fails_tableHead_iff.mpr ⟨(fails_lit (by decide) hstop).append _,
    (fails_lit (by decide) hstop).append _⟩

lemma silent_tableHead_of_not_isWordChar (hu : ∀ c ∈ u, isWordChar c = false) :
    Silent tableHead before u rest := by
  induction u generalizing before with
  | nil => trivial
  | cons c u ih =>
      rw [List.forall_mem_cons] at hu
      exact ⟨fails_tableHead_of_not_isWordChar hu.1, ih hu.2⟩

/-- A variable is not assigned the call of a function for tables where no such call comes. -/
lemma fails_assignedCall (hw : IsWord w) (hg₁ : IsGap g₁) (hg₂ : IsGap g₂)
    (hrest : Stops isBlank rest) (h : ∀ before, functionCall.Fails before rest) :
    assignedCall.Fails before (w ++ (g₁ ++ '=' :: (g₂ ++ rest))) := by
  have hequals : ∀ before, (blanks ++ (char '=' ++ (blanks ++ functionCall))).Fails before
      (g₁ ++ '=' :: (g₂ ++ rest)) := fun before => by
    refine fails_blanks_append (by decide) hg₁ (by simp; decide) ?_
    rw [char, fails_one_append_cons]
    exact fun _ => fails_blanks_append (by decide) hg₂ hrest (h _)
  have havoids : (blanks ++ (char '=' ++ (blanks ++ functionCall))).Avoids isWordChar :=
    fun before text hword =>
      fails_assoc.mp ((blanks_char_avoids (by decide)).append _ before text hword)
  have hstop : Stops isWordChar (g₁ ++ '=' :: (g₂ ++ rest)) :=
    hg₁.stops (fun _ => Text.not_isWordChar_of_isBlank) (by simp; decide)
  rw [assignedCall, fails_group_append]
  exact fails_many1_append havoids hw.chars hstop fun _ => hequals _

/-- White space and what fails behind it. -/
lemma fails_someBlanks_assignedCall (hg : IsGap g) (hrest : Stops isBlank rest)
    (h : ∀ before, assignedCall.Fails before rest) :
    (someBlanks ++ assignedCall).Fails before (g ++ rest) :=
  fails_someBlanks_append (by decide) hg hrest fun _ => h _

lemma fails_constDeclaration (hg : IsGap g) (hstop : Stops isWordChar (g ++ rest))
    (hrest : Stops isBlank rest) (h : ∀ before, assignedCall.Fails before rest) :
    constDeclaration.Fails before ("const".toList ++ (g ++ rest)) :=
  fails_lit_append (by decide) (someBlanks_avoids_isWordChar.append _) (by decide) hstop fun _ =>
    fails_someBlanks_assignedCall hg hrest h

/-! ### Heads that are taken -/

lemma takes_assignedCall (hw : IsWord w) (hg₁ : IsGap g₁) (hg₂ : IsGap g₂)
    (hrest : Stops isBlank (u ++ rest)) (h : ∀ before, functionCall.Takes before u rest []) :
    assignedCall.Takes before (w ++ (g₁ ++ (['='] ++ (g₂ ++ u)))) rest [(1, w)] := by
  have hstop : Stops isWordChar (g₁ ++ (['='] ++ (g₂ ++ u)) ++ rest) := by
    simpa using hg₁.stops (fun _ => Text.not_isWordChar_of_isBlank)
      (show Stops isWordChar ('=' :: (g₂ ++ (u ++ rest))) by simp; decide)
  refine ((takes_word hw hstop).group 1).seq_last ?_
  refine (takes_blanks hg₁ (by simp; decide)).seq (takes_char.seq ?_)
  exact (takes_blanks hg₂ hrest).seq (h _)

lemma takes_constDeclaration (hg : IsGap g) (hne : g ≠ []) (hrest : Stops isBlank (u ++ rest))
    (h : ∀ before, assignedCall.Takes before u rest caught) :
    constDeclaration.Takes before ("const".toList ++ (g ++ u)) rest caught :=
  (takes_lit "const").seq ((takes_someBlanks hg hne hrest).seq (h _))

lemma takes_tableHead_iff : tableHead.Takes before w rest caught ↔
    (opt (lit "export" ++ someBlanks) ++ constDeclaration).Takes before w rest caught := by
  simp only [tableHead, constDeclaration, assignedCall, functionCall, takes_assoc]

lemma takes_tableHead_const (h : constDeclaration.Takes before ("const".toList ++ u) rest caught) :
    tableHead.Takes before ("const".toList ++ u) rest caught := by
  refine takes_tableHead_iff.mpr (h.opt_append_skip (fails_assoc.mpr ?_))
  exact (fails_of_not_mayBegin (c := 'c') (by decide) (by decide)).append _

lemma takes_tableHead_export (hg : IsGap g) (hne : g ≠ [])
    (h : ∀ before, constDeclaration.Takes before ("const".toList ++ u) rest caught) :
    tableHead.Takes before ("export".toList ++ (g ++ ("const".toList ++ u))) rest caught := by
  have hexport : (opt (lit "export" ++ someBlanks)).Takes before ("export".toList ++ g)
      (("const".toList ++ u) ++ rest) [] :=
    ((takes_lit "export").seq (takes_someBlanks hg hne (by simp; decide))).opt
  rw [← List.append_assoc]
  exact takes_tableHead_iff.mpr (hexport.seq (h _))

end SchemaReader.TableModule
