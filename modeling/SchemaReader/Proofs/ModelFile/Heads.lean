/-
The parts of the heads of blocks.

* `HeadParts`: the white space and the words that the head of a block is made of, up to its bracket;
* `HeadParts.forall_mem`: what holds of white space and of word characters holds of all of them;
* `HeadParts.takes`: at the beginning of a line, a head is taken as a whole.
-/
import SchemaReader.ModelFile.Model
import SchemaReader.Proofs.Lexical.Lists
import SchemaReader.Proofs.Pattern.Words

namespace SchemaReader.ModelFile

open Text (IsWord IsGap Stops isBlank isWordChar)
open Pattern

/-- The parts of a head: the indentation `t` before the word `k` for the kind of the block, the
white space `g` behind the word, the name `n` and the white space `s` behind the name. -/
structure HeadParts (k t g n s : List Char) : Prop where
  word : IsWord k
  indent : ∀ c ∈ t, (c == ' ' || c == '\t') = true
  gap : IsGap g
  gap_ne_nil : g ≠ []
  name : IsWord n
  space : IsGap s

namespace HeadParts

variable {before rest k t g n s : List Char}

lemma isGap_indent (h : HeadParts k t g n s) : IsGap t := by
  intro c hc
  have hspace := h.indent c hc
  simp only [Bool.or_eq_true, beq_iff_eq] at hspace
  rcases hspace with rfl | rfl <;> decide

/-- A head consists of words and white space. -/
lemma forall_mem {P : Char → Prop} (h : HeadParts k t g n s) (hblank : ∀ c, isBlank c = true → P c)
    (hword : ∀ c, isWordChar c = true → P c) : ∀ c ∈ t ++ (k ++ (g ++ (n ++ s))), P c := by
  simp only [List.forall_mem_append]
  exact ⟨fun c hc => hblank c (h.isGap_indent c hc), fun c hc => hword c (h.word.chars c hc),
    fun c hc => hblank c (h.gap c hc), fun c hc => hword c (h.name.chars c hc),
    fun c hc => hblank c (h.space c hc)⟩

lemma plain (h : HeadParts k t g n s) : ∀ c ∈ t ++ (k ++ (g ++ (n ++ s))), isPlain c = true :=
  h.forall_mem (fun _ => isPlain_of_isBlank) fun _ => isPlain_of_isWordChar

lemma ne_of_mem (h : HeadParts k t g n s) {d : Char} (hblank : isBlank d = false)
    (hword : isWordChar d = false) : ∀ c ∈ t ++ (k ++ (g ++ (n ++ s))), c ≠ d := by
  refine h.forall_mem ?_ ?_
  · rintro c hc rfl
    simp [hc] at hblank
  · exact fun c hc => Text.ne_of_isWordChar hc hword

/-- At the beginning of a line a head is taken as a whole, however the word for its kind is. -/
theorem takes (h : HeadParts k t g n s) {p : Pattern}
    (hbefore : (Cursor.mk before [] 0).atLineStart = true)
    (hp : ∀ before rest, p.Takes before k rest []) :
    (indentation ++ p ++ blockName).Takes before ((t ++ (k ++ (g ++ (n ++ s)))) ++ ['\x7b']) rest
      [(1, n)] := by
  have hspace : Stops isWordChar (s ++ (['\x7b'] ++ rest)) :=
    h.space.stops (fun _ => Text.not_isWordChar_of_isBlank) (by simp; decide)
  have hname : ∀ before, blockName.Takes before (g ++ (n ++ (s ++ ['\x7b']))) rest [(1, n)] := by
    intro before
    simp only [blockName, takes_assoc]
    refine (takes_someBlanks h.gap h.gap_ne_nil (by simpa using h.name.stops_isBlank _)).seq ?_
    refine ((takes_word h.name (by simpa using hspace)).group 1).seq_last ?_
    exact (takes_blanks h.space (by simp; decide)).append takes_char
  have hspaces : ∀ c, isWordChar c = true → (c == ' ' || c == '\t') = false := fun c hc => by
    rw [Text.beq_of_isWordChar (by decide) hc, Text.beq_of_isWordChar (by decide) hc]
    rfl
  have hstart : lineStart.Takes before []
      (((t ++ (k ++ (g ++ (n ++ s)))) ++ ['\x7b']) ++ rest) [] :=
    takes_lineStart hbefore
  simp only [indentation, takes_assoc]
  refine hstart.after_nothing ?_
  simp only [List.append_assoc]
  refine Takes.seq (takes_many h.indent ?_) ((hp _ _).seq (hname _))
  simpa using h.word.stops hspaces _

end HeadParts

end SchemaReader.ModelFile
