/-
Texts with commas between them.

* `listed`: texts with a comma and a space between them;
* `IsPart`: a text that can stand between commas at the top level;
* `splitTopLevel_listed_concat`, `splitTopLevel_listed`: a list is cut into its texts, whatever its
  last one is cut into, and whatever white space stands around it.
-/
import SchemaReader.Proofs.Lexical.Lists

namespace SchemaReader

open Text (IsGap Stops isBlank)

/-- Texts with a comma and a space between them. -/
def listed : List (List Char) → List Char
  | [] => []
  | [t] => t
  | t :: u :: rest => t ++ (',' :: ' ' :: listed (u :: rest))

/-- A text that can stand between commas: it begins and ends with something else than white space,
and it is closed without a comma at the top level. -/
structure IsPart (dialect : Dialect) (text : List Char) : Prop where
  ne_nil : text ≠ []
  start : Stops isBlank text
  stop : Stops isBlank text.reverse
  closed : Closed dialect (· ≠ ',') text

variable {dialect : Dialect} {t g h : List Char} {texts : List (List Char)}

lemma IsPart.trim (ht : IsPart dialect t) : Text.trim t = t := Text.trimWhere_self ht.start ht.stop

lemma IsPart.trim_gaps (ht : IsPart dialect t) (hg : IsGap g) (hh : IsGap h) :
    Text.trim (g ++ (t ++ h)) = t := Text.trim_gaps hg hh ht.start ht.stop ht.ne_nil

lemma listed_cons_concat (t : List Char) (texts : List (List Char)) (last : List Char) :
    listed (t :: (texts ++ [last])) = t ++ (',' :: ' ' :: listed (texts ++ [last])) := by
  cases texts <;> rfl

/-- What follows a list follows its last text. -/
lemma listed_concat_append (texts : List (List Char)) (last h : List Char) :
    listed (texts ++ [last]) ++ h = listed (texts ++ [last ++ h]) := by
  induction texts with
  | nil => rfl
  | cons t texts ih =>
      simp only [List.cons_append, listed_cons_concat, List.append_assoc, ih]

/-- A list is cut in front of its last text, whatever that text is cut into. -/
theorem splitTopLevel_listed_concat {last : List Char} {pieces : List (List Char)}
    (ht : ∀ t ∈ texts, IsPart dialect t)
    (hlast : ∀ g, IsGap g → splitTopLevel dialect ',' (g ++ last) = pieces) (hg : IsGap g) :
    splitTopLevel dialect ',' (g ++ listed (texts ++ [last])) = texts ++ pieces := by
  induction texts generalizing g with
  | nil => exact hlast g hg
  | cons t texts ih =>
      rw [List.forall_mem_cons] at ht
      have hclosed := (IsGap.closed hg fun _ => ne_comma_of_isBlank).append ht.1.closed
      have htrim := ht.1.trim_gaps hg Text.isGap_nil
      rw [List.append_nil] at htrim
      have hsplit : g ++ listed (t :: texts ++ [last])
          = (g ++ t) ++ ',' :: ([' '] ++ listed (texts ++ [last])) := by
        rw [List.cons_append, listed_cons_concat]
        simp
      rw [hsplit, splitTopLevel_cons (by decide) hclosed (by rw [htrim]; exact ht.1.ne_nil), htrim,
        ih ht.2 (by decide), List.cons_append]

lemma splitTopLevel_part (ht : IsPart dialect t) (hg : IsGap g) (hh : IsGap h) :
    splitTopLevel dialect ',' (g ++ (t ++ h)) = [t] := by
  have hgap : ∀ {g}, IsGap g → Closed dialect (· ≠ ',') g := fun hg =>
    IsGap.closed hg fun _ => ne_comma_of_isBlank
  have htrim := ht.trim_gaps hg hh
  rw [splitTopLevel_of_closed ((hgap hg).append (ht.closed.append (hgap hh)))
    (by rw [htrim]; exact ht.ne_nil), htrim]

/-- A list is cut into the texts that it consists of. -/
theorem splitTopLevel_listed (ht : ∀ t ∈ texts, IsPart dialect t) (hg : IsGap g) (hh : IsGap h) :
    splitTopLevel dialect ',' (g ++ (listed texts ++ h)) = texts := by
  obtain rfl | ⟨texts, last, rfl⟩ := List.eq_nil_or_concat texts
  · have hall : IsGap (g ++ h) := List.forall_mem_append.mpr ⟨hg, hh⟩
    exact splitTopLevel_of_blank (IsGap.closed hall fun _ => ne_comma_of_isBlank)
      (Text.trim_gap hall)
  · rw [List.concat_eq_append, List.forall_mem_append, List.forall_mem_singleton] at ht
    rw [List.concat_eq_append, listed_concat_append]
    exact splitTopLevel_listed_concat ht.1 (fun g hg => splitTopLevel_part ht.2 hg hh) hg

lemma closed_listed (ht : ∀ t ∈ texts, IsPart dialect t) :
    Closed dialect (fun _ => True) (listed texts) := by
  induction texts with
  | nil => exact .nil _
  | cons t texts ih =>
      rw [List.forall_mem_cons] at ht
      have hclosed := ht.1.closed.mono fun _ _ => trivial
      cases texts with
      | nil => exact hclosed
      | cons u texts =>
          exact hclosed.append (.cons (by decide) trivial (.cons (by decide) trivial (ih ht.2)))

/-- What holds of the characters of the texts, of the comma and of the space, holds of the list. -/
lemma forall_mem_listed {P : Char → Prop} (ht : ∀ t ∈ texts, ∀ c ∈ t, P c) (hcomma : P ',')
    (hspace : P ' ') : ∀ c ∈ listed texts, P c := by
  induction texts with
  | nil => simp [listed]
  | cons t texts ih =>
      rw [List.forall_mem_cons] at ht
      cases texts with
      | nil => exact ht.1
      | cons u texts =>
          rw [listed, List.forall_mem_append, List.forall_mem_cons, List.forall_mem_cons]
          exact ⟨ht.1, hcomma, hspace, ih ht.2⟩

/-- The characters of a text are characters of the list that it stands in. -/
lemma mem_listed_of_mem (ht : t ∈ texts) {c : Char} (hc : c ∈ t) : c ∈ listed texts := by
  induction texts with
  | nil => simp at ht
  | cons u texts ih =>
      cases texts with
      | nil =>
          obtain rfl := List.mem_singleton.mp ht
          exact hc
      | cons v texts =>
          rw [listed, List.mem_append]
          rcases List.mem_cons.mp ht with rfl | ht
          · exact Or.inl hc
          · exact Or.inr (List.mem_cons_of_mem _ (List.mem_cons_of_mem _ (ih ht)))

end SchemaReader
