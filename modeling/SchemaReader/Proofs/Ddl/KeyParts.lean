/-
The listed columns of an index.

* `KeyPart`: a column with the length of its prefix and its direction, as it is written;
* `upToLength`: the parts up to the first one with a length;
* `exists_listed_shown`: the list up to its first closing parenthesis shows these parts, the last
  one of them cut off in its length;
* `namesOf_shown`: what is read of such a list are the names of these parts.
-/
import SchemaReader.Proofs.Ddl.ListedNames

namespace SchemaReader.Ddl

open Text (IsWord IsGap IsKeyword Spells Cased Stops isWordChar isBlank)
open Pattern

/-- A column in the list of an index. -/
structure KeyPart where
  name : SpelledName
  /-- The white space before the length of a prefix, and the digits of the length. -/
  length : Option (List Char × List Char)
  /-- The white space before a direction, and the word for it. -/
  order : Option (List Char × List Char)
  deriving DecidableEq, Repr

namespace KeyPart

/-- The direction with the white space before it. -/
def orderText (part : KeyPart) : List Char :=
  match part.order with
  | none => []
  | some (g, w) => g ++ w

/-- A part as it stands in a list. -/
def text (part : KeyPart) : List Char :=
  match part.length with
  | none => part.name.text ++ part.orderText
  | some (g, digits) => part.name.text ++ (g ++ ('(' :: (digits ++ [')']) ++ part.orderText))

/-- What is left of a part when a list is cut off at its first closing parenthesis. -/
def shown (part : KeyPart) : List Char :=
  match part.length with
  | none => part.text
  | some (g, digits) => part.name.text ++ (g ++ '(' :: digits)

/-- A readable name, a length in digits, and one of the two directions. -/
structure Proper (part : KeyPart) : Prop where
  name : part.name.Readable
  length : ∀ p ∈ part.length, IsGap p.1 ∧ p.2 ≠ [] ∧ ∀ c ∈ p.2, Text.isAsciiDigit c = true
  order : ∀ p ∈ part.order, IsGap p.1 ∧ p.1 ≠ [] ∧ ∃ K ∈ ["ASC", "DESC"], Cased K.toList p.2

instance (part : KeyPart) : Decidable part.Proper :=
  decidable_of_iff (part.name.Readable ∧
      (∀ p ∈ part.length, IsGap p.1 ∧ p.2 ≠ [] ∧ ∀ c ∈ p.2, Text.isAsciiDigit c = true) ∧
        ∀ p ∈ part.order, IsGap p.1 ∧ p.1 ≠ [] ∧ ∃ K ∈ ["ASC", "DESC"], Cased K.toList p.2)
    ⟨fun h => ⟨h.1, h.2.1, h.2.2⟩, fun h => ⟨h.1, h.2, h.3⟩⟩

end KeyPart

/-- The parts up to the first one with a length. -/
def upToLength : List KeyPart → List KeyPart
  | [] => []
  | part :: parts => part :: if part.length.isSome then [] else upToLength parts

variable {g u v w rest : List Char} {part : KeyPart} {parts : List KeyPart}

/-! ### Parts up to a length -/

lemma isPrefix_upToLength (parts : List KeyPart) : upToLength parts <+: parts := by
  induction parts with
  | nil => exact List.prefix_refl []
  | cons part parts ih =>
      rw [upToLength, List.prefix_cons_inj]
      split
      · exact List.nil_prefix
      · exact ih

lemma head?_upToLength (parts : List KeyPart) : (upToLength parts).head? = parts.head? := by
  cases parts <;> rfl

/-- All parts are reached if no part but the last one has a length. -/
lemma upToLength_eq_self :
    upToLength parts = parts ↔ ∀ part ∈ parts.dropLast, part.length = none := by
  induction parts with
  | nil => simp [upToLength]
  | cons part parts ih =>
      cases parts with
      | nil => simp [upToLength]
      | cons next parts =>
          rw [upToLength, List.cons_inj_right, List.dropLast_cons_cons, List.forall_mem_cons, ← ih]
          cases hlength : part.length with
          | none => simp
          | some length => simp

lemma map_upToLength {β : Type} (f : KeyPart → β) : (upToLength parts).map f = parts.map f ↔
    ∀ part ∈ parts.dropLast, part.length = none := by
  rw [← upToLength_eq_self]
  refine ⟨fun h => (isPrefix_upToLength parts).eq_of_length ?_, congrArg (List.map f)⟩
  simpa using congrArg List.length h

/-- Before the last part that is reached none has a length. -/
lemma exists_upToLength (hne : parts ≠ []) : ∃ init last, upToLength parts = init ++ [last] ∧
    ∀ part ∈ init, part.length = none := by
  induction parts with
  | nil => exact absurd rfl hne
  | cons part parts ih =>
      rw [upToLength]
      by_cases hstop : part.length.isSome = true ∨ parts = []
      · refine ⟨[], part, ?_, by simp⟩
        rcases hstop with hlength | rfl
        · rw [if_pos hlength, List.nil_append]
        · rw [upToLength, ite_self, List.nil_append]
      · obtain ⟨hlength, hparts⟩ := not_or.mp hstop
        obtain ⟨init, last, heq, hinit⟩ := ih hparts
        rw [if_neg hlength, heq]
        exact ⟨part :: init, last, rfl, List.forall_mem_cons.mpr ⟨by simpa using hlength, hinit⟩⟩

/-- A list of parts goes on with a closing parenthesis behind the parts that are reached. -/
lemma exists_listed_shown (hne : parts ≠ []) : ∃ v, listed (parts.map KeyPart.text) ++ [')']
    = listed ((upToLength parts).map KeyPart.shown) ++ ')' :: v := by
  induction parts with
  | nil => exact absurd rfl hne
  | cons part parts ih =>
      cases hlength : part.length with
      | some length =>
          -- the list is cut off in this part
          obtain ⟨g, digits⟩ := length
          have htext : part.text = part.shown ++ ')' :: part.orderText := by
            simp [KeyPart.text, KeyPart.shown, hlength]
          obtain ⟨v, hv⟩ := exists_listed_head part.text (parts.map KeyPart.text)
          refine ⟨part.orderText ++ (v ++ [')']), ?_⟩
          rw [List.map_cons, hv, htext, upToLength, hlength]
          simp [listed]
      | none =>
          have hshown : part.shown = part.text := by rw [KeyPart.shown, hlength]
          cases parts with
          | nil => exact ⟨[], by simp [upToLength, hlength, hshown, listed]⟩
          | cons next parts =>
              obtain ⟨v, hv⟩ := ih (List.cons_ne_nil next parts)
              refine ⟨v, ?_⟩
              rw [upToLength, hlength]
              simp only [Option.isSome_none, Bool.false_eq_true, if_false]
              rw [upToLength] at hv ⊢
              simp only [List.map_cons, listed, List.append_assoc, List.cons_append, hshown] at hv ⊢
              rw [hv]

/-! ### The texts of parts -/

lemma isItem_word (hw : IsWord w) : IsItem w := by
  have hstart := hw.stops_isBlank []
  rw [List.append_nil] at hstart
  refine isItem_of_calm hstart ⟨hw.ne_nil, ?_⟩ fun rest hrest => calm_barred hw hrest.bars
  exact hw.stops_reverse fun _ => Text.not_isBlank_of_isWordChar

namespace KeyPart.Proper

/-- A direction is a word with which no statement goes on. -/
lemma order_word (h : part.Proper) (horder : part.order = some (g, w)) :
    IsGap g ∧ g ≠ [] ∧ IsWord w ∧ ∀ K ∈ secondWords, ¬ Spells K.toList w := by
  have hwords : ∀ K ∈ ["ASC", "DESC"], IsKeyword K.toList ∧ K ∉ secondWords := by decide
  have hkeyword : ∀ K ∈ secondWords, IsKeyword K.toList := by decide
  obtain ⟨hg, hne, K, hK, hcased⟩ := h.order (g, w) horder
  obtain ⟨hkeywordK, hsecond⟩ := hwords K hK
  refine ⟨hg, hne, hcased.spells.isWord hkeywordK, fun L hL => ?_⟩
  exact not_spells_cased hkeywordK (hkeyword L hL) hcased (ne_of_mem_of_not_mem hL hsecond)

/-- The digits of a length are a word. -/
lemma length_word (h : part.Proper) (hlength : part.length = some (g, w)) : IsGap g ∧ IsWord w := by
  obtain ⟨hg, hne, hdigits⟩ := h.length (g, w) hlength
  exact ⟨hg, hne, fun c hc => Text.isWordChar_of_isAsciiDigit (hdigits c hc)⟩

lemma bars_orderText (h : part.Proper) (hrest : EndsItem rest) : Bars (part.orderText ++ rest) := by
  cases horder : part.order with
  | none =>
      rw [KeyPart.orderText, horder]
      exact hrest.bars
  | some order =>
      obtain ⟨hg, hne, hw, hfree⟩ := h.order_word horder
      rw [KeyPart.orderText, horder, List.append_assoc]
      exact bars_word hg hne hw (hrest.stops (by decide)) hfree

lemma calm_orderText (h : part.Proper) (hrest : EndsItem rest) : Calm part.orderText rest := by
  cases horder : part.order with
  | none =>
      rw [KeyPart.orderText, horder]
      exact calm_gap Text.isGap_nil
  | some order =>
      obtain ⟨hg, -, hw, -⟩ := h.order_word horder
      rw [KeyPart.orderText, horder]
      exact (calm_gap hg).append (calm_barred hw hrest.bars)

lemma calm_text (h : part.Proper) (hrest : EndsItem rest) : Calm part.text rest := by
  cases hlength : part.length with
  | none =>
      rw [KeyPart.text, hlength]
      exact (calm_spelled h.name (h.bars_orderText hrest)).append (h.calm_orderText hrest)
  | some length =>
      obtain ⟨g, digits⟩ := length
      obtain ⟨hg, hw⟩ := h.length_word hlength
      have hdigits : ∀ t ∈ [digits], IsItem t := by simpa using isItem_word hw
      have hlist : ∀ rest, Calm ('(' :: (listed [digits] ++ [')'])) rest := fun rest =>
        calm_parenthesized hdigits
      rw [KeyPart.text, hlength]
      refine (calm_spelled h.name ?_).append ((calm_gap hg).append
        ((hlist _).append (h.calm_orderText hrest)))
      rw [List.append_assoc]
      exact bars_gap hg (by simp; decide) (by simp; decide)

lemma stops_isBlank_name (h : part.Proper) (v : List Char) : Stops isBlank (part.name.text ++ v) :=
  (isItem_spelled h.name).start.append_of_ne_nil (spelled_ne_nil h.name) v

/-- A part begins with its name, behind which the first word of it ends. -/
lemma exists_tail_shown (h : part.Proper) : ∃ tail, part.shown = part.name.text ++ tail ∧
    Stops (fun c => !endsFirstWord c) tail := by
  cases hlength : part.length with
  | none =>
      refine ⟨part.orderText, by rw [KeyPart.shown, KeyPart.text, hlength], ?_⟩
      cases horder : part.order with
      | none => simp [KeyPart.orderText, horder]
      | some order =>
          obtain ⟨hg, hne, -⟩ := h.order_word horder
          rw [KeyPart.orderText, horder]
          exact hg.stops_of_ne_nil hne (fun c hc => by simp [endsFirstWord, hc]) _
  | some length =>
      obtain ⟨g, digits⟩ := length
      obtain ⟨hg, -⟩ := h.length_word hlength
      refine ⟨g ++ '(' :: digits, by rw [KeyPart.shown, hlength], ?_⟩
      exact hg.stops (fun c hc => by simp [endsFirstWord, hc]) (by simp [endsFirstWord])

/-- What a text with a direction ends with: a word, or else the text before it. -/
lemma stops_ordered {p : Char → Bool} (h : part.Proper)
    (hword : ∀ c, isWordChar c = true → p c = false)
    (hu : part.order = none → Stops p u.reverse) : Stops p (u ++ part.orderText).reverse := by
  cases horder : part.order with
  | none => simpa [KeyPart.orderText, horder] using hu horder
  | some order =>
      obtain ⟨-, -, hw, -⟩ := h.order_word horder
      have hend := (hw.stops_reverse hword).append_of_ne_nil (List.reverse_ne_nil_iff.mpr hw.ne_nil)
        (u ++ order.1).reverse
      simpa [KeyPart.orderText, horder] using hend

/-- What a part ends with where it is cut off: a word, or else its name. -/
lemma stops_shown {p : Char → Bool} (h : part.Proper)
    (hword : ∀ c, isWordChar c = true → p c = false)
    (hname : part.length = none → part.order = none → Stops p part.name.text.reverse) :
    Stops p part.shown.reverse := by
  cases hlength : part.length with
  | none =>
      rw [KeyPart.shown, KeyPart.text, hlength]
      exact h.stops_ordered hword (hname hlength)
  | some length =>
      obtain ⟨g, digits⟩ := length
      obtain ⟨-, hw⟩ := h.length_word hlength
      have hend := (hw.stops_reverse hword).append_of_ne_nil (List.reverse_ne_nil_iff.mpr hw.ne_nil)
        (part.name.text ++ (g ++ ['('])).reverse
      simpa [KeyPart.shown, hlength] using hend

/-- A part is cut off before the parenthesis that closes its length. -/
lemma ne_closing_shown (h : part.Proper) : ∀ c ∈ part.shown, c ≠ ')' := by
  have hname := ne_closing_spelled h.name
  have hgap : ∀ {g}, IsGap g → ∀ c ∈ g, c ≠ ')' := fun hg c hc heq =>
    absurd (hg c hc) (by rw [heq]; decide)
  cases hlength : part.length with
  | none =>
      rw [KeyPart.shown, KeyPart.text, hlength, List.forall_mem_append]
      refine ⟨hname, ?_⟩
      cases horder : part.order with
      | none => simp [KeyPart.orderText, horder]
      | some order =>
          obtain ⟨hg, -, hw, -⟩ := h.order_word horder
          rw [KeyPart.orderText, horder, List.forall_mem_append]
          exact ⟨hgap hg, hw.forall_ne (by decide)⟩
  | some length =>
      obtain ⟨g, digits⟩ := length
      obtain ⟨hg, hw⟩ := h.length_word hlength
      rw [KeyPart.shown, hlength]
      simp only [List.forall_mem_append, List.forall_mem_cons]
      exact ⟨hname, hgap hg, by decide, hw.forall_ne (by decide)⟩

lemma endsSolid_text (h : part.Proper) : EndsSolid part.text := by
  have hne : part.text ≠ [] := by
    cases hlength : part.length <;> simp [KeyPart.text, hlength, spelled_ne_nil h.name]
  refine ⟨hne, ?_⟩
  cases hlength : part.length with
  | none =>
      rw [KeyPart.text, hlength]
      exact h.stops_ordered (fun _ => Text.not_isBlank_of_isWordChar) fun _ =>
        (isItem_spelled h.name).stop
  | some length =>
      have hend := h.stops_ordered (u := part.name.text ++ (length.1 ++ '(' :: (length.2 ++ [')'])))
        (fun _ => Text.not_isBlank_of_isWordChar) fun _ => by simp; decide
      simpa [KeyPart.text, hlength] using hend

lemma endsSolid_shown (h : part.Proper) : EndsSolid part.shown := by
  obtain ⟨tail, htail, -⟩ := h.exists_tail_shown
  refine ⟨by rw [htail]; exact List.append_ne_nil_of_left_ne_nil (spelled_ne_nil h.name) _, ?_⟩
  exact h.stops_shown (fun _ => Text.not_isBlank_of_isWordChar) fun _ _ =>
    (isItem_spelled h.name).stop

/-- What does not stand at the start of its name does not stand at that of a part. -/
lemma stops_shown_of_name {p : Char → Bool} (h : part.Proper) (hname : Stops p part.name.text) :
    Stops p part.shown := by
  obtain ⟨tail, htail, -⟩ := h.exists_tail_shown
  rw [htail]
  exact hname.append_of_ne_nil (spelled_ne_nil h.name) tail

lemma stops_isBlank_shown (h : part.Proper) : Stops isBlank part.shown :=
  h.stops_shown_of_name (isItem_spelled h.name).start

lemma isItem_text (h : part.Proper) : IsItem part.text := by
  refine isItem_of_calm ?_ h.endsSolid_text fun _ => h.calm_text
  cases hlength : part.length <;> (rw [KeyPart.text, hlength]; exact h.stops_isBlank_name _)

/-- A part is read as the bare name that it begins with, also where it is cut off. -/
lemma leadingIdentifier_shown (h : part.Proper) :
    leadingIdentifier part.shown = part.name.bare := by
  obtain ⟨tail, htail, hstop⟩ := h.exists_tail_shown
  have htrim : Text.trim part.shown = part.shown :=
    Text.trimWhere_self h.stops_isBlank_shown h.endsSolid_shown.2
  rw [htail] at htrim ⊢
  exact leadingIdentifier_append h.name hstop htrim

end KeyPart.Proper

/-! ### Lists of parts as they are read -/

/-- The last part of a cut list is one piece of it. -/
lemma splitTopLevel_shown (h : part.Proper) (hg : IsGap g) :
    splitTopLevel .script ',' (g ++ part.shown) = [part.shown] := by
  cases hlength : part.length with
  | none =>
      have hsplit := splitTopLevel_part h.isItem_text.toIsPart hg Text.isGap_nil
      rw [List.append_nil] at hsplit
      rw [KeyPart.shown, hlength]
      exact hsplit
  | some length =>
      obtain ⟨g', digits⟩ := length
      obtain ⟨hg', hw⟩ := h.length_word hlength
      have hclosed : Closed .script (· ≠ ',') (g ++ (part.name.text ++ g')) :=
        (IsGap.closed hg fun _ => ne_comma_of_isBlank).append ((isItem_spelled h.name).closed.append
          (IsGap.closed hg' fun _ => ne_comma_of_isBlank))
      have htrim : Text.trim (g ++ part.shown) = part.shown := by
        have htrim := Text.trim_gaps hg Text.isGap_nil h.stops_isBlank_shown h.endsSolid_shown.2
          h.endsSolid_shown.1
        rwa [List.append_nil] at htrim
      have hshown : g ++ part.shown = (g ++ (part.name.text ++ g')) ++ '(' :: digits := by
        rw [KeyPart.shown, hlength]
        simp
      have hsplit := splitTopLevel_of_open (P := fun _ => True) hclosed (o := '(') (by decide)
        (IsWord.closed hw fun _ _ => trivial)
      rw [← hshown, htrim] at hsplit
      exact hsplit h.endsSolid_shown.1

/-- The parts of an index do not look as if they stood in square brackets: not both the first name
and the last text that is reached do, or it is a single name without a comma. -/
def ListableParts (parts : List KeyPart) : Prop :=
  ∀ first ∈ parts.head?, ∀ last ∈ (upToLength parts).getLast?, first.name.quoting = .square →
    last.name.quoting = .square → last.length = none → last.order = none →
      parts = [first] ∧ ',' ∉ first.name.content

instance (parts : List KeyPart) : Decidable (ListableParts parts) :=
  inferInstanceAs (Decidable (∀ first ∈ parts.head?, ∀ last ∈ (upToLength parts).getLast?,
    first.name.quoting = .square → last.name.quoting = .square → last.length = none →
      last.order = none → parts = [first] ∧ ',' ∉ first.name.content))

/-- The list is cut into the parts that are reached. -/
lemma splitTopLevel_parts (hparts : ∀ part ∈ parts, part.Proper) :
    splitTopLevel .script ',' (listed ((upToLength parts).map KeyPart.shown))
      = (upToLength parts).map KeyPart.shown := by
  by_cases hne : parts = []
  · subst hne
    rfl
  obtain ⟨init, last, hreached, hinit⟩ := exists_upToLength hne
  have hproper : ∀ part ∈ init ++ [last], part.Proper := fun part hpart =>
    hparts part ((isPrefix_upToLength parts).subset (hreached ▸ hpart))
  have hpieces : (upToLength parts).map KeyPart.shown = init.map KeyPart.text ++ [last.shown] := by
    rw [hreached, List.map_append, List.map_singleton, List.map_congr_left fun part hpart => ?_]
    rw [KeyPart.shown, hinit part hpart]
  have hitems : ∀ t ∈ init.map KeyPart.text, IsPart .script t :=
    List.forall_mem_map.mpr fun part hpart =>
      (hproper part (List.mem_append_left _ hpart)).isItem_text.toIsPart
  rw [hpieces]
  exact splitTopLevel_listed_concat hitems
    (fun g hg => splitTopLevel_shown (hproper last (by simp)) hg) Text.isGap_nil

/-- What is read of a list up to its first closing parenthesis: the names of the parts up to the
first one with a length. -/
theorem namesOf_shown (hparts : ∀ part ∈ parts, part.Proper) (hlist : ListableParts parts) :
    namesOf (listed ((upToLength parts).map KeyPart.shown))
      = (upToLength parts).map fun part => String.ofList part.name.bare := by
  have hproper : ∀ part ∈ upToLength parts, part.Proper := fun part hpart =>
    hparts part ((isPrefix_upToLength parts).subset hpart)
  by_cases hends : ∃ first ∈ parts.head?, ∃ last ∈ (upToLength parts).getLast?,
      first.name.quoting = .square ∧ last.name.quoting = .square ∧ last.length = none ∧
        last.order = none
  · -- the brackets of a single name
    obtain ⟨first, hfirst, last, hlast, hsquare, hsquare', hlength, horder⟩ := hends
    obtain ⟨rfl, hcomma⟩ := hlist first hfirst last hlast hsquare hsquare' hlength horder
    have hone : upToLength [first] = [first] := upToLength_eq_self.mpr (by simp)
    obtain rfl : first = last := by simpa [hone] using hlast
    have hshown : first.shown = first.name.text := by
      simp [KeyPart.shown, KeyPart.text, KeyPart.orderText, hlength, horder]
    rw [hone, List.map_singleton, List.map_singleton, listed, hshown]
    exact namesOf_square (hparts first List.mem_cons_self).name hsquare hcomma
  · refine namesOf_of_split (trim_listed ?_ ?_) (withoutOuterBrackets_listed ?_ ?_ ?_)
      (splitTopLevel_parts hparts) fun part hpart =>
        ⟨(hproper part hpart).leadingIdentifier_shown, (hproper part hpart).name.bare_ne_nil⟩
    · exact List.forall_mem_map.mpr fun part hpart => (hproper part hpart).stops_isBlank_shown
    · exact List.forall_mem_map.mpr fun part hpart => (hproper part hpart).endsSolid_shown
    · exact List.forall_mem_map.mpr fun part hpart => (hproper part hpart).endsSolid_shown.1
    · exact List.forall_mem_map.mpr fun part hpart =>
        (hproper part hpart).stops_shown_of_name
          (stops_spelled (by decide) (hproper part hpart).name fun heq => absurd heq (by decide))
    · intro t ht u hu
      rw [List.head?_map, Option.mem_def, Option.map_eq_some_iff] at ht
      rw [List.getLast?_map, Option.mem_def, Option.map_eq_some_iff] at hu
      obtain ⟨first, hfirst, rfl⟩ := ht
      obtain ⟨last, hlast, rfl⟩ := hu
      rw [head?_upToLength] at hfirst
      by_cases hsquare : first.name.quoting = .square
      · refine Or.inr <| (hproper last (List.mem_of_getLast? hlast)).stops_shown
          (fun _ => Text.beq_of_isWordChar (by decide)) fun hlength horder => ?_
        refine stops_spelled_reverse (hproper last (List.mem_of_getLast? hlast)).name
          fun hsquare' => ?_
        exact hends ⟨first, hfirst, last, hlast, hsquare, hsquare', hlength, horder⟩
      · have hproper' := hparts first (List.mem_of_mem_head? hfirst)
        exact Or.inl <| hproper'.stops_shown_of_name
          (stops_spelled (by decide) hproper'.name fun _ => hsquare)

end SchemaReader.Ddl
