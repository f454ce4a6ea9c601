/-
Texts that list members between separators.

* `CutFree`: nowhere in a text that begins at a place and a bracket level a piece ends, with
  `topLevelPiecesLoop_of_cutFree`;
* `Level`: behind a text a reading stands as it stood before it;
* `topLevelPieces_of_cutFree`, `topLevelPieces_cons_of_level`: the only piece of a text, and the
  first one, with `induction_on_cuts`: each text has one of the two forms;
* `ListText`: a text that lists members, with white space around them and any number of empty
  pieces;
* `splitTopLevel_of_listText`: cutting such a text gives the members back;
* `exists_listText`: each text is such a text;
* `splitTopLevel_inverts`: so cutting undoes joining, and joining what a text is cut into changes
  nothing for the cutting.
-/
import SchemaReader.Proofs.Lexical.Lists
import SchemaReader.Proofs.Lexical.Separated

namespace SchemaReader

open Text (IsGap isBlank)

variable {dialect : Dialect} {separator : Char} {depth : Int} {literal : Literal} {c : Char}
  {g g' member piece rest text u v : List Char} {done members : List (List Char)}

/-! ### Where pieces end -/

/-- No piece ends in a text that begins at a place and a bracket level. -/
def CutFree (dialect : Dialect) (separator : Char) (depth : Int) (literal : Literal)
    (text : List Char) : Prop :=
  ∀ u c v, text = u ++ c :: v →
    ¬ EndsPiece separator (depth + level dialect literal u) (literal.after dialect u) c

lemma cutFree_nil : CutFree dialect separator depth literal [] := by
  rintro u c v h
  simp at h

lemma cutFree_cons_iff : CutFree dialect separator depth literal (c :: rest) ↔
    ¬ EndsPiece separator depth literal c ∧
      CutFree dialect separator (depth + level dialect literal [c])
        (literal.step dialect c) rest := by
  constructor
  · intro h
    refine ⟨by simpa using h [] c rest rfl, fun u d v htext => ?_⟩
    have hbehind := h (c :: u) d v (by rw [htext, List.cons_append])
    rwa [level_cons, ← Int.add_assoc, Literal.after_cons] at hbehind
  · rintro ⟨hhead, hrest⟩ (_ | ⟨d, u⟩) e v htext
    · obtain ⟨rfl, rfl⟩ := List.cons.inj htext
      simpa using hhead
    · obtain ⟨rfl, htail⟩ := List.cons.inj htext
      rw [level_cons, ← Int.add_assoc, Literal.after_cons]
      exact hrest u e v htail

lemma cutFree_append_iff : CutFree dialect separator depth literal (u ++ v) ↔
    CutFree dialect separator depth literal u ∧
      CutFree dialect separator (depth + level dialect literal u) (literal.after dialect u) v := by
  induction u generalizing depth literal with
  | nil => simp [cutFree_nil]
  | cons c u ih =>
      rw [List.cons_append, cutFree_cons_iff, cutFree_cons_iff, ih, and_assoc,
        level_cons literal c u, Int.add_assoc, Literal.after_cons]

/-- A text in which no piece ends goes on with the piece. -/
lemma topLevelPiecesLoop_of_cutFree (h : CutFree dialect separator depth literal u)
    (done : List (List Char)) (piece rest : List Char) :
    topLevelPiecesLoop dialect separator depth literal done piece (u ++ rest)
      = topLevelPiecesLoop dialect separator (depth + level dialect literal u)
          (literal.after dialect u) done (u.reverse ++ piece) rest := by
  induction u generalizing depth literal piece with
  | nil => simp
  | cons c u ih =>
      rw [cutFree_cons_iff] at h
      rw [List.cons_append, topLevelPiecesLoop_of_not_endsPiece h.1, ih h.2, level_cons literal c u,
        Int.add_assoc, Literal.after_cons, List.reverse_cons, List.append_assoc,
        List.singleton_append]

/-- Behind a text a reading stands as it stood before it: outside of literals, with as many brackets
closed as opened. -/
structure Level (dialect : Dialect) (text : List Char) : Prop where
  level : level dialect .outside text = 0
  outside : Literal.outside.after dialect text = .outside

lemma Matched.level (h : Matched dialect text) : Level dialect text :=
  ⟨level_eq_zero_iff.mpr h.whole, h.outside⟩

/-- The only piece of a text. -/
lemma topLevelPieces_of_cutFree (h : CutFree dialect separator 0 .outside text) :
    topLevelPieces dialect separator text = [text] := by
  have hloop := topLevelPiecesLoop_of_cutFree h [] [] []
  rw [List.append_nil] at hloop
  simp [topLevelPieces, hloop, topLevelPiecesLoop]

/-- The first of several pieces. -/
lemma topLevelPieces_cons_of_level (hplain : isPlain separator = true)
    (h : CutFree dialect separator 0 .outside u) (hlevel : Level dialect u) (v : List Char) :
    topLevelPieces dialect separator (u ++ separator :: v)
      = u :: topLevelPieces dialect separator v := by
  rw [topLevelPieces, topLevelPiecesLoop_of_cutFree h, hlevel.level, hlevel.outside, Int.add_zero,
    topLevelPiecesLoop_endsPiece hplain, topLevelPiecesLoop_done, topLevelPieces]
  simp

/-- A text is a piece by itself, or there is a first piece with a separator behind it. -/
lemma cutFree_or_exists_cut (dialect : Dialect) (separator : Char) (text : List Char) :
    CutFree dialect separator 0 .outside text ∨
    ∃ u v, text = u ++ separator :: v ∧ CutFree dialect separator 0 .outside u ∧
      Level dialect u := by
  suffices hfrom : ∀ depth literal, CutFree dialect separator depth literal text ∨
      ∃ u v, text = u ++ separator :: v ∧ CutFree dialect separator depth literal u ∧
        depth + level dialect literal u = 0 ∧ literal.after dialect u = .outside by
    refine (hfrom 0 .outside).imp_right ?_
    rintro ⟨u, v, htext, hfree, hlevel, houtside⟩
    exact ⟨u, v, htext, hfree, by rwa [Int.zero_add] at hlevel, houtside⟩
  induction text with
  | nil => exact fun depth literal => Or.inl cutFree_nil
  | cons c text ih =>
      intro depth literal
      by_cases hends : EndsPiece separator depth literal c
      · obtain ⟨rfl, rfl, rfl⟩ := hends
        exact Or.inr ⟨[], text, rfl, cutFree_nil, rfl, rfl⟩
      · obtain hfree | ⟨u, v, rfl, hfree, hlevel, houtside⟩ :=
          ih (depth + level dialect literal [c]) (literal.step dialect c)
        · exact Or.inl (cutFree_cons_iff.mpr ⟨hends, hfree⟩)
        · refine Or.inr ⟨c :: u, v, rfl, cutFree_cons_iff.mpr ⟨hends, hfree⟩, ?_, houtside⟩
          rw [level_cons, ← Int.add_assoc]
          exact hlevel

/-- Induction along the pieces of a text. -/
theorem induction_on_cuts (dialect : Dialect) (separator : Char) {motive : List Char → Prop}
    (last : ∀ u, CutFree dialect separator 0 .outside u → motive u)
    (cut : ∀ u v, CutFree dialect separator 0 .outside u → Level dialect u → motive v →
      motive (u ++ separator :: v)) (text : List Char) : motive text := by
  induction hn : text.length using Nat.strong_induction_on generalizing text with
  | _ n ih =>
    obtain hfree | ⟨u, v, rfl, hfree, hlevel⟩ := cutFree_or_exists_cut dialect separator text
    · exact last text hfree
    · have hshorter : v.length < n := by
        rw [← hn, List.length_append, List.length_cons]
        omega
      exact cut u v hfree hlevel (ih v.length hshorter v rfl)

/-! ### White space around a piece -/

/-- A gap leaves a reading where it is. -/
lemma level_gap (hg : IsGap g) : Level dialect g :=
  Matched.level (matched_iff_balanced.mpr
    (depthAfter?_plain fun c hc => isPlain_of_isBlank (hg c hc)))

lemma Level.append (hu : Level dialect u) (hv : Level dialect v) : Level dialect (u ++ v) where
  level := by rw [level_append, hu.level, hu.outside, hv.level, Int.add_zero]
  outside := by rw [Literal.after_append, hu.outside, hv.outside]

/-- Behind a text that leaves a reading where it was, a text changes a reading as it does by
itself. -/
lemma Level.append_iff (hu : Level dialect u) : Level dialect (u ++ v) ↔ Level dialect v := by
  refine ⟨fun h => ⟨?_, ?_⟩, hu.append⟩
  · have hlevel := h.level
    rwa [level_append, hu.level, hu.outside, Int.zero_add] at hlevel
  · have houtside := h.outside
    rwa [Literal.after_append, hu.outside] at houtside

lemma Level.append_separator_iff (hplain : isPlain separator = true) (hu : Level dialect u) :
    Level dialect (u ++ separator :: v) ↔ Level dialect v := by
  have hseparator : Level dialect [separator] := Matched.level (matched_iff_balanced.mpr
    (depthAfter?_plain (List.forall_mem_singleton.mpr hplain)))
  rw [List.append_cons u separator v, (hu.append hseparator).append_iff]

/-- No piece ends in white space. -/
lemma cutFree_gap (hblank : isBlank separator = false) (hg : IsGap g) :
    CutFree dialect separator depth literal g := by
  rintro u c v rfl ⟨-, -, rfl⟩
  have hc := hg c (by simp)
  simp [hblank] at hc

/-- White space around a text in which no piece ends does not end a piece. -/
lemma CutFree.gaps (hblank : isBlank separator = false) (hg : IsGap g) (hg' : IsGap g')
    (h : CutFree dialect separator 0 .outside u) :
    CutFree dialect separator 0 .outside (g ++ u ++ g') := by
  have hlevel : Level dialect g := level_gap hg
  rw [List.append_assoc, cutFree_append_iff, cutFree_append_iff, hlevel.level, hlevel.outside]
  exact ⟨cutFree_gap hblank hg, h, cutFree_gap hblank hg'⟩

/-- White space closes no literal. -/
lemma outside_of_after_gap (hliteral : literal.Quoted) (hg : IsGap g)
    (h : literal.after dialect g = .outside) : literal = .outside := by
  induction g generalizing literal with
  | nil => exact h
  | cons c g ih =>
      rw [IsGap, List.forall_mem_cons] at hg
      have hnext : literal.step dialect c = .outside := ih (hliteral.after [c]) hg.2 h
      cases literal with
      | outside => rfl
      | inside quote escaped =>
          have hquote : c ≠ quote := by
            rintro rfl
            have hc : isQuote c = true := hliteral
            simp [Text.not_isQuote_of_isBlank hg.1] at hc
          cases escaped with
          | true => simp [Literal.step] at hnext
          | false =>
              simp only [Literal.step, hquote, beq_iff_eq, ite_false] at hnext
              split at hnext <;> simp at hnext

/-- What is left of a text by trimming changes a reading as the text does. -/
lemma Level.trim (h : Level dialect text) : Level dialect (Text.trim text) := by
  obtain ⟨g, g', htext, hg, hg'⟩ := Text.exists_gaps text
  have hfront : Level dialect g := level_gap hg
  have hback : Level dialect g' := level_gap hg'
  have hquoted : Literal.outside.Quoted := trivial
  have houtside : Literal.outside.after dialect (Text.trim text) = .outside := by
    have hwhole := h.outside
    rw [htext, List.append_assoc, Literal.after_append, hfront.outside,
      Literal.after_append] at hwhole
    exact outside_of_after_gap (hquoted.after _) hg' hwhole
  refine ⟨?_, houtside⟩
  have hwhole := h.level
  rwa [htext, List.append_assoc, level_append, hfront.outside, hfront.level, level_append, houtside,
    hback.level, Int.zero_add, Int.add_zero] at hwhole

lemma CutFree.trim (h : CutFree dialect separator 0 .outside text) :
    CutFree dialect separator 0 .outside (Text.trim text) := by
  obtain ⟨g, g', htext, hg, -⟩ := Text.exists_gaps text
  have hfront : Level dialect g := level_gap hg
  rw [htext, List.append_assoc, cutFree_append_iff, cutFree_append_iff, hfront.level,
    hfront.outside] at h
  exact h.2.1

/-! ### Lists of members -/

/-- Wherever the separator stands in a text, a literal is open, or the brackets opened before it are
not as many as those closed. -/
def SeparatorFree (dialect : Dialect) (separator : Char) (text : List Char) : Prop :=
  ∀ u v, text = u ++ separator :: v → Literal.outside.after dialect u = .outside →
    closings dialect u ≠ openings dialect u

lemma cutFree_iff :
    CutFree dialect separator 0 .outside text ↔ SeparatorFree dialect separator text := by
  constructor
  · intro h u v htext houtside hequal
    have hlevel : level dialect .outside u = 0 := level_eq_zero_iff.mpr hequal
    exact h u separator v htext ⟨houtside, by rw [hlevel]; rfl, rfl⟩
  · rintro h u c v htext ⟨houtside, hlevel, rfl⟩
    exact h u v htext houtside (level_eq_zero_iff.mp (by rwa [Int.zero_add] at hlevel))

/-- The separator stands nowhere outside of literals and brackets if and only if the text is its own
only piece. -/
lemma separatorFree_iff (hplain : isPlain separator = true) :
    SeparatorFree dialect separator text ↔ topLevelPieces dialect separator text = [text] := by
  refine ⟨fun h => topLevelPieces_of_cutFree (cutFree_iff.mpr h), fun h => ?_⟩
  obtain hfree | ⟨u, v, rfl, hfree, hlevel⟩ := cutFree_or_exists_cut dialect separator text
  · exact cutFree_iff.mp hfree
  · -- a first piece that is the whole text has no separator behind it
    rw [topLevelPieces_cons_of_level hplain hfree hlevel] at h
    have hlength := congrArg List.length (List.cons.inj h).1
    simp at hlength

/-- A member of a list: not empty, without white space at its ends, and without the separator
outside of literals and brackets. -/
structure IsMember (dialect : Dialect) (separator : Char) (member : List Char) : Prop where
  ne_nil : member ≠ []
  trimmed : Text.trim member = member
  free : SeparatorFree dialect separator member

/-- A text that lists members: each member has white space around it, between two members stands a
separator, and there may be empty members of which there is only white space.  What stands before a
separator belongs to the class `Whole`. -/
inductive ListText (dialect : Dialect) (separator : Char) (Whole : List Char → Prop) :
    List (List Char) → List Char → Prop
  /-- No member, or an empty one at the end. -/
  | blank {g : List Char} : IsGap g → ListText dialect separator Whole [] g
  /-- The last member. -/
  | last {g member g' : List Char} : IsGap g → IsGap g' → IsMember dialect separator member →
      ListText dialect separator Whole [member] (g ++ member ++ g')
  /-- An empty member before others. -/
  | skip {g text : List Char} {members : List (List Char)} : IsGap g →
      ListText dialect separator Whole members text →
      ListText dialect separator Whole members (g ++ [separator] ++ text)
  /-- A member before others. -/
  | more {g member g' text : List Char} {members : List (List Char)} : IsGap g → IsGap g' →
      IsMember dialect separator member → Whole member →
      ListText dialect separator Whole members text →
      ListText dialect separator Whole (member :: members)
        (g ++ member ++ g' ++ [separator] ++ text)

section

variable {Whole : List Char → Prop} (hplain : isPlain separator = true)
  (hblank : isBlank separator = false)

lemma splitTopLevel_of_cutFree (h : CutFree dialect separator 0 .outside text) :
    splitTopLevel dialect separator text = if Text.trim text = [] then []
      else [Text.trim text] := by
  rw [splitTopLevel, topLevelPieces_of_cutFree h, List.map_singleton]
  split
  · next hnil => simp [hnil]
  · next hne => simp [hne]

include hplain

lemma splitTopLevel_cons_of_level (h : CutFree dialect separator 0 .outside u)
    (hlevel : Level dialect u) (v : List Char) :
    splitTopLevel dialect separator (u ++ separator :: v)
      = splitTopLevel dialect separator u ++ splitTopLevel dialect separator v := by
  rw [splitTopLevel, topLevelPieces_cons_of_level hplain h hlevel, splitTopLevel,
    topLevelPieces_of_cutFree h, List.map_cons, ← List.singleton_append, List.filter_append]
  rfl

include hblank in
/-- White space behind a text is trimmed from its last piece. -/
lemma splitTopLevel_append_blank (text : List Char) (hg : IsGap g) :
    splitTopLevel dialect separator (text ++ g) = splitTopLevel dialect separator text := by
  induction text using induction_on_cuts dialect separator with
  | last u hfree =>
      have hbehind := hfree.gaps hblank Text.isGap_nil hg
      rw [List.nil_append] at hbehind
      rw [splitTopLevel_of_cutFree hbehind, splitTopLevel_of_cutFree hfree, Text.trim_append_gap hg]
  | cut u v hfree hlevel ih =>
      rw [List.append_assoc, List.cons_append, splitTopLevel_cons_of_level hplain hfree hlevel, ih,
        splitTopLevel_cons_of_level hplain hfree hlevel]

include hblank in
/-- A text that lists members is cut into them. -/
theorem splitTopLevel_of_listText (hwhole : ∀ t, Whole t → Level dialect t)
    (h : ListText dialect separator Whole members text) :
    splitTopLevel dialect separator text = members := by
  have hmember : ∀ {g member g' : List Char}, IsGap g → IsGap g' →
      IsMember dialect separator member →
      CutFree dialect separator 0 .outside (g ++ member ++ g') ∧
        splitTopLevel dialect separator (g ++ member ++ g') = [member] := by
    intro g member g' hg hg' hm
    have hfree := (cutFree_iff.mpr hm.free).gaps hblank hg hg'
    refine ⟨hfree, ?_⟩
    rw [splitTopLevel_of_cutFree hfree, Text.trim_append_gap hg',
      Text.trim_gap_append hg, hm.trimmed, if_neg hm.ne_nil]
  have hgap : ∀ {g : List Char}, IsGap g → splitTopLevel dialect separator g = [] := fun hg => by
    rw [splitTopLevel_of_cutFree (cutFree_gap hblank hg), if_pos (Text.trim_gap hg)]
  induction h with
  | blank hg => exact hgap hg
  | last hg hg' hm => exact (hmember hg hg' hm).2
  | skip hg _ ih =>
      rw [List.append_assoc, List.singleton_append,
        splitTopLevel_cons_of_level hplain (cutFree_gap hblank hg) (level_gap hg), hgap hg, ih,
        List.nil_append]
  | more hg hg' hm hclosed _ ih =>
      obtain ⟨hfree, hsplit⟩ := hmember hg hg' hm
      have hlevel := ((level_gap hg).append (hwhole _ hclosed)).append (level_gap hg')
      rw [List.append_assoc, List.singleton_append, splitTopLevel_cons_of_level hplain hfree hlevel,
        hsplit, ih, List.singleton_append]

end

/-- Trimming a text does not matter to the pieces between its commas. -/
lemma splitTopLevel_trim (text : List Char) :
    splitTopLevel dialect ',' (Text.trim text) = splitTopLevel dialect ',' text := by
  obtain ⟨g, g', htext, hg, hg'⟩ := Text.exists_gaps text
  conv_rhs => rw [htext]
  rw [splitTopLevel_append_blank (by decide) (by decide) _ hg', splitTopLevel_gap_append hg]

/-- What is left of a piece by trimming is a member, unless nothing is left. -/
lemma CutFree.isMember_trim (h : CutFree dialect separator 0 .outside text)
    (hne : Text.trim text ≠ []) : IsMember dialect separator (Text.trim text) :=
  ⟨hne, Text.trim_trim text, cutFree_iff.mp h.trim⟩

/-- Every text lists members, of which each but the last leaves a reading where it is. -/
theorem exists_listText (dialect : Dialect) (separator : Char) (text : List Char) :
    ∃ members, ListText dialect separator (Level dialect) members text := by
  induction text using induction_on_cuts dialect separator with
  | last u hfree =>
      obtain ⟨g, g', htext, hg, hg'⟩ := Text.exists_gaps u
      by_cases hne : Text.trim u = []
      · refine ⟨[], .blank ?_⟩
        rw [htext, hne, List.append_nil]
        exact List.forall_mem_append.mpr ⟨hg, hg'⟩
      · refine ⟨[Text.trim u], ?_⟩
        have hlast : ListText dialect separator (Level dialect) [Text.trim u]
            (g ++ Text.trim u ++ g') :=
          .last hg hg' (hfree.isMember_trim hne)
        rwa [← htext] at hlast
  | cut u v hfree hlevel ih =>
      obtain ⟨members, hmembers⟩ := ih
      obtain ⟨g, g', htext, hg, hg'⟩ := Text.exists_gaps u
      rw [List.append_cons]
      by_cases hne : Text.trim u = []
      · refine ⟨members, .skip ?_ hmembers⟩
        rw [htext, hne, List.append_nil]
        exact List.forall_mem_append.mpr ⟨hg, hg'⟩
      · refine ⟨Text.trim u :: members, ?_⟩
        have hmore : ListText dialect separator (Level dialect) (Text.trim u :: members)
            (g ++ Text.trim u ++ g' ++ [separator] ++ v) :=
          .more hg hg' (hfree.isMember_trim hne) hlevel.trim hmembers
        rwa [← htext] at hmore

namespace ListText

variable {Whole : List Char → Prop}

lemma isMember (h : ListText dialect separator Whole members text) :
    ∀ member ∈ members, IsMember dialect separator member := by
  induction h with
  | blank => simp
  | last _ _ hm => simpa using hm
  | skip _ _ ih => exact ih
  | more _ _ hm _ _ ih => exact List.forall_mem_cons.mpr ⟨hm, ih⟩

/-- The members with separators alone between them list themselves. -/
lemma joinWith (h : ListText dialect separator Whole members text) :
    ListText dialect separator Whole members (Text.joinWith [separator] members) := by
  have hlone : ∀ {member : List Char}, IsMember dialect separator member →
      ListText dialect separator Whole [member] (Text.joinWith [separator] [member]) := by
    intro member hm
    have hlast : ListText dialect separator Whole [member] ([] ++ member ++ []) :=
      .last Text.isGap_nil Text.isGap_nil hm
    simpa [Text.joinWith] using hlast
  induction h with
  | blank => exact .blank Text.isGap_nil
  | last _ _ hm => exact hlone hm
  | skip _ _ ih => exact ih
  | @more g member g' text members _ _ hm hwhole _ ih =>
      cases members with
      | nil => exact hlone hm
      | cons m members =>
          have hmore : ListText dialect separator Whole (member :: m :: members)
              ([] ++ member ++ [] ++ [separator] ++ Text.joinWith [separator] (m :: members)) :=
            .more Text.isGap_nil Text.isGap_nil hm hwhole ih
          simpa [Text.joinWith, List.intercalate] using hmore

end ListText

/-- **Cutting undoes joining.**  A text that lists members between separators, where the brackets of
each member but the last one match, is cut into its members, whatever white space stands around them
and however many empty members there are.  Whatever a text is cut into are members that are each cut
into themselves, and the text that joins them is cut into the same. -/
theorem splitTopLevel_inverts (dialect : Dialect) (hplain : isPlain separator = true)
    (hblank : isBlank separator = false) :
    (∀ members text, ListText dialect separator (Matched dialect) members text →
        splitTopLevel dialect separator text = members) ∧
      ∀ text, (∀ piece ∈ splitTopLevel dialect separator text,
        piece ≠ [] ∧ Text.trim piece = piece ∧
          splitTopLevel dialect separator piece = [piece]) ∧
        splitTopLevel dialect separator
            (Text.joinWith [separator] (splitTopLevel dialect separator text))
          = splitTopLevel dialect separator text := by
  refine ⟨fun members text => splitTopLevel_of_listText hplain hblank fun _ => Matched.level,
    fun text => ?_⟩
  obtain ⟨members, h⟩ := exists_listText dialect separator text
  have hsplit : ∀ {members text}, ListText dialect separator (Level dialect) members text →
      splitTopLevel dialect separator text = members :=
    splitTopLevel_of_listText hplain hblank fun _ => id
  rw [hsplit h]
  refine ⟨fun piece hpiece => ?_, hsplit h.joinWith⟩
  have hm := h.isMember piece hpiece
  refine ⟨hm.ne_nil, hm.trimmed, ?_⟩
  rw [splitTopLevel_of_cutFree (cutFree_iff.mpr hm.free), hm.trimmed, if_neg hm.ne_nil]

/-- Two members whose literals and brackets hold commas, and one with a bracket that is never
closed. -/
def sampleMembers : List (List Char) :=
  ["price DECIMAL(10, 2)".toList, "note TEXT DEFAULT 'it''s, ok'".toList, "CHECK (a, b".toList]

/-- They are listed with an empty member before the first and one behind it. -/
def sampleListText : List Char :=
  " ,\tprice DECIMAL(10, 2) , ,note TEXT DEFAULT 'it''s, ok',\n  CHECK (a, b\n".toList

theorem splitTopLevel_inverts_sampleMembers : isPlain ',' = true ∧ isBlank ',' = false ∧
    ListText .script ',' (Matched .script) sampleMembers sampleListText ∧
    splitTopLevel .script ',' sampleListText = sampleMembers ∧
    splitTopLevel .script ',' (Text.joinWith [','] (splitTopLevel .script ',' sampleListText))
      = sampleMembers := by
  have hplain : isPlain ',' = true := by decide
  have hmember : ∀ member ∈ sampleMembers, IsMember .script ',' member := by
    have hfree : ∀ member ∈ sampleMembers, topLevelPieces .script ',' member = [member] := by decide
    have htrimmed : ∀ member ∈ sampleMembers, member ≠ [] ∧ Text.trim member = member := by decide
    exact fun member hm => ⟨(htrimmed member hm).1, (htrimmed member hm).2,
      (separatorFree_iff hplain).mpr (hfree member hm)⟩
  have hgap : ∀ g ∈ [[], [' '], ['\t'], ['\n'], "\n  ".toList], IsGap g := by decide
  have hlist : ListText .script ',' (Matched .script) sampleMembers sampleListText := by
    have hlast : ListText .script ',' (Matched .script) ["CHECK (a, b".toList] _ :=
      .last (hgap "\n  ".toList (by decide)) (hgap ['\n'] (by decide))
        (hmember "CHECK (a, b".toList (by decide))
    have hnote := ListText.more (hgap [] (by decide)) (hgap [] (by decide))
      (hmember "note TEXT DEFAULT 'it''s, ok'".toList (by decide)) (by decide) hlast
    have hprice := ListText.more (hgap ['\t'] (by decide)) (hgap [' '] (by decide))
      (hmember "price DECIMAL(10, 2)".toList (by decide)) (by decide)
      (ListText.skip (hgap [' '] (by decide)) hnote)
    exact ListText.skip (hgap [' '] (by decide)) hprice
  obtain ⟨hcut, hagain⟩ := splitTopLevel_inverts .script hplain (by decide : isBlank ',' = false)
  have hsplit := hcut _ _ hlist
  exact ⟨hplain, by decide, hlist, hsplit, (hagain sampleListText).2.trans hsplit⟩

end SchemaReader
