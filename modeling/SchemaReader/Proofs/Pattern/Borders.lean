/-
Readings at the end of a text.

* `Pattern.StopsShort`: no reading that begins within a text reads its last character, as with a
  pattern of which no part reads it, `Pattern.neverReads`;
* `Pattern.StaysIn`, with rules for sequences that are read from the left: a part either stops short
  or what follows it reads nothing in the next text;
* `Pattern.LedBy.silent_of_not_mentions`: a pattern that a keyword leads reads nothing in a text
  that does not mention it.
-/
import SchemaReader.Proofs.Pattern.Joining
import SchemaReader.Proofs.Pattern.Words

namespace SchemaReader.Pattern

open Text (Stops IsKeyword Spells Mentions isBlank isWordChar)

variable {a b q : Pattern} {p : Char → Bool} {K : String} {before u v next : List Char} {d : Char}

/-! ### Readings that stop before the last character -/

/-- No reading that begins within `u` reads the last character of `u`. -/
def StopsShort (q : Pattern) (u : List Char) : Prop :=
  ∀ before x y rest, x ≠ [] → x <:+ u → ¬ q.Reads before (x ++ y) rest

lemma exists_of_suffix_concat {x : List Char} (hx : x ≠ []) (hxu : x <:+ v ++ [d]) :
    ∃ x', x = x' ++ [d] ∧ x' <:+ v := by
  obtain h | ⟨x', rfl, h⟩ := List.suffix_concat_iff.mp hxu
  · exact absurd h hx
  · exact ⟨x', rfl, h⟩

/-- Whether no part of a pattern reads a character. -/
def neverReads : Pattern → Char → Bool
  | .one p, d | .many p, d => !p d
  | .seq a b, d | .alt a b, d => a.neverReads d && b.neverReads d
  | .star a, d | .group _ a, d => a.neverReads d
  | .empty, _ | .wordEdge, _ | .lineStart, _ | .textStart, _ | .textEnd, _ => true

@[simp]
lemma neverReads_append : (a ++ b).neverReads d = (a.neverReads d && b.neverReads d) := rfl

@[simp]
lemma neverReads_one : (one p).neverReads d = !p d := rfl

@[simp]
lemma neverReads_many : (many p).neverReads d = !p d := rfl

lemma ne_of_reads (q : Pattern) {w rest : List Char} (hq : q.neverReads d = true)
    (h : q.Reads before w rest) : ∀ c ∈ w, c ≠ d := by
  induction q generalizing before w rest with
  | one p =>
      obtain ⟨c, hc, rfl⟩ := h
      rintro c' hc' rfl
      obtain rfl := List.mem_singleton.mp hc'
      simp [neverReads, hc] at hq
  | many p =>
      rintro c hc rfl
      have hread : p c = true := h c hc
      simp [neverReads, hread] at hq
  | seq a b iha ihb =>
      obtain ⟨u, v, rfl, hu, hv⟩ := h
      simp only [neverReads, Bool.and_eq_true] at hq
      exact List.forall_mem_append.mpr ⟨iha hq.1 hu, ihb hq.2 hv⟩
  | alt a b iha ihb =>
      simp only [neverReads, Bool.and_eq_true] at hq
      exact h.elim (iha hq.1) (ihb hq.2)
  | star a ih =>
      change Rounds a.Reads before w rest at h
      induction h with
      | stop => simp
      | round hu _ ihv => exact List.forall_mem_append.mpr ⟨ih hq hu, ihv⟩
  | group n a ih => exact ih hq h
  | empty =>
      obtain rfl := h
      simp
  | wordEdge | lineStart | textStart | textEnd =>
      obtain ⟨rfl, -⟩ := h
      simp

/-- A pattern that never reads the last character of a text stops short of it. -/
lemma stopsShort_of_neverReads (h : q.neverReads d = true) : q.StopsShort (v ++ [d]) := by
  intro before x y rest hx hxu hread
  obtain ⟨x', rfl, -⟩ := exists_of_suffix_concat hx hxu
  exact ne_of_reads q h hread d (by simp) rfl

/-- No reading goes on into a text that begins with a character which is never read. -/
lemma staysIn_of_neverReads_next (h : q.neverReads d = true) : q.StaysIn u (d :: v) := by
  intro before x y rest _ _ hy hnext hread
  obtain ⟨c, y, rfl⟩ := List.exists_cons_of_ne_nil hy
  obtain ⟨rfl, -⟩ := List.cons.inj hnext
  exact ne_of_reads q h hread d (by simp) rfl

/-- Before such a character, a pattern fails that cannot read nothing. -/
lemma fails_of_neverReads (hnull : q.nullable = false) (h : q.neverReads d = true) :
    q.Fails before (d :: v) := by
  intro w rest htext hread
  cases w with
  | nil => simp [nullable_of_reads q hread] at hnull
  | cons c w =>
      obtain ⟨rfl, -⟩ := List.cons.inj htext
      exact ne_of_reads q h hread d List.mem_cons_self rfl

/-- A free pattern that does not occur in a text reads nothing there, if no reading goes on behind
it. -/
lemma silent_of_not_occursIn (hfree : q.isFree = true) (hstays : q.StaysIn u next)
    (h : q.occursIn u = false) : Silent q before u next := by
  refine silent_of_forall fun v c x hvx w rest htext hread => ?_
  obtain ⟨x', hx'⟩ := hstays.exists_append (List.cons_ne_nil c x) (hvx ▸ List.suffix_append v _)
    htext hread
  have hoccurs : q.occursIn u = true := occursIn_iff_reads.mpr
    ⟨v, w, x', by rw [hvx, hx'], reads_of_isFree q hfree hread _ _⟩
  simp [h] at hoccurs

/-- Neither does it between two of the characters that it never reads. -/
lemma silent_between (hfree : q.isFree = true) (hnull : q.nullable = false)
    (hd : q.neverReads d = true) (h : q.occursIn u = false) :
    Silent q before (d :: (u ++ [d])) next := by
  refine ⟨fails_of_neverReads hnull hd,
    silent_append.mpr ⟨?_, fails_of_neverReads hnull hd, trivial⟩⟩
  exact silent_of_not_occursIn hfree (staysIn_of_neverReads_next hd) h

/-- A pattern that begins with no character of a text reads nothing in it. -/
lemma stopsShort_of_not_mayBegin (h : ∀ c ∈ u, q.mayBegin c = false) : q.StopsShort u := by
  intro before x y rest hx hxu hread
  obtain ⟨c, x, rfl⟩ := List.exists_cons_of_ne_nil hx
  have hc := h c (hxu.subset List.mem_cons_self)
  simp [mayBegin_of_reads q hread] at hc

/-! ### Readings of sequences -/

lemma reads_assoc {w rest : List Char} :
    (a ++ b ++ q).Reads before w rest ↔ (a ++ (b ++ q)).Reads before w rest := by
  simp only [reads_append]
  constructor
  · rintro ⟨_, z, rfl, ⟨x, y, rfl, ha, hb⟩, hq⟩
    exact ⟨x, y ++ z, by simp, by simpa using ha, y, z, rfl, hb, by simpa using hq⟩
  · rintro ⟨x, _, rfl, ha, y, z, rfl, hb, hq⟩
    exact ⟨x ++ y, z, by simp, ⟨x, y, rfl, by simpa using ha, hb⟩, by simpa using hq⟩

lemma reads_empty_append {w rest : List Char} :
    (Pattern.empty ++ q).Reads before w rest ↔ q.Reads before w rest := by
  constructor
  · rintro ⟨_, z, rfl, rfl, hq⟩
    exact hq
  · exact fun hq => ⟨[], w, rfl, rfl, hq⟩

lemma reads_alt_append {w rest : List Char} : ((a ||| b) ++ q).Reads before w rest ↔
    (a ++ q).Reads before w rest ∨ (b ++ q).Reads before w rest := by
  constructor
  · rintro ⟨x, z, rfl, ha | hb, hq⟩
    · exact Or.inl ⟨x, z, rfl, ha, hq⟩
    · exact Or.inr ⟨x, z, rfl, hb, hq⟩
  · rintro (⟨x, z, rfl, ha, hq⟩ | ⟨x, z, rfl, hb, hq⟩)
    · exact ⟨x, z, rfl, Or.inl ha, hq⟩
    · exact ⟨x, z, rfl, Or.inr hb, hq⟩

lemma isGap_of_reads_someBlanks {w rest : List Char} (h : someBlanks.Reads before w rest) :
    Text.IsGap w ∧ w ≠ [] := by
  obtain ⟨_, g, rfl, ⟨c, hc, rfl⟩, hg⟩ := h
  exact ⟨List.forall_mem_cons.mpr ⟨hc, hg⟩, List.cons_ne_nil c g⟩

lemma spacedKeyword_of_reads {w rest : List Char} (hK : IsKeyword K.toList)
    (h : (keywordBefore K).Reads before w rest) : SpacedKeyword K w := by
  obtain ⟨s, g, rfl, hs, hg⟩ := h
  obtain ⟨hgap, hne⟩ := isGap_of_reads_someBlanks hg
  exact ⟨hK, s, g, rfl, reads_keyword.mp hs, hgap, hne⟩

/-- What two patterns read one after the other, where the first reading ends within `x` or not. -/
lemma reads_append_cases {x y rest : List Char} (h : (a ++ b).Reads before (x ++ y) rest) :
    (∃ w x', x = w ++ x' ∧ a.Reads before w (x' ++ (y ++ rest)) ∧
      b.Reads (w.reverse ++ before) (x' ++ y) rest) ∨
    ∃ y' z, y = y' ++ z ∧ a.Reads before (x ++ y') (z ++ rest) ∧
      b.Reads ((x ++ y').reverse ++ before) z rest := by
  obtain ⟨w, z, hxy, ha, hb⟩ := h
  obtain ⟨x', rfl, rfl⟩ | ⟨y', rfl, rfl⟩ := List.append_eq_append_iff.mp hxy.symm
  · exact Or.inl ⟨w, x', rfl, by simpa using ha, hb⟩
  · exact Or.inr ⟨y', z, rfl, ha, hb⟩

lemma StopsShort.append (ha : a.StopsShort u) (hb : b.StopsShort u) : (a ++ b).StopsShort u := by
  intro before x y rest hx hxu hread
  obtain ⟨w, x', rfl, ha', hb'⟩ | ⟨y', z, rfl, ha', -⟩ := reads_append_cases hread
  · cases x' with
    | nil => exact ha before w [] _ (by simpa using hx) (by simpa using hxu) (by simpa using ha')
    | cons c x' => exact hb _ (c :: x') y rest (by simp) ((List.suffix_append _ _).trans hxu) hb'
  · exact ha before x y' _ hx hxu ha'

lemma StopsShort.alt (ha : a.StopsShort u) (hb : b.StopsShort u) : (a ||| b).StopsShort u :=
  fun before x y rest hx hxu hread =>
    hread.elim (ha before x y rest hx hxu) (hb before x y rest hx hxu)

lemma StopsShort.opt (ha : a.StopsShort u) : (opt a).StopsShort u :=
  ha.alt (stopsShort_of_not_mayBegin fun _ _ => rfl)

lemma StopsShort.group (ha : a.StopsShort u) (n : Nat) : (Pattern.group n a).StopsShort u := ha

/-- Where a text without `)` and one `)` follow, a `)` is the end. -/
lemma eq_nil_of_mem_parenthesis {w x y : List Char} (hw : ∀ c ∈ w, c ≠ ')') (hx : ')' ∈ x)
    (h : x ++ y = w ++ [')']) : ∃ x', x = x' ++ [')'] := by
  obtain ⟨x₁, x₂, rfl⟩ := List.append_of_mem hx
  rw [List.append_assoc, List.cons_append] at h
  refine ⟨x₁, ?_⟩
  obtain ⟨z, rfl, hz⟩ | ⟨z, rfl, hz⟩ := List.append_eq_append_iff.mp h
  · cases z with
    | nil => simp_all
    | cons c z =>
        obtain ⟨rfl, -⟩ := List.cons.inj hz
        exact absurd rfl (hw ')' (by simp))
  · cases z with
    | nil => simp_all
    | cons c z => simp at hz

/-- Parentheses that are opened within a text are closed before its end, if a closing one follows
each opening one. -/
lemma stopsShort_inParens (i : Nat) (hd : d ≠ ')')
    (hshut : ∀ a b, v ++ [d] = a ++ '(' :: b → ')' ∈ b) : (inParens i).StopsShort (v ++ [d]) := by
  intro before x y rest hx hxu hread
  obtain ⟨_, _, hxy, ⟨_, w, rfl, ⟨c, hc, rfl⟩, hw⟩, ⟨c', hc', rfl⟩⟩ := hread
  obtain rfl : c = '(' := by simpa using hc
  obtain rfl : c' = ')' := by simpa using hc'
  obtain ⟨x, rfl⟩ : ∃ x', x = '(' :: x' := by
    cases x with
    | nil => exact absurd rfl hx
    | cons e x => exact ⟨x, by simp_all⟩
  obtain ⟨w₀, hw₀⟩ := hxu
  obtain ⟨x₁, rfl⟩ := eq_nil_of_mem_parenthesis (fun c hc => by simpa using hw c hc)
    (hshut w₀ x hw₀.symm) (List.cons.inj hxy).2
  rw [← List.cons_append, ← List.append_assoc] at hw₀
  exact hd (List.singleton_inj.mp (List.append_inj_right' hw₀ rfl)).symm

/-! ### Readings that stay in a text -/

lemma StopsShort.staysIn (h : q.StopsShort u) (next : List Char) : q.StaysIn u next :=
  fun before x y rest hx hxu _ _ => h before x y rest hx hxu

/-- Behind a part that stops short, a pattern stays in the text if the rest of it does. -/
lemma StaysIn.append_left (hq : q.StaysIn u next) (ha : a.StopsShort u) :
    (a ++ q).StaysIn u next := by
  intro before x y rest hx hxu hy hnext hread
  obtain ⟨w, x', rfl, ha', hq'⟩ | ⟨y', z, rfl, ha', -⟩ := reads_append_cases hread
  · cases x' with
    | nil => exact ha before w [] _ (by simpa using hx) (by simpa using hxu) (by simpa using ha')
    | cons c x' =>
        exact hq _ (c :: x') y rest (by simp) ((List.suffix_append _ _).trans hxu) hy hnext hq'
  · exact ha before x y' _ hx hxu ha'

/-- Two parts that stay in the text stay in it one after the other, if the second one does not begin
in the next text. -/
lemma StaysIn.append (ha : a.StaysIn u next) (hb : b.StaysIn u next)
    (hfails : ∀ before, b.Fails before next) : (a ++ b).StaysIn u next := by
  rintro before x y rest hx hxu hy rfl hread
  obtain ⟨w, x', rfl, -, hb'⟩ | ⟨y', z, rfl, ha', hb'⟩ := reads_append_cases hread
  · cases x' with
    | nil => exact hfails _ y rest rfl hb'
    | cons c x' =>
        exact hb _ (c :: x') y rest (by simp) ((List.suffix_append _ _).trans hxu) hy rfl hb'
  · cases y' with
    | nil => exact hfails _ z rest (by simp) hb'
    | cons c y' => exact ha before x (c :: y') _ hx hxu (by simp) (by simp) ha'

/-- A repetition may read up to the next text, if what follows the repetition then fails. -/
lemma StaysIn.many_append (hq : q.StaysIn u next)
    (hfails : ∀ before, (many p ++ q).Fails before next) : (many p ++ q).StaysIn u next := by
  intro before x y rest hx hxu hy hnext hread
  obtain ⟨w, x', rfl, hw, hq'⟩ | ⟨y', z, rfl, hw, hq'⟩ := reads_append_cases hread
  · cases x' with
    | nil =>
        refine hfails (w.reverse ++ before) y rest hnext ⟨[], y, rfl, by simp [Reads], ?_⟩
        simpa using hq'
    | cons c x' =>
        exact hq _ (c :: x') y rest (by simp) ((List.suffix_append _ _).trans hxu) hy hnext hq'
  · refine hfails (x.reverse ++ before) (y' ++ z) rest hnext ⟨y', z, rfl, ?_, ?_⟩
    · exact fun c hc => hw c (List.mem_append_right _ hc)
    · simpa using hq'

lemma StaysIn.one_append (hq : q.StaysIn u next) (hfails : ∀ before, q.Fails before next) :
    (one p ++ q).StaysIn u next := by
  intro before x y rest hx hxu hy hnext hread
  obtain ⟨c, x, rfl⟩ := List.exists_cons_of_ne_nil hx
  obtain ⟨_, z, hxy, ⟨c', -, rfl⟩, hq'⟩ := hread
  obtain ⟨rfl, rfl⟩ := List.cons.inj hxy
  cases x with
  | nil => exact hfails _ y rest hnext hq'
  | cons c x => exact hq _ (c :: x) y rest (by simp) ((List.suffix_cons _ _).trans hxu) hy hnext hq'

lemma StaysIn.alt_append (ha : (a ++ q).StaysIn u next) (hb : (b ++ q).StaysIn u next) :
    ((a ||| b) ++ q).StaysIn u next := by
  intro before x y rest hx hxu hy hnext hread
  exact (reads_alt_append.mp hread).elim (ha before x y rest hx hxu hy hnext)
    (hb before x y rest hx hxu hy hnext)

lemma StaysIn.opt_append (ha : (a ++ q).StaysIn u next) (hq : q.StaysIn u next) :
    (Pattern.opt a ++ q).StaysIn u next := by
  refine ha.alt_append fun before x y rest hx hxu hy hnext hread => ?_
  exact hq before x y rest hx hxu hy hnext (reads_empty_append.mp hread)

lemma staysIn_assoc : (a ++ b ++ q).StaysIn u next ↔ (a ++ (b ++ q)).StaysIn u next := by
  simp only [StaysIn, reads_assoc]

lemma staysIn_group_append {n : Nat} :
    (Pattern.group n a ++ q).StaysIn u next ↔ (a ++ q).StaysIn u next := Iff.rfl

lemma StaysIn.many1_append (hq : q.StaysIn u next)
    (hfails : ∀ before, (many p ++ q).Fails before next) : (many1 p ++ q).StaysIn u next :=
  staysIn_assoc.mpr ((hq.many_append hfails).one_append hfails)

lemma staysIn_many1 (h : Stops p next) : (many1 p).StaysIn u next := by
  rintro before x y rest - - hy rfl ⟨_, w, hxy, ⟨c, hc, rfl⟩, hw⟩
  obtain ⟨d, y, rfl⟩ := List.exists_cons_of_ne_nil hy
  have hd : d ∈ [c] ++ w := hxy ▸ by simp
  have hread : p d = true := by
    rcases List.mem_append.mp hd with hd | hd
    · rwa [List.mem_singleton.mp hd]
    · exact hw d hd
  simp [hread] at h

/-- No reading that begins within `u` goes on into `next`, and none begins there. -/
structure Halts (q : Pattern) (u next : List Char) : Prop where
  stays : q.StaysIn u next
  fails : ∀ before, q.Fails before next

lemma Halts.opt_append (ha : (a ++ q).Halts u next) (hq : q.Halts u next) :
    (Pattern.opt a ++ q).Halts u next where
  stays := ha.stays.opt_append hq.stays
  fails before := fails_opt_append.mpr ⟨ha.fails before, hq.fails before⟩

lemma Halts.alt_append (ha : (a ++ q).Halts u next) (hb : (b ++ q).Halts u next) :
    ((a ||| b) ++ q).Halts u next where
  stays := ha.stays.alt_append hb.stays
  fails before := fails_alt_append.mpr ⟨ha.fails before, hb.fails before⟩

lemma halts_assoc : (a ++ b ++ q).Halts u next ↔ (a ++ (b ++ q)).Halts u next :=
  ⟨fun h => ⟨staysIn_assoc.mp h.stays, fun before => fails_assoc.mp (h.fails before)⟩,
    fun h => ⟨staysIn_assoc.mpr h.stays, fun before => fails_assoc.mpr (h.fails before)⟩⟩

lemma Halts.group_append (h : (a ++ q).Halts u next) (n : Nat) :
    (Pattern.group n a ++ q).Halts u next :=
  ⟨staysIn_group_append.mpr h.stays, fun before => fails_group_append.mpr (h.fails before)⟩

lemma fails_many_append_of_stops (h : Stops p next) (hq : q.Fails before next) :
    (many p ++ q).Fails before next := by
  rw [fails_append]
  rintro w rest rfl hw
  cases w with
  | nil => exact hq
  | cons c w =>
      have hc : p c = true := hw c List.mem_cons_self
      simp [hc] at h

lemma Halts.many_append (hq : q.Halts u next) (h : Stops p next) : (many p ++ q).Halts u next :=
  have hfails := fun before => fails_many_append_of_stops h (hq.fails before)
  ⟨hq.stays.many_append hfails, hfails⟩

lemma Halts.many1_append (hq : q.Halts u next) (h : Stops p next) :
    (many1 p ++ q).Halts u next where
  stays := hq.stays.many1_append (hq.many_append h).fails
  fails _ := fails_assoc.mpr (fails_one_append h)

lemma Halts.append_left (hq : q.Halts u next) (ha : a.StopsShort u)
    (hfails : ∀ before, (a ++ q).Fails before next) : (a ++ q).Halts u next :=
  ⟨hq.stays.append_left ha, hfails⟩

/-! ### Texts without a keyword -/

/-- A keyword that begins within a text, as a word of its own, is mentioned there, if no word goes
on from the text into the next one. -/
lemma mentions_of_append {x w rest : List Char} (hK : IsKeyword K.toList) (hx : x ≠ [])
    (hend : Stops isWordChar x.reverse ∨ Stops isWordChar next) (htext : x ++ next = w ++ rest)
    (hrest : Stops isWordChar rest) (hw : Spells K.toList w) (hv : Stops isWordChar v.reverse) :
    Mentions K (v ++ x) := by
  have hword := hw.isWord hK
  obtain ⟨y, rfl, rfl⟩ | ⟨x', rfl, rfl⟩ := List.append_eq_append_iff.mp htext
  · cases y with
    | nil => simpa using Text.mentions_of_spells hK hw hv Text.stops_nil
    | cons c y =>
        -- the word would go on into the next text
        have hc := hword.chars c (by simp)
        have hxword : Text.IsWord x := ⟨hx, fun d hd => hword.chars d (List.mem_append_left _ hd)⟩
        exact absurd hend (not_or.mpr ⟨hxword.not_stops_reverse, by simp [hc]⟩)
  · exact Text.mentions_of_spells hK hw hv hrest.of_append

/-- Where a text does not mention the keyword that leads a pattern, the pattern reads nothing. -/
lemma LedBy.silent_of_not_mentions (h : q.LedBy K) (hK : IsKeyword K.toList) (hu : ¬ Mentions K u)
    (hend : Stops isWordChar u.reverse ∨ Stops isWordChar next) : Silent q before u next := by
  refine silent_of_forall fun v c x hvx => h _ _ fun w rest htext _ hrest hspells hbefore => hu ?_
  rw [hvx]
  refine mentions_of_append hK (by simp) (hend.imp_left fun hu => ?_) htext hrest hspells
    hbefore.of_append
  rw [hvx, List.reverse_append] at hu
  exact hu.of_append

lemma SpacedKeyword.stops_reverse {w : List Char} (h : SpacedKeyword K w) (v : List Char) :
    Stops isWordChar (w.reverse ++ v) := by
  obtain ⟨s, g, rfl, -, hg, hne⟩ := h.split
  obtain ⟨c, g', hcg⟩ := List.exists_cons_of_ne_nil (List.reverse_ne_nil_iff.mpr hne)
  have hc : c ∈ g := List.mem_reverse.mp (hcg ▸ List.mem_cons_self)
  rw [List.reverse_append, hcg]
  simpa using Text.not_isWordChar_of_isBlank (hg c hc)

/-- Where a text does not mention a keyword, a pattern reads nothing that needs the keyword behind a
part of it, if this part stays in the text together with the keyword and ends where no word does. -/
lemma silent_of_not_mentions (hK : IsKeyword K.toList)
    (hq : ∀ before text, (a ++ (keywordBefore K ++ b)).Fails before text → q.Fails before text)
    (hstays : (a ++ keywordBefore K).StaysIn u next)
    (hends : ∀ before w rest, a.Reads before w rest → ∀ v, Stops isWordChar (w.reverse ++ v))
    (hu : ¬ Mentions K u) : Silent q before u next := by
  refine silent_of_forall fun v c x hvx => hq _ _ ?_
  rintro _ rest htext ⟨w, _, rfl, ha, t, z, rfl, ht, -⟩
  have hread : (a ++ keywordBefore K).Reads (v.reverse ++ before) (w ++ t) (z ++ rest) :=
    ⟨w, t, rfl, by simpa using ha, ht⟩
  obtain ⟨x', hx'⟩ := hstays.exists_append (List.cons_ne_nil c x) (hvx ▸ List.suffix_append v _)
    (by simpa using htext) hread
  obtain ⟨s, g, rfl, hs, hg, hne⟩ := (spacedKeyword_of_reads hK ht).split
  have hbehind : Stops isWordChar (g ++ x') :=
    hg.stops_of_ne_nil hne (fun _ => Text.not_isWordChar_of_isBlank) x'
  have hmentions : Mentions K ((v ++ w) ++ (s ++ (g ++ x'))) :=
    Text.mentions_of_spells hK hs (by simpa using hends _ _ _ ha v.reverse) hbehind
  exact hu (by simpa [hvx, hx'] using hmentions)

end SchemaReader.Pattern
