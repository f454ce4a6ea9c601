/-
The heads of blocks at the borders of texts.

* `blockHead`, `headOf`: the head of a block of a given kind, and of one whose kind a pattern reads;
* `OpensModel`: a text begins like a model;
* `OpensWords`: a text begins with two words, as a model and a field do, with `staysIn_blockHead`:
  no block goes on into such a text from the line before;
* `silent_blockHead`: no block is read in a text that does not hold the word of its kind;
* `LinesOutside`: the lines of a text begin outside of literals, with `isSome_enclosed?_of_reads`: a
  model that begins with one of these lines is closed where the text is.
-/
import SchemaReader.Proofs.Lexical.Balance
import SchemaReader.Proofs.ModelFile.Heads
import SchemaReader.Proofs.Pattern.Borders

namespace SchemaReader.ModelFile

open Text (IsWord IsGap Stops isBlank isWordChar)
open Pattern

variable {before u v w next rest body : List Char} {kind : String}

/-! ### Heads -/

/-- The head of a block of a kind; group 1 is its name. -/
def blockHead (kind : String) : Pattern := indentation ++ lit kind ++ blockName

lemma modelHead_eq : modelHead = blockHead "model" := rfl

/-- The head of a block whose kind a pattern reads. -/
def headOf (p : Pattern) : Pattern := indentation ++ p ++ blockName

lemma lineLed_headOf (p : Pattern) : (headOf p).LineLed := (lineLed_lineStart.append _).append _

/-- A declaration is an enumeration or a composite type. -/
lemma fails_declarationHead (henum : (blockHead "enum").Fails before u)
    (htype : (blockHead "type").Fails before u) : declarationHead.Fails before u := by
  simp only [blockHead, fails_assoc] at henum htype
  simp only [declarationHead, fails_assoc]
  refine fails_append.mpr fun w rest hw hread => fails_alt_append.mpr ⟨?_, ?_⟩
  · exact fails_append.mp henum w rest hw hread
  · exact fails_append.mp htype w rest hw hread

lemma silent_declarationHead (henum : Silent (blockHead "enum") before u rest)
    (htype : Silent (blockHead "type") before u rest) :
    Silent declarationHead before u rest := by
  induction u generalizing before with
  | nil => trivial
  | cons c u ih => exact ⟨fails_declarationHead henum.1 htype.1, ih henum.2 htype.2⟩

/-! ### Before a model -/

/-- A text begins with the word of a model, behind white space or none, and with another word. -/
def OpensModel (text : List Char) : Prop :=
  ∃ t g v, text = t ++ ("model".toList ++ (g ++ v)) ∧ IsGap t ∧ IsGap g ∧ g ≠ [] ∧
    ¬ Stops isWordChar v

/-- A text begins with two words, behind white space or none. -/
def OpensWords (text : List Char) : Prop :=
  ∃ t k g v, text = t ++ (k ++ (g ++ v)) ∧ IsGap t ∧ IsWord k ∧ IsGap g ∧ g ≠ [] ∧
  ¬ Stops isWordChar v

lemma OpensModel.opensWords (h : OpensModel next) : OpensWords next := by
  obtain ⟨t, g, v, rfl, ht, hg, hne, hv⟩ := h
  exact ⟨t, "model".toList, g, v, rfl, ht, by decide, hg, hne, hv⟩

section OpensWords

variable (hnext : OpensWords next)

include hnext

/-- The first of the words is no name of a block: behind it comes another word and no bracket. -/
lemma fails_blockName_parts (before : List Char) :
    (blanks ++ (.group 1 word ++ (blanks ++ char '\x7b'))).Fails before next ∧
      (Pattern.group 1 word ++ (blanks ++ char '\x7b')).Fails before next ∧
        (blanks ++ char '\x7b').Fails before next := by
  obtain ⟨t, k, g, v, rfl, ht, hword, hg, hne, hv⟩ := hnext
  have hbracket : ∀ before, (blanks ++ char '\x7b').Fails before (g ++ v) := fun before =>
    fails_blanks_append (by decide) hg
      (Text.stops_of_not_stops hv fun _ => Text.not_isBlank_of_isWordChar)
      (fails_of_stops rfl (Text.stops_of_not_stops hv fun _ => Text.beq_of_isWordChar (by decide)))
  have hgap : Stops isWordChar (g ++ v) :=
    hg.stops_of_ne_nil hne (fun _ => Text.not_isWordChar_of_isBlank) v
  have hname : ∀ before, (Pattern.group 1 word ++ (blanks ++ char '\x7b')).Fails before
      (k ++ (g ++ v)) := fun before => fails_group_append.mpr <|
    fails_many1_append (blanks_char_avoids (by decide)) hword.chars hgap fun _ => hbracket _
  refine ⟨fails_blanks_append (by decide) ht (hword.stops_isBlank _) (hname _), ?_, ?_⟩
  · cases t with
    | nil => exact hname before
    | cons c t =>
        refine fails_group_append.mpr (fails_assoc.mpr (fails_one_append ?_))
        simpa using Text.not_isWordChar_of_isBlank (ht c List.mem_cons_self)
  · exact fails_blanks_append (by decide) ht (hword.stops_isBlank _)
      (fails_of_stops rfl (hword.stops (fun _ => Text.beq_of_isWordChar (by decide)) _))

/-- No block goes on into such a text from the lines before it. -/
theorem staysIn_blockHead (hkind : (lit kind).neverReads '\n' = true) (u : List Char) :
    (blockHead kind).StaysIn (u ++ ['\n']) next := by
  have hbracket : (blanks ++ char '\x7b').StaysIn (u ++ ['\n']) next :=
    ((stopsShort_of_neverReads (by decide)).staysIn next).many_append fun before =>
      (fails_blockName_parts hnext before).2.2
  have hname : (Pattern.group 1 word ++ (blanks ++ char '\x7b')).StaysIn (u ++ ['\n']) next :=
    hbracket.append_left ((stopsShort_of_neverReads (by decide)).group 1)
  have hblock : (someBlanks ++ (.group 1 word ++ (blanks ++ char '\x7b'))).StaysIn (u ++ ['\n'])
      next := hname.many1_append fun before => (fails_blockName_parts hnext before).1
  have hstays : (lit kind ++ blockName).StaysIn (u ++ ['\n']) next := by
    refine StaysIn.append_left ?_ (stopsShort_of_neverReads hkind)
    simpa only [blockName, staysIn_assoc] using hblock
  exact staysIn_assoc.mpr (hstays.append_left (stopsShort_of_neverReads (by decide)))

end OpensWords

/-! ### Texts without the word of a kind -/

/-- A head is read at the beginning of a line, in its parts and the bracket, if a word is read for
its kind. -/
lemma exists_parts_of_reads_head {p : Pattern}
    (hp : ∀ {before w rest}, p.Reads before w rest → IsWord w)
    (h : (headOf p).Reads before w rest) :
    ∃ k t g n s, HeadParts k t g n s ∧ w = (t ++ (k ++ (g ++ (n ++ s)))) ++ ['\x7b'] ∧
      (Cursor.mk before [] 0).atLineStart = true ∧ ∃ before rest, p.Reads before k rest := by
  simp only [headOf, indentation, reads_assoc] at h
  obtain ⟨_, _, rfl, ⟨rfl, hline⟩, t, _, rfl, ht, k, _, rfl, hk, hname⟩ := h
  simp only [blockName, reads_assoc] at hname
  obtain ⟨g, _, rfl, hg, n, _, rfl, ⟨_, m, rfl, ⟨d, hd, rfl⟩, hm⟩, s, _, rfl, hs, c, hc, rfl⟩ :=
    hname
  obtain rfl : c = '\x7b' := by simpa using hc
  obtain ⟨hgap, hne⟩ := isGap_of_reads_someBlanks hg
  have hn : IsWord ([d] ++ m) := ⟨List.cons_ne_nil d m, List.forall_mem_cons.mpr ⟨hd, hm⟩⟩
  exact ⟨k, t, g, [d] ++ m, s, ⟨hp hk, ht, hgap, hne, hn, hs⟩, by simp, hline, _, _, hk⟩

lemma exists_parts_of_reads (hkind : IsWord kind.toList)
    (h : (blockHead kind).Reads before w rest) :
    ∃ t g n s, HeadParts kind.toList t g n s ∧
      w = (t ++ (kind.toList ++ (g ++ (n ++ s)))) ++ ['\x7b'] ∧
      (Cursor.mk before [] 0).atLineStart = true := by
  obtain ⟨k, t, g, n, s, hparts, hw, hline, _, _, hk⟩ :=
    exists_parts_of_reads_head (fun hk => reads_lit.mp hk ▸ hkind) h
  obtain rfl := reads_lit.mp hk
  exact ⟨t, g, n, s, hparts, hw, hline⟩

/-- At the beginning of a line, no word goes on behind spaces and tabulators. -/
lemma stops_of_atLineStart {t : List Char}
    (hline : (Cursor.mk (v.reverse ++ before) [] 0).atLineStart = true)
    (ht : ∀ c ∈ t, (c == ' ' || c == '\t') = true) : Stops isWordChar (v ++ t).reverse := by
  rw [List.reverse_append]
  obtain rfl | ⟨t, c, rfl⟩ := List.eq_nil_or_concat t
  · cases hv : v.reverse with
    | nil => exact Text.stops_nil
    | cons d v' =>
        rw [hv] at hline
        obtain rfl : d = '\n' := by simpa [Cursor.atLineStart] using hline
        simp
        decide
  · have hc := ht c (by simp)
    simp only [Bool.or_eq_true, beq_iff_eq] at hc
    rcases hc with rfl | rfl <;> simp <;> decide

/-- No block is read in a text without the word of its kind, if none goes on behind the text. -/
theorem silent_blockHead (hkind : IsWord kind.toList)
    (hstays : (blockHead kind).StaysIn u next) (hu : kind.toList ∉ Text.words u) :
    Silent (blockHead kind) before u next := by
  refine silent_of_forall fun v c x hvx w rest htext hread => hu ?_
  obtain ⟨x', hx'⟩ :=
    hstays.exists_append (List.cons_ne_nil c x) (hvx ▸ List.suffix_append v _) htext hread
  obtain ⟨t, g, n, s, hparts, rfl, hline⟩ := exists_parts_of_reads hkind hread
  have hbefore : Stops isWordChar (v ++ t).reverse := stops_of_atLineStart hline hparts.indent
  have hbehind : Stops isWordChar (g ++ ((n ++ (s ++ ['\x7b'])) ++ x')) :=
    hparts.gap.stops_of_ne_nil hparts.gap_ne_nil (fun _ => Text.not_isWordChar_of_isBlank) _
  have hmem := Text.mem_words hkind.chars hbefore hbehind
  simpa [hvx, hx'] using hmem

/-! ### Lines that begin outside of literals -/

/-- The lines of a text begin outside of literals. -/
def LinesOutside (text : List Char) : Prop :=
  ∀ v ∈ text.inits, v ++ ['\n'] <+: text →
    (depthAfter? .code 0 .outside v).map (·.2) = some .outside

instance (text : List Char) : Decidable (LinesOutside text) :=
  inferInstanceAs (Decidable (∀ v ∈ text.inits, _))

lemma LinesOutside.exists_depth (h : LinesOutside (v ++ '\n' :: rest)) :
    ∃ n, depthAfter? .code 0 .outside v = some (n, .outside) := by
  have houtside := h v ((List.mem_inits _ _).mpr (List.prefix_append v _)) ⟨rest, by simp⟩
  obtain ⟨⟨n, literal⟩, hdepth, rfl⟩ := Option.map_eq_some_iff.mp houtside
  exact ⟨n, hdepth⟩

/-- Nor does a place in a line behind plain characters stand in a literal. -/
lemma LinesOutside.exists_depth_behind (h : LinesOutside (v ++ '\n' :: (w ++ rest)))
    (hw : ∀ c ∈ w, isPlain c = true) :
    ∃ n, depthAfter? .code 0 .outside (v ++ '\n' :: w) = some (n, .outside) := by
  obtain ⟨n, hdepth⟩ := h.exists_depth
  refine ⟨n, ?_⟩
  rw [depthAfter?_append, hdepth, Option.bind_some]
  exact depthAfter?_plain (List.forall_mem_cons.mpr ⟨by decide, hw⟩)

/-- Where a character stands in a text, if it is not in the part before another place of it. -/
lemma eq_or_exists_append {x y : List Char} {c : Char} (hu : c ∉ u)
    (h : u ++ c :: x = v ++ c :: y) :
    v = u ∨ ∃ z, v = u ++ c :: z ∧ x = z ++ c :: y := by
  obtain ⟨z, rfl, hz⟩ | ⟨z, rfl, hz⟩ := List.append_eq_append_iff.mp h
  · cases z with
    | nil => exact Or.inl (List.append_nil u)
    | cons d z =>
        obtain ⟨rfl, rfl⟩ := List.cons.inj hz
        exact Or.inr ⟨z, rfl, rfl⟩
  · cases z with
    | nil => exact Or.inl (List.append_nil v).symm
    | cons d z =>
        obtain ⟨rfl, -⟩ := List.cons.inj hz
        simp at hu

/-- What follows a character that it does not hold begins behind the character. -/
lemma exists_append_of_not_mem {front x : List Char} {c : Char} (hw : c ∉ w)
    (h : v ++ w = front ++ c :: x) : ∃ x', v = front ++ c :: x' ∧ x = x' ++ w := by
  obtain ⟨z, rfl, rfl⟩ | ⟨z, rfl, hz⟩ := List.append_eq_append_iff.mp h
  · simp at hw
  · cases z with
    | nil =>
        rw [List.nil_append] at hz
        simp [← hz] at hw
    | cons d z =>
        obtain ⟨rfl, rfl⟩ := List.cons.inj hz
        exact ⟨z, rfl, rfl⟩

/-- Where a bracket stands in a text that begins with another one and ends with its partner. -/
lemma bracket_cases {front : List Char} (hfront : '\x7b' ∉ front)
    (h : front ++ '\x7b' :: (body ++ ['\x7d']) = u ++ '\x7b' :: rest) :
    (u = front ∧ rest = body ++ ['\x7d']) ∨ ∃ x y, u = front ++ '\x7b' :: x ∧
      body = x ++ '\x7b' :: y ∧ rest = y ++ ['\x7d'] := by
  obtain rfl | ⟨x, rfl, hx⟩ := eq_or_exists_append hfront h
  · exact Or.inl ⟨rfl, by simpa using h.symm⟩
  · obtain ⟨y, rfl, rfl⟩ := exists_append_of_not_mem (by decide) hx
    exact Or.inr ⟨x, y, rfl, rfl, rfl⟩

/-- A model that begins within a block is closed there, if the text of the block is balanced and its
lines begin outside of literals. -/
theorem isSome_enclosed?_of_reads {front : List Char} (hfront : '\x7b' ∉ front)
    (hbody : Balanced .code body) (hlines : LinesOutside body)
    (htext : front ++ '\x7b' :: (body ++ ['\x7d']) = v ++ (w ++ rest))
    (hread : modelHead.Reads v.reverse w rest) : (enclosed? .code rest).isSome = true := by
  obtain ⟨t, g, n, s, hparts, rfl, hline⟩ :=
    exists_parts_of_reads (by decide) (modelHead_eq ▸ hread)
  have hplain := hparts.plain
  generalize t ++ ("model".toList ++ (g ++ (n ++ s))) = w at hplain htext
  have htext' : front ++ '\x7b' :: (body ++ ['\x7d']) = (v ++ w) ++ '\x7b' :: rest := by
    simpa using htext
  obtain ⟨-, rfl⟩ | ⟨x, y, hx, rfl, rfl⟩ := bracket_cases hfront htext'
  · rw [enclosed?_of_balanced hbody (by decide), Option.isSome_some]
  · -- the model begins with a line of the block behind its head
    obtain ⟨x, rfl, rfl⟩ := exists_append_of_not_mem (fun hmem => by
      simpa [isPlain, isOpening] using hplain _ hmem) hx
    obtain rfl | ⟨x, c, rfl⟩ := List.eq_nil_or_concat x
    · simp [Cursor.atLineStart] at hline
    obtain rfl : c = '\n' := by simpa [Cursor.atLineStart] using hline
    have hlines' : x.concat '\n' ++ w ++ '\x7b' :: y = x ++ '\n' :: (w ++ '\x7b' :: y) := by simp
    have hbody' : x.concat '\n' ++ w ++ '\x7b' :: y = (x ++ '\n' :: w) ++ '\x7b' :: y := by simp
    obtain ⟨n, hdepth⟩ := (hlines' ▸ hlines).exists_depth_behind hplain
    have hopen : bracketStep? .code n .outside '\x7b' = some (n + 1, .outside) := rfl
    -- the bracket of the model is the one that is open beyond those before the line
    have hinside : depthAfter? .code (n + 1) .outside y = some (0, .outside) := by
      rw [Balanced, hbody', depthAfter?_append, hdepth, Option.bind_some, depthAfter?, hopen,
        Option.bind_some] at hbody
      exact hbody
    obtain ⟨⟨inner, behind⟩, henclosed⟩ :=
      Option.isSome_iff_exists.mp (isSome_enclosed? hinside (Nat.zero_le n))
    rw [enclosed?_append henclosed, Option.isSome_some]

end SchemaReader.ModelFile
