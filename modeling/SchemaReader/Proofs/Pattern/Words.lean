/-
Patterns of words, white space and brackets, and the texts that they take.

* `Pattern.takes_blanks`, `Pattern.takes_word`, `Pattern.takes_keyword`, `Pattern.takes_inParens`
  and their like: a piece of text that a pattern takes;
* `Pattern.fails_keyword_append`, `Pattern.fails_keywordBefore_append`: a keyword with what follows
  it fails on a word, unless the word spells it and the rest fails behind the word;
  `Pattern.fails_lit_append`: the same for a given word.
-/
import SchemaReader.Proofs.Pattern.First
import SchemaReader.Proofs.Pattern.Search

namespace SchemaReader.Pattern

open Text (Stops IsGap IsWord IsKeyword Spells isBlank isWordChar)

variable {q : Pattern} {p : Char → Bool} {K : String} {before u w g rest : List Char}

/-! ### Texts that patterns take -/

lemma takes_many1 (hne : w ≠ []) (hw : ∀ c ∈ w, p c = true) (hrest : Stops p rest) :
    (many1 p).Takes before w rest [] := by
  obtain ⟨c, w, rfl⟩ := List.exists_cons_of_ne_nil hne
  rw [List.forall_mem_cons] at hw
  exact (takes_one hw.1).append (takes_many hw.2 hrest)

lemma takes_blanks (hg : IsGap g) (hrest : Stops isBlank rest) : blanks.Takes before g rest [] :=
  takes_many hg hrest

lemma takes_someBlanks (hg : IsGap g) (hne : g ≠ []) (hrest : Stops isBlank rest) :
    someBlanks.Takes before g rest [] := takes_many1 hne hg hrest

lemma takes_word (hw : IsWord w) (hrest : Stops isWordChar rest) :
    word.Takes before w rest [] := takes_many1 hw.ne_nil hw.chars hrest

/-- What the pattern of words reads is one. -/
lemma isWord_of_reads (h : word.Reads before w rest) : IsWord w := by
  obtain ⟨_, v, rfl, ⟨c, hc, rfl⟩, hv⟩ := h
  exact ⟨by simp, List.forall_mem_cons.mpr ⟨hc, hv⟩⟩

lemma takes_text (t : List Char) : (text t).Takes before t rest [] := by
  induction t generalizing before with
  | nil => exact takes_empty
  | cons c t ih =>
      cases t with
      | nil => exact takes_char
      | cons d t => exact takes_char.append ih

lemma takes_lit (s : String) : (lit s).Takes before s.toList rest [] := takes_text s.toList

lemma takes_keywordText {k : List Char} (h : Spells k w) :
    (keywordText k).Takes before w rest [] := by
  induction h generalizing before with
  | nil => exact takes_empty
  | @cons k c ks w hc hw ih =>
      cases ks with
      | nil =>
          obtain rfl := List.forall₂_nil_left_iff.mp hw
          exact takes_one hc
      | cons => exact (takes_one hc).append ih

lemma takes_keyword (h : Spells K.toList w) : (keyword K).Takes before w rest [] :=
  takes_keywordText h

/-- A text is a keyword with white space behind it. -/
structure SpacedKeyword (K : String) (text : List Char) : Prop where
  isKeyword : IsKeyword K.toList
  split : ∃ s g, text = s ++ g ∧ Spells K.toList s ∧ IsGap g ∧ g ≠ []

lemma spacedKeyword_space (hK : IsKeyword K.toList) (hw : w = K.toList ++ [' ']) :
    SpacedKeyword K w := ⟨hK, K.toList, [' '], hw, hK.cased.spells, by decide, by simp⟩

lemma takes_keywordBefore (h : SpacedKeyword K w) (hrest : Stops isBlank rest) :
    (keywordBefore K).Takes before w rest [] := by
  obtain ⟨s, g, rfl, hs, hg, hne⟩ := h.split
  exact (takes_keyword hs).append (takes_someBlanks hg hne hrest)

lemma SpacedKeyword.stops (h : SpacedKeyword K w) (hp : ∀ c, isWordChar c = true → p c = false)
    (v : List Char) : Stops p (w ++ v) := by
  obtain ⟨s, g, rfl, hs, -, -⟩ := h.split
  rw [List.append_assoc]
  exact (hs.isWord h.isKeyword).stops hp _

lemma SpacedKeyword.stops_isBlank (h : SpacedKeyword K w) (v : List Char) :
    Stops isBlank (w ++ v) := h.stops (fun _ => Text.not_isBlank_of_isWordChar) v

lemma takes_wordEdge_before (hbefore : Stops isWordChar before) (h : ¬ Stops isWordChar rest) :
    wordEdge.Takes before [] rest [] := by
  refine takes_wordEdge ?_
  cases rest with
  | nil => simp at h
  | cons c rest =>
      cases before with
      | nil => simpa [Cursor.atWordEdge] using h
      | cons d before => simp_all [Cursor.atWordEdge]

lemma takes_wordEdge_behind (hw : IsWord w) (hrest : Stops isWordChar rest) :
    wordEdge.Takes (w.reverse ++ before) [] rest [] := by
  refine takes_wordEdge ?_
  obtain ⟨c, u, hu⟩ := List.exists_cons_of_ne_nil (List.reverse_ne_nil_iff.mpr hw.ne_nil)
  have hc := hw.chars c (List.mem_reverse.mp (hu ▸ List.mem_cons_self))
  rw [hu]
  cases rest with
  | nil => simpa [Cursor.atWordEdge] using hc
  | cons d rest => simp_all [Cursor.atWordEdge]

lemma SpacedKeyword.not_stops (h : SpacedKeyword K w) (v : List Char) :
    ¬ Stops isWordChar (w ++ v) := by
  obtain ⟨s, g, rfl, hs, -, -⟩ := h.split
  rw [List.append_assoc]
  exact (hs.isWord h.isKeyword).not_stops _

lemma takes_inParens (i : Nat) (hu : ∀ c ∈ u, c ≠ ')') :
    (inParens i).Takes before ('(' :: (u ++ [')'])) rest [(i, u)] := by
  have hbody : (Pattern.group i (many (· != ')'))).Takes ('(' :: before) u (')' :: rest)
      [(i, u)] :=
    (takes_many (fun c hc => by simpa using hu c hc) (by simp)).group i
  exact takes_assoc.mpr (takes_char.append (u := ['(']) (hbody.append takes_char))

/-! ### Readings of keywords -/

lemma reads_keywordText {k : List Char} :
    (keywordText k).Reads before w rest ↔ Spells k w := by
  induction k generalizing before w with
  | nil => exact List.forall₂_nil_left_iff.symm
  | cons c k ih =>
      cases k with
      | nil =>
          constructor
          · rintro ⟨d, hd, rfl⟩
            exact .cons hd .nil
          · intro h
            obtain ⟨d, w, hd, hw, rfl⟩ := List.forall₂_cons_left_iff.mp h
            obtain rfl := List.forall₂_nil_left_iff.mp hw
            exact ⟨d, hd, rfl⟩
      | cons c' k =>
          constructor
          · rintro ⟨u, v, rfl, ⟨d, hd, rfl⟩, hv⟩
            exact .cons hd (ih.mp hv)
          · intro h
            obtain ⟨d, w, hd, hw, rfl⟩ := List.forall₂_cons_left_iff.mp h
            exact ⟨[d], w, rfl, ⟨d, hd, rfl⟩, ih.mpr hw⟩

lemma reads_keyword : (keyword K).Reads before w rest ↔ Spells K.toList w := reads_keywordText

/-! ### Texts on which patterns of words fail -/

lemma fails_many1_append (hq : q.Avoids p) (hw : ∀ c ∈ w, p c = true) (hrest : Stops p rest)
    (h : w ≠ [] → q.Fails (w.reverse ++ before) rest) :
    (many1 p ++ q).Fails before (w ++ rest) := by
  rw [many1, fails_assoc]
  cases w with
  | nil => exact fails_one_append hrest
  | cons c w =>
      rw [List.forall_mem_cons] at hw
      rw [List.cons_append, fails_one_append_cons]
      intro _
      exact fails_many_append hq hw.2 hrest (by simpa using h)

lemma fails_blanks_append (hq : q.avoidsBlanks = true) (hg : IsGap g) (hrest : Stops isBlank rest)
    (h : q.Fails (g.reverse ++ before) rest) : (blanks ++ q).Fails before (g ++ rest) :=
  fails_many_append (avoids_isBlank hq) hg hrest h

lemma fails_someBlanks_append (hq : q.avoidsBlanks = true) (hg : IsGap g)
    (hrest : Stops isBlank rest) (h : g ≠ [] → q.Fails (g.reverse ++ before) rest) :
    (someBlanks ++ q).Fails before (g ++ rest) :=
  fails_many1_append (avoids_isBlank hq) hg hrest h

/-- White space that is wanted fails where there is none. -/
lemma fails_someBlanks (h : Stops isBlank rest) : (someBlanks ++ q).Fails before rest := by
  rw [someBlanks, many1, fails_assoc]
  exact fails_one_append h

lemma someBlanks_avoids (hp : ∀ c, p c = true → isBlank c = false) : someBlanks.Avoids p :=
  avoids_of_mayBegin rfl fun c hc => by
    change (isBlank c || (false && isBlank c)) = false
    simp [hp c hc]

lemma someBlanks_avoids_isWordChar : someBlanks.Avoids isWordChar :=
  someBlanks_avoids fun _ => Text.not_isBlank_of_isWordChar

lemma Avoids.append {a : Pattern} (h : a.Avoids p) (q : Pattern) : (a ++ q).Avoids p :=
  fun before text htext => (h before text htext).append q

/-- A keyword, with what cannot go on inside a word, fails on a word unless the word spells it. -/
lemma fails_keyword_append (hK : IsKeyword K.toList) (hq : q.Avoids isWordChar)
    (hw : ∀ c ∈ w, isWordChar c = true) (hrest : Stops isWordChar rest)
    (h : Spells K.toList w → q.Fails (w.reverse ++ before) rest) :
    (keyword K ++ q).Fails before (w ++ rest) :=
  fails_append_of_run (fun _ _ hu => ((reads_keyword.mp hu).isWord hK).chars) hq hw hrest
    fun hread => h (reads_keyword.mp hread)

/-- The same for a keyword with the white space behind it. -/
lemma fails_keywordBefore_append (hK : IsKeyword K.toList) (hq : q.avoidsBlanks = true)
    (hw : ∀ c ∈ w, isWordChar c = true) (hg : IsGap g) (hrest : Stops isBlank rest)
    (hgap : g = [] → Stops isWordChar rest)
    (h : Spells K.toList w → g ≠ [] → q.Fails (g.reverse ++ (w.reverse ++ before)) rest) :
    (keywordBefore K ++ q).Fails before (w ++ (g ++ rest)) := by
  rw [keywordBefore, fails_assoc]
  refine fails_keyword_append hK (someBlanks_avoids_isWordChar.append q) hw ?_ fun hspells =>
      fails_someBlanks_append hq hg hrest (h hspells)
  cases g with
  | nil => exact hgap rfl
  | cons c g => simpa using Text.not_isWordChar_of_isBlank (hg c List.mem_cons_self)

lemma fails_keywordBefore_of_not_spells (hK : IsKeyword K.toList)
    (hw : ∀ c ∈ w, isWordChar c = true) (hrest : Stops isWordChar rest)
    (h : ¬ Spells K.toList w) : (keywordBefore K ++ q).Fails before (w ++ rest) := by
  rw [keywordBefore, fails_assoc]
  exact fails_keyword_append hK (someBlanks_avoids_isWordChar.append q) hw hrest fun hspells =>
    absurd hspells h

/-- Where one keyword stands, another one fails. -/
lemma fails_keyword_of_ne {L : String} (h : SpacedKeyword K w) (hL : IsKeyword L.toList)
    (hne : L ≠ K) (hq : q.Avoids isWordChar) : (keyword L ++ q).Fails before (w ++ rest) := by
  obtain ⟨s, g, rfl, hs, hg, hgap⟩ := h.split
  rw [List.append_assoc]
  refine fails_keyword_append hL hq (hs.isWord h.isKeyword).chars ?_ fun hs' => absurd ?_ hne
  · exact hg.stops_of_ne_nil hgap (fun _ => Text.not_isWordChar_of_isBlank) rest
  · exact String.toList_injective (hs'.unique hL h.isKeyword hs)

lemma fails_keywordBefore_of_ne {L : String} (h : SpacedKeyword K w) (hL : IsKeyword L.toList)
    (hne : L ≠ K) : (keywordBefore L ++ q).Fails before (w ++ rest) := by
  rw [keywordBefore, fails_assoc]
  exact fails_keyword_of_ne h hL hne
    (someBlanks_avoids_isWordChar.append q)

/-- On a keyword with white space behind it, the same keyword fails with what fails behind it. -/
lemma fails_keywordBefore_of_spaced (h : SpacedKeyword K w) (hq : q.avoidsBlanks = true)
    (hrest : Stops isBlank rest) (hfails : ∀ before, q.Fails before rest) :
    (keywordBefore K ++ q).Fails before (w ++ rest) := by
  obtain ⟨s, g, rfl, hs, hg, hne⟩ := h.split
  rw [List.append_assoc]
  exact fails_keywordBefore_append h.isKeyword hq (hs.isWord h.isKeyword).chars hg hrest
    (fun hnil => absurd hnil hne) fun _ _ => hfails _

/-- On a keyword, another one fails that does not begin it. -/
lemma fails_keyword_of_not_prefix {L : String} (hK : IsKeyword K.toList) (hL : IsKeyword L.toList)
    (hnot : ¬ L.toList <+: K.toList) (h : Spells K.toList w) (hrest : Stops isWordChar rest) :
    (keyword L).Fails before (w ++ rest) := by
  intro u rest' htext hu
  have hu' := reads_keyword.mp hu
  refine hnot ?_
  obtain ⟨v, rfl, rfl⟩ | ⟨v, rfl, rfl⟩ := List.append_eq_append_iff.mp htext
  · -- the reading does not go on beyond the word
    cases v with
    | nil =>
        rw [List.append_nil] at hu'
        have heq : L.toList = K.toList := hu'.unique hL hK h
        exact heq ▸ List.prefix_rfl
    | cons d v =>
        have hd := (hu'.isWord hL).chars d (by simp)
        simp [hd] at hrest
  · have hk := List.forall₂_take_append K.toList u v h
    have hcapitals : ∀ c ∈ K.toList.take u.length, c.isUpper = true := fun c hc =>
      hK.capitals c (List.mem_of_mem_take hc)
    have hne : K.toList.take u.length ≠ [] := by
      intro hnil
      rw [hnil] at hk
      exact (hu'.isWord hL).ne_nil (List.forall₂_nil_left_iff.mp hk)
    rw [hu'.unique hL ⟨hne, hcapitals⟩ hk]
    exact List.take_prefix _ _

/-! ### Given texts -/

lemma reads_text {t : List Char} : (text t).Reads before w rest ↔ w = t := by
  induction t generalizing before w with
  | nil => exact Iff.rfl
  | cons c t ih =>
      cases t with
      | nil => simp [Pattern.text, char, Reads]
      | cons d t =>
          change (char c ++ text (d :: t)).Reads before w rest ↔ w = c :: d :: t
          simp only [reads_append, ih, char, Reads, beq_iff_eq]
          constructor
          · rintro ⟨u, v, rfl, ⟨d, rfl, rfl⟩, rfl⟩
            rfl
          · rintro rfl
            exact ⟨[c], d :: t, rfl, ⟨c, rfl, rfl⟩, rfl⟩

lemma reads_lit {s : String} : (lit s).Reads before w rest ↔ w = s.toList := reads_text

/-- A given word fails where no word begins. -/
lemma fails_lit {s : String} (hs : IsWord s.toList) (hrest : Stops isWordChar rest) :
    (lit s).Fails before rest := by
  intro u v htext hu
  obtain rfl := reads_lit.mp hu
  exact hs.not_stops v (htext ▸ hrest)

/-- A given word, with what cannot go on inside a word, fails on any other word. -/
lemma fails_lit_append {s : String} (hs : ∀ c ∈ s.toList, isWordChar c = true)
    (hq : q.Avoids isWordChar) (hw : ∀ c ∈ w, isWordChar c = true) (hrest : Stops isWordChar rest)
    (h : w = s.toList → q.Fails (w.reverse ++ before) rest) :
    (lit s ++ q).Fails before (w ++ rest) :=
  fails_append_of_run (fun _ _ hu => reads_lit.mp hu ▸ hs) hq hw hrest fun hread =>
    h (reads_lit.mp hread)

lemma blanks_char_avoids {d : Char} (hd : isWordChar d = false) :
    (blanks ++ char d).Avoids isWordChar := by
  refine avoids_of_mayBegin rfl fun c hc => ?_
  have hne : c ≠ d := Text.ne_of_isWordChar hc hd
  simp [blanks, char, mayBegin, Text.not_isBlank_of_isWordChar hc, hne]

/-- White space and a sign fail where something else comes next after white space. -/
lemma fails_blanks_char {text : List Char} {d : Char} (hd : isBlank d = false)
    (h : Stops (· == d) (text.dropWhile isBlank)) : (blanks ++ char d).Fails before text := by
  have hchars : ∀ c ∈ text.takeWhile isBlank, isBlank c = true :=
    List.all_eq_true.mp List.all_takeWhile
  have havoids : (char d).Avoids isBlank := avoids_of_mayBegin rfl fun c hc => by
    have hne : c ≠ d := by rintro rfl; simp [hc] at hd
    simpa [char, mayBegin] using hne
  have hsign : ∀ before, (char d).Fails before (text.dropWhile isBlank) := by
    intro before
    cases hafter : text.dropWhile isBlank with
    | nil => exact fails_one_nil
    | cons c rest => exact fails_one_cons.mpr (by simpa [hafter] using h)
  have hfails : (blanks ++ char d).Fails before
      (text.takeWhile isBlank ++ text.dropWhile isBlank) :=
    fails_many_append havoids hchars (Text.stops_dropWhile isBlank text) (hsign _)
  rwa [List.takeWhile_append_dropWhile] at hfails

/-! ### Patterns that begin with a keyword -/

/-- A pattern that reads nothing but where a word begins that spells a keyword. -/
def LedBy (q : Pattern) (K : String) : Prop :=
  ∀ before text, (∀ w rest, text = w ++ rest → IsWord w → Stops isWordChar rest →
    Spells K.toList w → ¬ Stops isWordChar before) → q.Fails before text

lemma LedBy.append (h : q.LedBy K) (b : Pattern) : (q ++ b).LedBy K :=
  fun before text htext => (h before text htext).append b

lemma LedBy.assoc {a b : Pattern} (h : (a ++ b ++ q).LedBy K) : (a ++ (b ++ q)).LedBy K :=
  fun before text htext => fails_assoc.mp (h before text htext)

/-- Where a word edge has been passed, the word is to be read from its beginning. -/
lemma stops_before_of_atWordEdge (hw : IsWord w)
    (hedge : (Cursor.mk before (w ++ rest) 0).atWordEdge = true) : Stops isWordChar before := by
  obtain ⟨c, w, rfl⟩ := List.exists_cons_of_ne_nil hw.ne_nil
  have hc := hw.chars c List.mem_cons_self
  cases before with
  | nil => simp
  | cons d before => simpa [Cursor.atWordEdge, hc] using hedge

/-- A word edge behind a word is the end of the word. -/
lemma stops_of_atWordEdge (hw : IsWord w)
    (hedge : (Cursor.mk (w.reverse ++ before) rest 0).atWordEdge = true) :
    Stops isWordChar rest := by
  obtain ⟨c, u, hu⟩ := List.exists_cons_of_ne_nil (List.reverse_ne_nil_iff.mpr hw.ne_nil)
  have hc := hw.chars c (List.mem_reverse.mp (hu ▸ List.mem_cons_self))
  rw [hu] at hedge
  cases rest with
  | nil => simp
  | cons d rest => simpa [Cursor.atWordEdge, hc] using hedge

/-- A text begins with a longest run of characters of a class. -/
lemma exists_run (p : Char → Bool) (text : List Char) :
    ∃ w rest, text = w ++ rest ∧ (∀ c ∈ w, p c = true) ∧ Stops p rest :=
  ⟨text.takeWhile p, text.dropWhile p, List.takeWhile_append_dropWhile.symm,
    List.all_eq_true.mp List.all_takeWhile, Text.stops_dropWhile p text⟩

lemma ledBy_of_fails (hq : ∀ before w rest, (∀ c ∈ w, isWordChar c = true) →
    Stops isWordChar rest → ¬ Spells K.toList w → q.Fails before (w ++ rest))
    (hK : IsKeyword K.toList) : (wordEdge ++ q).LedBy K := by
  intro before text h
  rw [fails_wordEdge_append]
  intro hedge
  obtain ⟨w, rest, rfl, hw, hrest⟩ := exists_run isWordChar text
  by_cases hspells : Spells K.toList w
  · have hword := hspells.isWord hK
    exact absurd (stops_before_of_atWordEdge hword hedge) (h w rest rfl hword hrest hspells)
  · exact hq before w rest hw hrest hspells

lemma ledBy_keywordBefore (hK : IsKeyword K.toList) : (wordEdge ++ keywordBefore K).LedBy K :=
  ledBy_of_fails (fun _ _ _ hw hrest hspells => fails_keyword_append hK
    someBlanks_avoids_isWordChar hw hrest fun h => absurd h hspells) hK

/-- A keyword up to the end of its word. -/
lemma ledBy_keyword_wordEdge (hK : IsKeyword K.toList) :
    (wordEdge ++ keyword K ++ wordEdge).LedBy K := by
  refine fun before text h => fails_assoc.mpr (ledBy_of_fails ?_ hK before text h)
  intro before w rest hw hrest hspells
  rw [fails_append]
  rintro u rest' htext hu v rest'' rfl ⟨rfl, hedge⟩
  -- the word edge shows that the keyword's reading is the whole word
  rw [List.nil_append] at htext
  have hu' := reads_keyword.mp hu
  have hstop := stops_of_atWordEdge (hu'.isWord hK) hedge
  have huw : u = w := by
    rw [← Text.takeWhile_append_of_stops (hu'.isWord hK).chars hstop, ← htext,
      Text.takeWhile_append_of_stops hw hrest]
  exact hspells (huw ▸ hu')

lemma LedBy.wordLed (h : q.LedBy K) : q.WordLed := by
  intro before text hplace
  refine h before text fun w rest htext hw _ _ hbefore => hplace ⟨hbefore, ?_⟩
  rw [htext]
  exact hw.not_stops rest

lemma LedBy.silent_word (h : q.LedBy K) (hw : IsWord w) (hrest : Stops isWordChar rest)
    (hspells : ¬ Spells K.toList w) : Silent q before w rest := by
  refine h.wordLed.silent_word hw.chars (h _ _ fun v rest' htext hv hrest' hv' => ?_)
  have hvw : v = w := by
    rw [← Text.takeWhile_append_of_stops hv.chars hrest', ← htext,
      Text.takeWhile_append_of_stops hw.chars hrest]
  exact absurd (hvw ▸ hv') hspells

/-! ### Patterns that go on behind a keyword -/

/-- A pattern that reads nothing but a keyword at the edge of a word, white space behind it and
then what another pattern reads. -/
structure KeywordThen (q : Pattern) (K : String) (b : Pattern) : Prop where
  isKeyword : IsKeyword K.toList
  avoidsBlanks : b.avoidsBlanks = true
  fails : ∀ before text, (wordEdge ++ (keywordBefore K ++ b)).Fails before text →
    q.Fails before text

/-- What keeps a pattern from being read behind a word with white space: there is no white space,
or the pattern fails behind it. -/
def Blocks (b : Pattern) (rest : List Char) : Prop :=
  ∃ g v, rest = g ++ v ∧ IsGap g ∧ Stops isBlank v ∧ (g = [] → Stops isWordChar v) ∧
    (g ≠ [] → ∀ before, b.Fails before v)

lemma blocks_of_stops {b : Pattern} (hblank : Stops isBlank rest) (hword : Stops isWordChar rest) :
    Blocks b rest :=
  ⟨[], rest, rfl, Text.isGap_nil, hblank, fun _ => hword, fun hne => absurd rfl hne⟩

lemma blocks_gap {b : Pattern} (hg : IsGap g) (hblank : Stops isBlank rest)
    (hword : Stops isWordChar rest) (hfails : ∀ before, b.Fails before rest) :
    Blocks b (g ++ rest) := ⟨g, rest, rfl, hg, hblank, fun _ => hword, fun _ => hfails⟩

namespace KeywordThen

variable {b : Pattern}

lemma ledBy (h : KeywordThen q K b) : q.LedBy K := fun before text hnot =>
  h.fails before text (((ledBy_keywordBefore h.isKeyword).append b).assoc before text hnot)

lemma wordLed (h : KeywordThen q K b) : q.WordLed := h.ledBy.wordLed

/-- Such a pattern reads nothing within a word that is not followed by what it needs. -/
lemma silent_word (h : KeywordThen q K b) (hw : IsWord w) (hrest : Blocks b rest) :
    Silent q before w rest := by
  obtain ⟨g, v, rfl, hg, hblank, hword, hfails⟩ := hrest
  refine h.wordLed.silent_word hw.chars (h.fails _ _ (fails_wordEdge_append.mpr fun _ => ?_))
  exact fails_keywordBefore_append h.isKeyword h.avoidsBlanks hw.chars hg hblank hword
    fun _ hne => hfails hne _

/-- Neither does it within another keyword. -/
lemma silent_keyword {L : String} (h : KeywordThen q K b) (hw : SpacedKeyword L w) (hne : K ≠ L) :
    Silent q before w rest := by
  have hfails : q.Fails before (w ++ rest) := h.fails _ _ <| fails_wordEdge_append.mpr fun _ =>
    fails_keywordBefore_of_ne hw h.isKeyword hne
  obtain ⟨s, g, rfl, hs, hg, -⟩ := hw.split
  rw [List.append_assoc] at hfails
  refine silent_append.mpr ⟨?_, h.wordLed.silent_gap hg⟩
  exact h.wordLed.silent_word (hs.isWord hw.isKeyword).chars hfails

end KeywordThen

end SchemaReader.Pattern
