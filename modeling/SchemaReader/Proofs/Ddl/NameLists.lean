/-
Lists of texts with commas between them.

* `IsItem`: a text that can stand in a list of a statement;
* `splitTopLevel_items`: the list is cut into its texts;
* `ofText_items`, `schema_items`: a statement that creates a table from a list of texts is read as
  the entries that they are;
* `namesOf_listed`: a list of names in any spelling is read as their bare names, unless it looks as
  if it stood in square brackets.
-/
import SchemaReader.Proofs.Ddl.SpelledName
import SchemaReader.Proofs.Lexical.Listed

namespace SchemaReader.Ddl

open Text (IsWord IsGap Stops isWordChar isBlank)
open Pattern

/-- A text goes on with a comma or a closing parenthesis. -/
def EndsItem (text : List Char) : Prop := ∃ c ∈ [',', ')'], ∃ rest, text = c :: rest

/-- A text that stands in a list as one of its entries: no comment and no statement begins in it. -/
structure IsItem (text : List Char) : Prop extends IsPart .script text where
  uncommented : Uncommented .script text
  still : ∀ rest, EndsItem rest → Still text rest

variable {t u v rest : List Char} {texts : List (List Char)} {name : SpelledName}
  {names : List SpelledName}

/-- A text ends, and not with white space. -/
def EndsSolid (text : List Char) : Prop := text ≠ [] ∧ Stops isBlank text.reverse

lemma EndsSolid.append_left (h : EndsSolid v) (u : List Char) : EndsSolid (u ++ v) := by
  refine ⟨List.append_ne_nil_of_right_ne_nil u h.1, ?_⟩
  rw [List.reverse_append]
  exact h.2.append_of_ne_nil (List.reverse_ne_nil_iff.mpr h.1) _

lemma IsItem.endsSolid (h : IsItem t) : EndsSolid t := ⟨h.ne_nil, h.stop⟩

lemma EndsItem.stops {p : Char → Bool} (h : EndsItem rest) (hp : ∀ c ∈ [',', ')'], p c = false) :
    Stops p rest := by
  obtain ⟨c, hc, v, rfl⟩ := h
  simpa using hp c hc

lemma EndsItem.bars (h : EndsItem rest) : Bars rest :=
  bars_of_stops (h.stops (by decide)) (h.stops (by decide))

lemma isPart_of_isItem (h : ∀ t ∈ texts, IsItem t) : ∀ t ∈ texts, IsPart .script t :=
  fun t ht => (h t ht).toIsPart

/-! ### Lists in statements -/

lemma splitTopLevel_items (h : ∀ t ∈ texts, IsItem t) :
    splitTopLevel .script ',' (listed texts) = texts := by
  have hsplit := splitTopLevel_listed (isPart_of_isItem h) Text.isGap_nil Text.isGap_nil
  rw [List.nil_append, List.append_nil] at hsplit
  exact hsplit

lemma uncommented_listed (h : ∀ t ∈ texts, IsItem t) : Uncommented .script (listed texts) := by
  induction texts with
  | nil => exact uncommented_nil
  | cons t texts ih =>
      rw [List.forall_mem_cons] at h
      have hseparator : Uncommented .script [',', ' '] := uncommented_of_forall (by decide)
      cases texts with
      | nil => exact h.1.uncommented
      | cons u texts => exact h.1.uncommented.append (hseparator.append (ih h.2))

lemma still_listed (h : ∀ t ∈ texts, IsItem t) (hrest : EndsItem rest) :
    Still (listed texts) rest := by
  induction texts with
  | nil => exact still_nil
  | cons t texts ih =>
      rw [List.forall_mem_cons] at h
      cases texts with
      | nil => exact h.1.still rest hrest
      | cons u texts =>
          have hseparator : Still [',', ' '] (listed (u :: texts) ++ rest) :=
            still_outside (by decide)
          exact (h.1.still _ ⟨',', by decide, _, rfl⟩).append (hseparator.append (ih h.2))

/-- A created table is read as the entries that its texts are. -/
theorem ofText_items {w : List Char} (hw : IsWord w) (h : ∀ t ∈ texts, IsItem t) :
    Script.ofText (createText w (listed texts))
      = ⟨[some ⟨String.ofList w, texts.map .ofText⟩], [], []⟩ := by
  rw [ofText_createText_alone hw (still_listed h ⟨')', by decide, _, rfl⟩) (uncommented_listed h)
    (closed_listed (isPart_of_isItem h)), splitTopLevel_items h]

/-- The schema of a created table, from its entries. -/
theorem schema_items {w : List Char} (hw : IsWord w) (h : ∀ t ∈ texts, IsItem t)
    (rawPath : String) :
    Schema.ofText .sql (createText w (listed texts)) rawPath
      = ⟨.sql, [CreateTable.table ⟨String.ofList w, texts.map .ofText⟩],
          firstBy Relation.edge (CreateTable.edges ⟨String.ofList w, texts.map .ofText⟩),
          rawPath⟩ := by
  rw [schema_of_script (ofText_items hw h), schema_created]

lemma exists_listed_getLast (hne : texts ≠ []) : ∃ u, listed texts = u ++ texts.getLast hne := by
  induction texts with
  | nil => exact absurd rfl hne
  | cons t texts ih =>
      cases texts with
      | nil => exact ⟨[], rfl⟩
      | cons u texts =>
          obtain ⟨v, hv⟩ := ih (List.cons_ne_nil u texts)
          refine ⟨t ++ (',' :: ' ' :: v), ?_⟩
          rw [listed, hv, List.getLast_cons (List.cons_ne_nil u texts)]
          simp

lemma exists_listed_head (t : List Char) (texts : List (List Char)) :
    ∃ v, listed (t :: texts) = t ++ v := by
  cases texts with
  | nil => exact ⟨[], by simp [listed]⟩
  | cons u texts => exact ⟨_, rfl⟩

/-! ### Lists of names -/

/-- A spelled name can stand in a list. -/
lemma isItem_spelled (h : name.Readable) : IsItem name.text where
  ne_nil := spelled_ne_nil h
  start := fun c hc => isBlank_spelled h c (List.mem_of_mem_head? hc)
  stop := fun c hc => isBlank_spelled h c (List.mem_reverse.mp (List.mem_of_mem_head? hc))
  closed := closed_spelled h fun _ => ne_comma_of_isNameChar
  uncommented := uncommented_spelled h
  still _ hrest := still_spelled h hrest.bars

/-- A list of names does not look as if it stood in square brackets: not both its first and its last
name do, or it is a single name without a comma. -/
def Listable (names : List SpelledName) : Prop :=
  ∀ first ∈ names.head?, ∀ last ∈ names.getLast?, first.quoting = .square → last.quoting = .square →
    names = [first] ∧ ',' ∉ first.content

instance (names : List SpelledName) : Decidable (Listable names) :=
  inferInstanceAs (Decidable (∀ first ∈ names.head?, ∀ last ∈ names.getLast?,
    first.quoting = .square → last.quoting = .square → names = [first] ∧ ',' ∉ first.content))

/-- A name that is not in square brackets holds neither one nor a parenthesis. -/
lemma ne_square_spelled (h : name.Readable) (hquoting : name.quoting ≠ .square) :
    ∀ c ∈ name.text, c ∉ ['[', ']', '('] := by
  obtain ⟨quoting, content⟩ := name
  have hcontent : ∀ c ∈ content, c ∉ ['[', ']', '('] := by
    intro c hc hmem
    have hplain : ∀ c ∈ ['[', ']', '('], isPlain c = false := by decide
    have hfalse := hplain c hmem
    simp [(h.chars c hc).1] at hfalse
  have hmarks : ∀ m ∈ ['"', Char.ofNat 0x60], ∀ c ∈ m :: (content ++ [m]), c ∉ ['[', ']', '('] := by
    intro m hm
    have hm' : ∀ m ∈ ['"', Char.ofNat 0x60], m ∉ ['[', ']', '('] := by decide
    simp only [List.forall_mem_cons, List.forall_mem_append]
    exact ⟨hm' m hm, hcontent, hm' m hm, by simp⟩
  cases quoting with
  | plain => exact hcontent
  | double => exact hmarks '"' (by decide)
  | back => exact hmarks (Char.ofNat 0x60) (by decide)
  | square => exact absurd rfl hquoting

/-- No name begins with a parenthesis, and only one in square brackets with such a bracket. -/
lemma stops_spelled {c : Char} (hc : c ∈ ['[', '(']) (h : name.Readable)
    (hquoting : c = '[' → name.quoting ≠ .square) : Stops (· == c) name.text := by
  by_cases hsquare : name.quoting = .square
  · have hround : c = '(' := by
      simp only [List.mem_cons, List.not_mem_nil, or_false] at hc
      exact hc.resolve_left fun heq => hquoting heq hsquare
    obtain ⟨quoting, content⟩ := name
    subst hround
    obtain rfl : quoting = .square := hsquare
    simp [SpelledName.text, Quoting.around, Quoting.marks?]
  · intro d hd
    have hmem := ne_square_spelled h hsquare d (List.mem_of_mem_head? hd)
    simp only [List.mem_cons, List.not_mem_nil, or_false, not_or] at hmem hc
    rcases hc with rfl | rfl <;> simp [hmem]

/-- Only a name in square brackets ends with one. -/
lemma stops_spelled_reverse (h : name.Readable) (hquoting : name.quoting ≠ .square) :
    Stops (· == ']') name.text.reverse := by
  intro d hd
  have hmem := ne_square_spelled h hquoting d (List.mem_reverse.mp (List.mem_of_mem_head? hd))
  simp only [List.mem_cons, List.not_mem_nil, or_false, not_or] at hmem
  simp [hmem]

/-- Of the texts of a list, the first and the last one count for the brackets around it. -/
lemma withoutOuterBrackets_listed (hne : ∀ t ∈ texts, t ≠ [])
    (hround : ∀ t ∈ texts, Stops (· == '(') t)
    (hsquare : ∀ first ∈ texts.head?, ∀ last ∈ texts.getLast?,
      Stops (· == '[') first ∨ Stops (· == ']') last.reverse) :
    withoutOuterBrackets (listed texts) = listed texts := by
  by_cases htexts : texts = []
  · subst htexts
    rfl
  have hlast : texts.getLast htexts ≠ [] := hne _ (List.getLast_mem htexts)
  obtain ⟨u, hu⟩ := exists_listed_getLast htexts
  obtain ⟨v, hv⟩ : ∃ v, listed texts = texts.head htexts ++ v := by
    obtain ⟨t, texts, rfl⟩ := List.exists_cons_of_ne_nil htexts
    exact exists_listed_head t texts
  have hfirst : texts.head htexts ≠ [] := hne _ (List.head_mem htexts)
  refine withoutOuterBrackets_self ?_ ?_
  · rw [hv]
    exact (hround _ (List.head_mem htexts)).append_of_ne_nil hfirst v
  · refine (hsquare _ (List.head?_eq_some_head htexts) _
      (List.getLast?_eq_some_getLast htexts)).imp (fun hstart => ?_) fun hend => ?_
    · rw [hv]
      exact hstart.append_of_ne_nil hfirst v
    · rw [hu, List.reverse_append]
      exact hend.append_of_ne_nil (List.reverse_ne_nil_iff.mpr hlast) _

lemma trim_listed (hstart : ∀ t ∈ texts, Stops isBlank t) (hend : ∀ t ∈ texts, EndsSolid t) :
    Text.trim (listed texts) = listed texts := by
  by_cases hne : texts = []
  · subst hne
    rfl
  obtain ⟨u, hu⟩ := exists_listed_getLast hne
  refine Text.trimWhere_self ?_ ?_
  · obtain ⟨t, texts, rfl⟩ := List.exists_cons_of_ne_nil hne
    obtain ⟨v, hv⟩ := exists_listed_head t texts
    rw [hv]
    exact (hstart t List.mem_cons_self).append_of_ne_nil (hend t List.mem_cons_self).1 v
  · rw [hu]
    exact ((hend _ (List.getLast_mem hne)).append_left u).2

/-- A single name in square brackets is read without them, so that a comma in it would part it. -/
lemma namesOf_square (h : name.Readable) (hquoting : name.quoting = .square)
    (hcomma : ',' ∉ name.content) :
    namesOf name.text = [String.ofList name.bare] := by
  have htext : name.text = '[' :: (name.content ++ [']']) := by
    rw [SpelledName.text, hquoting]
    rfl
  have hread : leadingIdentifier ([] ++ (name.content ++ [])) = name.bare :=
    leadingIdentifier_marks (by simp) (by simp) h.chars h.bare_ne_nil
  have htrim : Text.trim name.content = name.content :=
    Text.trim_of_forall fun c hc => (h.chars c hc).2
  have hclosed : Closed .script (· ≠ ',') name.content :=
    closed_of_forall fun c hc => ⟨(h.chars c hc).1, fun heq => hcomma (heq ▸ hc)⟩
  have hwithout : withoutOuterBrackets name.text = name.content := by
    simp [htext, withoutOuterBrackets]
  rw [List.nil_append, List.append_nil] at hread
  rw [namesOf, identifierList, (isItem_spelled h).toIsPart.trim, hwithout,
    splitTopLevel_of_closed hclosed (by rw [htrim]; exact content_ne_nil h), htrim]
  simp [hread, h.bare_ne_nil]

/-- A list without brackets around it is read as what its texts begin with. -/
lemma namesOf_of_split {α : Type} {l : List α} {text bare : α → List Char} {list : List Char}
    (htrim : Text.trim list = list) (hwithout : withoutOuterBrackets list = list)
    (hsplit : splitTopLevel .script ',' list = l.map text)
    (hread : ∀ x ∈ l, leadingIdentifier (text x) = bare x ∧ bare x ≠ []) :
    namesOf list = l.map fun x => String.ofList (bare x) := by
  have hnames : (l.map text).map leadingIdentifier = l.map bare := by
    rw [List.map_map, List.map_inj_left]
    intro x hx
    rw [Function.comp_apply, (hread x hx).1]
  have hkept : (l.map bare).filter (fun name => !name.isEmpty) = l.map bare := by
    refine List.filter_eq_self.mpr fun w hw => ?_
    obtain ⟨x, hx, rfl⟩ := List.mem_map.mp hw
    simpa using (hread x hx).2
  rw [namesOf, identifierList, htrim, hwithout, hsplit, hnames, hkept, List.map_map]
  simp only [Function.comp_def]

/-- A list of names in any spelling is read as the bare names. -/
theorem namesOf_listed (hnames : ∀ name ∈ names, name.Readable) (hlist : Listable names) :
    namesOf (listed (names.map SpelledName.text)) = names.map fun name =>
      String.ofList name.bare := by
  have hitems : ∀ t ∈ names.map SpelledName.text, IsItem t :=
    List.forall_mem_map.mpr fun name hname => isItem_spelled (hnames name hname)
  by_cases hends : ∃ first ∈ names.head?, ∃ last ∈ names.getLast?, first.quoting = .square ∧
      last.quoting = .square
  · obtain ⟨first, hfirst, last, hlast, hsquare⟩ := hends
    obtain ⟨rfl, hcomma⟩ := hlist first hfirst last hlast hsquare.1 hsquare.2
    exact namesOf_square (hnames first List.mem_cons_self) hsquare.1 hcomma
  · refine namesOf_of_split (trim_listed (fun t ht => (hitems t ht).start) fun t ht =>
      (hitems t ht).endsSolid) ?_ (splitTopLevel_items hitems) fun name hname =>
        ⟨leadingIdentifier_spelled (hnames name hname), (hnames name hname).bare_ne_nil⟩
    refine withoutOuterBrackets_listed (fun t ht => (hitems t ht).ne_nil) ?_ ?_
    · exact List.forall_mem_map.mpr fun name hname =>
        stops_spelled (by decide) (hnames name hname) fun heq => absurd heq (by decide)
    · intro first hfirst last hlast
      rw [List.head?_map, Option.mem_def, Option.map_eq_some_iff] at hfirst
      rw [List.getLast?_map, Option.mem_def, Option.map_eq_some_iff] at hlast
      obtain ⟨x, hx, rfl⟩ := hfirst
      obtain ⟨y, hy, rfl⟩ := hlast
      by_cases hsquare : x.quoting = .square
      · exact Or.inr <| stops_spelled_reverse (hnames y (List.mem_of_getLast? hy)) fun hy' =>
          hends ⟨x, hx, y, hy, hsquare, hy'⟩
      · exact Or.inl <| stops_spelled (by decide) (hnames x (List.mem_of_mem_head? hx)) fun _ =>
          hsquare

end SchemaReader.Ddl
