/-
Indexes among the entries of a created table.

* `Table.withFront`: a table with further indexes in front, which the entries of a table leave
  alone;
* `SpelledIndex`: an index as it is written, with `KEY` or `INDEX`, unique or not, named or not;
* `SpelledIndex.isColumn_iff`: an index is taken for a column exactly where its name begins with the
  name of a type;
* `SpelledIndex.ofText_entry`: otherwise the entry makes one index and no column, and the index has
  the listed columns up to the first one with a length.
-/
import SchemaReader.Proofs.Backing.Script
import SchemaReader.Proofs.Ddl.KeyParts
import SchemaReader.Proofs.Pattern.Outcomes

namespace SchemaReader

/-! ### Tables with further indexes -/

/-- A table with further indexes before its own. -/
def Table.withFront (front : List Index) (table : Table) : Table :=
  { table with indexes := front ++ table.indexes }

lemma withFront_addIndex (front : List Index) (table : Table) (index : Index) :
    (table.withFront front).addIndex index = (table.addIndex index).withFront front := by
  simp [Table.addIndex, Table.withFront]

lemma withFront_markPrimaryKey (front : List Index) (table : Table) (names : List String) :
    (table.withFront front).markPrimaryKey names
      = (table.markPrimaryKey names).withFront front := by
  induction names generalizing table with
  | nil => rfl
  | cons name names ih => exact ih (table.updateColumn name _)

namespace Ddl

open Text (IsWord IsGap IsKeyword Spells Cased Stops isWordChar isBlank)
open Pattern

/-- An entry does not look at the indexes that are there. -/
lemma applyTo_withFront (front : List Index) (table : Table) (entry : TableEntry) :
    entry.applyTo (table.withFront front) = (entry.applyTo table).withFront front := by
  cases entry with
  | column entry =>
      simp only [TableEntry.applyTo]
      split
      · exact withFront_addIndex front (table.addColumn _) _
      · rfl
  | primaryKey names => exact withFront_markPrimaryKey front table names
  | unique name columns =>
      simp only [TableEntry.applyTo]
      split
      · rfl
      · exact withFront_addIndex front table _
  | index name columns => exact withFront_addIndex front table _
  | foreignKey | otherConstraint | unrecognized => rfl

lemma foldl_applyTo_withFront (front : List Index) (entries : List TableEntry) (table : Table) :
    entries.foldl TableEntry.applyTo (table.withFront front)
      = (entries.foldl TableEntry.applyTo table).withFront front := by
  induction entries generalizing table with
  | nil => rfl
  | cons entry entries ih => rw [List.foldl_cons, applyTo_withFront, ih, List.foldl_cons]

lemma linkEdges_withFront (front : List Index) (edges : List Relation) (table : Table) :
    linkEdges edges (table.withFront front) = (linkEdges edges table).withFront front := by
  induction edges generalizing table with
  | nil => rfl
  | cons edge edges ih => exact ih (table.setReference _ _)

/-! ### Written indexes -/

/-- An index among the entries of a table. -/
structure SpelledIndex where
  /-- The word for uniqueness and the white space behind it. -/
  unique : Option (List Char × List Char)
  /-- The word for an index. -/
  word : List Char
  /-- The white space before the name, and the name. -/
  name : Option (List Char × List Char)
  /-- The white space before the list. -/
  gap : List Char
  parts : List KeyPart
  deriving DecidableEq, Repr

namespace SpelledIndex

/-- The word for uniqueness with the white space behind it. -/
def uniqueText (index : SpelledIndex) : List Char :=
  match index.unique with
  | none => []
  | some (w, g) => w ++ g

/-- The name with the white space before it. -/
def nameText (index : SpelledIndex) : List Char :=
  match index.name with
  | none => []
  | some (g, w) => g ++ w

/-- What a pattern remembers of the name, under a number. -/
def caughtName (index : SpelledIndex) (i : Nat) : Captures :=
  index.name.toList.map fun p => (i, p.2)

/-- The list of columns. -/
def listText (index : SpelledIndex) : List Char :=
  '(' :: (listed (index.parts.map KeyPart.text) ++ [')'])

/-- An index as it is written. -/
def text (index : SpelledIndex) : List Char :=
  index.uniqueText ++ (index.word ++ (index.nameText ++ (index.gap ++ index.listText)))

/-- Keywords in any case, a plain name, and columns that do not look as if they stood in square
brackets. -/
structure Proper (index : SpelledIndex) : Prop where
  unique : ∀ p ∈ index.unique, Cased "UNIQUE".toList p.1 ∧ IsGap p.2 ∧ p.2 ≠ []
  word : ∃ K ∈ ["KEY", "INDEX"], Cased K.toList index.word
  name : ∀ p ∈ index.name, IsGap p.1 ∧ p.1 ≠ [] ∧ IsPlainName p.2
  gap : IsGap index.gap
  parts : ∀ part ∈ index.parts, part.Proper
  ne_nil : index.parts ≠ []
  listable : ListableParts index.parts

instance (index : SpelledIndex) : Decidable index.Proper :=
  decidable_of_iff ((∀ p ∈ index.unique, Cased "UNIQUE".toList p.1 ∧ IsGap p.2 ∧ p.2 ≠ []) ∧
      (∃ K ∈ ["KEY", "INDEX"], Cased K.toList index.word) ∧
        (∀ p ∈ index.name, IsGap p.1 ∧ p.1 ≠ [] ∧ IsPlainName p.2) ∧ IsGap index.gap ∧
          (∀ part ∈ index.parts, part.Proper) ∧ index.parts ≠ [] ∧ ListableParts index.parts)
    ⟨fun h => ⟨h.1, h.2.1, h.2.2.1, h.2.2.2.1, h.2.2.2.2.1, h.2.2.2.2.2.1, h.2.2.2.2.2.2⟩,
      fun h => ⟨h.1, h.2, h.3, h.4, h.5, h.6, h.7⟩⟩

/-- The name of an index that is not unique begins with the name of a type. -/
def NamedLikeType (index : SpelledIndex) : Prop :=
  index.unique = none ∧ ∃ p ∈ index.name,
    String.ofList (Text.upper (p.2.takeWhile isWordChar)) ∈ typeNames

instance (index : SpelledIndex) : Decidable index.NamedLikeType :=
  inferInstanceAs (Decidable (index.unique = none ∧ ∃ p ∈ index.name,
    String.ofList (Text.upper (p.2.takeWhile isWordChar)) ∈ typeNames))

/-- The names of all listed columns. -/
def columns (index : SpelledIndex) : List String :=
  index.parts.map fun part => String.ofList part.name.bare

/-- The names of the columns up to the first one with a length. -/
def reached (index : SpelledIndex) : List String :=
  (upToLength index.parts).map fun part => String.ofList part.name.bare

/-- The bare name, if there is one. -/
def name? (index : SpelledIndex) : Option String := index.name.map fun p => String.ofList p.2

/-- The entry that the index is read as. -/
def entry (index : SpelledIndex) : TableEntry :=
  if index.unique.isSome then .unique index.name? index.reached
    else .index index.name? index.reached

/-- The index that the entry makes. -/
def made (index : SpelledIndex) (table : String) : Index :=
  ⟨index.name?.getD (Index.defaultName table index.reached index.unique.isSome), index.reached,
    index.unique.isSome⟩

end SpelledIndex

variable {before g u v w rest : List Char} {caught : Captures} {q : Pattern} {index : SpelledIndex}

/-! ### Indexes in a list -/

/-- A keyword that no statement begins with. -/
lemma calm_cased {K : String} (hK : K ∈ ["UNIQUE", "KEY", "INDEX"]) (hw : Cased K.toList w)
    (hrest : Stops isWordChar rest) : Calm w rest := by
  have hwords : ∀ K ∈ ["UNIQUE", "KEY", "INDEX"], IsKeyword K.toList ∧ K ∉ leadingWords := by decide
  have hkeyword : ∀ K ∈ leadingWords, IsKeyword K.toList := by decide
  obtain ⟨hkeywordK, hfree⟩ := hwords K hK
  refine calm_free (hw.spells.isWord hkeywordK) (fun L hL => ?_) hrest
  exact not_spells_cased hkeywordK (hkeyword L hL) hw (ne_of_mem_of_not_mem hL hfree)

namespace SpelledIndex.Proper

lemma isWord_word (h : index.Proper) : IsWord index.word := by
  have hwords : ∀ K ∈ ["KEY", "INDEX"], IsKeyword K.toList := by decide
  obtain ⟨K, hK, hword⟩ := h.word
  exact hword.spells.isWord (hwords K hK)

/-- Behind the word for an index, white space or a parenthesis follows. -/
lemma stops_name {p : Char → Bool} (h : index.Proper) (hp : ∀ c, isBlank c = true → p c = false)
    (hround : p '(' = false) (v : List Char) :
    Stops p (index.nameText ++ (index.gap ++ '(' :: v)) := by
  cases hname : index.name with
  | none =>
      rw [nameText, hname]
      exact h.gap.stops hp (by simpa using hround)
  | some name =>
      obtain ⟨hg, hne, -⟩ := h.name name hname
      rw [nameText, hname, List.append_assoc]
      exact hg.stops_of_ne_nil hne hp _

lemma calm_text (h : index.Proper) : Calm index.text rest := by
  have hbars : ∀ v, Bars (index.gap ++ '(' :: v) := fun v =>
    bars_gap h.gap (by simp; decide) (by simp; decide)
  have hstop := h.stops_name (fun _ => Text.not_isWordChar_of_isBlank) (by decide)
  have hlist : Calm index.listText rest := calm_parenthesized <| List.forall_mem_map.mpr
    fun part hpart => (h.parts part hpart).isItem_text
  have hname : Calm index.nameText (index.gap ++ (index.listText ++ rest)) := by
    cases hname : index.name with
    | none =>
        rw [nameText, hname]
        exact calm_gap Text.isGap_nil
    | some name =>
        obtain ⟨hg, -, hw⟩ := h.name name hname
        rw [nameText, hname]
        exact (calm_gap hg).append (calm_spelled (readable_plainName hw) (hbars _))
  have hword : Calm index.word (index.nameText ++ (index.gap ++ (index.listText ++ rest))) := by
    obtain ⟨K, hK, hword⟩ := h.word
    exact calm_cased (List.mem_cons_of_mem _ hK) hword (hstop _)
  have hunique : Calm index.uniqueText
      (index.word ++ (index.nameText ++ (index.gap ++ (index.listText ++ rest)))) := by
    cases hunique : index.unique with
    | none =>
        rw [uniqueText, hunique]
        exact calm_gap Text.isGap_nil
    | some unique =>
        obtain ⟨hw, hg, hne⟩ := h.unique unique hunique
        rw [uniqueText, hunique]
        refine (calm_cased (by decide) hw ?_).append (calm_gap hg)
        exact hg.stops_of_ne_nil hne (fun _ => Text.not_isWordChar_of_isBlank) _
  have hrest := (calm_gap h.gap).append hlist
  refine Calm.append (by simpa using hunique) (Calm.append (by simpa using hword) ?_)
  exact Calm.append (by simpa using hname) hrest

lemma isItem_text (h : index.Proper) : IsItem index.text := by
  refine isItem_of_calm ?_ ?_ fun _ _ => h.calm_text
  · cases hunique : index.unique with
    | none =>
        rw [SpelledIndex.text, uniqueText, hunique]
        exact h.isWord_word.stops_isBlank _
    | some unique =>
        obtain ⟨hw, -⟩ := h.unique unique hunique
        have hword := hw.spells.isWord (show IsKeyword "UNIQUE".toList by decide)
        rw [SpelledIndex.text, uniqueText, hunique, List.append_assoc]
        exact hword.stops_isBlank _
  · have hclose : EndsSolid [')'] := ⟨by simp, by simp; decide⟩
    exact (((hclose.append_left ('(' :: listed (index.parts.map KeyPart.text))).append_left
      index.gap).append_left index.nameText |>.append_left index.word).append_left index.uniqueText

end SpelledIndex.Proper

/-! ### Indexes as they are read -/

/-- Two words can be read as a column with its type, whatever follows them. -/
lemma reads_columnForm (hw : IsWord w) (hg : IsGap g) (hne : g ≠ []) (hv : IsWord v) :
    columnForm.Reads [] ((w ++ g) ++ v) rest := by
  have hperiod : NoPeriod (g ++ (v ++ rest)) := noPeriod_of_gap hg (hv.stops_isBlank rest)
    (hv.stops (fun _ => Text.beq_of_isWordChar (by decide)) rest)
  have hname : (group 1 identifier).Reads [] w (g ++ (v ++ rest)) :=
    (takes_plain hw hperiod (stops_isNameChar_gap hg hne)).reads
  have hgap : someBlanks.Reads w.reverse g (v ++ rest) :=
    (takes_someBlanks hg hne (hv.stops_isBlank rest)).reads
  exact ⟨w ++ g, v, rfl, ⟨w, g, rfl, ⟨[], w, rfl, ⟨rfl, rfl⟩, by simpa using hname⟩,
    by simpa using hgap⟩, reads_typeForm hv⟩

namespace SpelledIndex.Proper

/-- A name is taken, or left out where there is none. -/
lemma takes_nameText (h : index.Proper) (i : Nat)
    (hq : ∀ before, q.Takes before (index.gap ++ '(' :: v) rest caught) :
    (opt (someBlanks ++ group i identifier) ++ q).Takes before
      (index.nameText ++ (index.gap ++ '(' :: v)) rest
        (caught ++ index.caughtName i) := by
  cases hname : index.name with
  | none =>
      rw [nameText, caughtName, hname, Option.toList_none, List.map_nil, List.append_nil]
      exact takes_indexName_skip i h.gap hq
  | some name =>
      obtain ⟨hg, hne, hw⟩ := h.name name hname
      rw [nameText, caughtName, hname, List.append_assoc]
      exact takes_indexName i hg hne hw h.gap hq

/-- The list goes on with a closing parenthesis behind the parts that are reached. -/
lemma exists_listText (h : index.Proper) : ∃ u v, index.listText = '(' :: (u ++ [')']) ++ v ∧
    (∀ c ∈ u, c ≠ ')') ∧ namesOf u = index.reached := by
  obtain ⟨v, hv⟩ := exists_listed_shown h.ne_nil
  refine ⟨listed ((upToLength index.parts).map KeyPart.shown), v, ?_, ?_,
    namesOf_shown h.parts h.listable⟩
  · rw [listText, hv]
    simp
  · refine forall_mem_listed (List.forall_mem_map.mpr fun part hpart => ?_) (by decide) (by decide)
    exact (h.parts part ((isPrefix_upToLength index.parts).subset hpart)).ne_closing_shown

/-- What is remembered of the name is its bare name. -/
lemma lookup_name (h : index.Proper) {i j : Nat} (hij : i ≠ j) (u : List Char) :
    (([(j, u)] ++ index.caughtName i).lookup i).map nameOf = index.name? := by
  have hbeq : (i == j) = false := by simpa using hij
  cases hname : index.name with
  | none => simp [List.lookup_cons, hbeq, caughtName, name?, hname]
  | some name =>
      simp [List.lookup_cons, hbeq, caughtName, name?, hname,
        nameOf_plainName (h.name name hname).2.2]

/-- An index is read as what its word says. -/
lemma constraint?_plain (h : index.Proper) (hunique : index.unique = none) :
    constraint? index.text = some (.index index.name? index.reached) := by
  obtain ⟨u, v, hlist, hu, hnames⟩ := h.exists_listText
  obtain ⟨K, hK, hcased⟩ := h.word
  have hkeyword : ∀ K ∈ ["KEY", "INDEX"], IsKeyword K.toList ∧ K ∈ ["INDEX", "KEY"] := by decide
  have hstop : Stops isWordChar (index.nameText ++ (index.gap ++ index.listText)) :=
    h.stops_name (fun _ => Text.not_isWordChar_of_isBlank) (by decide) _
  have htext : index.text = index.word ++ (index.nameText ++ (index.gap ++ index.listText)) := by
    rw [SpelledIndex.text, uniqueText, hunique, List.nil_append]
  have hbegins : BeginsKeyword K index.text :=
    ⟨(hkeyword K hK).1, index.word, _, htext, hcased.spells, hstop⟩
  have hspells : Spells "INDEX".toList index.word ∨ Spells "KEY".toList index.word := by
    rcases List.mem_pair.mp hK with rfl | rfl
    · exact Or.inr hcased.spells
    · exact Or.inl hcased.spells
  have hsplit : index.text
      = (index.word ++ (index.nameText ++ (index.gap ++ '(' :: (u ++ [')'])))) ++ v := by
    rw [htext, hlist]
    simp
  have hfind := find?_of_eq_append hsplit <| takes_indexForm_of_tail hspells fun _ =>
    h.takes_nameText 1 fun _ => takes_indexColumns 2 h.gap hu
  have hname := h.lookup_name (i := 1) (j := 2) (by decide) u
  rw [constraint?_of_indexForm hbegins (hkeyword K hK).2 hfind]
  simp only [Match.group, Match.group?, hname]
  simp [hnames]

lemma takes_word (h : index.Proper) (hrest : Stops isWordChar rest) :
    (keyword "KEY" ||| keyword "INDEX").Takes before index.word rest [] := by
  obtain ⟨K, hK, hword⟩ := h.word
  simp only [List.mem_cons, List.not_mem_nil, or_false] at hK
  rcases hK with rfl | rfl
  · exact (takes_keyword hword.spells).alt_left _
  · exact (takes_keyword hword.spells).alt_right <|
      fails_keyword_of_not_prefix (by decide) (by decide) (by decide) hword.spells hrest

/-- A unique index is read as such. -/
lemma constraint?_unique (h : index.Proper) (hunique : index.unique = some (w, g)) :
    constraint? index.text = some (.unique index.name? index.reached) := by
  obtain ⟨u, v, hlist, hu, hnames⟩ := h.exists_listText
  obtain ⟨hcased, hg, hne⟩ := h.unique (w, g) hunique
  have hspells : Spells "UNIQUE".toList w := Cased.spells hcased
  have hstop : ∀ v, Stops isWordChar (g ++ v) :=
    hg.stops_of_ne_nil hne fun _ => Text.not_isWordChar_of_isBlank
  have htext : index.text
      = w ++ (g ++ (index.word ++ (index.nameText ++ (index.gap ++ index.listText)))) := by
    rw [SpelledIndex.text, uniqueText, hunique, List.append_assoc]
  have hbegins : BeginsKeyword "UNIQUE" index.text :=
    ⟨by decide, w, _, htext, hspells, hstop _⟩
  have hlistTakes : ∀ before, (blanks ++ inParens 3).Takes before
      (index.gap ++ '(' :: (u ++ [')'])) v [(3, u)] := fun _ =>
    (takes_blanks h.gap stops_isBlank_parenthesis).seq (takes_inParens 3 hu)
  have hword : ∀ before, (someBlanks ++ (keyword "KEY" ||| keyword "INDEX")).Takes before
      (g ++ index.word) ((index.nameText ++ (index.gap ++ '(' :: (u ++ [')']))) ++ v) [] := by
    intro before
    refine (takes_someBlanks hg hne (h.isWord_word.stops_isBlank _)).seq (h.takes_word ?_)
    simpa using h.stops_name (fun _ => Text.not_isWordChar_of_isBlank) (by decide) _
  have hsplit : index.text = (w ++ ((g ++ index.word) ++
      (index.nameText ++ (index.gap ++ '(' :: (u ++ [')']))))) ++ v := by
    rw [htext, hlist]
    simp
  have hfind := find?_of_eq_append hsplit <|
    takes_uniqueForm_of_tail hspells (by simpa using hstop _) fun before =>
      (hword before).opt.seq (h.takes_nameText 2 hlistTakes)
  have hname := h.lookup_name (i := 2) (j := 3) (by decide) u
  have hconstraint : ([(3, u)] ++ index.caughtName 2).lookup 1 = none := by
    cases hname : index.name <;> simp [List.lookup_cons, caughtName, hname]
  rw [constraint?_of_uniqueForm hbegins hfind]
  simp only [Match.group, Match.group?, hconstraint, Option.or_none, hname]
  simp [hnames]

/-- An index looks like a constraint, unless its name begins with the name of a type. -/
lemma looksLikeConstraint_text (h : index.Proper) :
    looksLikeConstraint index.text = true ↔ ¬ index.NamedLikeType := by
  have hwords : ∀ K ∈ ["UNIQUE", "KEY", "INDEX"], IsKeyword K.toList ∧
      constraintWords.contains K = true ∧ (K == "CONSTRAINT") = false ∧
        typeNames.contains K = false := by decide
  obtain ⟨K, hK, hword⟩ := h.word
  obtain ⟨hkeyword, hconstraint, hnot, htype⟩ := hwords K (List.mem_cons_of_mem _ hK)
  have hw := h.isWord_word
  have hends : Stops (fun c => !endsFirstWord c)
      (index.nameText ++ (index.gap ++ index.listText)) :=
    h.stops_name (fun c hc => by simp [endsFirstWord, hc]) (by decide) _
  have hstop : Stops isWordChar (index.nameText ++ (index.gap ++ index.listText)) :=
    h.stops_name (fun _ => Text.not_isWordChar_of_isBlank) (by decide) _
  cases hunique : index.unique with
  | some unique =>
      obtain ⟨hcased, hg, hne⟩ := h.unique unique hunique
      have hspells : IsWord unique.1 := hcased.spells.isWord (by decide)
      have hsecond := secondWordIsType_append hspells hg hne hw hstop
      have hfirst := firstWord_append hspells (endsFirstWord_gap hg hne
        (index.word ++ (index.nameText ++ (index.gap ++ index.listText))))
      rw [upper_of_cased hkeyword hword, htype] at hsecond
      rw [upper_of_cased (K := "UNIQUE") (by decide) hcased] at hfirst
      have hlooks : looksLikeConstraint index.text = true := by
        rw [SpelledIndex.text, uniqueText, hunique, List.append_assoc, looksLikeConstraint, hfirst,
          hsecond]
        decide
      simp [hlooks, NamedLikeType, hunique]
  | none =>
      have hfirst := firstWord_append hw hends
      rw [upper_of_cased hkeyword hword] at hfirst
      rw [SpelledIndex.text, uniqueText, hunique, List.nil_append, looksLikeConstraint, hfirst,
        hconstraint, hnot, Bool.true_and, Bool.false_or]
      cases hname : index.name with
      | none =>
          have hsecond := secondWordIsType_parenthesis hw h.gap
            (r := listed (index.parts.map KeyPart.text) ++ [')'])
          simp [nameText, hname, listText, hsecond, NamedLikeType]
      | some name =>
          obtain ⟨hg, hne, hv⟩ := h.name name hname
          have hround : Stops isWordChar (index.gap ++ index.listText) :=
            stops_isWordChar_parenthesis h.gap
          have hsecond := secondWordIsType_plainName hw hg hne hv hround
          rw [nameText, hname, List.append_assoc, hsecond]
          simp [NamedLikeType, hunique, hname]

/-- An index is read as the entry it is, unless its name begins with the name of a type. -/
theorem ofText_text (h : index.Proper) (hname : ¬ index.NamedLikeType) :
    TableEntry.ofText index.text = index.entry := by
  have hconstraint : constraint? index.text = some index.entry := by
    cases hunique : index.unique with
    | none => rw [h.constraint?_plain hunique, entry, hunique]; rfl
    | some unique => rw [h.constraint?_unique hunique, entry, hunique]; rfl
  rw [TableEntry.ofText, if_pos (h.looksLikeConstraint_text.mpr hname), hconstraint,
    Option.getD_some]

/-- An index whose name begins with the name of a type is read as a column. -/
lemma exists_column (h : index.Proper) (hname : index.NamedLikeType) :
    ∃ entry, TableEntry.ofText index.text = .column entry := by
  have hlooks : looksLikeConstraint index.text = false := by
    rw [← Bool.not_eq_true, h.looksLikeConstraint_text, not_not]
    exact hname
  obtain ⟨hunique, ⟨g, n⟩, hmem, htype⟩ := hname
  obtain ⟨hg, hne, hn⟩ := h.name _ hmem
  -- the column would be called like the word for an index
  have hv : IsWord (n.takeWhile isWordChar) := by
    refine ⟨fun hnil => ?_, List.all_eq_true.mp List.all_takeWhile⟩
    rw [hnil] at htype
    exact absurd htype (by decide)
  have htext : index.text = ((index.word ++ g) ++ n.takeWhile isWordChar) ++
      (n.dropWhile isWordChar ++ (index.gap ++ index.listText)) := by
    have hsplit : n.takeWhile isWordChar ++ n.dropWhile isWordChar = n :=
      List.takeWhile_append_dropWhile
    rw [SpelledIndex.text, uniqueText, hunique, nameText, hmem]
    simp only [List.nil_append, List.append_assoc, ← List.append_assoc (n.takeWhile _), hsplit]
  obtain hfails | ⟨w, rest, caught, heq, htakes⟩ := fails_or_takes columnForm [] index.text
  · exact absurd (reads_columnForm h.isWord_word hg hne hv) (hfails _ _ htext)
  · rw [TableEntry.ofText, hlooks, if_neg Bool.false_ne_true, TableEntry.ofColumnText,
      ColumnEntry.ofText?, find?_of_eq_append heq htakes]
    exact ⟨_, rfl⟩

/-- An index is taken for a column exactly where its name begins with the name of a type. -/
theorem isColumn_iff (h : index.Proper) :
    (∃ entry, TableEntry.ofText index.text = .column entry) ↔ index.NamedLikeType := by
  refine ⟨fun ⟨entry, hentry⟩ => ?_, h.exists_column⟩
  by_contra hname
  rw [h.ofText_text hname, SpelledIndex.entry] at hentry
  split at hentry <;> simp at hentry

end SpelledIndex.Proper

/-! ### The table -/

lemma reached_ne_nil (h : index.Proper) : index.reached ≠ [] := by
  obtain ⟨part, parts, hparts⟩ := List.exists_cons_of_ne_nil h.ne_nil
  simp [SpelledIndex.reached, hparts, upToLength]

/-- The entry adds its index, and nothing else. -/
lemma applyTo_entry (h : index.Proper) (table : Table) :
    index.entry.applyTo table = table.addIndex (index.made table.name) := by
  cases hunique : index.unique with
  | none => simp [SpelledIndex.entry, SpelledIndex.made, hunique, TableEntry.applyTo, addNamedIndex]
  | some unique =>
      simp [SpelledIndex.entry, SpelledIndex.made, hunique, TableEntry.applyTo, addNamedIndex,
        reached_ne_nil h]

lemma edges_insert {entry : TableEntry} (hkey : entry.foreignKey? = none) (name : String)
    (ahead behind : List TableEntry) : CreateTable.edges ⟨name, ahead ++ entry :: behind⟩
      = CreateTable.edges ⟨name, ahead ++ behind⟩ := by
  simp [CreateTable.edges, List.filterMap_append, hkey]

/-- Among other entries, one that adds an index and makes no edge changes nothing but the
indexes. -/
lemma exists_table_insert {entry : TableEntry} {made : String → Index}
    (hentry : ∀ table : Table, entry.applyTo table = table.addIndex (made table.name))
    (hkey : entry.foreignKey? = none) (name : String) (ahead behind : List TableEntry) :
    ∃ (table : Table) (front back : List Index),
      CreateTable.table ⟨name, ahead ++ behind⟩ = { table with indexes := front ++ back } ∧
      CreateTable.table ⟨name, ahead ++ entry :: behind⟩
        = { table with indexes := front ++ made name :: back } := by
  generalize hbefore : ahead.foldl TableEntry.applyTo (Table.empty name) = before
  have hname : before.name = name := by
    rw [← hbefore]
    exact List.foldlRecOn (motive := fun t => t.name = name) ahead _
      (show (Table.empty name).name = name from rfl) fun t ht entry _ =>
        (name_applyTo t entry).trans ht
  -- the table of all entries, without the indexes of those ahead
  let table := linkEdges (CreateTable.edges ⟨name, ahead ++ behind⟩)
    (behind.foldl TableEntry.applyTo { before with indexes := [] })
  have hfront : ∀ front, linkEdges (CreateTable.edges ⟨name, ahead ++ behind⟩)
      (behind.foldl TableEntry.applyTo { before with indexes := front })
        = { table with indexes := front ++ table.indexes } := by
    intro front
    have hwith : { before with indexes := front }
        = Table.withFront front { before with indexes := [] } := by simp [Table.withFront]
    rw [hwith, foldl_applyTo_withFront, linkEdges_withFront]
    rfl
  refine ⟨table, before.indexes, table.indexes, ?_, ?_⟩
  · rw [CreateTable.table, List.foldl_append, hbefore]
    exact hfront before.indexes
  · rw [CreateTable.table, edges_insert hkey, List.foldl_append, List.foldl_cons, hbefore,
      hentry, hname]
    exact (hfront (before.indexes ++ [made name])).trans (by simp)

variable {behind ahead : List (List Char)}

/-- **The index of an entry.**  Whatever other entries stand before and behind it, an index whose
name does not begin with the name of a type adds one index to the table that there is without it,
and no column.  The index has the name that is given or the default name, it is unique where that is
said, and it has the listed columns up to the first one with a length: all of them exactly if no
column but the last has one. -/
theorem SpelledIndex.ofText_entry (h : index.Proper) (hname : ¬ index.NamedLikeType) (hw : IsWord w)
    (hahead : ∀ t ∈ ahead, IsItem t) (hbehind : ∀ t ∈ behind, IsItem t) (rawPath : String) :
    (∃ (table : Table) (front back : List Index) (relations : List Relation),
      Schema.ofText .sql (createText w (listed (ahead ++ behind))) rawPath
        = ⟨.sql, [{ table with indexes := front ++ back }], relations, rawPath⟩ ∧
      Schema.ofText .sql (createText w (listed (ahead ++ index.text :: behind))) rawPath
        = ⟨.sql, [{ table with indexes := front ++ index.made (String.ofList w) :: back }],
            relations, rawPath⟩) ∧
    (index.reached = index.columns ↔ ∀ part ∈ index.parts.dropLast, part.length = none) := by
  have hitems : ∀ t ∈ ahead ++ behind, IsItem t :=
    List.forall_mem_append.mpr ⟨hahead, hbehind⟩
  have hmore : ∀ t ∈ ahead ++ index.text :: behind, IsItem t :=
    List.forall_mem_append.mpr ⟨hahead, List.forall_mem_cons.mpr ⟨h.isItem_text, hbehind⟩⟩
  have hkey : index.entry.foreignKey? = none := by
    rw [SpelledIndex.entry]
    split <;> rfl
  have hread : (ahead ++ index.text :: behind).map TableEntry.ofText
      = ahead.map .ofText ++ index.entry :: behind.map .ofText := by
    rw [List.map_append, List.map_cons, h.ofText_text hname]
  obtain ⟨table, front, back, hwithout, hwith⟩ := exists_table_insert (applyTo_entry h) hkey
    (String.ofList w) (ahead.map .ofText) (behind.map .ofText)
  refine ⟨⟨table, front, back, firstBy Relation.edge
    (CreateTable.edges ⟨String.ofList w, ahead.map .ofText ++ behind.map .ofText⟩), ?_, ?_⟩,
      map_upToLength _⟩
  · rw [schema_items hw hitems, List.map_append, hwithout]
  · rw [schema_items hw hmore, hread, hwith, edges_insert hkey]

/-- Two columns, as entries of a table. -/
def sampleColumns : List (List Char) := ["a TEXT".toList, "b TEXT".toList]

/-- `KEY k (a, b(10) DESC)` -/
def sampleIndex : SpelledIndex where
  unique := none
  word := "KEY".toList
  name := some ([' '], "k".toList)
  gap := [' ']
  parts := [⟨⟨.plain, "a".toList⟩, none, none⟩,
    ⟨⟨.plain, "b".toList⟩, some ([], "10".toList), some ([' '], "DESC".toList)⟩]

lemma isItem_sampleColumns : ∀ t ∈ sampleColumns, IsItem t := by
  have hcolumn : ∀ name ∈ ["a", "b"], IsItem (SpelledName.text ⟨.plain, name.toList⟩ ++ ' ' ::
      ColumnType.text ⟨"TEXT".toList, none⟩) := by
    have hproper : ∀ name ∈ ["a", "b"], SpelledName.Proper ⟨.plain, name.toList⟩ ∧
        SpelledName.Free ⟨.plain, name.toList⟩ := by decide
    exact fun name hname => isItem_declared (hproper name hname).1
      (hproper name hname).2 (by decide)
  simp only [sampleColumns, List.forall_mem_cons]
  exact ⟨hcolumn "a" (by decide), hcolumn "b" (by decide), by simp⟩

/-- A length at the last column keeps both of them. -/
theorem SpelledIndex.ofText_entry_sampleIndex :
    (sampleIndex.Proper ∧ ¬ sampleIndex.NamedLikeType ∧ sampleIndex.columns = ["a", "b"]) ∧
    (∃ (table : Table) (front back : List Index) (relations : List Relation),
      Schema.ofText .sql (createText "t".toList (listed (sampleColumns ++ []))) "a.sql"
        = ⟨.sql, [{ table with indexes := front ++ back }], relations, "a.sql"⟩ ∧
      Schema.ofText .sql (createText "t".toList (listed (sampleColumns ++ [sampleIndex.text])))
        "a.sql"
        = ⟨.sql, [{ table with indexes := front ++ ⟨"k", ["a", "b"], false⟩ :: back }], relations,
            "a.sql"⟩) ∧
    (sampleIndex.reached = sampleIndex.columns ↔
      ∀ part ∈ sampleIndex.parts.dropLast, part.length = none) := by
  have hproper : sampleIndex.Proper ∧ ¬ sampleIndex.NamedLikeType := by decide
  exact ⟨⟨hproper.1, hproper.2, by decide⟩,
    SpelledIndex.ofText_entry hproper.1 hproper.2 (by decide)
    isItem_sampleColumns (by simp) "a.sql"⟩

/-- A length at another column cuts the list off, and an index that is called like a type becomes a
column. -/
theorem index_list_cut_off :
    Schema.ofText .sql "CREATE TABLE t (a TEXT, b INT, KEY k (a(10), b));".toList "inline"
      = ⟨.sql, [⟨"t", [⟨"a", "TEXT", true, false, none⟩, ⟨"b", "INT", true, false, none⟩],
          [⟨"k", ["a"], false⟩]⟩], [], "inline"⟩ ∧
    Schema.ofText .sql "CREATE TABLE t (a INT, KEY date (a));".toList "inline"
      = ⟨.sql, [⟨"t", [⟨"a", "INT", true, false, none⟩, ⟨"KEY", "date (a)", true, false, none⟩],
        []⟩],
          [], "inline"⟩ := by
  decide +kernel

end Ddl

end SchemaReader
