/-
Written entries, and what they are read as.

* `looksLikeConstraint_of_writes`: a written clause is taken for a constraint;
* `ofText_column`: a written column is read as the column it is;
* `ofText_clause`: a written clause is read as the constraint it is;
* `isEntry_column`, `isEntry_clause`: both can stand in a list with commas.
-/
import SchemaReader.Proofs.Ddl.Options

namespace SchemaReader.Ddl

open Text (IsWord IsGap IsKeyword Spells Cased Stops isWordChar isBlank)
open Pattern

variable {t s u v w g text rest : List Char} {names : List String} {ps : List Piece}
  {piece : Piece} {K : String} {column : ColumnDef} {clause : Clause}

/-! ### First words -/

/-- White space at the end of a text that does not end with white space is none. -/
lemma gap_eq_nil (h : Stops isBlank (u ++ g).reverse) (hg : IsGap g) : g = [] := by
  by_contra hne
  obtain ⟨c, v, hv⟩ := List.exists_cons_of_ne_nil (List.reverse_ne_nil_iff.mpr hne)
  have hc := hg c (List.mem_reverse.mp (hv ▸ List.mem_cons_self))
  rw [List.reverse_append, hv] at h
  simp [hc] at h

lemma endsFirstWord_gap (hg : IsGap g) (hne : g ≠ []) (v : List Char) :
    Stops (fun c => !endsFirstWord c) (g ++ v) :=
  hg.stops_of_ne_nil hne (fun c hc => by simp [endsFirstWord, hc]) v

/-- The capitals of a keyword in letters of any case. -/
lemma upper_of_cased (hK : IsKeyword K.toList) (hs : Cased K.toList s) :
    String.ofList (Text.upper s) = K := by
  rw [hs.spells.upper_eq (hs.ascii hK), String.ofList_toList]

/-- A name is the first word of no constraint, and no type. -/
lemma IsName.upper_not_mem {name : String} (h : IsName name) {words : List String}
    (hwords : words ⊆ reservedWords) :
    words.contains (String.ofList (Text.upper name.toList)) = false := by
  rw [List.contains_eq_mem, decide_eq_false_iff_not]
  exact fun hmem => h.free (hwords hmem)

/-- The second piece of a clause: the word `KEY`, a name or the parenthesis of a list. -/
inductive SecondPiece : Piece → Prop
  | key : SecondPiece (.keyword "KEY")
  | name {name : String} : IsName name → SecondPiece (.name name)
  | list : SecondPiece (.sign '(')

/-- The second word of a clause, if it is one, is no type. -/
lemma SecondPiece.isWord (h : SecondPiece piece) (hs : piece.Spelled s) :
    s = ['('] ∨ (IsWord s ∧ typeNames.contains (String.ofList (Text.upper s)) = false) := by
  cases h with
  | key =>
      have hK : IsKeyword "KEY".toList := by decide
      refine Or.inr ⟨Piece.isWord_of_spelled_keyword hK hs, ?_⟩
      rw [upper_of_cased hK hs]
      decide
  | name hname =>
      obtain rfl : s = _ := hs
      exact Or.inr ⟨hname.isWord, hname.upper_not_mem (by decide)⟩
  | list => exact Or.inl hs

/-- An entry that begins as a clause does is taken for a constraint. -/
lemma looksLikeConstraint_of_writes (hK : IsKeyword K.toList) (hmem : K ∈ constraintWords)
    (hpiece : SecondPiece piece) (h : Writes (.keyword K :: piece :: ps) text rest) :
    looksLikeConstraint text = true ∧ firstWord text = K := by
  obtain ⟨s, g, _, rfl, hs, hg, hparted, s', g', u, rfl, hs', hg', hparted', hu⟩ := h
  have hword := Piece.isWord_of_spelled_keyword hK hs
  have htwo : firstWord (s ++ (g ++ (s' ++ (g' ++ u)))) = K ∧
      secondWordIsType (s ++ (g ++ (s' ++ (g' ++ u)))) = false := by
    rcases hpiece.isWord hs' with rfl | ⟨hword', htype⟩
    · refine ⟨?_, secondWordIsType_parenthesis hword hg⟩
      rw [firstWord_append hword, upper_of_cased hK hs]
      by_cases hne : g = []
      · subst hne
        simp [endsFirstWord]
      · exact endsFirstWord_gap hg hne _
    · have hne : g ≠ [] := by
        refine gap_ne_nil (v := g' ++ (u ++ rest)) ?_ hword'
        simpa using hparted.stops hword
      have hstop : Stops isWordChar (g' ++ u) := by
        have hbehind : Stops isWordChar ((g' ++ u) ++ rest) := by
          simpa using hparted'.stops hword'
        exact hbehind.of_append
      rw [firstWord_append hword (endsFirstWord_gap hg hne _), upper_of_cased hK hs,
        secondWordIsType_append hword hg hne hword' hstop]
      exact ⟨rfl, htype⟩
  refine ⟨?_, htwo.1⟩
  rw [looksLikeConstraint, htwo.1, htwo.2, List.contains_eq_mem]
  simp [hmem]

/-! ### Columns -/

/-- Written options begin as what follows a type has to. -/
lemma beginsOptions_of_writes {options : List ColumnOption}
    (h : Writes (options.flatMap ColumnOption.pieces) text []) (hg : IsGap g)
    (hend : options = [] → g = []) : BeginsOptions (g ++ text) := by
  cases options with
  | nil =>
      obtain rfl := h
      exact Or.inl (by simp [hend rfl])
  | cons option options =>
      obtain ⟨K, ps, hpieces, hK⟩ := exists_keyword_option option
      have hnot : ∀ K ∈ optionWords, ∀ L ∈ ["PRECISION", "VARYING", "WITH"],
          ¬ L.toList <+: K.toList := by decide
      have hkeyword := isKeyword_of_mem_optionWords hK
      rw [List.flatMap_cons, hpieces] at h
      obtain ⟨s, g', u, rfl, hs, -, hparted, -⟩ := h
      have hword := Piece.isWord_of_spelled_keyword hkeyword hs
      refine Or.inr ⟨g, s, g' ++ u, K, rfl, hg, hkeyword, hs.spells, ?_, hnot K hK⟩
      simpa using hparted.stops hword

/-- A written column is read as the column it is. -/
theorem ofText_column (hcolumn : column.Proper) (h : WritesEntry column.pieces text) :
    TableEntry.ofText text = .column column.entry := by
  obtain ⟨hwrites, -, -, hend⟩ := h
  obtain ⟨_, g, _, rfl, rfl, hg, hparted, _, g', o, rfl, rfl, hg', hparted', ho⟩ := hwrites
  have hw := hcolumn.name.isWord
  have hne : g ≠ [] := by
    rintro rfl
    have hstop := hparted.stops hw
    simp only [List.nil_append, List.append_assoc] at hstop
    exact hcolumn.type.not_stops _ hstop
  have hbegins : BeginsOptions (g' ++ o) := by
    refine beginsOptions_of_writes ho hg' fun hnil => gap_eq_nil (u := column.name.toList ++
      (g ++ column.type.text)) ?_ hg'
    obtain rfl : o = [] := by simpa [hnil, Writes] using ho
    simpa using hend
  have hword : column.type.size = none → Stops isWordChar (g' ++ o) := by
    intro hsize
    have htext : column.type.text = column.type.word := by rw [ColumnType.text, hsize]
    rw [htext] at hparted'
    simpa using hparted'.stops hcolumn.type.isWord
  have hnot : looksLikeConstraint (column.name.toList ++ (g ++ (column.type.text ++ (g' ++ o))))
      = false := by
    rw [looksLikeConstraint, firstWord_append hw (endsFirstWord_gap hg hne _),
      hcolumn.name.upper_not_mem (by decide), Bool.false_and]
  have hshown := writes_shown hcolumn.options ho id
  rw [ofText_of_ofText? hnot (ofText?_column hw hg hne hcolumn.type hbegins hword),
    inlineForeignKey?_of_writes _ hcolumn.options ho hg', maskNested_gap hg',
    occursIn_notNullForm hcolumn.options hshown hg',
    occursIn_inlinePrimaryKeyForm hcolumn.options hshown hg',
    occursIn_inlineUniqueForm hcolumn.options hshown hg']
  simp [ColumnDef.entry]

/-! ### Clauses -/

lemma beginsKeyword_of_writes (hK : IsKeyword K.toList) (h : Writes (.keyword K :: ps) text []) :
    BeginsKeyword K text := by
  obtain ⟨w, g, u, rfl, hw, -, hparted, -⟩ := h
  have hstop := hparted.stops (Piece.isWord_of_spelled_keyword hK hw)
  exact ⟨hK, w, g ++ u, rfl, Text.Cased.spells hw, by simpa using hstop⟩

lemma constraint?_primaryKey (hnames : ∀ name ∈ names, IsName name)
    (h : Writes (Clause.primaryKey names).pieces text []) :
    constraint? text = some (.primaryKey names) := by
  have hbegins := beginsKeyword_of_writes (by decide) h
  obtain ⟨a, b, htext, ha, hb⟩ := writes_append.mp h
  have hK : IsKeyword "KEY".toList := by decide
  obtain ⟨t, _, rfl, ht, s, g, _, rfl, hs, hg, -, rfl⟩ :=
    writes_spacedKeyword (by decide) (fun _ => Piece.isWord_of_spelled_keyword hK) ha
  obtain ⟨list, g', rfl, -, hlist⟩ := exists_list_text hnames hb
  have hsplit : text = t ++ (s ++ (g ++ ('(' :: (list ++ [')'])))) ++ g' := by
    simp [htext]
  have hfind := find?_of_eq_append hsplit (takes_primaryKeyForm ht hs.spells hg hlist.ne_closing)
  simp [constraint?_of_primaryKeyForm hbegins hfind, Match.group, Match.group?, hlist.namesOf_eq]

lemma constraint?_unique {name : Option String} (hname : ∀ n ∈ name, IsName n)
    (hnames : ∀ name ∈ names, IsName name) (h : Writes (Clause.unique name names).pieces text []) :
    constraint? text = some (.unique name names) := by
  have hbegins := beginsKeyword_of_writes (by decide) h
  cases name with
  | none =>
      obtain ⟨s, g, list, g', htext, hs, hg, -, hlist⟩ := exists_unnamed_text hnames h
      have hsplit : text = s ++ (g ++ '(' :: (list ++ [')'])) ++ g' := by
        simp [htext]
      have hfind := find?_of_eq_append hsplit (takes_uniqueForm hs hg hlist.ne_closing)
      simp [constraint?_of_uniqueForm hbegins hfind, Match.group, Match.group?, hlist.namesOf_eq]
  | some name =>
      have hname := hname name rfl
      obtain ⟨s, g₁, g₂, list, g', htext, hs, hg₁, hne, hg₂, -, hlist⟩ :=
        exists_named_text (by decide) hname hnames h
      have hsplit : text = s ++ (g₁ ++ (name.toList ++ (g₂ ++ '(' :: (list ++ [')'])))) ++ g' := by
        simp [htext]
      have hfind := find?_of_eq_append hsplit (takes_uniqueForm_named hs hg₁ hne hname.isWord
        (hname.not_spells (by decide)) (hname.not_spells (by decide)) hg₂ hlist.ne_closing)
      simp [constraint?_of_uniqueForm hbegins hfind, Match.group, Match.group?, List.lookup_cons,
        hlist.namesOf_eq, nameOf_plain hname.isWord]

lemma constraint?_index {asKey : Bool} {name : Option String} (hname : ∀ n ∈ name, IsName n)
    (hnames : ∀ name ∈ names, IsName name)
    (h : Writes (Clause.index asKey name names).pieces text []) :
    constraint? text = some (.index name names) := by
  obtain ⟨K, hK, h⟩ : ∃ K, K ∈ ["INDEX", "KEY"] ∧
      Writes (.keyword K :: indexPieces name names) text [] :=
    ⟨_, by cases asKey <;> decide, h⟩
  have hwords : ∀ K ∈ ["INDEX", "KEY"], IsKeyword K.toList := by decide
  have hbegins := beginsKeyword_of_writes (hwords K hK) h
  have hspells : ∀ s, Spells K.toList s →
      Spells "INDEX".toList s ∨ Spells "KEY".toList s := by
    intro s hs
    rcases List.mem_pair.mp hK with rfl | rfl
    · exact Or.inl hs
    · exact Or.inr hs
  cases name with
  | none =>
      obtain ⟨s, g, list, g', htext, hs, hg, -, hlist⟩ := exists_unnamed_text hnames h
      have hsplit : text = s ++ (g ++ '(' :: (list ++ [')'])) ++ g' := by
        simp [htext]
      have hfind := find?_of_eq_append hsplit (takes_indexForm (hspells s hs) hg hlist.ne_closing)
      simp [constraint?_of_indexForm hbegins hK hfind, Match.group, Match.group?, List.lookup_cons,
        hlist.namesOf_eq]
  | some name =>
      have hname := hname name rfl
      obtain ⟨s, g₁, g₂, list, g', htext, hs, hg₁, hne, hg₂, -, hlist⟩ :=
        exists_named_text hbegins.isKeyword hname hnames h
      have hsplit : text = s ++ (g₁ ++ (name.toList ++ (g₂ ++ '(' :: (list ++ [')'])))) ++ g' := by
        simp [htext]
      have hfind := find?_of_eq_append hsplit (takes_indexForm_named (hspells s hs) hg₁ hne
        hname.isWord hg₂ hlist.ne_closing)
      simp [constraint?_of_indexForm hbegins hK hfind, Match.group, Match.group?, List.lookup_cons,
        hlist.namesOf_eq, nameOf_plain hname.isWord]

lemma constraint?_foreignKey {name : Option String} {key : KeyDef} (hname : ∀ n ∈ name, IsName n)
    (hkey : key.Proper) (h : Writes (Clause.foreignKey name key).pieces text []) :
    constraint? text = some (.foreignKey key.key) := by
  obtain ⟨K, t, r, g, columns, targets, htext, -, -, -, hcolumns, htargets, htakes⟩ :=
    exists_namedKey_text hname hkey h
  have hsplit : text = t ++ r ++ (g ++ []) := by
    simp [htext]
  have hfind := find?_of_eq_append hsplit (takes_foreignKeyForm (htakes 1 []))
  simp [constraint?_of_foreignKeyForm hfind, Match.group, Match.group?,
    List.lookup_cons, keyCaptures, ForeignKey.ofMatch, KeyDef.key, hcolumns.namesOf_eq,
    htargets.namesOf_eq, nameOf_plain hkey.table.isWord]

/-- How a clause begins. -/
lemma exists_keyword_clause (hclause : clause.Proper) : ∃ K piece ps,
    clause.pieces = .keyword K :: piece :: ps ∧ K ∈ constraintWords ∧ SecondPiece piece := by
  have hindex : ∀ (name : Option String) (names : List String), (∀ n ∈ name, IsName n) →
      ∃ piece ps, indexPieces name names = piece :: ps ∧ SecondPiece piece := by
    intro name names hname
    cases name with
    | none => exact ⟨_, _, rfl, .list⟩
    | some name => exact ⟨_, _, rfl, .name (hname name rfl)⟩
  cases clause with
  | primaryKey columns => exact ⟨_, _, _, rfl, by decide, .key⟩
  | unique name columns =>
      obtain ⟨piece, ps, hpieces, hpiece⟩ := hindex name columns hclause.1
      exact ⟨"UNIQUE", piece, ps, by rw [Clause.pieces, hpieces], by decide, hpiece⟩
  | index asKey name columns =>
      obtain ⟨piece, ps, hpieces, hpiece⟩ := hindex name columns hclause.1
      exact ⟨if asKey then "KEY" else "INDEX", piece, ps, by rw [Clause.pieces, hpieces],
        by cases asKey <;> decide, hpiece⟩
  | foreignKey name key =>
      cases name with
      | none => exact ⟨_, _, _, rfl, by decide, .key⟩
      | some name => exact ⟨_, _, _, rfl, by decide, .name (hclause.1 name rfl)⟩

/-- A written clause is read as the constraint it is. -/
theorem ofText_clause (hclause : clause.Proper) (h : WritesEntry clause.pieces text) :
    TableEntry.ofText text = clause.entry := by
  have hwrites := h.writes
  have hread : constraint? text = some clause.entry := by
    cases clause with
    | primaryKey columns => exact constraint?_primaryKey hclause hwrites
    | unique name columns => exact constraint?_unique hclause.1 hclause.2 hwrites
    | index asKey name columns => exact constraint?_index hclause.1 hclause.2 hwrites
    | foreignKey name key => exact constraint?_foreignKey hclause.1 hclause.2 hwrites
  obtain ⟨K, piece, ps, hpieces, hK, hpiece⟩ := exists_keyword_clause hclause
  have hkeywords : ∀ K ∈ constraintWords, IsKeyword K.toList := by decide
  rw [hpieces] at hwrites
  have hlooks := (looksLikeConstraint_of_writes (hkeywords K hK) hK hpiece hwrites).1
  rw [TableEntry.ofText, hlooks, if_pos rfl, hread, Option.getD_some]

end SchemaReader.Ddl
