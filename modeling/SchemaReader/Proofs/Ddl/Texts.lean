/-
The texts that the parts of a script write.

* `ListOf`: what stands between the parentheses of a list of names;
* `exists_list_text`, `exists_references_text`: a written list, and what a foreign key points at,
  cut into their parts;
* `exists_unnamed_text`, `exists_named_text`: a keyword before a list, and before a name and a
  list;
* `exists_key_text`, `exists_namedKey_text`: a written foreign key, with what the forms take of it.
-/
import SchemaReader.Proofs.Ddl.Forms
import SchemaReader.Proofs.Ddl.Syntax

namespace SchemaReader.Ddl

open Text (IsWord IsGap IsKeyword Spells Stops isWordChar isBlank)
open Pattern

variable {t s u w g text rest list : List Char} {names : List String} {key : KeyDef}

/-! ### Lists of names -/

/-- A text between parentheses is read as a list of names. -/
structure ListOf (names : List String) (list : List Char) : Prop where
  ne_closing : ∀ c ∈ list, c ≠ ')'
  namesOf_eq : namesOf list = names

lemma ne_closing_of_isBlank {c : Char} (h : isBlank c = true) : c ≠ ')' := by
  rintro rfl
  exact absurd h (by decide)

lemma ne_closing_of_writes (hnames : ∀ name ∈ names, IsName name)
    (h : Writes (namePieces names) text rest) : ∀ c ∈ text, c ≠ ')' := by
  refine h.forall_mem (fun piece hpiece s hs c hc => ?_) fun _ => ne_closing_of_isBlank
  rcases mem_separated hpiece with rfl | ⟨entry, hentry, hpiece⟩
  · obtain rfl : s = [','] := hs
    rw [List.mem_singleton.mp hc]
    decide
  · obtain ⟨name, hname, rfl⟩ := List.mem_map.mp hentry
    obtain rfl : piece = .name name := List.mem_singleton.mp hpiece
    obtain rfl : s = name.toList := hs
    exact (hnames name hname).isWord.forall_ne (by decide) c hc

/-- A written list of names between its parentheses. -/
lemma exists_list_text (hnames : ∀ name ∈ names, IsName name)
    (h : Writes (parenthesized (namePieces names)) text rest) :
    ∃ list g, text = '(' :: (list ++ ')' :: g) ∧ IsGap g ∧ ListOf names list := by
  obtain ⟨g, u, g', rfl, hg, hg', hu⟩ := writes_parenthesized h
  refine ⟨g ++ u, g', by simp, hg', fun c hc => ?_, ?_⟩
  · exact (List.mem_append.mp hc).elim (fun hc => ne_closing_of_isBlank (hg c hc))
      (ne_closing_of_writes hnames hu c)
  · exact identifierList_of_writes (fun name hname => (hnames name hname).isWord) hu hg

/-- A keyword with a list behind it. -/
lemma exists_unnamed_text {K : String} (hnames : ∀ name ∈ names, IsName name)
    (h : Writes (.keyword K :: indexPieces none names) text rest) :
    ∃ s g list g', text = s ++ (g ++ '(' :: (list ++ ')' :: g')) ∧ Spells K.toList s ∧
      IsGap g ∧ IsGap g' ∧ ListOf names list := by
  obtain ⟨s, g, u, rfl, hs, hg, -, hu⟩ := h
  obtain ⟨list, g', rfl, hg', hlist⟩ := exists_list_text hnames hu
  exact ⟨s, g, list, g', rfl, Text.Cased.spells hs, hg, hg', hlist⟩

/-- A keyword with a name and a list behind it. -/
lemma exists_named_text {K name : String} (hK : IsKeyword K.toList) (hname : IsName name)
    (hnames : ∀ name ∈ names, IsName name)
    (h : Writes (.keyword K :: indexPieces (some name) names) text rest) :
    ∃ s g₁ g₂ list g', text = s ++ (g₁ ++ (name.toList ++ (g₂ ++ '(' :: (list ++ ')' :: g')))) ∧
      Spells K.toList s ∧ IsGap g₁ ∧ g₁ ≠ [] ∧ IsGap g₂ ∧ IsGap g' ∧ ListOf names list := by
  obtain ⟨s, g₁, _, rfl, hs, hg₁, hparted, _, g₂, u, rfl, rfl, hg₂, -, hu⟩ := h
  obtain ⟨list, g', rfl, hg', hlist⟩ := exists_list_text hnames hu
  refine ⟨s, g₁, g₂, list, g', rfl, Text.Cased.spells hs, hg₁, ?_, hg₂, hg', hlist⟩
  have hstop := hparted.stops (Piece.isWord_of_spelled_keyword hK hs)
  rw [List.append_assoc] at hstop
  exact gap_ne_nil hstop hname.isWord

/-! ### Foreign keys -/

/-- What a foreign key points at: the keyword, the table, and the list of columns between its
parentheses. -/
lemma exists_references_text {table : String} (htable : IsName table)
    (hnames : ∀ name ∈ names, IsName name)
    (h : Writes ([.keyword "REFERENCES", .name table] ++ parenthesized (namePieces names)) text
      rest) :
    ∃ t g list g', text = t ++ (table.toList ++ (g ++ '(' :: (list ++ ')' :: g'))) ∧
      SpacedKeyword "REFERENCES" t ∧ IsGap g ∧ IsGap g' ∧ ListOf names list := by
  obtain ⟨a, b, rfl, ha, hb⟩ := writes_append.mp h
  obtain ⟨t, w, rfl, ht, hw⟩ :=
    writes_spacedKeyword (by decide) (fun _ => Piece.isWord_of_spelled_name htable.isWord) ha
  obtain ⟨_, g, _, rfl, rfl, hg, -, rfl⟩ := hw
  obtain ⟨list, g', rfl, hg', hlist⟩ := exists_list_text hnames hb
  exact ⟨t, g, list, g', by simp, ht, hg, hg', hlist⟩

/-- What the forms remember of a foreign key whose columns are group `n`. -/
def keyCaptures (n : Nat) (columns table targets : List Char) : Captures :=
  [(n + 1 + 1, targets)] ++ [(n + 1, table)] ++ [(n, columns)]

/-- A written foreign key, up to the white space behind it. -/
lemma exists_key_text (hkey : key.Proper) (h : Writes key.pieces text rest) :
    ∃ t r g columns targets, text = t ++ (r ++ g) ∧ SpacedKeyword "FOREIGN" t ∧ IsGap g ∧
      ListOf key.columns columns ∧ ListOf key.targets targets ∧
      ∀ n before, (foreignKeyBody n).Takes before (t ++ r) (g ++ rest)
        (keyCaptures n columns key.table.toList targets) := by
  obtain ⟨a, bc, rfl, ha, hbc⟩ := writes_append.mp h
  obtain ⟨b, c, rfl, hb, hc⟩ := writes_append.mp hbc
  have hK : IsKeyword "KEY".toList := by decide
  obtain ⟨t, _, rfl, ht, s, g₁, _, rfl, hs, hg₁, -, rfl⟩ :=
    writes_spacedKeyword (by decide) (fun _ => Piece.isWord_of_spelled_keyword hK) ha
  obtain ⟨columns, g₂, rfl, hg₂, hcolumns⟩ := exists_list_text hkey.columns hb
  obtain ⟨t', g₃, targets, g, rfl, ht', hg₃, hg, htargets⟩ :=
    exists_references_text hkey.table hkey.targets hc
  refine ⟨t, s ++ (g₁ ++ (('(' :: (columns ++ [')'])) ++ (g₂ ++ (t' ++
    (key.table.toList ++ (g₃ ++ ('(' :: (targets ++ [')'])))))))), g, columns, targets, by simp, ht,
    hg, hcolumns, htargets, fun n before => ?_⟩
  refine takes_foreignKeyBody n ht (Text.Cased.spells hs) hg₁ hcolumns.ne_closing hg₂
    (fun before => ?_) ?_
  · exact takes_referencesForm_listed (n + 1) ht' (WrittenName.plain_proper hkey.table.isWord) hg₃
      htargets.ne_closing
  · rw [List.append_assoc]
    exact ht'.stops_isBlank _

/-- The name of a constraint with the white space behind it. -/
lemma takes_constraintPieces {name : String} (hname : IsName name)
    (h : Writes (constraintPieces (some name)) text rest) (hrest : ¬ Stops isWordChar rest) :
    ∃ t u, text = t ++ u ∧ SpacedKeyword "CONSTRAINT" t ∧
      ∀ before, constraintName.Takes before (t ++ u) rest [] := by
  obtain ⟨t, _, rfl, ht, _, g, _, rfl, rfl, hg, hparted, rfl⟩ := writes_spacedKeyword (by decide)
    (fun _ => Piece.isWord_of_spelled_name hname.isWord) h
  have hstop : Stops isWordChar (g ++ rest) := by simpa using hparted.stops hname.isWord
  have hne : g ≠ [] := by
    rintro rfl
    exact hrest hstop
  refine ⟨t, name.toList ++ g, by simp, ht, fun before => ?_⟩
  refine takes_constraintName ht hname.isWord hg hne ?_ ?_
  · exact Text.stops_of_not_stops hrest fun _ => Text.not_isBlank_of_isWordChar
  · exact Text.stops_of_not_stops hrest fun _ =>
      Text.beq_of_isWordChar (by decide)

/-- A written foreign key with the name of its constraint, if it has one. -/
lemma exists_namedKey_text {name : Option String} (hname : ∀ n ∈ name, IsName n)
    (hkey : key.Proper) (h : Writes (constraintPieces name ++ key.pieces) text rest) :
    ∃ K t r g columns targets, text = t ++ (r ++ g) ∧ SpacedKeyword K t ∧ "ADD" ≠ K ∧ IsGap g ∧
      ListOf key.columns columns ∧ ListOf key.targets targets ∧
      ∀ n before, (opt constraintName ++ foreignKeyBody n).Takes before (t ++ r) (g ++ rest)
        (keyCaptures n columns key.table.toList targets) := by
  obtain ⟨a, b, rfl, ha, hb⟩ := writes_append.mp h
  have hforeign := hb.not_stops (fun _ => Piece.isWord_of_spelled_keyword (by decide)) rest
  obtain ⟨t, r, g, columns, targets, rfl, ht, hg, hcolumns, htargets, htakes⟩ :=
    exists_key_text hkey hb
  cases name with
  | none =>
      obtain rfl := ha
      exact ⟨"FOREIGN", t, r, g, columns, targets, rfl, ht, by decide, hg, hcolumns, htargets,
        fun n before => takes_unnamedKey ht (htakes n before)⟩
  | some name =>
      obtain ⟨t', u, rfl, ht', hname⟩ := takes_constraintPieces (hname name rfl) ha hforeign
      refine ⟨"CONSTRAINT", t', u ++ (t ++ r), g, columns, targets, by simp, ht', by decide, hg,
        hcolumns, htargets, fun n before => ?_⟩
      rw [← List.append_assoc]
      exact Takes.seq (by simpa using (hname before).opt) (htakes n _)

end SchemaReader.Ddl
