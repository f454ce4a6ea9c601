/-
Written scripts, and what they are read as.

* `stripComments_of_writes`: a written script has no comments;
* `ofText_script`: a written script is read as the statements it consists of, whatever the letters
  of its keywords, its white space and the order of its statements.
-/
import SchemaReader.Proofs.Ddl.ReadStatement
import SchemaReader.Proofs.Lexical.Comments

namespace SchemaReader.Ddl

open Text (IsWord IsGap IsKeyword Stops isWordChar isBlank)
open Pattern

variable {text g : List Char} {statement : Statement} {statements : List Statement}
  {table : TableDef} {type : ColumnType}

/-! ### Comments -/

/-- A character that stands in no word, no size and no white space stands in no type. -/
lemma ColumnType.Proper.ne_of_mem (h : type.Proper) {d : Char} (hword : isWordChar d = false)
    (hsize : isSizeChar d = false) (hsign : d ∉ scriptSigns) : ∀ c ∈ type.text, c ≠ d := by
  have hblank : isBlank d = false := by
    simp only [isSizeChar, Bool.or_eq_false_iff] at hsize
    exact hsize.2
  have hw : d ∉ type.word := fun hmem => by simp [h.isWord.chars d hmem] at hword
  rintro c hc rfl
  obtain ⟨w, size⟩ := type
  cases size with
  | none => exact hw hc
  | some size =>
      obtain ⟨hg, hu⟩ := h.size _ rfl
      have hopen : c ≠ '(' := by rintro rfl; exact hsign (by decide)
      have hclose : c ≠ ')' := by rintro rfl; exact hsign (by decide)
      simp only [ColumnType.text, List.mem_append, List.mem_cons, hopen, hclose, List.not_mem_nil,
        false_or, or_false] at hc
      rcases hc with hc | hc | hc
      · exact hw hc
      · simp [hg c hc] at hblank
      · simp [hu c hc] at hsize

/-- The pieces of a column are ordinary pieces and its type. -/
lemma ordinary_or_type_column {column : ColumnDef} (h : column.Proper) :
    ∀ piece ∈ column.pieces,
      Ordinary piece ∨ ∃ type : ColumnType, type.Proper ∧ piece = .verbatim type.text := by
  rw [ColumnDef.pieces, List.forall_mem_cons, List.forall_mem_cons]
  exact ⟨Or.inl (.name h.name), Or.inr ⟨column.type, h.type, rfl⟩,
    fun piece hpiece => Or.inl (allOrdinary_options h.options piece hpiece)⟩

/-- The pieces of a statement are ordinary pieces and types. -/
lemma ordinary_or_type (h : statement.Proper) {piece : Piece} (hpiece : piece ∈ statement.pieces) :
    Ordinary piece ∨ ∃ type : ColumnType, type.Proper ∧ piece = .verbatim type.text := by
  cases statement with
  | createIndex unique name target columns =>
      exact Or.inl (allOrdinary_createIndex unique h.1 h.2.1 h.2.2 piece hpiece)
  | addForeignKey target name key =>
      exact Or.inl (allOrdinary_addForeignKey h.1 h.2.1 h.2.2 piece hpiece)
  | createTable table =>
      have hsign : ∀ {c : Char}, c ∈ scriptSigns → Ordinary (.sign c) := fun hc => .sign hc
      simp only [Statement.pieces, parenthesized, List.mem_append, List.mem_cons, List.not_mem_nil,
        or_false] at hpiece
      rcases hpiece with ((rfl | rfl | rfl) | rfl | hpiece | rfl) | rfl
      · exact Or.inl (.keyword (by decide))
      · exact Or.inl (.keyword (by decide))
      · exact Or.inl (.name h.name)
      · exact Or.inl (hsign (by decide))
      · rcases mem_separated hpiece with rfl | ⟨entry, hentry, hpiece⟩
        · exact Or.inl (hsign (by decide))
        have hentries : ∀ entry ∈ table.items.map Prod.fst, ∀ piece ∈ entry,
            Ordinary piece ∨ ∃ type : ColumnType, type.Proper ∧ piece = .verbatim type.text :=
          List.forall_mem_map.mpr (h.forall_mem_items (fun _ => ordinary_or_type_column)
            fun _ hclause piece hpiece => Or.inl (allOrdinary_clause hclause piece hpiece))
        exact hentries entry hentry piece hpiece
      · exact Or.inl (hsign (by decide))
      · exact Or.inl (hsign (by decide))

/-- Every proper script can be written, with a blank behind each of its pieces. -/
lemma writes_spaced_statements (hstatements : ∀ statement ∈ statements, statement.Proper) :
    Writes (statements.flatMap Statement.pieces) (spaced (statements.flatMap Statement.pieces))
      [] := by
  refine writes_spaced (fun K hK => ?_) []
  obtain ⟨statement, hstatement, hpiece⟩ := List.mem_flatMap.mp hK
  rcases ordinary_or_type (hstatements statement hstatement) hpiece with
    hordinary | ⟨type, htype, htext⟩
  · cases hordinary with
    | keyword hkeyword => exact hkeyword
  · cases htext

/-- A character that stands in no piece stands nowhere in a written script. -/
lemma ne_of_writes (hstatements : ∀ statement ∈ statements, statement.Proper)
    (h : Writes (statements.flatMap Statement.pieces) text []) {d : Char}
    (hword : isWordChar d = false) (hsize : isSizeChar d = false) (hsign : d ∉ scriptSigns) :
    ∀ c ∈ text, c ≠ d := by
  refine h.forall_mem (fun piece hpiece s hs c hc => ?_) fun c hc => ?_
  · obtain ⟨statement, hstatement, hpiece⟩ := List.mem_flatMap.mp hpiece
    rcases ordinary_or_type (hstatements statement hstatement) hpiece with
      hordinary | ⟨type, htype, rfl⟩
    · rcases hordinary.isWord_or_sign hs with hw | ⟨sign, hmem, rfl⟩
      · exact Text.ne_of_isWordChar (hw.chars c hc) hword
      · rintro rfl
        exact hsign (List.mem_singleton.mp hc ▸ hmem)
    · obtain rfl : s = type.text := hs
      exact htype.ne_of_mem hword hsize hsign c hc
  · rintro rfl
    simp [isSizeChar, hc] at hsize

lemma stripComments_of_writes (hstatements : ∀ statement ∈ statements, statement.Proper)
    (h : Writes (statements.flatMap Statement.pieces) text []) (hg : IsGap g) :
    stripComments .script (g ++ text) = g ++ text := by
  refine stripComments_script fun c hc => ?_
  rcases List.mem_append.mp hc with hc | hc
  · have hblank := hg c hc
    constructor <;> rintro rfl <;> exact absurd hblank (by decide)
  · exact ⟨ne_of_writes hstatements h (by decide) (by decide) (by decide) c hc,
      ne_of_writes hstatements h (by decide) (by decide) (by decide) c hc⟩

/-! ### Scripts -/

/-- The results of a scan are read kind by kind. -/
lemma map_findAll_script {β : Type} {q : Pattern} {read : Match → β}
    {result? : Statement → Option β} (hq : q.WordLed)
    (hscans : ∀ statement ∈ statements, ScansAs q read statement (result? statement).toList)
    (hread : ∀ found, read (matchOf found.yield) = read found)
    (h : Writes (statements.flatMap Statement.pieces) text []) (hg : IsGap g) :
    (q.findAll (g ++ text)).map read = statements.filterMap result? := by
  have hbefore : Stops isWordChar (g.reverse ++ []) := by
    rw [List.append_nil]
    exact fun c hc => Text.not_isWordChar_of_isBlank
      (hg c (List.mem_reverse.mp (List.mem_of_mem_head? hc)))
  obtain ⟨found, hfound, hresults⟩ := exists_finds hq hscans hbefore h
  rw [map_findAll hread (hfound.skip (hq.silent_gap hg)), hresults,
    List.filterMap_eq_flatMap_toList]

/-- A written script is read as the statements it consists of. -/
theorem ofText_script (hstatements : ∀ statement ∈ statements, statement.Proper)
    (h : Writes (statements.flatMap Statement.pieces) text []) (hg : IsGap g) :
    Script.ofText (g ++ text) = scriptOf statements := by
  have htables : (createTableHead.findAll (g ++ text)).map CreateTable.ofMatch?
      = statements.filterMap fun statement => statement.created?.map some :=
    map_findAll_script isStatementForm_createTableHead.ledBy.wordLed
      (fun statement hmem => scansAs_createTableHead (hstatements statement hmem))
        (fun _ => rfl) h hg
  have hindexes : (createIndexHead.findAll (g ++ text)).map CreateIndex.ofMatch?
      = statements.filterMap fun statement => statement.index?.map some :=
    map_findAll_script isStatementForm_createIndexHead.ledBy.wordLed
      (fun statement hmem => scansAs_createIndexHead (hstatements statement hmem))
        (fun _ => rfl) h hg
  have hkeys : (addForeignKeyForm.findAll (g ++ text)).map AddForeignKey.ofMatch
      = statements.filterMap Statement.added? :=
    map_findAll_script isStatementForm_addForeignKeyForm.ledBy.wordLed
      (fun statement hmem => scansAs_addForeignKeyForm (hstatements statement hmem))
        (fun _ => rfl) h
      hg
  have hsome : (createIndexHead.findAll (g ++ text)).filterMap CreateIndex.ofMatch?
      = statements.filterMap Statement.index? := by
    have hid := List.filterMap_map (f := CreateIndex.ofMatch?) (g := id)
      (l := createIndexHead.findAll (g ++ text))
    rw [Function.id_comp, hindexes, List.filterMap_filterMap] at hid
    rw [← hid]
    exact List.filterMap_congr fun statement _ => by cases statement.index? <;> rfl
  rw [Script.ofText, stripComments_of_writes hstatements h hg, Script.ofStripped, htables, hkeys,
    hsome, scriptOf, List.map_filterMap]

end SchemaReader.Ddl
