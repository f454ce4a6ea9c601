/-
The pieces of columns, clauses and statements.

* `AllOrdinary`: all pieces of a list are ordinary, with `allOrdinary_option`, `allOrdinary_clause`
  and `allOrdinary_namedKey`;
* `isEntry_column`, `isEntry_clause`: columns and clauses can stand in a list with commas.
-/
import SchemaReader.Proofs.Ddl.Options

namespace SchemaReader.Ddl

open Text (IsWord IsGap IsKeyword Stops isWordChar isBlank)

variable {names : List String} {ps qs : List Piece} {P : Char → Prop} {key : KeyDef}
  {column : ColumnDef} {clause : Clause}

/-! ### Ordinary pieces -/

/-- All pieces of a list are ordinary. -/
def AllOrdinary (ps : List Piece) : Prop := ∀ piece ∈ ps, Ordinary piece

lemma allOrdinary_nil : AllOrdinary [] := by simp [AllOrdinary]

lemma AllOrdinary.append (hps : AllOrdinary ps) (hqs : AllOrdinary qs) : AllOrdinary (ps ++ qs) :=
  fun piece hpiece => (List.mem_append.mp hpiece).elim (hps piece) (hqs piece)

lemma AllOrdinary.cons {piece : Piece} (hpiece : Ordinary piece) (hps : AllOrdinary ps) :
    AllOrdinary (piece :: ps) := List.forall_mem_cons.mpr ⟨hpiece, hps⟩

lemma AllOrdinary.parenthesized (h : AllOrdinary ps) : AllOrdinary (parenthesized ps) :=
  .cons (.sign (by decide)) (h.append (.cons (.sign (by decide)) allOrdinary_nil))

lemma allOrdinary_namePieces (hnames : ∀ name ∈ names, IsName name) :
    AllOrdinary (namePieces names) := by
  intro piece hpiece
  rcases mem_separated hpiece with rfl | ⟨entry, hentry, hpiece⟩
  · exact .sign (by decide)
  · obtain ⟨name, hname, rfl⟩ := List.mem_map.mp hentry
    obtain rfl : piece = .name name := List.mem_singleton.mp hpiece
    exact .name (hnames name hname)

lemma allOrdinary_key (hkey : key.Proper) : AllOrdinary key.pieces := by
  have hforeign : AllOrdinary [.keyword "FOREIGN", .keyword "KEY"] :=
    .cons (.keyword (by decide)) (.cons (.keyword (by decide)) allOrdinary_nil)
  have hreferences : AllOrdinary [.keyword "REFERENCES", .name key.table] :=
    .cons (.keyword (by decide)) (.cons (.name hkey.table) allOrdinary_nil)
  exact hforeign.append ((allOrdinary_namePieces hkey.columns).parenthesized.append
    (hreferences.append (allOrdinary_namePieces hkey.targets).parenthesized))

lemma allOrdinary_constraint {name : Option String} (hname : ∀ n ∈ name, IsName n) :
    AllOrdinary (constraintPieces name) := by
  cases name with
  | none => exact allOrdinary_nil
  | some name => exact .cons (.keyword (by decide)) (.cons (.name (hname name rfl)) allOrdinary_nil)

lemma allOrdinary_index {name : Option String} (hname : ∀ n ∈ name, IsName n)
    (hnames : ∀ name ∈ names, IsName name) : AllOrdinary (indexPieces name names) := by
  have hlist := (allOrdinary_namePieces hnames).parenthesized
  cases name with
  | none => exact hlist
  | some name => exact .cons (.name (hname name rfl)) hlist

lemma allOrdinary_option {option : ColumnOption} (h : option.Proper) :
    AllOrdinary option.pieces := by
  cases option with
  | notNull => exact .cons (.keyword (by decide)) (.cons (.keyword (by decide)) allOrdinary_nil)
  | primaryKey => exact .cons (.keyword (by decide)) (.cons (.keyword (by decide)) allOrdinary_nil)
  | unique => exact .cons (.keyword (by decide)) allOrdinary_nil
  | references table column =>
      have hcolumn : AllOrdinary [.name column] := .cons (.name h.2) allOrdinary_nil
      exact .cons (.keyword (by decide)) (.cons (.name h.1) hcolumn.parenthesized)

lemma allOrdinary_options {options : List ColumnOption}
    (h : ∀ option ∈ options, option.Proper) :
    AllOrdinary (options.flatMap ColumnOption.pieces) := by
  intro piece hpiece
  obtain ⟨option, hoption, hpiece⟩ := List.mem_flatMap.mp hpiece
  exact allOrdinary_option (h option hoption) piece hpiece

lemma allOrdinary_clause (h : clause.Proper) : AllOrdinary clause.pieces := by
  cases clause with
  | primaryKey columns =>
      exact .cons (.keyword (by decide))
        (.cons (.keyword (by decide)) (allOrdinary_namePieces h).parenthesized)
  | unique name columns => exact .cons (.keyword (by decide)) (allOrdinary_index h.1 h.2)
  | index asKey name columns =>
      exact .cons (.keyword (by cases asKey <;> decide)) (allOrdinary_index h.1 h.2)
  | foreignKey name key => exact (allOrdinary_constraint h.1).append (allOrdinary_key h.2)

/-! ### Closed pieces -/

lemma closedPieces_keyword {K : String} (hP : HoldsWords P) (hK : IsKeyword K.toList)
    (hps : ClosedPieces P ps) : ClosedPieces P (.keyword K :: ps) :=
  closedPieces_word hP (fun _ => Piece.isWord_of_spelled_keyword hK) hps

lemma closedPieces_name {name : String} (hP : HoldsWords P) (hname : IsName name)
    (hps : ClosedPieces P ps) : ClosedPieces P (.name name :: ps) :=
  closedPieces_word hP (fun _ => Piece.isWord_of_spelled_name hname.isWord) hps

lemma closedPieces_names (hP : HoldsWords P) (hnames : ∀ name ∈ names, IsName name) :
    ∀ entry ∈ names.map fun name => [Piece.name name], ClosedPieces P entry :=
  List.forall_mem_map.mpr fun name hname =>
    closedPieces_name hP (hnames name hname) closedPieces_nil

lemma closedPieces_list (hP : HoldsWords P) (hnames : ∀ name ∈ names, IsName name) :
    ClosedPieces P (parenthesized (namePieces names)) :=
  closedPieces_parenthesized hP (closedPieces_separated (closedPieces_names holdsWords_true hnames))

lemma closedPieces_index {name : Option String} (hP : HoldsWords P) (hname : ∀ n ∈ name, IsName n)
    (hnames : ∀ name ∈ names, IsName name) : ClosedPieces P (indexPieces name names) := by
  cases name with
  | none => exact closedPieces_list hP hnames
  | some name => exact closedPieces_name hP (hname name rfl) (closedPieces_list hP hnames)

lemma closedPieces_key (hP : HoldsWords P) (hkey : key.Proper) : ClosedPieces P key.pieces := by
  have hforeign : ClosedPieces P [.keyword "FOREIGN", .keyword "KEY"] :=
    closedPieces_keyword hP (by decide) (closedPieces_keyword hP (by decide) closedPieces_nil)
  have hreferences : ClosedPieces P [.keyword "REFERENCES", .name key.table] :=
    closedPieces_keyword hP (by decide) (closedPieces_name hP hkey.table closedPieces_nil)
  exact closedPieces_append hforeign (closedPieces_append (closedPieces_list hP hkey.columns)
    (closedPieces_append hreferences (closedPieces_list hP hkey.targets)))

lemma closedPieces_clause (hP : HoldsWords P) (h : clause.Proper) :
    ClosedPieces P clause.pieces := by
  cases clause with
  | primaryKey columns =>
      exact closedPieces_keyword hP (by decide)
        (closedPieces_keyword hP (by decide) (closedPieces_list hP h))
  | unique name columns =>
      exact closedPieces_keyword hP (by decide) (closedPieces_index hP h.1 h.2)
  | index asKey name columns =>
      exact closedPieces_keyword hP (by cases asKey <;> decide) (closedPieces_index hP h.1 h.2)
  | foreignKey name key =>
      refine closedPieces_append ?_ (closedPieces_key hP h.2)
      cases name with
      | none => exact closedPieces_nil
      | some name =>
          exact closedPieces_keyword hP (by decide)
            (closedPieces_name hP (h.1 name rfl) closedPieces_nil)

/-! ### Entries -/

lemma isPlain_of_isSizeChar {c : Char} (h : isSizeChar c = true) : isPlain c = true := by
  simp only [isSizeChar, Bool.or_eq_true, beq_iff_eq] at h
  rcases h with (h | rfl) | h
  · exact isPlain_of_isWordChar (Text.isWordChar_of_isAsciiDigit h)
  · decide
  · exact isPlain_of_isBlank h

/-- A type is closed, whatever numbers stand in it. -/
lemma ColumnType.Proper.closed {type : ColumnType} (h : type.Proper) (hP : HoldsWords P) :
    Closed .script P type.text := by
  obtain ⟨w, size⟩ := type
  cases size with
  | none => exact IsWord.closed h.isWord hP.word
  | some size =>
      obtain ⟨hg, hu⟩ := h.size size rfl
      have hbody : Closed .script (fun _ => True) size.2 :=
        closed_of_forall fun c hc => ⟨isPlain_of_isSizeChar (hu c hc), trivial⟩
      exact (IsWord.closed h.isWord hP.word).append ((IsGap.closed hg hP.blank).append
        (.bracket P (by decide) (by decide) hbody))

lemma isEntry_column (h : column.Proper) : IsEntry column.pieces where
  ne_nil := by simp [ColumnDef.pieces]
  solid := by
    simp only [ColumnDef.pieces, List.forall_mem_cons]
    refine ⟨(Ordinary.name h.name).solid, ?_, fun piece hpiece =>
      (allOrdinary_options h.options piece hpiece).solid⟩
    rintro _ rfl
    refine ⟨?_, ?_, h.type.stops_isBlank_reverse⟩
    · intro hnil
      have hstart := h.type.not_stops []
      simp [hnil] at hstart
    · have hstart := h.type.not_stops []
      rw [List.append_nil] at hstart
      exact Text.stops_of_not_stops hstart fun _ => Text.not_isBlank_of_isWordChar
  closed := by
    refine closedPieces_name holdsWords_ne_comma h.name (closedPieces_cons holdsWords_ne_comma ?_
      (closedPieces_options holdsWords_ne_comma h.options))
    rintro _ rfl
    exact h.type.closed holdsWords_ne_comma

lemma isEntry_clause (h : clause.Proper) : IsEntry clause.pieces where
  ne_nil := by
    cases clause with
    | foreignKey name key => cases name <;> simp [Clause.pieces, KeyDef.pieces]
    | primaryKey | unique | index => simp [Clause.pieces]
  solid piece hpiece := (allOrdinary_clause h piece hpiece).solid
  closed := closedPieces_clause holdsWords_ne_comma h

end SchemaReader.Ddl
