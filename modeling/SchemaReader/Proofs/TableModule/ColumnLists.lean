/-
Lists of columns of variables, read.

* `IndexColumn.isItem`: a column of a variable and the calls on it close their brackets;
* `columnName?_tokens`: such a column is read as its name;
* `columnNames_round`, `columnNames_square`: lists of such columns are read as their names.
-/
import SchemaReader.Proofs.TableModule.Taken

namespace SchemaReader.TableModule

open Pattern
open Text (IsWord IsGap Stops isWordChar isBlank)

variable {column : IndexColumn} {columns : List IndexColumn} {paths : List (String × String)}
  {binding name : String} {text rest u v g : List Char}

/-! ### Columns and their modifiers -/

lemma IndexColumn.isItem (hbinding : IsWord binding.toList) (h : column.Proper) :
    IsItem (column.tokens binding) := by
  refine ⟨by simp [IndexColumn.tokens], .cons holdsSigns_ne_comma ⟨hbinding, h.name⟩ rfl (by simp)
    (tidy_flatMap fun modifier hmodifier => ?_)⟩
  exact .cons holdsSigns_ne_comma (h.modifiers modifier hmodifier) rfl (by simp)
    (tidy_bracketed holdsSigns_ne_comma (by decide) (by decide) tidy_nil)

/-! ### The name of a column -/

/-- The first piece of a text, if what follows it is the end or begins with a separator. -/
lemma exists_segments {p : Char → Bool} (hu : ∀ c ∈ u, p c = false)
    (hv : ∀ c ∈ v.head?, p c = true) : ∃ pieces, Text.segments p (u ++ v) = u :: pieces := by
  cases v with
  | nil =>
      refine ⟨[], ?_⟩
      rw [Text.segments, Text.segmentsLoop_append hu]
      simp [Text.segmentsLoop]
  | cons c v => exact ⟨_, Text.segments_append_cons hu (hv c rfl)⟩

lemma IsWord.trimWhere_isQuote {w : List Char} (hw : IsWord w) : Text.trimWhere isQuote w = w := by
  have hquote : ∀ c, isWordChar c = true → isQuote c = false := fun c hc =>
    (isPlain_iff.mp (isPlain_of_isWordChar hc)).1
  exact Text.trimWhere_self (by simpa using hw.stops hquote []) (hw.stops_reverse hquote)

/-- Up to the first white space or parenthesis stand a variable, its column and perhaps methods. -/
lemma exists_firstSegment (hbinding : IsWord binding.toList) (h : column.Proper)
    (htext : Written (column.tokens binding) text rest) :
    ∃ v, (∀ c ∈ v.head?, c = '.') ∧ Text.firstSegment (fun c => isBlank c || c == '(') text
      = binding.toList ++ '.' :: (column.name.toList ++ v) := by
  obtain ⟨g, u, rfl, hg, -, hu⟩ := written_cons.mp htext
  have hword : ∀ c, isWordChar c = true → (!(isBlank c || c == '(')) = true := fun c hc => by
    rw [Text.not_isBlank_of_isWordChar hc, Text.beq_of_isWordChar (by decide) hc]
    rfl
  have hsplit : (Token.path binding column.name).text ++ (g ++ u)
      = (binding.toList ++ '.' :: column.name.toList) ++ (g ++ u) := rfl
  have hpath : ∀ c ∈ binding.toList ++ '.' :: column.name.toList,
      (!(isBlank c || c == '(')) = true := by
    simp only [List.forall_mem_append, List.forall_mem_cons]
    exact ⟨fun c hc => hword c (hbinding.chars c hc), by decide,
      fun c hc => hword c (h.name.chars c hc)⟩
  refine ⟨Text.firstSegment (fun c => isBlank c || c == '(') (g ++ u), fun c hc => ?_, ?_⟩
  · cases g with
    | cons d g =>
        have hd := hg d List.mem_cons_self
        simp [Text.firstSegment, hd] at hc
    | nil =>
        cases hmodifiers : column.modifiers with
        | nil =>
            rw [hmodifiers] at hu
            obtain rfl := hu
            simp [Text.firstSegment] at hc
        | cons m modifiers =>
            rw [hmodifiers] at hu
            obtain ⟨g, u, rfl, -⟩ := written_cons.mp hu
            have hperiod : isBlank '.' = false := by decide
            have hc : '.' = c := by simpa [Text.firstSegment, Token.text, hperiod] using hc
            exact hc.symm
  · rw [hsplit, Text.firstSegment, List.takeWhile_append_of_pos hpath]
    simp [Text.firstSegment]

/-- A written column is read as its name. -/
lemma columnName?_tokens (hbinding : IsWord binding.toList) (h : column.Proper)
    (htext : Written (column.tokens binding) text rest) : columnName? text = some column.name := by
  have hperiod : ∀ {w : String}, IsWord w.toList → ∀ c ∈ w.toList, (c == '.') = false :=
    fun hw c hc =>
    Text.beq_of_isWordChar (by decide) (hw.chars c hc)
  obtain ⟨v, hv, hfirst⟩ := exists_firstSegment hbinding h htext
  obtain ⟨pieces, hpieces⟩ := exists_segments (hperiod h.name) (v := v) (by simpa using hv)
  have hsegments : Text.segments (· == '.') (binding.toList ++ '.' :: (column.name.toList ++ v))
      = binding.toList :: column.name.toList :: pieces := by
    rw [Text.segments_append_cons (hperiod hbinding) (by decide), hpieces]
  have hne : column.name.toList.isEmpty = false := by simpa using h.name.ne_nil
  simp [columnName?, hfirst, hsegments, IsWord.trimWhere_isQuote h.name, hne]

/-! ### Lists -/

/-- A text that begins with a word stands in no square brackets. -/
lemma withoutSquares_of_not_stops (h : ¬ Stops isWordChar text) : withoutSquares text = text := by
  unfold withoutSquares
  split
  · exact absurd (by simp; decide) h
  · rfl

section Lists

variable {α : Type} {xs : List α} (owner : α → String) (entry : α → IndexColumn)
  (howner : ∀ x ∈ xs, IsWord (owner x).toList) (hentry : ∀ x ∈ xs, (entry x).Proper)

include howner hentry

lemma isItem_columns : ∀ ts ∈ xs.map fun x => (entry x).tokens (owner x), IsItem ts := by
  intro ts hts
  obtain ⟨x, hx, rfl⟩ := List.mem_map.mp hts
  exact IndexColumn.isItem (howner x hx) (hentry x hx)

lemma filterMap_splitTopLevel
    (h : Written (commaSeparated (xs.map fun x => (entry x).tokens (owner x))) text rest)
    (hg : IsGap g) : (splitTopLevel .code ',' (g ++ text)).filterMap columnName?
      = xs.map fun x => (entry x).name := by
  have hnames : (splitTopLevel .code ',' (g ++ text)).map columnName?
      = xs.map fun x => some (entry x).name :=
    map_of_forall₂ (fun x hx _ ht => columnName?_tokens (howner x hx) (hentry x hx) ht.written)
      (splitTopLevel_of_written (isItem_columns owner entry howner hentry) h hg)
  have hmap : (splitTopLevel .code ',' (g ++ text)).filterMap columnName?
      = ((splitTopLevel .code ',' (g ++ text)).map columnName?).filterMap id := by
    rw [List.filterMap_map, Function.id_comp]
  rw [hmap, hnames, List.filterMap_map]
  exact congrFun List.filterMap_eq_map xs

/-- A list of columns in square brackets is read as their names. -/
theorem columnNames_square
    (h : Written (commaSeparated (xs.map fun x => (entry x).tokens (owner x))) text rest)
    (hg : IsGap g) :
    columnNames ('[' :: ((g ++ text) ++ [']'])) = xs.map fun x => (entry x).name := by
  have htrim : Text.trim ('[' :: ((g ++ text) ++ [']'])) = '[' :: ((g ++ text) ++ [']']) :=
    Text.trimWhere_self (by simp; decide) (by simp; decide)
  rw [columnNames, htrim]
  simpa [withoutSquares] using filterMap_splitTopLevel owner entry howner hentry h hg

/-- So is one without brackets around it. -/
theorem columnNames_round
    (h : Written (commaSeparated (xs.map fun x => (entry x).tokens (owner x))) text rest)
    (hg : IsGap g) : columnNames (g ++ text) = xs.map fun x => (entry x).name := by
  cases hxs : xs with
  | nil =>
      rw [hxs] at h
      obtain rfl := h
      rw [List.append_nil, columnNames, Text.trim_gap hg]
      rfl
  | cons x xs' =>
      obtain ⟨more, hmore⟩ : ∃ more, commaSeparated (xs.map fun x => (entry x).tokens (owner x))
          = .path (owner x) (entry x).name :: more := by
        rw [hxs]
        cases xs' <;> exact ⟨_, rfl⟩
      have hproper := forall_mem_commaSeparated (Q := Token.Proper) (by decide) fun ts hts =>
        (isItem_columns owner entry howner hentry ts hts).tidy.proper
      have htrim := writesItem_trim (by simp [hmore]) hproper h hg
      have hword : ¬ Stops isWordChar (Text.trim (g ++ text)) := by
        have hwritten := htrim.written
        rw [hmore] at hwritten
        obtain ⟨g', u, htext, -⟩ := written_cons.mp hwritten
        rw [htext, Token.text, List.append_assoc]
        exact (howner x (hxs ▸ List.mem_cons_self)).not_stops _
      rw [columnNames, withoutSquares_of_not_stops hword, ← hxs]
      exact filterMap_splitTopLevel owner entry howner hentry (g := []) htrim.written Text.isGap_nil

end Lists

/-! ### Lists of paths -/

/-- A path as a column without modifiers. -/
def pathColumn (path : String × String) : IndexColumn := ⟨path.2, []⟩

lemma ProperPaths.proper (h : ProperPaths paths) : ∀ path ∈ paths, (pathColumn path).Proper :=
  fun path hpath => ⟨(h path hpath).2, by simp [pathColumn]⟩

lemma tidy_pathList {P : Char → Prop} (hP : HoldsSigns P) (h : ProperPaths paths) :
    Tidy P (pathList paths) :=
  tidy_bracketed hP (by decide) (by decide) (tidy_commaSeparated fun ts hts =>
    (isItem_columns Prod.fst pathColumn (fun path hpath => (h path hpath).1) h.proper ts hts).tidy)

/-- What is remembered of a list of paths is read as the columns. -/
lemma columnNames_captured {caught : Captures} (h : ProperPaths paths)
    (hcaught : ListCaptured paths caught) :
    columnNames ((List.lookup 1 caught).getD []) = paths.map Prod.snd := by
  obtain ⟨g, u, rest, hg, hu, rfl⟩ := hcaught
  exact columnNames_square Prod.fst pathColumn (fun path hpath => (h path hpath).1) h.proper hu hg

section Scans

variable {β : Type} {scan : TokenScan β} {Q : Token → Prop} (hscan : scan.Sound Q)
  (hsigns : ∀ c ∈ moduleSigns, Q (.sign c))

include hscan hsigns

lemma passes_pathList (hpaths : ∀ path ∈ paths, Q (.path path.1 path.2)) :
    scan.Passes (pathList paths) [] :=
  TokenScan.passes_bracketed hscan (hsigns _ (by decide)) (hsigns _ (by decide)) (by decide)
    (TokenScan.passes_commaSeparated_nil hscan (hsigns _ (by decide)) fun path hpath =>
      TokenScan.passes_token hscan (hpaths path hpath))

end Scans

/-! ### Named lists -/

lemma bare_sign {c : Char} (hc : c ∈ moduleSigns) : (Token.sign c).Bare := ⟨hc, by simp⟩

/-- A named list is found, with the columns that its paths name. -/
lemma passes_listScan {ts : List Token} {names : List (List String)} (hname : IsWord name.toList)
    (hpaths : ProperPaths paths) (hts : (listScan name).Passes ts names) :
    (listScan name).Passes ([.word name, .sign ':'] ++ pathList paths ++ ts)
      (paths.map Prod.snd :: names) := by
  have hread : (listScan name).Reads (ListCaptured paths) ts [paths.map Prod.snd] := by
    intro caught g text rest hcaught _ _
    simpa [listScan, matchOf, Match.group, Match.group?] using columnNames_captured hpaths hcaught
  exact (catches_listArgument hname hpaths).append (sound_listScan hname) hread hts

lemma find?_listArgument {ts : List Token} {names : List (List String)} (hname : IsWord name.toList)
    (h : (listScan name).Passes ts names) (htext : Written ts text []) (hg : IsGap g) :
    ((listArgument name).find? (g ++ text)).map (fun found => columnNames (found.group 1))
      = names.head? := h.map_find? (sound_listScan hname) (fun _ => rfl) htext hg

end SchemaReader.TableModule
