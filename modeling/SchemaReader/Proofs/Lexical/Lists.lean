/-
Lists separated by commas.

* `separated`: pieces of several entries with commas between them;
* `splitTopLevel_of_writes`: cutting a written list gives the writings of its entries back;
* `identifierList_of_writes`: a written list of names is read as these names.
-/
import SchemaReader.Proofs.Lexical.Identifier
import SchemaReader.Proofs.Lexical.Written

namespace SchemaReader

open Text (IsWord IsGap Stops isWordChar isBlank)

/-! ### Separated entries -/

/-- The pieces of several entries, with a comma between each two. -/
def separated : List (List Piece) → List Piece
  | [] => []
  | [entry] => entry
  | entry :: next :: rest => entry ++ .sign ',' :: separated (next :: rest)

/-- Names with commas between them. -/
def namePieces (names : List String) : List Piece := separated (names.map fun name => [.name name])

variable {dialect : Dialect} {entry : List Piece} {entries : List (List Piece)}
  {text rest g w : List Char} {names : List String}

/-- A word character stands for itself inside every literal. -/
lemma keeps_of_isWordChar {c d : Char} (hc : isWordChar c = true) (hd : isWordChar d = false) :
    dialect.Keeps d c :=
  ⟨Text.ne_of_isWordChar hc hd, fun _ => Text.ne_of_isWordChar hc (by decide)⟩

lemma isPlain_of_isBlank {c : Char} (h : isBlank c = true) : isPlain c = true := by
  simp [isPlain, Text.not_isQuote_of_isBlank h, Text.not_isOpening_of_isBlank h,
    Text.not_isClosing_of_isBlank h]

lemma IsGap.closed {P : Char → Prop} (hg : IsGap g) (hP : ∀ c, isBlank c = true → P c) :
    Closed dialect P g :=
  closed_of_forall fun c hc => ⟨isPlain_of_isBlank (hg c hc), hP c (hg c hc)⟩

lemma IsWord.closed {P : Char → Prop} (hw : IsWord w) (hP : ∀ c, isWordChar c = true → P c) :
    Closed dialect P w := closed_of_forall fun c hc => ⟨isPlain_of_isWordChar (hw.chars c hc),
      hP c (hw.chars c hc)⟩

lemma ne_comma_of_isBlank {c : Char} (h : isBlank c = true) : c ≠ ',' := by
  rintro rfl
  exact absurd h (by decide)

lemma ne_comma_of_isWordChar {c : Char} (h : isWordChar c = true) : c ≠ ',' :=
  Text.ne_of_isWordChar h (by decide)

/-! ### Closed pieces -/

/-- All writings of pieces are closed, with only characters of a class outside of brackets and
literals. -/
def ClosedPieces (P : Char → Prop) (pieces : List Piece) : Prop :=
  ∀ text rest, Writes pieces text rest → Closed .script P text

/-- A class that holds white space and the characters of words. -/
structure HoldsWords (P : Char → Prop) : Prop where
  blank : ∀ c, isBlank c = true → P c
  word : ∀ c, isWordChar c = true → P c

lemma holdsWords_true : HoldsWords fun _ => True := ⟨fun _ _ => trivial, fun _ _ => trivial⟩

lemma holdsWords_ne_comma : HoldsWords (· ≠ ',') :=
  ⟨fun _ => ne_comma_of_isBlank, fun _ => ne_comma_of_isWordChar⟩

section ClosedPieces

variable {P : Char → Prop} {ps qs : List Piece} {piece : Piece}

lemma closedPieces_nil : ClosedPieces P [] := by
  rintro _ rest rfl
  exact .nil P

lemma closedPieces_mono {Q : Char → Prop} (hPQ : ∀ c, P c → Q c) (hps : ClosedPieces P ps) :
    ClosedPieces Q ps := fun text rest h => (hps text rest h).mono hPQ

lemma closedPieces_append (hps : ClosedPieces P ps) (hqs : ClosedPieces P qs) :
    ClosedPieces P (ps ++ qs) := by
  intro text rest h
  obtain ⟨u, v, rfl, hu, hv⟩ := writes_append.mp h
  exact (hps u _ hu).append (hqs v _ hv)

lemma closedPieces_cons (hP : HoldsWords P) (hpiece : ∀ s, piece.Spelled s → Closed .script P s)
    (hps : ClosedPieces P ps) : ClosedPieces P (piece :: ps) := by
  rintro text rest ⟨s, g, u, rfl, hs, hg, -, hu⟩
  exact (hpiece s hs).append ((IsGap.closed hg hP.blank).append (hps u _ hu))

lemma closedPieces_word (hP : HoldsWords P) (hpiece : ∀ s, piece.Spelled s → IsWord s)
    (hps : ClosedPieces P ps) : ClosedPieces P (piece :: ps) :=
  closedPieces_cons hP (fun s hs => IsWord.closed (hpiece s hs) hP.word) hps

lemma closedPieces_parenthesized (hP : HoldsWords P) (hps : ClosedPieces (fun _ => True) ps) :
    ClosedPieces P (parenthesized ps) := by
  intro text rest h
  obtain ⟨g, u, g', rfl, hg, hg', hu⟩ := writes_parenthesized h
  have hbody : Closed .script (fun _ => True) (g ++ u) :=
    (IsGap.closed hg fun _ _ => trivial).append (hps u _ hu)
  have hbracket : Closed .script P ('(' :: ((g ++ u) ++ [')'])) :=
    .bracket P (by decide) (by decide) hbody
  simpa using hbracket.append (IsGap.closed hg' hP.blank)

lemma closedPieces_separated {entries : List (List Piece)}
    (h : ∀ entry ∈ entries, ClosedPieces (fun _ => True) entry) :
    ClosedPieces (fun _ => True) (separated entries) := by
  induction entries with
  | nil => exact closedPieces_nil
  | cons entry entries ih =>
      rw [List.forall_mem_cons] at h
      cases entries with
      | nil => exact h.1
      | cons next entries =>
          refine closedPieces_append h.1 (closedPieces_cons holdsWords_true ?_ (ih h.2))
          rintro s rfl
          exact .plain (by decide) trivial

/-- A written list is what stands before the parenthesis that closes it. -/
lemma enclosed?_separated {entries : List (List Piece)}
    (hentries : ∀ entry ∈ entries, ClosedPieces (fun _ => True) entry)
    (h : Writes (separated entries) text (')' :: rest)) (hg : IsGap g) :
    enclosed? .script (g ++ (text ++ ')' :: rest)) = some (g ++ text, rest) := by
  have hclosed : Closed .script (fun _ => True) (g ++ text) :=
    (IsGap.closed hg fun _ _ => trivial).append (closedPieces_separated hentries text _ h)
  rw [← List.append_assoc]
  exact enclosed?_of_closed hclosed (by decide)

end ClosedPieces

/-! ### Cutting lists -/

/-- Pieces that a comma at the top level can follow: they begin and end with something else than
white space, and all their writings are closed without such a comma. -/
structure IsEntry (pieces : List Piece) : Prop where
  ne_nil : pieces ≠ []
  solid : ∀ piece ∈ pieces, piece.Solid
  closed : ClosedPieces (· ≠ ',') pieces

/-- A text writes an entry, without white space at either end. -/
structure WritesEntry (pieces : List Piece) (text : List Char) : Prop where
  writes : Writes pieces text []
  ne_nil : text ≠ []
  start : Stops isBlank text
  stop : Stops isBlank text.reverse

/-- The text of an entry, up to the white space behind it. -/
lemma exists_text (hne : entry ≠ []) (hsolid : ∀ piece ∈ entry, piece.Solid)
    (hclosed : Closed dialect (· ≠ ',') text) (h : Writes entry text rest) (hg : IsGap g) :
    ∃ t, Text.trim (g ++ text) = t ∧ WritesEntry entry t ∧ Closed dialect (· ≠ ',')
    (g ++ text) := by
  obtain ⟨t, g', rfl, hg', htne, hstart, hend, ht⟩ := h.trimmed hsolid hne
  refine ⟨t, Text.trim_gaps hg hg' hstart hend htne, ⟨ht, htne, hstart, hend⟩, ?_⟩
  exact (IsGap.closed hg fun _ => ne_comma_of_isBlank).append hclosed

/-- Cutting a written list at its commas gives writings of its entries, if these are closed without
such a comma. -/
theorem splitTopLevel_of_closed_writes (hne : ∀ entry ∈ entries, entry ≠ [])
    (hsolid : ∀ entry ∈ entries, ∀ piece ∈ entry, piece.Solid)
    (hclosed : ∀ entry ∈ entries, ∀ text rest, Writes entry text rest →
      Closed dialect (· ≠ ',') text)
    (h : Writes (separated entries) text rest) (hg : IsGap g) :
    List.Forall₂ WritesEntry entries (splitTopLevel dialect ',' (g ++ text)) := by
  induction entries generalizing g text with
  | nil =>
      obtain rfl := h
      rw [List.append_nil, splitTopLevel_of_blank (IsGap.closed hg fun _ => ne_comma_of_isBlank)
        (Text.trim_gap hg)]
      exact .nil
  | cons entry entries ih =>
      rw [List.forall_mem_cons] at hne hsolid hclosed
      cases entries with
      | nil =>
          obtain ⟨t, htrim, ht, htext⟩ := exists_text hne.1 hsolid.1 (hclosed.1 _ _ h) h hg
          rw [splitTopLevel_of_closed htext (by rw [htrim]; exact ht.ne_nil), htrim]
          exact .cons ht .nil
      | cons next entries =>
          obtain ⟨u, _, rfl, hu, s, g', v, rfl, hs, hg', -, hv⟩ := writes_append.mp h
          obtain rfl := hs
          obtain ⟨t, htrim, ht, htext⟩ := exists_text hne.1 hsolid.1 (hclosed.1 _ _ hu) hu hg
          have hsplit : splitTopLevel dialect ',' (g ++ (u ++ ([','] ++ (g' ++ v))))
              = t :: splitTopLevel dialect ',' (g' ++ v) := by
            rw [← List.append_assoc, List.singleton_append, splitTopLevel_cons (by decide) htext
              (by rw [htrim]; exact ht.ne_nil), htrim]
          rw [hsplit]
          exact .cons ht (ih hne.2 hsolid.2 hclosed.2 hv hg')

/-- In a script, this holds of lists of entries. -/
theorem splitTopLevel_of_writes (hentries : ∀ entry ∈ entries, IsEntry entry)
    (h : Writes (separated entries) text rest) (hg : IsGap g) :
    List.Forall₂ WritesEntry entries (splitTopLevel .script ',' (g ++ text)) :=
  splitTopLevel_of_closed_writes (fun entry hentry => (hentries entry hentry).ne_nil)
    (fun entry hentry => (hentries entry hentry).solid)
    (fun entry hentry => (hentries entry hentry).closed) h hg

/-! ### Lists of names -/

lemma mem_separated {piece : Piece} (h : piece ∈ separated entries) :
    piece = .sign ',' ∨ ∃ entry ∈ entries, piece ∈ entry := by
  induction entries with
  | nil => simp [separated] at h
  | cons entry entries ih =>
      cases entries with
      | nil => exact Or.inr ⟨entry, List.mem_cons_self, h⟩
      | cons next entries =>
          simp only [separated, List.mem_append, List.mem_cons] at h
          rcases h with h | h | h
          · exact Or.inr ⟨entry, List.mem_cons_self, h⟩
          · exact Or.inl h
          · exact (ih h).imp_right fun ⟨e, he, hpiece⟩ => ⟨e, List.mem_cons_of_mem _ he, hpiece⟩

lemma isEntry_name {name : String} (hname : IsWord name.toList) : IsEntry [.name name] where
  ne_nil := by simp
  solid := by
    simp only [List.mem_singleton, forall_eq]
    exact solid_of_isWord fun s hs => hs ▸ hname
  closed := closedPieces_word holdsWords_ne_comma (fun s hs => hs ▸ hname) closedPieces_nil

lemma solid_comma : (Piece.sign ',').Solid := by
  rintro s rfl
  exact ⟨by simp, by simp; decide, by simp; decide⟩

/-- A written name is read as the name. -/
lemma leadingIdentifier_of_writes {name : String} (hname : IsWord name.toList)
    (h : WritesEntry [.name name] text) : leadingIdentifier text = name.toList := by
  obtain ⟨s, g, u, rfl, rfl, hg, -, rfl⟩ := h.writes
  rw [List.append_nil]
  exact leadingIdentifier_plain hname hg

/-- A text that begins with a word has no brackets around it. -/
lemma withoutOuterBrackets_of_isWord (hw : IsWord w) (v : List Char) :
    withoutOuterBrackets (w ++ v) = w ++ v :=
  withoutOuterBrackets_self (hw.stops (fun _ => Text.beq_of_isWordChar (by decide)) v)
    (Or.inl (hw.stops (fun _ => Text.beq_of_isWordChar (by decide)) v))

/-- Texts that stand for the members of a list are read as what the members are. -/
lemma map_of_forall₂ {α β γ : Type} {R : γ → List Char → Prop} {l : List α}
    {pieces : α → γ} {value : α → β} {read : List Char → β} {texts : List (List Char)}
    (hread : ∀ x ∈ l, ∀ t, R (pieces x) t → read t = value x)
    (h : List.Forall₂ R (l.map pieces) texts) : texts.map read = l.map value := by
  induction l generalizing texts with
  | nil =>
      obtain rfl := List.forall₂_nil_left_iff.mp h
      rfl
  | cons x l ih =>
      rw [List.forall_mem_cons] at hread
      obtain ⟨t, texts, ht, htexts, rfl⟩ := List.forall₂_cons_left_iff.mp h
      rw [List.map_cons, List.map_cons, hread.1 t ht, ih hread.2 htexts]

/-- What is found first is found among some members, if nothing is found of the others. -/
lemma findSome?_filter {α β : Type} {p : α → Bool} {f : α → Option β} {l : List α}
    (h : ∀ x ∈ l, p x = false → f x = none) : (l.filter p).findSome? f = l.findSome? f := by
  induction l with
  | nil => rfl
  | cons x l ih =>
      rw [List.forall_mem_cons] at h
      cases hp : p x with
      | true => rw [List.filter_cons_of_pos hp, List.findSome?_cons, List.findSome?_cons, ih h.2]
      | false => rw [List.filter_cons_of_neg (by simp [hp]), List.findSome?_cons, h.1 hp, ih h.2]

lemma flatMap_filterMap {α β γ : Type} (l : List α) (f : α → Option β) (g : β → List γ) :
    (l.filterMap f).flatMap g = l.flatMap fun x => (f x).toList.flatMap g := by
  rw [List.filterMap_eq_flatMap_toList, List.flatMap_assoc]

/-- One step for each member of which something is made. -/
lemma foldl_filterMap_elim {α β γ : Type} (l : List α) (f : α → Option β)
    (step : γ → β → γ) (x : γ) :
    (l.filterMap f).foldl step x = l.foldl (fun x a => (f a).elim x (step x)) x := by
  rw [List.foldl_filterMap]
  congr
  funext x a
  cases f a <;> rfl

/-- Cutting a written list of names gives the names. -/
lemma splitTopLevel_names (hnames : ∀ name ∈ names, IsWord name.toList)
    (h : Writes (namePieces names) text rest) (hg : IsGap g) :
    List.Forall₂ WritesEntry (names.map fun name => [.name name])
      (splitTopLevel .script ',' (g ++ text)) := by
  refine splitTopLevel_of_writes (fun entry hentry => ?_) h hg
  obtain ⟨name, hname, rfl⟩ := List.mem_map.mp hentry
  exact isEntry_name (hnames name hname)

/-- No name is empty. -/
lemma filter_names (hnames : ∀ name ∈ names, IsWord name.toList) :
    (names.map String.toList).filter (fun name => !name.isEmpty) = names.map String.toList := by
  refine List.filter_eq_self.mpr fun w hw => ?_
  obtain ⟨name, hname, rfl⟩ := List.mem_map.mp hw
  simpa using (hnames name hname).ne_nil

/-- A written list of names is read as these names. -/
theorem identifierList_of_writes (hnames : ∀ name ∈ names, IsWord name.toList)
    (h : Writes (namePieces names) text rest) (hg : IsGap g) :
    (identifierList .script (g ++ text)).map String.ofList = names := by
  cases names with
  | nil =>
      obtain rfl := h
      rw [List.append_nil, identifierList, Text.trim_gap hg]
      rfl
  | cons name names =>
      obtain ⟨qs, hqs⟩ : ∃ qs, namePieces (name :: names) = .name name :: qs := by
        cases names with
        | nil => exact ⟨[], rfl⟩
        | cons => exact ⟨_, rfl⟩
      have hsolid : ∀ piece ∈ namePieces (name :: names), piece.Solid := by
        intro piece hpiece
        rcases mem_separated hpiece with rfl | ⟨entry, hentry, hpiece⟩
        · exact solid_comma
        · obtain ⟨n, hn, rfl⟩ := List.mem_map.mp hentry
          exact (isEntry_name (hnames n hn)).solid piece hpiece
      obtain ⟨ht, -⟩ := h.exists_trim hsolid (by simp [hqs]) hg
      have hsplit : (splitTopLevel .script ',' ([] ++ Text.trim (g ++ text))).map leadingIdentifier
          = (name :: names).map String.toList :=
        map_of_forall₂ (fun name hname _ => leadingIdentifier_of_writes (hnames name hname))
          (splitTopLevel_names hnames ht Text.isGap_nil)
      rw [List.nil_append] at hsplit
      obtain ⟨_, g', u, htext, rfl, -⟩ := hqs ▸ ht
      have hwhole := withoutOuterBrackets_of_isWord (hnames name List.mem_cons_self) (g' ++ u)
      rw [← htext] at hwhole
      rw [identifierList, hwhole, hsplit, filter_names hnames, List.map_map]
      simp

end SchemaReader
