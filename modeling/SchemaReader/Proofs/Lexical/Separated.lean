/-
Balanced texts between separators.

* `EndsPiece`: where a piece ends, with what one character makes of the cutting;
* `exists_topLevelPieces`: what stands behind a balanced text belongs to its last piece up to the
  first separator, and is cut as it is cut by itself;
* `Whole`: a balanced text with no separator outside of brackets and literals;
* `splitTopLevel_append_separator`, `splitTopLevel_listed_of_balanced`: what balanced texts between
  separators are cut into is what each of them is cut into.
-/
import SchemaReader.Proofs.Lexical.Listed
import SchemaReader.Proofs.Lexical.Partners

namespace SchemaReader

open Text (IsGap isBlank)

variable {dialect : Dialect} {separator : Char} {n : Nat} {literal : Literal} {s : Nat × Literal}
  {depth : Int} {c o : Char} {g g' u v : List Char} {texts : List (List Char)}

/-! ### Balanced texts put together -/

lemma Balanced.append (hu : Balanced dialect u) (hv : Balanced dialect v) :
    Balanced dialect (u ++ v) := by
  rw [Balanced, depthAfter?_append, hu, Option.bind_some]
  exact hv

/-- Within brackets, a text opens and closes as it does by itself. -/
lemma depthAfter?_add (h : depthAfter? dialect n literal u = some s) (m : Nat) :
    depthAfter? dialect (n + m) literal u = some (s.1 + m, s.2) := by
  induction u generalizing n literal with
  | nil =>
      rw [← Option.some.inj h]
      rfl
  | cons c u ih =>
      obtain ⟨s', hstep, h⟩ := Option.bind_eq_some_iff.mp h
      rw [depthAfter?, bracketStep?_add hstep, Option.bind_some]
      exact ih h

lemma bracketStep?_opening (ho : isOpening o = true) :
    bracketStep? dialect n .outside o = some (n + 1, .outside) :=
  bracketStep?_eq_some_iff.mpr (.opening ho)

lemma Balanced.bracket (hu : Balanced dialect u) (ho : isOpening o = true)
    (hc : isClosing c = true) :
    Balanced dialect (o :: (u ++ [c])) := by
  have hinside : depthAfter? dialect 1 .outside u = some (1, .outside) := by
    simpa using depthAfter?_add hu 1
  have hclose : bracketStep? dialect 1 .outside c = some (0, .outside) :=
    bracketStep?_eq_some_iff.mpr (.closing hc)
  rw [Balanced, depthAfter?, bracketStep?_opening ho, Option.bind_some, depthAfter?_append, hinside,
    Option.bind_some, depthAfter?, hclose]
  rfl

lemma depthAfter?_literal {q : Char} (hq : isQuote q = true) (hu : ∀ c ∈ u, dialect.Keeps q c) :
    depthAfter? dialect n .outside (q :: (u ++ [q])) = some (n, .outside) := by
  have hopen : bracketStep? dialect n .outside q = some (n, .inside q false) := by
    simp [bracketStep?, Literal.covers, Literal.step, hq]
  have hinside : ∀ c, dialect.Keeps q c →
      bracketStep? dialect n (.inside q false) c = some (n, .inside q false) := fun c hc => by
    simp [bracketStep?, Literal.covers, Literal.step_inside hc]
  have hclose : bracketStep? dialect n (.inside q false) q = some (n, .outside) := by
    simp [bracketStep?, Literal.covers, Literal.step_quote hq]
  rw [depthAfter?, hopen, Option.bind_some]
  induction u with
  | nil =>
      rw [List.nil_append, depthAfter?, hclose]
      rfl
  | cons c u ih =>
      rw [List.forall_mem_cons] at hu
      rw [List.cons_append, depthAfter?, hinside c hu.1, Option.bind_some]
      exact ih hu.2

/-- A closed text is balanced. -/
lemma Closed.balanced {P : Char → Prop} (h : Closed dialect P u) : Balanced dialect u := by
  induction h with
  | nil => rfl
  | plain hc => exact depthAfter?_plain (List.forall_mem_singleton.mpr hc)
  | append _ _ ihu ihv => exact ihu.append ihv
  | bracket _ ho hc _ ih => exact ih.bracket ho hc
  | literal _ hq hu => exact depthAfter?_literal hq hu

lemma balanced_listed (h : ∀ t ∈ texts, Balanced dialect t) : Balanced dialect (listed texts) := by
  induction texts with
  | nil => rfl
  | cons t texts ih =>
      rw [List.forall_mem_cons] at h
      have hseparator : Balanced dialect [',', ' '] := depthAfter?_plain (by decide)
      cases texts with
      | nil => exact h.1
      | cons u texts => exact h.1.append (hseparator.append (ih h.2))

/-! ### Pieces -/

lemma topLevelPiecesLoop_piece (depth : Int) (literal : Literal) (piece text : List Char) :
    topLevelPiecesLoop dialect separator depth literal [] piece text
      = (topLevelPiecesLoop dialect separator depth literal [] [] text).modifyHead
          (piece.reverse ++ ·) := by
  induction text generalizing depth literal piece with
  | nil => simp [topLevelPiecesLoop]
  | cons c text ih =>
      have hkeep : ∀ (depth : Int) (literal : Literal),
          topLevelPiecesLoop dialect separator depth literal [] (c :: piece) text
            = (topLevelPiecesLoop dialect separator depth literal [] [c] text).modifyHead
                (piece.reverse ++ ·) := fun depth literal => by
        rw [ih depth literal (c :: piece), ih depth literal [c], List.modifyHead_modifyHead]
        congr 1
        funext p
        simp
      simp only [topLevelPiecesLoop]
      split
      · exact hkeep _ _
      · split
        · exact hkeep _ _
        · split
          · exact hkeep _ _
          · split
            · rw [topLevelPiecesLoop_done _ _ [piece.reverse],
                topLevelPiecesLoop_done _ _ [[].reverse]]
              simp
            · exact hkeep _ _

/-- A piece ends at a separator outside of literals at bracket level zero. -/
def EndsPiece (separator : Char) (depth : Int) (literal : Literal) (c : Char) : Prop :=
  literal = .outside ∧ depth = 0 ∧ c = separator

/-- Any other character goes on with the piece. -/
lemma topLevelPiecesLoop_of_not_endsPiece (h : ¬ EndsPiece separator depth literal c)
    (done : List (List Char)) (piece rest : List Char) :
    topLevelPiecesLoop dialect separator depth literal done piece (c :: rest)
      = topLevelPiecesLoop dialect separator (depth + level dialect literal [c])
          (literal.step dialect c) done (c :: piece) rest := by
  rw [topLevelPiecesLoop]
  cases hcovers : literal.covers c with
  | true => rw [if_pos rfl, level_of_covers hcovers, Int.add_zero]
  | false =>
      obtain ⟨rfl, hquote, hstep⟩ := Literal.step_of_not_covers dialect hcovers
      have hseparator : (c == separator && depth == 0) = false := by
        by_contra hends
        simp only [Bool.not_eq_false, Bool.and_eq_true, beq_iff_eq] at hends
        exact h ⟨rfl, hends.2, hends.1⟩
      rw [level_outside hquote, hstep, hseparator]
      simp only [Bool.false_eq_true, ite_false]
      split
      · rfl
      · split <;> simp [Int.sub_eq_add_neg]

/-- The separator, if it is a plain character, ends a piece where it may. -/
lemma topLevelPiecesLoop_endsPiece (hplain : isPlain separator = true) (done : List (List Char))
    (piece rest : List Char) :
    topLevelPiecesLoop dialect separator 0 .outside done piece (separator :: rest)
      = topLevelPiecesLoop dialect separator 0 .outside (piece.reverse :: done) [] rest := by
  obtain ⟨hquote, hopen, hclose⟩ := isPlain_iff.mp hplain
  simp [topLevelPiecesLoop, Literal.covers, hquote, hopen, hclose]

/-- So it does where the count of open brackets goes on. -/
lemma topLevelPiecesLoop_cons (h : bracketStep? dialect n literal c = some s)
    (hnot : ¬ EndsPiece separator n literal c) (done : List (List Char)) (piece rest : List Char) :
    topLevelPiecesLoop dialect separator n literal done piece (c :: rest)
      = topLevelPiecesLoop dialect separator s.1 s.2 done (c :: piece) rest := by
  rw [bracketStep?_eq] at h
  split at h
  · next hlevel =>
      obtain rfl := Option.some.inj h
      rw [topLevelPiecesLoop_of_not_endsPiece hnot, Int.toNat_of_nonneg hlevel]
  · cases h

/-- A balanced text leads from one state of the cutting to another, whatever follows. -/
lemma exists_topLevelPiecesLoop (hsep : isPlain separator = true)
    (h : depthAfter? dialect n literal u = some s) (done : List (List Char)) (piece : List Char) :
    ∃ done' piece', ∀ rest, topLevelPiecesLoop dialect separator n literal done piece (u ++ rest)
      = topLevelPiecesLoop dialect separator s.1 s.2 done' piece' rest := by
  induction u generalizing n literal done piece with
  | nil =>
      rw [← Option.some.inj h]
      exact ⟨done, piece, fun rest => rfl⟩
  | cons c u ih =>
      obtain ⟨s', hstep, h⟩ := Option.bind_eq_some_iff.mp h
      by_cases hcut : EndsPiece separator n literal c
      · obtain ⟨rfl, hn, rfl⟩ := hcut
        obtain rfl := Int.natCast_eq_zero.mp hn
        have hcovers : Literal.outside.covers c = false := (isPlain_iff.mp hsep).1
        rw [bracketStep?_of_isPlain hsep, (Literal.step_of_not_covers dialect hcovers).2.2] at hstep
        obtain rfl := Option.some.inj hstep
        obtain ⟨done', piece', hrest⟩ := ih h (piece.reverse :: done) []
        exact ⟨done', piece', fun rest =>
          (topLevelPiecesLoop_endsPiece hsep done piece (u ++ rest)).trans (hrest rest)⟩
      · obtain ⟨done', piece', hrest⟩ := ih h done (c :: piece)
        exact ⟨done', piece', fun rest =>
          (topLevelPiecesLoop_cons hstep hcut done piece (u ++ rest)).trans (hrest rest)⟩

/-- What stands behind a balanced text goes on with its last piece. -/
theorem exists_topLevelPieces (hsep : isPlain separator = true) (hu : Balanced dialect u) :
    ∃ pieces last, topLevelPieces dialect separator u = pieces ++ [last] ∧
      ∀ v, topLevelPieces dialect separator (u ++ v)
        = pieces ++ (topLevelPieces dialect separator v).modifyHead (last ++ ·) := by
  obtain ⟨done, piece, hloop⟩ := exists_topLevelPiecesLoop hsep hu [] []
  refine ⟨done.reverse, piece.reverse, ?_, fun v => ?_⟩
  · have hself := hloop []
    rw [List.append_nil] at hself
    exact hself.trans (by simp [topLevelPiecesLoop])
  · refine (hloop v).trans ?_
    rw [topLevelPiecesLoop_done, topLevelPiecesLoop_piece]
    rfl

lemma topLevelPieces_separator (hsep : isPlain separator = true) (v : List Char) :
    topLevelPieces dialect separator (separator :: v) = [] :: topLevelPieces dialect separator v :=
  topLevelPieces_cons hsep (.nil _)

/-- A separator behind a balanced text ends its last piece. -/
lemma topLevelPieces_append_separator (hu : Balanced dialect u) (hsep : isPlain separator = true)
    (v : List Char) : topLevelPieces dialect separator (u ++ separator :: v)
      = topLevelPieces dialect separator u ++ topLevelPieces dialect separator v := by
  obtain ⟨pieces, last, hpieces, happend⟩ := exists_topLevelPieces hsep hu
  rw [happend, topLevelPieces_separator hsep, hpieces]
  simp

/-- A balanced text without a separator outside of brackets and literals. -/
structure Whole (dialect : Dialect) (separator : Char) (text : List Char) : Prop where
  balanced : Balanced dialect text
  pieces : topLevelPieces dialect separator text = [text]

instance (dialect : Dialect) (separator : Char) (text : List Char) :
    Decidable (Whole dialect separator text) :=
  decidable_of_iff (Balanced dialect text ∧ topLevelPieces dialect separator text = [text])
    ⟨fun h => ⟨h.1, h.2⟩, fun h => ⟨h.1, h.2⟩⟩

lemma Whole.topLevelPieces_append (hsep : isPlain separator = true) (hu : Whole dialect separator u)
    (v : List Char) :
    topLevelPieces dialect separator (u ++ v)
      = (topLevelPieces dialect separator v).modifyHead (u ++ ·) := by
  obtain ⟨pieces, last, hpieces, happend⟩ := exists_topLevelPieces hsep hu.balanced
  rw [hu.pieces] at hpieces
  obtain ⟨rfl, rfl⟩ : pieces = [] ∧ last = u := by
    cases pieces with
    | nil => simpa using hpieces.symm
    | cons => simp at hpieces
  exact happend v

lemma Whole.append (hsep : isPlain separator = true) (hu : Whole dialect separator u)
    (hv : Whole dialect separator v) : Whole dialect separator (u ++ v) where
  balanced := hu.balanced.append hv.balanced
  pieces := by rw [hu.topLevelPieces_append hsep, hv.pieces, List.modifyHead_cons]

/-- A whole text is a single piece of itself, without the white space behind it. -/
lemma Whole.splitTopLevel_append_gap (hu : Whole dialect separator (u ++ g)) (hg : IsGap g)
    (hstart : Text.Stops isBlank u) (hend : Text.Stops isBlank u.reverse) (hne : u ≠ []) :
    splitTopLevel dialect separator (u ++ g) = [u] := by
  rw [splitTopLevel, hu.pieces, List.map_singleton, Text.trim_append_gap hg, Text.trim,
    Text.trimWhere_self hstart hend]
  simp [hne]

lemma Whole.splitTopLevel_eq (hu : Whole dialect separator u) (hstart : Text.Stops isBlank u)
    (hend : Text.Stops isBlank u.reverse) (hne : u ≠ []) :
    splitTopLevel dialect separator u = [u] := by
  have hsplit := Whole.splitTopLevel_append_gap (g := []) (by rwa [List.append_nil]) Text.isGap_nil
    hstart hend hne
  rwa [List.append_nil] at hsplit

lemma whole_of_closed (h : Closed dialect (· ≠ separator) u) : Whole dialect separator u where
  balanced := h.balanced
  pieces := topLevelPieces_of_closed h

/-- Within brackets a text is not cut. -/
lemma topLevelPiecesLoop_inside (h : depthAfter? dialect n literal u = some s)
    (done : List (List Char))
    (piece rest : List Char) :
    topLevelPiecesLoop dialect separator (n + 1) literal done piece (u ++ rest)
      = topLevelPiecesLoop dialect separator (s.1 + 1) s.2 done (u.reverse ++ piece) rest := by
  induction u generalizing n literal piece with
  | nil =>
      rw [← Option.some.inj h]
      rfl
  | cons c u ih =>
      obtain ⟨s', hstep, h⟩ := Option.bind_eq_some_iff.mp h
      have hfirst : topLevelPiecesLoop dialect separator (n + 1) literal done piece
          (c :: (u ++ rest))
          = topLevelPiecesLoop dialect separator (s'.1 + 1) s'.2 done (c :: piece) (u ++ rest) :=
        topLevelPiecesLoop_cons (bracketStep?_add hstep 1)
          (fun hcut => Nat.succ_ne_zero n (Int.natCast_eq_zero.mp hcut.2.1)) done piece (u ++ rest)
      exact hfirst.trans ((ih h (c :: piece)).trans (by simp))

lemma Balanced.whole_bracket (hu : Balanced dialect u) (ho : isOpening o = true)
    (hc : isClosing c = true) : Whole dialect separator (o :: (u ++ [c])) where
  balanced := hu.bracket ho hc
  pieces := by
    have hinside : topLevelPiecesLoop dialect separator 1 .outside [] [o] (u ++ [c])
        = topLevelPiecesLoop dialect separator 1 .outside [] (u.reverse ++ [o]) [c] :=
      topLevelPiecesLoop_inside hu [] [o] [c]
    simp [topLevelPieces, topLevelPiecesLoop, Literal.covers,
      not_isQuote_of_isOpening ho, ho, hinside, not_isQuote_of_isClosing hc,
      not_isOpening_of_isClosing hc, hc]

lemma whole_of_loop
    (hloop : ∀ rest, topLevelPiecesLoop dialect separator 0 .outside [] [] (u ++ rest)
      = topLevelPiecesLoop dialect separator 0 .outside [] u.reverse rest)
    (hu : Balanced dialect u) :
    Whole dialect separator u := by
  refine ⟨hu, ?_⟩
  have hself := hloop []
  rw [List.append_nil] at hself
  exact hself.trans (by simp [topLevelPiecesLoop])

lemma whole_or_cut_of_loop
    (hloop : ∀ rest, topLevelPiecesLoop dialect separator 0 .outside [] [] (u ++ rest)
      = topLevelPiecesLoop dialect separator n literal [] u.reverse rest)
    (hu : depthAfter? dialect 0 .outside u = some (n, literal))
    (hv : depthAfter? dialect n literal v = some (0, .outside)) :
    Whole dialect separator (u ++ v) ∨
      ∃ x y, u ++ v = x ++ separator :: y ∧ Whole dialect separator x := by
  induction v generalizing u n literal with
  | nil =>
      obtain ⟨rfl, rfl⟩ := Prod.mk.inj (Option.some.inj hv)
      rw [List.append_nil]
      exact Or.inl (whole_of_loop hloop hu)
  | cons c v ih =>
      obtain ⟨⟨m, l⟩, hstep, hrest⟩ := Option.bind_eq_some_iff.mp hv
      by_cases hcut : EndsPiece separator n literal c
      · obtain ⟨rfl, hn, rfl⟩ := hcut
        obtain rfl := Int.natCast_eq_zero.mp hn
        exact Or.inr ⟨u, v, rfl, whole_of_loop hloop hu⟩
      · have hnext : ∀ rest, topLevelPiecesLoop dialect separator 0 .outside [] []
            ((u ++ [c]) ++ rest)
            = topLevelPiecesLoop dialect separator m l [] (u ++ [c]).reverse rest := fun rest => by
          rw [List.append_assoc, hloop, List.reverse_append]
          exact topLevelPiecesLoop_cons hstep hcut [] u.reverse rest
        have hdepth : depthAfter? dialect 0 .outside (u ++ [c]) = some (m, l) := by
          rw [depthAfter?_append, hu, Option.bind_some, depthAfter?, hstep]
          rfl
        simpa using ih hnext hdepth hrest

/-- A balanced text is cut nowhere, or behind a part that is cut nowhere. -/
theorem Balanced.whole_or_cut (hu : Balanced dialect u) : Whole dialect separator u ∨
    ∃ v w, u = v ++ separator :: w ∧ Whole dialect separator v :=
  whole_or_cut_of_loop (u := []) (fun _ => rfl) rfl hu

/-! ### Texts in lists -/

/-- A separator between balanced texts. -/
theorem splitTopLevel_append_separator (hu : Balanced dialect u) (hsep : isPlain separator = true)
    (v : List Char) : splitTopLevel dialect separator (u ++ separator :: v)
      = splitTopLevel dialect separator u ++ splitTopLevel dialect separator v := by
  rw [splitTopLevel, topLevelPieces_append_separator hu hsep, List.map_append, List.filter_append]
  rfl

lemma whole_gap (hg : IsGap g) : Whole dialect ',' g :=
  whole_of_closed (IsGap.closed hg fun _ => ne_comma_of_isBlank)

/-- White space ahead of a text is trimmed from its first piece. -/
lemma splitTopLevel_gap_append (hg : IsGap g) (v : List Char) :
    splitTopLevel dialect ',' (g ++ v) = splitTopLevel dialect ',' v := by
  rw [splitTopLevel, (whole_gap hg).topLevelPieces_append (by decide), splitTopLevel]
  cases topLevelPieces dialect ',' v with
  | nil => rfl
  | cons p ps => rw [List.modifyHead_cons, List.map_cons, List.map_cons, Text.trim_gap_append hg]

/-- White space behind a balanced text is trimmed from its last piece. -/
lemma splitTopLevel_append_gap (hu : Balanced dialect u) (hg : IsGap g) :
    splitTopLevel dialect ',' (u ++ g) = splitTopLevel dialect ',' u := by
  obtain ⟨pieces, last, hpieces, happend⟩ :=
    exists_topLevelPieces (by decide : isPlain ',' = true) hu
  rw [splitTopLevel, happend, (whole_gap hg).pieces, splitTopLevel, hpieces, List.modifyHead_cons,
    List.map_append, List.map_append, List.map_singleton, List.map_singleton,
    Text.trim_append_gap hg]

/-- A list of balanced texts is cut into what each of them is cut into. -/
theorem splitTopLevel_listed_of_balanced (ht : ∀ t ∈ texts, Balanced dialect t) (hg : IsGap g)
    (hg' : IsGap g') : splitTopLevel dialect ',' (g ++ (listed texts ++ g'))
      = texts.flatMap (splitTopLevel dialect ',') := by
  rw [splitTopLevel_gap_append hg, splitTopLevel_append_gap (balanced_listed ht) hg']
  induction texts with
  | nil => rfl
  | cons t texts ih =>
      rw [List.forall_mem_cons] at ht
      cases texts with
      | nil => rw [listed, List.flatMap_singleton]
      | cons u texts =>
          have hspace : splitTopLevel dialect ',' (' ' :: listed (u :: texts))
              = splitTopLevel dialect ',' (listed (u :: texts)) :=
            splitTopLevel_gap_append (g := [' ']) (by decide) _
          rw [listed, splitTopLevel_append_separator ht.1 (by decide), hspace, ih ht.2]
          exact List.flatMap_cons.symm

end SchemaReader
