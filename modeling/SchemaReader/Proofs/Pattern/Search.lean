/-
Where a search finds something.

* `Pattern.Silent`: a pattern reads nothing at any place within a piece of text, with the rules
  that put silent pieces together;
* `Pattern.WordLed`, `Pattern.LineLed`, `Pattern.TextLed`: a pattern that reads nothing but at the
  beginning of a word, of a line or of the text, so that silence is only to be checked there;
* `Pattern.find?_of_takes`, `Pattern.find?_of_silent`: what a search finds;
* `Pattern.Finds`: the matches that a scan of a text comes upon, each with its captures and the
  text behind it, and `Pattern.findAll_of_finds`: `Pattern.findAll` finds these;
* `Pattern.map_findAll_of_opens_or_passes`: a scan of texts of which some begin with a match and the
  others hold none, with `Pattern.map_findAll_of_opens` where all do.
-/
import SchemaReader.Proofs.Pattern.Takes

namespace SchemaReader

/-- What a match gives to those that read it: the text behind it and its captures. -/
def Match.yield (found : Match) : List Char × Captures := (found.stop.after, found.captures)

namespace Pattern

open Text (IsGap)

/-! ### Silence -/

/-- A pattern reads nothing at the places before the characters of a piece of text, which stands
between `before` and `rest`. -/
def Silent (p : Pattern) (before : List Char) : (piece rest : List Char) → Prop
  | [], _ => True
  | c :: piece, rest => p.Fails before (c :: (piece ++ rest)) ∧ Silent p (c :: before) piece rest

variable {p q : Pattern} {before u v w g rest : List Char} {caught : Captures}

@[simp]
lemma silent_nil : Silent p before [] rest := trivial

@[simp]
lemma silent_cons {c : Char} : Silent p before (c :: u) rest ↔
    p.Fails before (c :: (u ++ rest)) ∧ Silent p (c :: before) u rest := Iff.rfl

lemma silent_append : Silent p before (u ++ v) rest ↔
    Silent p before u (v ++ rest) ∧ Silent p (u.reverse ++ before) v rest := by
  induction u generalizing before with
  | nil => simp
  | cons c u ih => simp [ih, and_assoc]

lemma silent_of_forall
    (h : ∀ v c w, u = v ++ c :: w → p.Fails (v.reverse ++ before) (c :: w ++ rest)) :
    Silent p before u rest := by
  induction u generalizing before with
  | nil => trivial
  | cons c u ih =>
      refine ⟨by simpa using h [] c u rfl, ih fun v d w hu => ?_⟩
      simpa using h (c :: v) d w (by rw [hu, List.cons_append])

/-- A pattern that reads nothing but where a word begins. -/
def WordLed (p : Pattern) : Prop :=
  ∀ before text, ¬ (Text.Stops Text.isWordChar before ∧ ¬ Text.Stops Text.isWordChar text) →
    p.Fails before text

/-- A pattern that reads nothing but where the text begins. -/
def TextLed (p : Pattern) : Prop := ∀ before text, before ≠ [] → p.Fails before text

lemma textLed_textStart : (textStart ++ q).TextLed := by
  intro before text hbefore
  exact fails_textStart_append.mpr fun h => absurd h hbefore

lemma TextLed.append (h : p.TextLed) (q : Pattern) : (p ++ q).TextLed :=
  fun before text hbefore => (h before text hbefore).append q

/-- A pattern that reads nothing but where a line begins. -/
def LineLed (p : Pattern) : Prop :=
  ∀ before text, (∃ c ∈ before.head?, c ≠ '\n') → p.Fails before text

lemma lineLed_lineStart : (lineStart ++ q).LineLed := by
  rintro before text ⟨c, hc, hne⟩
  rw [fails_lineStart_append]
  intro hstart
  simp only [Cursor.atLineStart, Option.mem_def.mp hc, Option.all_some, beq_iff_eq] at hstart
  exact absurd hstart hne

lemma LineLed.append (h : p.LineLed) (q : Pattern) : (p ++ q).LineLed :=
  fun before text hplace => (h before text hplace).append q

lemma LineLed.silent_inside (h : p.LineLed) {d : Char} (hd : d ≠ '\n') (hu : ∀ c ∈ u, c ≠ '\n') :
    Silent p (d :: before) (u ++ ['\n']) rest := by
  induction u generalizing d before with
  | nil => exact ⟨h _ _ ⟨d, rfl, hd⟩, trivial⟩
  | cons c u ih =>
      rw [List.forall_mem_cons] at hu
      exact ⟨h _ _ ⟨d, rfl, hd⟩, ih hu.1 hu.2⟩

/-- In a piece of a line, a pattern can only read something at its beginning. -/
lemma LineLed.silent_piece (h : p.LineLed) (hu : ∀ c ∈ u, c ≠ '\n')
    (hfails : p.Fails before (u ++ rest)) : Silent p before u rest := by
  induction u generalizing before with
  | nil => trivial
  | cons c u ih =>
      rw [List.forall_mem_cons] at hu
      exact ⟨hfails, ih hu.2 (h _ _ ⟨c, rfl, hu.1⟩)⟩

/-- Within a line, a pattern can only read something at its beginning. -/
lemma LineLed.silent_line (h : p.LineLed) (hu : ∀ c ∈ u, c ≠ '\n')
    (hfails : p.Fails before (u ++ '\n' :: rest)) : Silent p before (u ++ ['\n']) rest := by
  cases u with
  | nil => exact ⟨hfails, trivial⟩
  | cons c u =>
      rw [List.forall_mem_cons] at hu
      exact ⟨by simpa using hfails, h.silent_inside hu.1 hu.2⟩

/-- A word edge before a pattern that reads nothing outside words. -/
lemma wordLed_wordEdge (hq : ∀ before text, Text.Stops Text.isWordChar text → q.Fails before text) :
    (wordEdge ++ q).WordLed := by
  intro before text h
  rw [fails_wordEdge_append]
  intro hedge
  by_cases htext : Text.Stops Text.isWordChar text
  · exact hq before text htext
  · refine absurd ⟨?_, htext⟩ h
    cases text with
    | nil => simp at htext
    | cons c text =>
        have hc : Text.isWordChar c = true := by simpa using htext
        cases before with
        | nil => simp
        | cons d before => simpa [Cursor.atWordEdge, hc] using hedge

lemma WordLed.append (h : p.WordLed) (q : Pattern) : (p ++ q).WordLed :=
  fun before text hplace => (h before text hplace).append q

lemma WordLed.fails_nil (h : p.WordLed) : p.Fails before [] := h _ _ (by simp)

lemma WordLed.silent_inside (h : p.WordLed) {d : Char} (hd : Text.isWordChar d = true)
    (hu : ∀ c ∈ u, Text.isWordChar c = true) : Silent p (d :: before) u rest := by
  induction u generalizing d before with
  | nil => trivial
  | cons c u ih =>
      rw [List.forall_mem_cons] at hu
      exact ⟨h _ _ (by simp [hd]), ih hu.1 hu.2⟩

/-- Within a word, a pattern can only read something at its beginning. -/
lemma WordLed.silent_word (h : p.WordLed) (hw : ∀ c ∈ w, Text.isWordChar c = true)
    (hfails : p.Fails before (w ++ rest)) : Silent p before w rest := by
  cases w with
  | nil => trivial
  | cons c w =>
      rw [List.forall_mem_cons] at hw
      exact ⟨hfails, h.silent_inside hw.1 hw.2⟩

lemma WordLed.silent_outside (h : p.WordLed) (hu : ∀ c ∈ u, Text.isWordChar c = false) :
    Silent p before u rest := by
  induction u generalizing before with
  | nil => trivial
  | cons c u ih =>
      rw [List.forall_mem_cons] at hu
      exact ⟨h _ _ (by simp [hu.1]), ih hu.2⟩

lemma WordLed.silent_gap (h : p.WordLed) (hg : IsGap g) : Silent p before g rest :=
  h.silent_outside fun c hc => Text.not_isWordChar_of_isBlank (hg c hc)

lemma TextLed.silent (h : p.TextLed) (hbefore : before ≠ []) : Silent p before u rest := by
  induction u generalizing before with
  | nil => trivial
  | cons c u ih => exact ⟨h _ _ hbefore, ih (by simp)⟩

/-! ### The first match -/

lemma findLoop_of_silent (h : Silent p before u rest) (n : Nat) :
    findLoop p before n (u ++ rest)
      = findLoop p (u.reverse ++ before) (n + u.length) rest := by
  induction u generalizing before n with
  | nil => rfl
  | cons c u ih =>
      rw [List.cons_append, findLoop, matchAt?_of_fails h.1]
      simpa [Nat.add_assoc, Nat.add_comm 1] using ih h.2 (n + 1)

lemma findLoop_eq_of_match {s : Match} {text : List Char} {n : Nat}
    (h : p.matchAt? ⟨before, text, n⟩ = some s) : findLoop p before n text = some s := by
  cases text with
  | nil => exact h
  | cons c text => rw [findLoop, h]

/-- After a silent piece, a search finds what the pattern takes. -/
lemma findLoop_of_takes (hu : Silent p before u (w ++ rest))
    (h : p.Takes (u.reverse ++ before) w rest caught) (n : Nat) :
    findLoop p before n (u ++ (w ++ rest)) =
      some ⟨⟨u.reverse ++ before, w ++ rest, n + u.length⟩,
        ⟨w.reverse ++ (u.reverse ++ before), rest, n + u.length + w.length⟩, caught⟩ := by
  rw [findLoop_of_silent hu, findLoop_eq_of_match (matchAt?_of_takes h _)]

lemma findLoop_of_fails (h : Silent p before u []) (hend : p.Fails (u.reverse ++ before) [])
    (n : Nat) : findLoop p before n u = none := by
  have hu := findLoop_of_silent h n
  rw [List.append_nil] at hu
  rw [hu, findLoop, matchAt?_of_fails hend]

lemma find?_of_silent (hu : Silent p [] u (w ++ rest)) (h : p.Takes u.reverse w rest caught) :
    p.find? (u ++ (w ++ rest)) =
      some ⟨⟨u.reverse, w ++ rest, u.length⟩,
        ⟨w.reverse ++ u.reverse, rest, u.length + w.length⟩, caught⟩ := by
  have := findLoop_of_takes hu (by simpa using h) 0
  simpa [find?, findFrom?, Cursor.start] using this

/-- Where a pattern takes the beginning of a text, a search finds it there. -/
lemma find?_of_takes (h : p.Takes [] w rest caught) :
    p.find? (w ++ rest) =
      some ⟨⟨[], w ++ rest, 0⟩, ⟨w.reverse, rest, w.length⟩, caught⟩ := by
  simpa using find?_of_silent (u := []) silent_nil h

/-- The same for a text that is cut where the pattern ends. -/
lemma find?_of_eq_append {text : List Char} (htext : text = w ++ rest)
    (h : p.Takes [] w rest caught) :
    p.find? text = some ⟨⟨[], text, 0⟩, ⟨w.reverse, rest, w.length⟩, caught⟩ := by
  rw [htext, find?_of_takes h]

lemma find?_eq_none (h : Silent p [] u []) (hend : p.Fails u.reverse []) : p.find? u = none :=
  findLoop_of_fails h (by simpa using hend) 0

lemma TextLed.find?_eq_none (h : p.TextLed) (hu : p.Fails [] u) : p.find? u = none := by
  cases u with
  | nil => exact Pattern.find?_eq_none trivial hu
  | cons c u =>
      refine Pattern.find?_eq_none ⟨by simpa using hu, h.silent (by simp)⟩ (h _ _ ?_)
      simp

lemma not_occursIn (h : Silent p [] u []) (hend : p.Fails u.reverse []) :
    p.occursIn u = false := by
  rw [occursIn, find?_eq_none h hend, Option.isSome_none]

/-- A pattern occurs in a text that holds a piece which the pattern takes. -/
lemma occursIn_of_takes (h : p.Takes u.reverse w rest caught) :
    p.occursIn (u ++ (w ++ rest)) = true := by
  suffices hloop : ∀ before n, p.Takes (u.reverse ++ before) w rest caught →
      (findLoop p before n (u ++ (w ++ rest))).isSome = true from
    hloop [] 0 (by simpa using h)
  clear h
  induction u with
  | nil =>
      intro before n h
      rw [List.reverse_nil, List.nil_append] at h
      rw [List.nil_append, findLoop_eq_of_match (matchAt?_of_takes h n), Option.isSome_some]
  | cons c u ih =>
      intro before n h
      rw [List.cons_append, findLoop]
      split
      · rfl
      · exact ih (c :: before) (n + 1) (by simpa using h)

/-! ### All matches -/

/-- The matches that a scan of a text comes upon, one after the other, each with the text behind
it and its captures. -/
inductive Finds (p : Pattern) : (before text : List Char) → List (List Char × Captures) → Prop
  | stop {before text} : Silent p before text [] → p.Fails (text.reverse ++ before) [] →
      Finds p before text []
  | found {before u w rest caught found} : Silent p before u (w ++ rest) →
      p.Takes (u.reverse ++ before) w rest caught → w ≠ [] →
      Finds p (w.reverse ++ (u.reverse ++ before)) rest found →
      Finds p before (u ++ (w ++ rest)) ((rest, caught) :: found)

lemma Finds.skip {found : List (List Char × Captures)} (hv : Silent p before v rest)
    (h : Finds p (v.reverse ++ before) rest found) : Finds p before (v ++ rest) found := by
  cases h with
  | stop hsilent hend =>
      refine .stop (silent_append.mpr ⟨by simpa using hv, hsilent⟩) ?_
      simpa using hend
  | @found _ u w rest caught found hsilent htakes hw hrest =>
      rw [← List.append_assoc]
      refine .found (silent_append.mpr ⟨hv, hsilent⟩) ?_ hw ?_
      · simpa using htakes
      · simpa using hrest

lemma findAllLoop_of_finds {text : List Char} {found : List (List Char × Captures)}
    (h : Finds p before text found) {fuel : Nat} (hfuel : text.length < fuel) (n : Nat)
    (earlier : List Match) :
    (findAllLoop p fuel ⟨before, text, n⟩ earlier).map Match.yield
      = earlier.reverse.map Match.yield ++ found := by
  induction h generalizing fuel n earlier with
  | stop hsilent hend =>
      obtain ⟨fuel, rfl⟩ := Nat.exists_eq_succ_of_ne_zero (Nat.ne_zero_of_lt hfuel)
      rw [findAllLoop, findFrom?, findLoop_of_fails hsilent hend, List.append_nil]
  | @found before u w rest caught found hsilent htakes hw _ ih =>
      obtain ⟨fuel, rfl⟩ := Nat.exists_eq_succ_of_ne_zero (Nat.ne_zero_of_lt hfuel)
      have hlength := List.length_pos_iff.mpr hw
      have hmoved : n + u.length + w.length ≠ n + u.length := by omega
      rw [findAllLoop, findFrom?, findLoop_of_takes hsilent htakes]
      simp only [hmoved, ite_false]
      rw [ih (by simp at hfuel; omega)]
      simp [Match.yield]

/-- A scan finds the matches it comes upon. -/
theorem findAll_of_finds {text : List Char} {found : List (List Char × Captures)}
    (h : Finds p [] text found) : (p.findAll text).map Match.yield = found := by
  simpa [findAll, Cursor.start] using findAllLoop_of_finds h (Nat.lt_succ_self _) 0 []

/-- A search finds the first of them. -/
lemma find?_of_finds {text : List Char} {found : List (List Char × Captures)}
    (h : Finds p [] text found) : (p.find? text).map Match.yield = found.head? := by
  cases h with
  | stop hsilent hend => rw [find?_eq_none hsilent (by simpa using hend)]; rfl
  | found hsilent htakes hw hrest => rw [find?_of_silent hsilent (by simpa using htakes)]; rfl

/-- A match with the text behind it and the captures that are given. -/
def matchOf (yield : List Char × Captures) : Match := ⟨⟨[], [], 0⟩, ⟨[], yield.1, 0⟩, yield.2⟩

/-- What all matches of a pattern are read as. -/
lemma map_findAll {β : Type} {text : List Char} {read : Match → β}
    (hread : ∀ found, read (matchOf found.yield) = read found)
    {found : List (List Char × Captures)} (h : Finds p [] text found) :
    (p.findAll text).map read = found.map fun yield => read (matchOf yield) := by
  rw [← findAll_of_finds h, List.map_map]
  exact List.map_congr_left fun found _ => (hread found).symm

/-! ### Matches one after the other -/

/-- A pattern takes the beginning `head` of a text, at every place of a kind, and reads nothing in
the rest of it, `body`.  Behind the text there is such a place again. -/
structure Opens (p : Pattern) (place : List Char → Prop) (head body : List Char)
    (caught : Captures) : Prop where
  ne_nil : head ≠ []
  takes : ∀ before rest, place before → p.Takes before head rest caught
  silent : ∀ before rest, Silent p (head.reverse ++ before) body rest
  next : ∀ before, place ((head ++ body).reverse ++ before)

/-- A pattern reads nothing in a text, at every place of a kind.  Behind the text there is such a
place again. -/
structure Passes (p : Pattern) (place : List Char → Prop) (text : List Char) : Prop where
  silent : ∀ before rest, place before → Silent p before text rest
  next : ∀ before, place (text.reverse ++ before)

section Repeated

variable {α β : Type} {place : List Char → Prop} {head body : α → List Char}
  {caught : α → Captures} {read : Match → β} {result : α → β}

/-- A scan of texts of which some begin with a match and the others hold none. -/
lemma exists_finds_of_opens_or_passes (hend : ∀ before, p.Fails before []) {xs : List α}
    (chosen : α → Bool)
    (hopens : ∀ x ∈ xs, chosen x → p.Opens place (head x) (body x) (caught x))
    (hpasses : ∀ x ∈ xs, ¬ chosen x → p.Passes place (head x ++ body x))
    (hresult : ∀ x ∈ xs, chosen x → ∀ rest, read (matchOf (body x ++ rest, caught x)) = result x)
    (hplace : place before) :
    ∃ found, Finds p before (xs.flatMap fun x => head x ++ body x) found ∧
      found.map (fun yield => read (matchOf yield)) = (xs.filter chosen).map result := by
  induction xs generalizing before with
  | nil => exact ⟨[], .stop trivial (hend _), rfl⟩
  | cons x xs ih =>
      rw [List.forall_mem_cons] at hopens hpasses hresult
      have hlater : ∀ before, place before → ∃ found,
          Finds p before (xs.flatMap fun x => head x ++ body x) found ∧
            found.map (fun yield => read (matchOf yield)) = (xs.filter chosen).map result :=
        fun before hplace => ih hopens.2 hpasses.2 hresult.2 hplace
      rw [List.flatMap_cons]
      by_cases hx : chosen x = true
      · have hhead := hopens.1 hx
        obtain ⟨found, hfound, hmap⟩ := hlater _ (hhead.next before)
        have hskip : Finds p ((head x).reverse ++ before)
            (body x ++ xs.flatMap fun x => head x ++ body x) found :=
          Finds.skip (hhead.silent before _) (by simpa using hfound)
        refine ⟨(body x ++ xs.flatMap fun x => head x ++ body x, caught x) :: found, ?_,
          by rw [List.filter_cons_of_pos hx, List.map_cons, List.map_cons, hresult.1 hx, hmap]⟩
        rw [List.append_assoc]
        exact .found (u := []) trivial (hhead.takes _ _ hplace) hhead.ne_nil hskip
      · have hpass := hpasses.1 hx
        obtain ⟨found, hfound, hmap⟩ := hlater _ (hpass.next before)
        exact ⟨found, Finds.skip (hpass.silent before _ hplace) hfound,
          by rw [List.filter_cons_of_neg hx, hmap]⟩

/-- What such a scan comes upon. -/
theorem map_findAll_of_opens_or_passes
    (hread : ∀ found, read (matchOf found.yield) = read found)
    (hend : ∀ before, p.Fails before []) {xs : List α} (chosen : α → Bool)
    (hopens : ∀ x ∈ xs, chosen x → p.Opens place (head x) (body x) (caught x))
    (hpasses : ∀ x ∈ xs, ¬ chosen x → p.Passes place (head x ++ body x))
    (hresult : ∀ x ∈ xs, chosen x → ∀ rest, read (matchOf (body x ++ rest, caught x)) = result x)
    (hplace : place []) :
    (p.findAll (xs.flatMap fun x => head x ++ body x)).map read
      = (xs.filter chosen).map result := by
  obtain ⟨found, hfound, hmap⟩ :=
    exists_finds_of_opens_or_passes hend chosen hopens hpasses hresult hplace
  rw [map_findAll hread hfound, hmap]

/-- A scan of texts of which each begins with a match comes upon these matches. -/
theorem map_findAll_of_opens (hread : ∀ found, read (matchOf found.yield) = read found)
    (hend : ∀ before, p.Fails before []) {xs : List α}
    (h : ∀ x ∈ xs, p.Opens place (head x) (body x) (caught x))
    (hresult : ∀ x ∈ xs, ∀ rest, read (matchOf (body x ++ rest, caught x)) = result x)
    (hplace : place []) :
    (p.findAll (xs.flatMap fun x => head x ++ body x)).map read = xs.map result := by
  have hall := map_findAll_of_opens_or_passes hread hend (fun _ => true)
    (fun x hx _ => h x hx) (fun _ _ hx => absurd rfl hx) (fun x hx _ => hresult x hx) hplace
  simpa using hall

/-- A scan of texts in which a pattern reads nothing comes upon nothing. -/
theorem findAll_eq_nil {text : α → List Char} (hend : ∀ before, p.Fails before []) {xs : List α}
    (h : ∀ x ∈ xs, ∀ before rest, Silent p before (text x) rest) :
    p.findAll (xs.flatMap text) = [] := by
  have hsilent : ∀ before, Silent p before (xs.flatMap text) [] := by
    induction xs with
    | nil => exact fun _ => trivial
    | cons x xs ih =>
        rw [List.forall_mem_cons] at h
        exact fun before => silent_append.mpr ⟨h.1 before _, ih h.2 _⟩
  have hnone := findAll_of_finds (.stop (hsilent []) (hend _))
  exact List.map_eq_nil_iff.mp hnone

end Repeated

end Pattern

end SchemaReader
