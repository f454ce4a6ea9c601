/-
Literals in the attributes of fields.

* `occursIn_quoted`: an attribute is found in attributes with a literal if it is found before the
  literal, in it or behind it;
* `Inert`: what a literal may hold without being taken for an attribute or for a part of the
  arguments of a relation;
* `exists_relationLists?_quoted`: such literals leave the lists of an explicit relation as they are.
-/
import SchemaReader.ModelFile.Field
import SchemaReader.Proofs.ModelFile.Blocks
import SchemaReader.Proofs.Pattern.Places

namespace SchemaReader.ModelFile

open Pattern
open Text (IsWord IsGap Stops isWordChar isBlank)

variable {before rest next s s' t u v w x y : List Char} {name : String}

/-- A text between double quotes. -/
def quoted (s : List Char) : List Char := '"' :: (s ++ ['"'])

lemma quoted_append (s y : List Char) : quoted s ++ y = '"' :: (s ++ '"' :: y) := by simp [quoted]

/-! ### Attributes -/

/-- The attributes of fields that are looked for. -/
def attributeNames : List String := ["@id", "@unique", "@relation"]

lemma exists_isWord_of_mem (hname : name ∈ attributeNames) :
    ∃ w, name.toList = '@' :: w ∧ IsWord w := by
  have hall : ∀ name ∈ attributeNames, name.toList = '@' :: name.toList.tail ∧
      IsWord name.toList.tail := by
    decide
  exact ⟨_, hall name hname⟩

lemma not_quote_mem (hname : name ∈ attributeNames) : '"' ∉ name.toList := by
  obtain ⟨w, hw, hword⟩ := exists_isWord_of_mem hname
  rw [hw, List.mem_cons, not_or]
  exact ⟨by decide, fun hmem => hword.forall_ne (by decide) _ hmem rfl⟩

/-- An attribute is found where its name stands and no word goes on behind it. -/
lemma occursIn_attributeWord (hname : name ∈ attributeNames) :
    (attributeWord name).occursIn u = true
    ↔ ∃ v w, u = v ++ (name.toList ++ w) ∧ Stops isWordChar w := by
  obtain ⟨word, hw, hword⟩ := exists_isWord_of_mem hname
  rw [occursIn_iff_reads]
  constructor
  · rintro ⟨v, _, rest, rfl, _, _, rfl, hlit, rfl, hedge⟩
    refine ⟨v, rest, by simp [reads_lit.mp hlit], ?_⟩
    rw [reads_lit.mp hlit, hw, List.reverse_cons, List.append_assoc] at hedge
    exact stops_of_atWordEdge hword hedge
  · rintro ⟨v, w, rfl, hstops⟩
    refine ⟨v, name.toList, w, rfl, name.toList, [], by simp, reads_lit.mpr rfl, rfl, ?_⟩
    obtain ⟨c, r, hr⟩ := List.exists_cons_of_ne_nil (List.reverse_ne_nil_iff.mpr hword.ne_nil)
    have hc := hword.chars c (List.mem_reverse.mp (hr ▸ List.mem_cons_self))
    cases w with
    | nil => simp [Cursor.atWordEdge, hw, hr, hc]
    | cons d w =>
        have hd : isWordChar d = false := by simpa using hstops
        simp [Cursor.atWordEdge, hw, hr, hc, hd]

/-- A piece of two texts with a character between them that the piece does not hold lies in one of
the two. -/
lemma piece_cases {c : Char} {a b : List Char} (hw : c ∉ w) (h : u ++ c :: v = a ++ (w ++ b)) :
    (∃ z, u = a ++ (w ++ z) ∧ b = z ++ c :: v) ∨ ∃ z, a = u ++ c :: z ∧ v = z ++ (w ++ b) := by
  rw [← List.append_assoc] at h
  obtain ⟨z, hz, hv⟩ | ⟨z, rfl, rfl⟩ := List.append_eq_append_iff.mp h
  · cases z with
    | nil => exact Or.inl ⟨[], by simpa using hz.symm, hv.symm⟩
    | cons d z =>
        obtain ⟨rfl, rfl⟩ := List.cons.inj hv
        obtain ⟨z', ha, rfl⟩ := exists_append_of_not_mem hw hz
        exact Or.inr ⟨z', ha, by simp⟩
  · exact Or.inl ⟨z, by simp, rfl⟩

/-- What is found in two texts with a sign between them is found in one of them. -/
lemma occursIn_append_sign (hname : name ∈ attributeNames) {c : Char} (hc : c ∉ name.toList)
    (hsign : isWordChar c = false) : (attributeWord name).occursIn (u ++ c :: v)
      = ((attributeWord name).occursIn u || (attributeWord name).occursIn v) := by
  rw [Bool.eq_iff_iff, Bool.or_eq_true]
  simp only [occursIn_attributeWord hname]
  constructor
  · rintro ⟨a, w, htext, hw⟩
    obtain ⟨z, rfl, rfl⟩ | ⟨z, rfl, rfl⟩ := piece_cases hc htext
    · exact Or.inl ⟨a, z, rfl, hw.of_append⟩
    · exact Or.inr ⟨z, w, rfl, hw⟩
  · rintro (⟨a, w, rfl, hw⟩ | ⟨a, w, rfl, hw⟩)
    · exact ⟨a, w ++ c :: v, by simp, hw.append (Text.stops_cons.mpr hsign)⟩
    · exact ⟨u ++ c :: a, w, by simp, hw⟩

/-- An attribute is found in attributes with a literal if it is found before the literal, in it or
behind it. -/
theorem occursIn_quoted (hname : name ∈ attributeNames) :
    (attributeWord name).occursIn (x ++ (quoted s ++ y)) = ((attributeWord name).occursIn x ||
      (attributeWord name).occursIn s || (attributeWord name).occursIn y) := by
  have hquote : isWordChar '"' = false := by decide
  rw [quoted_append, occursIn_append_sign hname (not_quote_mem hname) hquote,
    occursIn_append_sign hname (not_quote_mem hname) hquote, Bool.or_assoc]

/-! ### Openings -/

/-- A relation up to the parenthesis of its arguments. -/
def relationOpening : Pattern := lit "@relation" ++ blanks ++ char '('

/-- A named list up to its bracket. -/
def listOpening (name : String) : Pattern := lit name ++ blanks ++ char ':' ++ blanks ++ char '['

/-- The names of the lists in the arguments of a relation. -/
def listNames : List String := ["fields", "references"]

/-- What an opening opens is not closed in the text behind it. -/
def leftOpen (opening : Pattern) (close : Char) : Pattern :=
  opening ++ .many (· != close) ++ .textEnd

lemma occursIn_leftOpen {opening : Pattern} {close : Char} (hfree : opening.isFree = true) :
    (leftOpen opening close).occursIn u = true
      ↔ ∃ v w z, u = v ++ (w ++ z) ∧ opening.Reads [] w [] ∧ close ∉ z := by
  have hchars : ∀ {z : List Char}, (∀ c ∈ z, (c != close) = true) ↔ close ∉ z := by
    intro z
    simp only [bne_iff_ne]
    exact ⟨fun h hmem => h _ hmem rfl, fun h c hc => by rintro rfl; exact h hc⟩
  rw [occursIn_iff_reads]
  constructor
  · rintro ⟨v, _, rest, rfl, _, _, rfl, ⟨w, z, rfl, hw, hz⟩, rfl, hend⟩
    obtain rfl : rest = [] := by simpa using hend
    exact ⟨v, w, z, by simp, reads_of_isFree opening hfree hw _ _, hchars.mp hz⟩
  · rintro ⟨v, w, z, rfl, hw, hz⟩
    refine ⟨v, w ++ z, [], by simp, w ++ z, [], by simp, ⟨w, z, rfl, ?_, hchars.mpr hz⟩, rfl, rfl⟩
    exact reads_of_isFree opening hfree hw _ _

/-- The content of a literal behind attributes is taken neither for an attribute nor, within the
arguments of a relation, for their end or for one of their lists. -/
structure Inert (ahead s : List Char) : Prop where
  names : ∀ name ∈ attributeNames, (attributeWord name).occursIn s = false
  arguments : (leftOpen relationOpening ')').occursIn ahead = true →
    ')' ∉ s ∧ ∀ name ∈ listNames, (listOpening name).occursIn s = false

instance (ahead s : List Char) : Decidable (Inert ahead s) :=
  decidable_of_iff ((∀ name ∈ attributeNames, (attributeWord name).occursIn s = false) ∧
      ((leftOpen relationOpening ')').occursIn ahead = true →
        ')' ∉ s ∧ ∀ name ∈ listNames, (listOpening name).occursIn s = false))
    ⟨fun h => ⟨h.1, h.2⟩, fun h => ⟨h.names, h.arguments⟩⟩

/-- Attributes do not break off within a list of a relation. -/
def BehindLists (ahead : List Char) : Prop :=
  (leftOpen relationOpening ')').occursIn ahead = true →
    ∀ name ∈ listNames, (leftOpen (listOpening name) ']').occursIn ahead = false

instance (ahead : List Char) : Decidable (BehindLists ahead) := inferInstanceAs (Decidable (_ → _))

/-! ### The arguments of a relation -/

/-- A relation needs an opening, and a closing parenthesis behind it. -/
lemma fails_relationForm (h : relationOpening.Fails before u) : relationForm.Fails before u :=
  (h.append _).append _

lemma silent_relationForm (h : Silent relationOpening before u rest) :
    Silent relationForm before u rest := by
  induction u generalizing before with
  | nil => trivial
  | cons c u ih => exact ⟨fails_relationForm h.1, ih h.2⟩

lemma fails_relationForm_of_not_mem (h : ')' ∉ u) : relationForm.Fails before u := by
  rintro w rest rfl hread
  obtain ⟨v, rfl⟩ := endsWith_append_char _ ')' _ _ _ hread
  simp at h

/-- The arguments of a relation in the text behind its opening. -/
def argumentsBehind? (text : List Char) : Option (List Char) :=
  if ')' ∈ text then some (text.takeWhile (· != ')')) else none

lemma argumentsBehind?_of_mem (hu : ')' ∈ u) (v : List Char) :
    argumentsBehind? (u ++ v) = argumentsBehind? u := by
  obtain ⟨a, b, rfl, ha⟩ := List.eq_append_cons_of_mem hu
  have hchars : ∀ c ∈ a, (c != ')') = true := fun c hc => by
    simpa using fun hclose : c = ')' => ha (hclose ▸ hc)
  rw [argumentsBehind?, argumentsBehind?, if_pos hu, if_pos (List.mem_append_left v hu),
    List.append_assoc, Text.takeWhile_append_of_stops hchars (by simp),
    Text.takeWhile_append_of_stops hchars (by simp)]

lemma argumentsBehind?_of_not_mem (hu : ')' ∉ u) (v : List Char) :
    argumentsBehind? (u ++ v) = (argumentsBehind? v).map (u ++ ·) := by
  have hchars : ∀ c ∈ u, (c != ')') = true := fun c hc => by
    simpa using fun hclose : c = ')' => hu (hclose ▸ hc)
  rw [argumentsBehind?, argumentsBehind?, List.takeWhile_append_of_pos hchars]
  simp only [List.mem_append, hu, false_or]
  split <;> rfl

/-- The arguments of a relation stand behind its first opening, up to the first closing
parenthesis. -/
lemma group_find?_relationForm {found : List (List Char × Captures)}
    (h : Finds relationOpening [] u found) :
    (relationForm.find? u).map (·.group 1) = found.head?.bind fun yield =>
      argumentsBehind? yield.1 := by
  cases h with
  | stop hsilent hend =>
      rw [find?_eq_none (silent_relationForm hsilent) (fails_relationForm (by simpa using hend))]
      rfl
  | @found _ v w rest caught found hsilent htakes _ _ =>
      simp only [List.head?_cons, Option.bind_some, argumentsBehind?]
      split
      · next hmem =>
          obtain ⟨a, b, rfl, ha⟩ := List.eq_append_cons_of_mem hmem
          have hchars : ∀ c ∈ a, (c != ')') = true := fun c hc => by
            simpa using fun hclose : c = ')' => ha (hclose ▸ hc)
          have hstops : Stops (· != ')') ([')'] ++ b) := by simp
          have hbehind : ∀ before, (Pattern.group 1 (.many (· != ')')) ++ char ')').Takes before
              (a ++ [')']) b
              [(1, a)] := fun before => ((takes_many hchars hstops).group 1).seq_last takes_char
          have htakes' : relationForm.Takes v.reverse (w ++ (a ++ [')'])) b ([(1, a)] ++ caught) :=
            takes_assoc.mpr (Takes.append (by simpa [relationOpening] using htakes) (hbehind _))
          have hfound := find?_of_silent (silent_relationForm (by simpa using hsilent)) htakes'
          have hparts : v ++ (w ++ (a ++ ')' :: b)) = v ++ ((w ++ (a ++ [')'])) ++ b) := by simp
          rw [hparts, hfound, Text.takeWhile_append_of_stops hchars (by simp)]
          simp [Match.group, Match.group?]
      · next hmem =>
          -- the opening itself holds no closing parenthesis
          have hw : ∀ c ∈ w, c ≠ ')' := ne_of_reads relationOpening (by decide) htakes.reads
          have hnone : ')' ∉ w ++ rest := by
            rw [List.mem_append, not_or]
            exact ⟨fun h => hw _ h rfl, hmem⟩
          have hbehind : Silent relationForm v.reverse (w ++ rest) [] :=
            silent_of_forall fun a c b hab => by
            refine fails_relationForm_of_not_mem fun hclose => hnone ?_
            rw [hab]
            exact List.mem_append_right _ (by simpa using hclose)
          have hsilent' : Silent relationForm [] (v ++ (w ++ rest)) [] :=
            silent_append.mpr ⟨silent_relationForm (by simpa using hsilent), by simpa using hbehind⟩
          rw [find?_eq_none hsilent' (fails_relationForm_of_not_mem (by simp))]
          rfl

/-! ### The lists of a relation -/

lemma listOpening_facts (hname : name ∈ listNames) : (listOpening name).isFree = true ∧
    (listOpening name).nullable = false ∧ (listOpening name).neverReads '"' = true ∧
      (listArgument name).isLed = true ∧ (listArgument name).nullable = false := by
  have hall : ∀ name ∈ listNames, (listOpening name).isFree = true ∧
      (listOpening name).nullable = false ∧
      (listOpening name).neverReads '"' = true ∧ (listArgument name).isLed = true ∧
        (listArgument name).nullable = false := by decide
  exact hall name hname

/-- A list is read from its opening up to the first closing bracket. -/
lemma reads_listArgument (h : (listArgument name).Reads before w rest) :
    ∃ o z, w = o ++ (z ++ [']']) ∧
    (listOpening name).Reads before o (z ++ ']' :: rest) ∧ ']' ∉ z := by
  obtain ⟨_, _, rfl, ⟨_, g', rfl, ⟨_, colon, rfl, ⟨_, g, rfl, ⟨_, n, rfl, ⟨rfl, -⟩, hn⟩, hg⟩,
      hcolon⟩, hg'⟩,
    ⟨_, _, rfl, ⟨bracket, z, rfl, hbracket, hz⟩, c, hc, rfl⟩⟩ := h
  obtain rfl : c = ']' := by simpa using hc
  obtain rfl := reads_lit.mp hn
  refine ⟨name.toList ++ (g ++ (colon ++ (g' ++ bracket))),
    z, by simp, ?_, fun hmem => by simpa using hz _ hmem⟩
  exact ⟨name.toList ++ (g ++ (colon ++ g')),
    bracket, by simp, ⟨name.toList ++ (g ++ colon), g', by simp,
    ⟨name.toList ++ g, colon, by simp, ⟨name.toList, g, rfl, reads_lit.mpr rfl, hg⟩, hcolon⟩,
      hg'⟩, hbracket⟩

/-- Where no list is left open, no list goes on into a literal. -/
lemma staysIn_listArgument (hname : name ∈ listNames)
    (hu : (leftOpen (listOpening name) ']').occursIn u = false) :
    (listArgument name).StaysIn u ('"' :: v) := by
  obtain ⟨hfree, -, hnever, -⟩ := listOpening_facts hname
  rintro before x y rest - ⟨a, rfl⟩ hy hnext hread
  obtain ⟨o, z, hw, ho, hz⟩ := reads_listArgument hread
  obtain ⟨y, c, rfl⟩ := (List.eq_nil_or_concat y).resolve_left hy
  have hfirst : ∃ y', y ++ [c] = '"' :: y' := by
    obtain ⟨d, y', hd⟩ := List.exists_cons_of_ne_nil hy
    rw [List.concat_eq_append] at hd
    rw [List.concat_eq_append, hd] at hnext
    obtain ⟨rfl, -⟩ := List.cons.inj hnext
    exact ⟨y', hd⟩
  obtain ⟨y', hy'⟩ := hfirst
  have hquote : '"' ∉ o := fun hmem => ne_of_reads _ hnever ho '"' hmem rfl
  rw [List.concat_eq_append, hy'] at hw
  obtain ⟨b, rfl, hb⟩ | ⟨b, hnil, -⟩ := piece_cases (a := []) hquote hw
  · -- what the list holds of the first text has no closing bracket
    have hclose : ']' ∉ b := by
      obtain ⟨z', rfl, -⟩ | ⟨z', rfl, hz'⟩ := List.append_eq_append_iff.mp hb.symm
      · exact fun hmem => hz (List.mem_append_left _ hmem)
      · cases z' with
        | nil => simpa using hz
        | cons d z' => simp at hz'
    have hoccurs : (leftOpen (listOpening name) ']').occursIn (a ++ (o ++ b)) = true :=
      (occursIn_leftOpen hfree).mpr ⟨a, o, b, rfl, reads_of_isFree _ hfree ho _ _, hclose⟩
    rw [List.nil_append, hoccurs] at hu
    exact absurd hu (by decide)
  · simp at hnil

/-- No list is read in a literal that holds no opening of one. -/
lemma silent_listArgument (hname : name ∈ listNames) (hs : (listOpening name).occursIn s = false) :
    Silent (listArgument name) before (quoted s) next := by
  obtain ⟨hfree, hnull, hnever, -⟩ := listOpening_facts hname
  have hopening : Silent (listOpening name) before (quoted s) next :=
    silent_between hfree hnull hnever hs
  refine silent_of_forall fun v c x hvx w rest htext hread => ?_
  obtain ⟨o, z, rfl, ho, -⟩ := reads_listArgument hread
  have hfails : (listOpening name).Fails (v.reverse ++ before) (c :: (x ++ next)) := by
    rw [hvx] at hopening
    exact (silent_append.mp hopening).2.1
  exact hfails o (z ++ ']' :: rest) (by simpa using htext) ho

/-- A literal without the opening of a list leaves the list as it is. -/
lemma exists_listedIn (hname : name ∈ listNames)
    (hu : (leftOpen (listOpening name) ']').occursIn u = false) (v : List Char) :
    ∃ names, ∀ s, (listOpening name).occursIn s = false →
      listedIn name (u ++ (quoted s ++ v)) = names := by
  obtain ⟨-, -, -, hled, hnull⟩ := listOpening_facts hname
  obtain ⟨found, hfound⟩ := exists_finds hnull [] u
  obtain ⟨found', hfound'⟩ := exists_finds hnull ['"'] v
  refine ⟨((found ++ found').head?.map fun yield => namesOf ((matchOf yield).group 1)).getD [],
    fun s hs => ?_⟩
  have hbehind : Finds (listArgument name) (u.reverse ++ []) (quoted s ++ v) found' := by
    refine Finds.skip (silent_listArgument hname hs) (hfound'.alike hled hnull ?_)
    simpa [quoted] using alike_cons '"' _ []
  have hall := hfound.append hled (Alike.refl []) (by
    rw [quoted_append]
    exact staysIn_listArgument hname hu) hbehind
  have hfirst := find?_of_finds hall
  have hlisted : ∀ {text : List Char} {yields : List (List Char × Captures)},
      ((listArgument name).find? text).map Match.yield = yields.head? → listedIn name text
        = (yields.head?.map fun yield => namesOf ((matchOf yield).group 1)).getD [] := by
    intro text yields hfind
    rw [← hfind, listedIn]
    cases (listArgument name).find? text <;> rfl
  rw [hlisted hfirst, extend]
  cases found <;> rfl

/-! ### Relations -/

lemma silent_relationOpening (hs : (attributeWord "@relation").occursIn s = false) :
    Silent relationOpening before (quoted s) next := by
  refine silent_between (by decide) (by decide) (by decide) ?_
  by_contra hoccurs
  obtain ⟨v, _, rest, rfl, ⟨_, _, rfl, ⟨n, g, rfl, hn, hg⟩, c, hc, rfl⟩⟩ :=
    occursIn_iff_reads.mp (by simpa using hoccurs)
  obtain rfl : c = '(' := by simpa using hc
  have hbehind : Stops isWordChar (g ++ '(' :: rest) :=
    Text.IsGap.stops hg (fun _ => Text.not_isWordChar_of_isBlank) (by simp; decide)
  have hword : (attributeWord "@relation").occursIn (v ++ ((n ++ g ++ ['(']) ++ rest)) = true :=
    (occursIn_attributeWord (by decide)).mpr
      ⟨v, g ++ '(' :: rest, by simp [reads_lit.mp hn], hbehind⟩
  rw [hs] at hword
  exact absurd hword (by decide)

/-- What is left open in the rest of a text is left open in the text. -/
lemma occursIn_leftOpen_append {opening : Pattern} {close : Char} (hfree : opening.isFree = true)
    (h : (leftOpen opening close).occursIn v = true) (u : List Char) :
    (leftOpen opening close).occursIn (u ++ v) = true := by
  obtain ⟨a, w, z, rfl, hread, hz⟩ := (occursIn_leftOpen hfree).mp h
  exact (occursIn_leftOpen hfree).mpr ⟨u ++ a, w, z, by simp, hread, hz⟩

/-- The lists in the arguments of a relation. -/
def listsIn (arguments : List Char) : List String × List String :=
  (listedIn "fields" arguments, listedIn "references" arguments)

lemma relationLists?_eq {field : Field} {found : List (List Char × Captures)}
    (h : Finds relationOpening [] field.attributes found) :
    field.relationLists?
      = (found.head?.bind fun yield => argumentsBehind? yield.1).map listsIn := by
  rw [← group_find?_relationForm h, Option.map_map]
  rfl

/-- A literal within the arguments of a relation leaves the lists as they are, if it is inert. -/
lemma exists_listsIn (hu : ∀ name ∈ listNames, (leftOpen (listOpening name) ']').occursIn u = false)
    (v : List Char) : ∃ lists, ∀ s, (∀ name ∈ listNames, (listOpening name).occursIn s = false) →
      listsIn (u ++ (quoted s ++ v)) = lists := by
  have hfields : "fields" ∈ listNames := by decide
  have hreferences : "references" ∈ listNames := by decide
  obtain ⟨fields, hfields'⟩ := exists_listedIn hfields (hu _ hfields) v
  obtain ⟨references, hreferences'⟩ := exists_listedIn hreferences (hu _ hreferences) v
  exact ⟨(fields, references), fun s hs =>
    Prod.ext (hfields' s (hs _ hfields)) (hreferences' s (hs _ hreferences))⟩

/-- The parts of the attributes around an inert literal are scanned for relations on their own. -/
lemma relationLists?_quoted {found found' : List (List Char × Captures)}
    (hfound : Finds relationOpening [] x found) (hfound' : Finds relationOpening [] y found')
    (hs : Inert x s) {field : Field} (hfield : field.attributes = x ++ (quoted s ++ y)) :
    field.relationLists? = ((extend (quoted s ++ y) found ++ found').head?.bind fun yield =>
      argumentsBehind? yield.1).map listsIn := by
  refine relationLists?_eq ?_
  rw [hfield]
  refine hfound.append (by decide) (Alike.refl []) ?_ ?_
  · rw [quoted_append]
    exact staysIn_of_neverReads_next (by decide)
  · exact Finds.skip (silent_relationOpening (hs.names _ (by decide)))
      (hfound'.of_isFree (by decide) _)

/-- A literal that stands in the arguments of a relation does not end them. -/
lemma argumentsBehind?_quoted (hv : ')' ∉ v) (hs : ')' ∉ s) (y : List Char) :
    argumentsBehind? (v ++ (quoted s ++ y))
      = (argumentsBehind? y).map fun arguments => v ++ (quoted s ++ arguments) := by
  have hquoted : ')' ∉ quoted s := by simpa [quoted] using hs
  rw [argumentsBehind?_of_not_mem hv, argumentsBehind?_of_not_mem hquoted, Option.map_map]
  rfl

/-- Where the arguments of a relation are left open, no list is left open in them. -/
lemma BehindLists.leftOpen_arguments (hx : BehindLists x)
    (hopen : (leftOpen relationOpening ')').occursIn x = true) (hv : v <:+ x) :
    ∀ name ∈ listNames, (leftOpen (listOpening name) ']').occursIn v = false := by
  obtain ⟨u, rfl⟩ := hv
  intro name hname
  rw [← Bool.not_eq_true]
  intro hoccurs
  have hoccurs' := occursIn_leftOpen_append (listOpening_facts hname).1 hoccurs u
  rw [hx hopen name hname] at hoccurs'
  exact absurd hoccurs' (by decide)

/-- **Relations with literals among their attributes.**  A literal that is inert leaves the lists of
an explicit relation as they are, wherever the relation stands. -/
theorem exists_relationLists?_quoted (hx : BehindLists x) (y : List Char) :
    ∃ lists, ∀ s, Inert x s →
    ∀ field : Field, field.attributes = x ++ (quoted s ++ y) → field.relationLists? = lists := by
  obtain ⟨found, hfound⟩ := exists_finds (q := relationOpening) (by decide) [] x
  obtain ⟨found', hfound'⟩ := exists_finds (q := relationOpening) (by decide) [] y
  cases found with
  | nil =>
      exact ⟨(found'.head?.bind fun yield => argumentsBehind? yield.1).map listsIn,
        fun s hs field hfield => relationLists?_quoted hfound hfound' hs hfield⟩
  | cons yield found =>
      obtain ⟨v, caught⟩ := yield
      have hlists : ∀ s, Inert x s → ∀ field : Field, field.attributes = x ++ (quoted s ++ y) →
          field.relationLists? = (argumentsBehind? (v ++ (quoted s ++ y))).map listsIn :=
        fun s hs field hfield => relationLists?_quoted hfound hfound' hs hfield
      by_cases hv : ')' ∈ v
      · -- the arguments end before the literal
        refine ⟨(argumentsBehind? v).map listsIn, fun s hs field hfield => ?_⟩
        rw [hlists s hs field hfield, argumentsBehind?_of_mem hv]
      · -- the literal stands in the arguments
        obtain ⟨a, w, hsplit, hread⟩ := hfound.exists_reads _ List.mem_cons_self
        have hopen : (leftOpen relationOpening ')').occursIn x = true :=
          (occursIn_leftOpen (by decide)).mpr
          ⟨a, w, v, hsplit, reads_of_isFree _ (by decide) hread _ _, hv⟩
        have hsuffix : v <:+ x := ⟨a ++ w, by rw [hsplit, List.append_assoc]⟩
        cases hy : argumentsBehind? y with
        | none =>
            refine ⟨none, fun s hs field hfield => ?_⟩
            rw [hlists s hs field hfield, argumentsBehind?_quoted hv (hs.arguments hopen).1, hy]
            rfl
        | some arguments =>
            obtain ⟨lists, hin⟩ := exists_listsIn (hx.leftOpen_arguments hopen hsuffix) arguments
            refine ⟨some lists, fun s hs field hfield => ?_⟩
            rw [hlists s hs field hfield, argumentsBehind?_quoted hv (hs.arguments hopen).1, hy,
              Option.map_some, Option.map_some, hin s (hs.arguments hopen).2]

end SchemaReader.ModelFile
