/-
Lists of decorated names.

* `IsBareName`: a name without white space, quotes, brackets, commas, periods and backslashes;
* `IsOptions`: what may follow a name in an entry, words behind white space and groups in
  parentheses;
* `DecoratedName`: a name with its qualifier, its quotes and what follows it, with
  `leadingIdentifier_decorated`: an entry is read as the bare name;
* `ListSlot`, `slotsText`: entries and empty ones with commas between them and white space around
  them;
* `Enclosure`: the brackets around a list, if there are any;
* `identifierList_decorated`: a list of decorated names is read as its bare names.
-/
import SchemaReader.Proofs.Lexical.Splitting

namespace SchemaReader

open Text (IsGap Stops isBlank)

variable {dialect : Dialect} {quoting : Quoting} {body g g' o u v w : List Char}
  {texts : List (List Char)}

/-! ### Names -/

/-- A character of bare names. -/
def isBareChar (c : Char) : Bool :=
  isPlain c && !isBlank c && c != ',' && c != '.' && c != '\\'

/-- A bare name: characters of bare names, at least one. -/
structure IsBareName (w : List Char) : Prop where
  ne_nil : w ≠ []
  chars : ∀ c ∈ w, isBareChar c = true

instance (w : List Char) : Decidable (IsBareName w) :=
  decidable_of_iff (w ≠ [] ∧ ∀ c ∈ w, isBareChar c = true)
    ⟨fun h => ⟨h.1, h.2⟩, fun h => ⟨h.1, h.2⟩⟩

lemma isBareChar_iff {c : Char} : isBareChar c = true ↔
    isPlain c = true ∧ isBlank c = false ∧ c ≠ ',' ∧ c ≠ '.' ∧ c ≠ '\\' := by
  simp [isBareChar, and_assoc]

lemma IsBareName.plain (hw : IsBareName w) : ∀ c ∈ w, isPlain c = true := fun c hc =>
  (isBareChar_iff.mp (hw.chars c hc)).1

/-- What holds of the three quotes holds of every quote. -/
lemma forall_isQuote {P : Char → Prop} (hP : ∀ c ∈ ['"', '\'', Char.ofNat 0x60], P c) :
    ∀ c, isQuote c = true → P c := by
  intro c hc
  refine hP c ?_
  simp only [isQuote, Bool.or_eq_true, beq_iff_eq] at hc
  rcases hc with (rfl | rfl) | rfl <;> decide

/-- What holds of the characters of a bare name and of the two quotes holds of the name in
quotes. -/
lemma IsBareName.forall_mem_around {P : Char → Prop} (hw : IsBareName w)
    (hsquare : quoting ≠ .square) (hbare : ∀ c, isBareChar c = true → P c)
    (hquote : ∀ c, isQuote c = true → P c) : ∀ c ∈ quoting.around w, P c := by
  refine Quoting.forall_mem_around (fun c hc => hbare c (hw.chars c hc)) fun m hm => ?_
  have hmarks : isQuote m.1 = true ∧ isQuote m.2 = true := by
    cases quoting with
    | plain => simp [Quoting.marks?] at hm
    | square => exact absurd rfl hsquare
    | _ =>
        obtain rfl := Option.some.inj hm
        decide
  exact ⟨hquote m.1 hmarks.1, hquote m.2 hmarks.2⟩

/-- A name in quotes stands between commas. -/
lemma IsBareName.whole_around (hw : IsBareName w) (hsquare : quoting ≠ .square) :
    Whole dialect ',' (quoting.around w) := by
  have hchars : ∀ c ∈ w, isPlain c = true ∧ c ≠ ',' := fun c hc =>
    ⟨hw.plain c hc, (isBareChar_iff.mp (hw.chars c hc)).2.2.1⟩
  have hkeeps : ∀ q, isQuote q = true → ∀ c ∈ w, dialect.Keeps q c := fun q hq c hc => by
    obtain ⟨hplain, -, -, -, hbackslash⟩ := isBareChar_iff.mp (hw.chars c hc)
    exact ⟨ne_of_isPlain hplain (by simp [isPlain, hq]), fun _ => hbackslash⟩
  cases quoting with
  | plain => exact whole_of_closed (closed_of_forall hchars)
  | double => exact whole_of_closed (.literal _ (by decide) (hkeeps _ (by decide)))
  | back => exact whole_of_closed (.literal _ (by decide) (hkeeps _ (by decide)))
  | square => exact absurd rfl hsquare

/-! ### What follows a name -/

/-- The brackets of a text match, by counting: no beginning of it closes more than it opens, and the
whole text closes as many as it opens. -/
structure BracketsMatch (text : List Char) : Prop where
  prefix_le : ∀ u, u <+: text → u.countP isClosing ≤ u.countP isOpening
  whole : text.countP isClosing = text.countP isOpening

/-- What may follow a name: words behind white space, and groups in parentheses that hold no quotes
and in which the brackets match. -/
inductive IsOptions : List Char → Prop
  | nil : IsOptions []
  | words {g w rest : List Char} : IsGap g → g ≠ [] → (∀ c ∈ w, isPlain c = true ∧ c ≠ ',') →
      IsOptions rest → IsOptions (g ++ w ++ rest)
  | group {body rest : List Char} : (∀ c ∈ body, isQuote c = false) → BracketsMatch body →
      IsOptions rest → IsOptions ('(' :: (body ++ [')']) ++ rest)

lemma unquoted_of_not_quote (hu : ∀ c ∈ u, isQuote c = false) :
    unquoted dialect .outside u = u := by
  induction u with
  | nil => rfl
  | cons c u ih =>
      rw [List.forall_mem_cons] at hu
      have hcovers : Literal.outside.covers c = false := hu.1
      rw [unquoted, hcovers, if_neg Bool.false_ne_true,
        (Literal.step_of_not_covers dialect hcovers).2.2, ih hu.2]

/-- Where there are no quotes, brackets match in every dialect or in none. -/
lemma bracketsMatch_iff (hquote : ∀ c ∈ body, isQuote c = false) :
    BracketsMatch body ↔ Balanced dialect body := by
  have hcount : ∀ u, u <+: body →
      closings dialect u = u.countP isClosing ∧ openings dialect u = u.countP isOpening := by
    intro u hu
    rw [closings, openings, unquoted_of_not_quote fun c hc => hquote c (hu.subset hc)]
    exact ⟨rfl, rfl⟩
  obtain ⟨hclosings, hopenings⟩ := hcount body (List.prefix_refl body)
  rw [← matched_iff_balanced]
  constructor
  · refine fun h => ⟨fun u hu => ?_, ?_, Literal.after_of_not_quote hquote⟩
    · rw [(hcount u hu).1, (hcount u hu).2]
      exact h.prefix_le u hu
    · rw [hclosings, hopenings, h.whole]
  · refine fun h => ⟨fun u hu => ?_, ?_⟩
    · rw [← (hcount u hu).1, ← (hcount u hu).2]
      exact h.prefix_le u hu
    · rw [← hclosings, ← hopenings, h.whole]

namespace IsOptions

lemma whole (h : IsOptions o) : Whole dialect ',' o := by
  have hcomma : isPlain ',' = true := by decide
  induction h with
  | nil => exact whole_of_closed (.nil _)
  | words hg _ hw _ ih =>
      exact ((whole_gap hg).append hcomma (whole_of_closed (closed_of_forall hw))).append hcomma ih
  | group hquote hmatch _ ih =>
      exact (((bracketsMatch_iff hquote).mp hmatch).whole_bracket (by decide)
        (by decide)).append hcomma ih

/-- The first word of an entry ends where its options begin. -/
lemma stops (h : IsOptions o) : Stops (fun c => !endsFirstWord c) o := by
  cases h with
  | nil => exact Text.stops_nil
  | words hg hne _ _ =>
      rw [List.append_assoc]
      exact hg.stops_of_ne_nil hne (fun c hc => by simp [endsFirstWord, hc]) _
  | group _ _ _ => simp [endsFirstWord]

end IsOptions

/-! ### Decorated names -/

/-- A name as it can be written in a list. -/
structure DecoratedName where
  /-- The quoting and the name of the qualifier. -/
  qualifier : Option (Quoting × List Char)
  quoting : Quoting
  bare : List Char
  /-- What follows the name. -/
  options : List Char
  deriving DecidableEq, Repr

namespace DecoratedName

/-- The name with its qualifier, both in their quotes. -/
def nameText (name : DecoratedName) : List Char :=
  match name.qualifier with
  | none => name.quoting.around name.bare
  | some (quoting, word) => quoting.around word ++ '.' :: name.quoting.around name.bare

/-- A decorated name as it stands in a list. -/
def text (name : DecoratedName) : List Char := name.nameText ++ name.options

/-- Bare names, plain or between quotes, and options behind them. -/
structure Proper (name : DecoratedName) : Prop where
  bare : IsBareName name.bare
  quoting : name.quoting ≠ .square
  qualifier : ∀ q ∈ name.qualifier, q.1 ≠ .square ∧ IsBareName q.2
  options : IsOptions name.options

variable {name : DecoratedName}

namespace Proper

/-- What holds of the characters of bare names, of quotes and of the period holds of all characters
of a name with its qualifier. -/
lemma forall_mem_nameText {P : Char → Prop} (h : name.Proper)
    (hbare : ∀ c, isBareChar c = true → P c)
    (hquote : ∀ c, isQuote c = true → P c) (hperiod : P '.') : ∀ c ∈ name.nameText, P c := by
  have hname := h.bare.forall_mem_around h.quoting hbare hquote
  cases hqualifier : name.qualifier with
  | none => rwa [nameText, hqualifier]
  | some q =>
      obtain ⟨hsquare, hword⟩ := h.qualifier q hqualifier
      rw [nameText, hqualifier, List.forall_mem_append, List.forall_mem_cons]
      exact ⟨hword.forall_mem_around hsquare hbare hquote, hperiod, hname⟩

/-- A name with its qualifier is part of the first word of its entry. -/
lemma not_endsFirstWord (h : name.Proper) : ∀ c ∈ name.nameText, endsFirstWord c = false := by
  refine h.forall_mem_nameText (fun c hc => ?_) (forall_isQuote (by decide)) (by decide)
  obtain ⟨hplain, hblank, -⟩ := isBareChar_iff.mp hc
  have hparenthesis : c ≠ '(' := ne_of_isPlain hplain (by decide)
  simp [endsFirstWord, hblank, hparenthesis]

lemma not_isBlank (h : name.Proper) : ∀ c ∈ name.nameText, isBlank c = false := fun c hc =>
  (Bool.or_eq_false_iff.mp (h.not_endsFirstWord c hc)).1

lemma not_isOpening (h : name.Proper) : ∀ c ∈ name.nameText, isOpening c = false :=
  h.forall_mem_nameText (fun _ hc => (isPlain_iff.mp (isBareChar_iff.mp hc).1).2.1)
    (forall_isQuote (by decide)) (by decide)

lemma nameText_ne_nil (h : name.Proper) : name.nameText ≠ [] := by
  have hname : name.quoting.around name.bare ≠ [] := Quoting.around_ne_nil h.bare.ne_nil
  cases hqualifier : name.qualifier with
  | none => rwa [nameText, hqualifier]
  | some q =>
      rw [nameText, hqualifier]
      exact List.append_ne_nil_of_right_ne_nil _ (List.cons_ne_nil _ _)

lemma whole_text (h : name.Proper) : Whole dialect ',' name.text := by
  have hcomma : isPlain ',' = true := by decide
  have hname : Whole dialect ',' (name.quoting.around name.bare) := h.bare.whole_around h.quoting
  refine Whole.append hcomma ?_ h.options.whole
  cases hqualifier : name.qualifier with
  | none => rwa [nameText, hqualifier]
  | some q =>
      obtain ⟨hsquare, hword⟩ := h.qualifier q hqualifier
      have hperiod : Whole dialect ',' ['.'] := whole_of_closed (.plain (by decide) (by decide))
      rw [nameText, hqualifier]
      exact (hword.whole_around hsquare).append hcomma (hperiod.append hcomma hname)

/-- The bare name of a name with its qualifier. -/
lemma cleanIdentifier_nameText (h : name.Proper) : cleanIdentifier name.nameText = name.bare := by
  have hperiod : ∀ c ∈ name.quoting.around name.bare, (c == '.') = false :=
    h.bare.forall_mem_around h.quoting (fun c hc => by simpa using (isBareChar_iff.mp hc).2.2.2.1)
      (forall_isQuote (by decide))
  have hlast : Text.lastSegment (· == '.') name.nameText = name.quoting.around name.bare := by
    cases hqualifier : name.qualifier with
    | none =>
        rw [nameText, hqualifier]
        exact lastSegment_of_forall hperiod
    | some q =>
        rw [nameText, hqualifier]
        exact lastSegment_append rfl hperiod
  have hblank : ∀ c ∈ name.quoting.around name.bare, isBlank c = false := by
    intro c hc
    refine h.not_isBlank c ?_
    cases hqualifier : name.qualifier <;> simp [nameText, hqualifier, hc]
  rw [cleanIdentifier, Text.trim_of_forall h.not_isBlank, hlast, Text.trim_of_forall hblank,
    Quoting.trimWhere_around h.bare.plain h.bare.ne_nil]

end Proper

end DecoratedName

/-- The first word of a trimmed text, if what follows it does not go on with it. -/
lemma firstSegment_trim (hu : ∀ c ∈ u, endsFirstWord c = false) (hne : u ≠ [])
    (hv : Stops (fun c => !endsFirstWord c) v) :
    Text.firstSegment endsFirstWord (Text.trim (u ++ v)) = u := by
  have hblank : ∀ c ∈ u, isBlank c = false := fun c hc => (Bool.or_eq_false_iff.mp (hu c hc)).1
  have hstart : Stops isBlank u := fun c hc => hblank c (List.mem_of_mem_head? hc)
  have hend : Stops isBlank u.reverse := fun c hc =>
    hblank c (List.mem_reverse.mp (List.mem_of_mem_head? hc))
  obtain ⟨v', g, rfl, hg, hv'⟩ := Text.exists_gap_behind v
  have hstop : Stops isBlank (u ++ v').reverse := by
    rw [List.reverse_append]
    exact hv'.append hend
  have hword : ∀ c ∈ u, (!endsFirstWord c) = true := by simpa using hu
  rw [← List.append_assoc, Text.trim_append_gap hg, Text.trim,
    Text.trimWhere_self (hstart.append_of_ne_nil hne v') hstop, Text.firstSegment,
    Text.takeWhile_append_of_stops hword hv.of_append]

/-- A decorated name is read as the bare name. -/
theorem leadingIdentifier_decorated {name : DecoratedName} (h : name.Proper) :
    leadingIdentifier name.text = name.bare := by
  rw [leadingIdentifier, DecoratedName.text,
    firstSegment_trim h.not_endsFirstWord h.nameText_ne_nil h.options.stops,
    h.cleanIdentifier_nameText]

/-! ### Lists of decorated names -/

/-- A place between the commas of a list: white space around an entry, or white space alone. -/
structure ListSlot where
  before : List Char
  entry : Option DecoratedName
  behind : List Char
  deriving DecidableEq, Repr

namespace ListSlot

/-- A place as it stands in a list. -/
def text (slot : ListSlot) : List Char :=
  slot.before ++ (slot.entry.elim [] DecoratedName.text ++ slot.behind)

/-- The bare name of the entry, if there is one. -/
def name? (slot : ListSlot) : Option (List Char) := slot.entry.map DecoratedName.bare

/-- White space around a proper entry. -/
structure Proper (slot : ListSlot) : Prop where
  before : IsGap slot.before
  behind : IsGap slot.behind
  entry : ∀ name ∈ slot.entry, name.Proper

end ListSlot

/-- The text of a list, without brackets around it. -/
def slotsText (slots : List ListSlot) : List Char := Text.joinWith [','] (slots.map ListSlot.text)

/-- What stands around a list. -/
inductive Enclosure where
  | bare
  /-- Parentheses. -/
  | round
  /-- Square brackets. -/
  | square
  deriving DecidableEq, Repr

/-- A list with what stands around it. -/
def Enclosure.around : Enclosure → List Char → List Char
  | .bare, list => list
  | .round, list => '(' :: (list ++ [')'])
  | .square, list => '[' :: (list ++ [']'])

/-- The bare names of what stands between the commas of a text. -/
def namesBetween (dialect : Dialect) (list : List Char) : List (List Char) :=
  ((splitTopLevel dialect ',' list).map leadingIdentifier).filter fun name => !name.isEmpty

variable {slot : ListSlot} {slots : List ListSlot} {enclosure : Enclosure}

lemma identifierList_eq_namesBetween (text : List Char) : identifierList dialect text
    = namesBetween dialect (withoutOuterBrackets (Text.trim text)) := rfl

lemma namesBetween_trim (list : List Char) :
    namesBetween dialect (Text.trim list) = namesBetween dialect list := by
  rw [namesBetween, splitTopLevel_trim, namesBetween]

lemma leadingIdentifier_trim (t : List Char) :
    leadingIdentifier (Text.trim t) = leadingIdentifier t := by
  rw [leadingIdentifier, Text.trim_trim, leadingIdentifier]

/-- What is not cut has one name, or none. -/
lemma namesBetween_of_whole (hu : Whole dialect ',' u) : namesBetween dialect u
    = [leadingIdentifier u].filter fun name => !name.isEmpty := by
  rw [namesBetween, splitTopLevel, hu.pieces, List.map_singleton, ← leadingIdentifier_trim u]
  by_cases htrim : Text.trim u = []
  · rw [htrim]
    rfl
  · simp [htrim]

/-- Texts with commas between them have the names of each of them. -/
lemma namesBetween_joinWith (h : ∀ t ∈ texts, Whole dialect ',' t) :
    namesBetween dialect (Text.joinWith [','] texts)
      = (texts.map leadingIdentifier).filter fun name => !name.isEmpty := by
  induction texts with
  | nil => rfl
  | cons t texts ih =>
      rw [List.forall_mem_cons] at h
      cases texts with
      | nil =>
          rw [Text.joinWith_singleton, List.map_singleton]
          exact namesBetween_of_whole h.1
      | cons u texts =>
          rw [Text.joinWith_cons_cons, List.append_assoc, List.singleton_append, namesBetween,
            splitTopLevel_append_separator h.1.balanced (by decide), List.map_append,
            List.filter_append, ← namesBetween, ← namesBetween, namesBetween_of_whole h.1, ih h.2,
            ← List.filter_append]
          rfl

namespace ListSlot.Proper

lemma whole (h : slot.Proper) : Whole dialect ',' slot.text := by
  have hcomma : isPlain ',' = true := by decide
  have hentry : Whole dialect ',' (slot.entry.elim [] DecoratedName.text) := by
    cases hslot : slot.entry with
    | none => exact whole_of_closed (.nil _)
    | some name => exact (h.entry name hslot).whole_text
  exact (whole_gap h.before).append hcomma (hentry.append hcomma (whole_gap h.behind))

/-- A place is read as the name of its entry. -/
lemma leadingIdentifier_text (h : slot.Proper) :
    leadingIdentifier slot.text = slot.name?.getD [] := by
  rw [ListSlot.text, ← leadingIdentifier_trim, Text.trim_gap_append h.before,
    Text.trim_append_gap h.behind, leadingIdentifier_trim, ListSlot.name?]
  cases hslot : slot.entry with
  | none => rfl
  | some name => exact leadingIdentifier_decorated (h.entry name hslot)

/-- No bare name is empty. -/
lemma name?_ne_nil (h : slot.Proper) : ∀ name ∈ slot.name?, name ≠ [] := by
  intro name hname
  obtain ⟨entry, hentry, rfl⟩ := Option.map_eq_some_iff.mp hname
  exact (h.entry entry hentry).bare.ne_nil

end ListSlot.Proper

/-- A list of decorated names has their bare names. -/
lemma namesBetween_slotsText (h : ∀ slot ∈ slots, slot.Proper) :
    namesBetween dialect (slotsText slots) = slots.filterMap ListSlot.name? := by
  rw [slotsText,
    namesBetween_joinWith (List.forall_mem_map.mpr fun slot hslot =>
      (h slot hslot).whole), List.map_map]
  induction slots with
  | nil => rfl
  | cons slot slots ih =>
      rw [List.forall_mem_cons] at h
      rw [List.map_cons, Function.comp_apply, h.1.leadingIdentifier_text]
      cases hname : slot.name? with
      | none =>
          rw [List.filterMap_cons_none hname]
          exact ih h.2
      | some name =>
          have hne : name ≠ [] := h.1.name?_ne_nil name hname
          rw [List.filterMap_cons_some hname, List.filter_cons_of_pos (by simpa using hne), ih h.2]
          rfl

/-! ### Brackets around lists of decorated names -/

/-- A list without brackets around it begins with none, up to white space. -/
lemma exists_front (h : ∀ slot ∈ slots, slot.Proper) : ∃ g rest, slotsText slots = g ++ rest ∧
    IsGap g ∧ Stops isBlank rest ∧ Stops isOpening rest := by
  cases slots with
  | nil => exact ⟨[], [], rfl, Text.isGap_nil, Text.stops_nil, Text.stops_nil⟩
  | cons slot slots =>
      rw [List.forall_mem_cons] at h
      obtain ⟨tail, htext, hblank, hopening⟩ :
          ∃ tail, slotsText (slot :: slots) = slot.text ++ tail ∧
          Stops isBlank tail ∧ Stops isOpening tail := by
        cases slots with
        | nil =>
            exact ⟨[], by simp [slotsText, Text.joinWith_singleton], Text.stops_nil, Text.stops_nil⟩
        | cons next slots =>
            refine ⟨',' :: slotsText (next :: slots), ?_, by simp; decide, by simp; decide⟩
            simp [slotsText, Text.joinWith_cons_cons]
      cases hslot : slot.entry with
      | none =>
          refine ⟨slot.before ++ slot.behind, tail, by simp [htext, ListSlot.text, hslot],
            List.forall_mem_append.mpr ⟨h.1.before, h.1.behind⟩, hblank, hopening⟩
      | some name =>
          have hname := h.1.entry name hslot
          refine ⟨slot.before, name.nameText ++ (name.options ++ (slot.behind ++ tail)),
            by simp [htext, ListSlot.text, hslot, DecoratedName.text], h.1.before, ?_, ?_⟩
          · exact Stops.append_of_ne_nil (fun c hc =>
              hname.not_isBlank c (List.mem_of_mem_head? hc))
              hname.nameText_ne_nil _
          · exact Stops.append_of_ne_nil (fun c hc =>
              hname.not_isOpening c (List.mem_of_mem_head? hc))
              hname.nameText_ne_nil _

lemma withoutOuterBrackets_slotsText (h : ∀ slot ∈ slots, slot.Proper) :
    withoutOuterBrackets (Text.trim (slotsText slots)) = Text.trim (slotsText slots) := by
  obtain ⟨g, rest, htext, hg, hblank, hopening⟩ := exists_front h
  have hstops : Stops isOpening (Text.trim (slotsText slots)) := by
    rw [htext, Text.trim_gap_append hg]
    exact Text.stops_trim hblank hopening
  have hne : ∀ d, isOpening d = true → Stops (· == d) (Text.trim (slotsText slots)) := by
    intro d hd c hc
    simp only [beq_eq_false_iff_ne]
    rintro rfl
    simp [hstops c hc] at hd
  exact withoutOuterBrackets_self (hne '(' (by decide)) (Or.inl (hne '[' (by decide)))

/-- Brackets around a list are taken off. -/
lemma withoutOuterBrackets_around (henclosure : enclosure ≠ .bare) (hg : IsGap g) (hg' : IsGap g')
    (list : List Char) :
    withoutOuterBrackets (Text.trim (g ++ (enclosure.around list ++ g'))) = list := by
  have htrim : Text.trim (g ++ (enclosure.around list ++ g')) = enclosure.around list := by
    cases enclosure with
    | bare => exact absurd rfl henclosure
    | _ =>
        exact Text.trim_gaps hg hg' (by simp [Enclosure.around]; decide)
          (by simp [Enclosure.around]; decide) (List.cons_ne_nil _ _)
  rw [htrim]
  cases enclosure with
  | bare => exact absurd rfl henclosure
  | _ => simp [Enclosure.around, withoutOuterBrackets]

/-- **A list of decorated names is read as its bare names**, in their order and in every dialect:
names with or without a qualifier, each of the two plain or in quotes, with options behind them,
between commas with any white space and any empty places among them, bare or in parentheses or
square brackets. -/
theorem identifierList_decorated (dialect : Dialect) (enclosure : Enclosure)
    (hslots : ∀ slot ∈ slots, slot.Proper) (hg : IsGap g) (hg' : IsGap g') :
    identifierList dialect (g ++ (enclosure.around (slotsText slots) ++ g'))
      = slots.filterMap ListSlot.name? := by
  rw [identifierList_eq_namesBetween]
  by_cases henclosure : enclosure = .bare
  · subst henclosure
    rw [Enclosure.around, Text.trim_gap_append hg, Text.trim_append_gap hg',
      withoutOuterBrackets_slotsText hslots, namesBetween_trim, namesBetween_slotsText hslots]
  · rw [withoutOuterBrackets_around henclosure hg hg', namesBetween_slotsText hslots]

/-- A qualified name in quotes with commas and brackets in its options, an empty place, and a name
with a word behind it. -/
def sampleSlots : List ListSlot :=
  [⟨[' '], some ⟨some (.plain, "users".toList), .double, "email".toList,
      "(sort: Desc, ops: [a, b]) NULLS LAST".toList⟩, []⟩,
    ⟨['\t'], none, []⟩,
    ⟨['\n'], some ⟨none, .plain, "author-id".toList, " DESC".toList⟩, [' ']⟩]

lemma proper_sampleSlots : ∀ slot ∈ sampleSlots, slot.Proper := by
  have hlast : IsOptions " NULLS LAST".toList :=
    .words (g := [' ']) (w := "NULLS LAST".toList) (by decide) (by decide) (by decide) .nil
  have hgroup : IsOptions "(sort: Desc, ops: [a, b]) NULLS LAST".toList :=
    have hquote : ∀ c ∈ "sort: Desc, ops: [a, b]".toList, isQuote c = false := by decide
    have hbalanced : Balanced .code "sort: Desc, ops: [a, b]".toList := by decide
    .group hquote ((bracketsMatch_iff hquote).mpr hbalanced) hlast
  have hword : IsOptions " DESC".toList :=
    .words (g := [' ']) (w := "DESC".toList) (by decide) (by decide) (by decide) .nil
  intro slot hslot
  simp only [sampleSlots, List.mem_cons, List.not_mem_nil, or_false] at hslot
  rcases hslot with rfl | rfl | rfl
  · refine ⟨by decide, by decide, fun name hname => ?_⟩
    obtain rfl := Option.some.inj hname
    exact ⟨by decide, by decide, by decide, hgroup⟩
  · exact ⟨by decide, by decide, by simp⟩
  · refine ⟨by decide, by decide, fun name hname => ?_⟩
    obtain rfl := Option.some.inj hname
    exact ⟨by decide, by decide, by decide, hword⟩

/-- They are read alike in both dialects, without brackets and in either kind of them. -/
theorem identifierList_decorated_sampleSlots : (∀ slot ∈ sampleSlots, slot.Proper) ∧
    slotsText sampleSlots
      = " users.\"email\"(sort: Desc, ops: [a, b]) NULLS LAST,\t,\nauthor-id DESC ".toList ∧
    sampleSlots.filterMap ListSlot.name? = ["email".toList, "author-id".toList] ∧
    identifierList .code ([' '] ++ (Enclosure.bare.around (slotsText sampleSlots) ++ ['\n']))
      = ["email".toList, "author-id".toList] ∧
    identifierList .code ([] ++ (Enclosure.square.around (slotsText sampleSlots) ++ []))
      = ["email".toList, "author-id".toList] ∧
    identifierList .script ([' '] ++ (Enclosure.round.around (slotsText sampleSlots) ++ [' ']))
      = ["email".toList, "author-id".toList] := by
  have hnames : sampleSlots.filterMap ListSlot.name? = ["email".toList, "author-id".toList] := by
    decide
  refine ⟨proper_sampleSlots, by decide, hnames, ?_, ?_, ?_⟩
  · rw [← hnames]
    exact identifierList_decorated .code .bare proper_sampleSlots (by decide) (by decide)
  · rw [← hnames]
    exact identifierList_decorated .code .square proper_sampleSlots (by decide) (by decide)
  · rw [← hnames]
    exact identifierList_decorated .script .round proper_sampleSlots (by decide) (by decide)

end SchemaReader
