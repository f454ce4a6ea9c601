/-
Chains of method calls.

* `Link`: a method call in a chain, as it is written, with `chainText`;
* `map_captures_find?_chainText`: each call that is looked for in a chain is found link by link;
* `ofChain_insert`, `ofChain_append`: a link, or a text behind the last one, in which none of these
  calls is found changes nothing about the column;
* `ChainedColumn`: a column before its chain, with `ChainedColumn.Proper.ofText_text`.
-/
import SchemaReader.Proofs.Common.TableModule
import SchemaReader.Proofs.Lexical.Separated
import SchemaReader.Proofs.Pattern.Borders

namespace SchemaReader.TableModule

open Pattern
open Text (IsWord IsGap Stops isWordChar isBlank)

variable {q : Pattern} {u v z : List Char} {links before after : List Link}

/-! ### Links -/

/-- A method call in a chain: white space, a period and the call up to the parenthesis that closes
it. -/
structure Link where
  gap : List Char
  call : List Char

namespace Link

/-- The text of a link. -/
def text (link : Link) : List Char := link.gap ++ '.' :: (link.call ++ [')'])

/-- A link that closes what it opens and has no comma outside of that. -/
structure Proper (link : Link) : Prop where
  gap : IsGap link.gap
  whole : Whole .code ',' link.text

instance (link : Link) : Decidable link.Proper :=
  decidable_of_iff (IsGap link.gap ∧ Whole .code ',' link.text)
    ⟨fun h => ⟨h.1, h.2⟩, fun h => ⟨h.1, h.2⟩⟩

end Link

/-- Links one after the other. -/
def chainText (links : List Link) : List Char := links.flatMap Link.text

/-- Behind white space, a text begins with a period. -/
def OpensLink (text : List Char) : Prop := ∃ g v, text = g ++ '.' :: v ∧ IsGap g

lemma opensLink_append {link : Link} (h : IsGap link.gap) (v : List Char) :
    OpensLink (link.text ++ v) :=
  ⟨link.gap, link.call ++ ')' :: v, by simp [Link.text], h⟩

lemma chainText_append (before after : List Link) :
    chainText (before ++ after) = chainText before ++ chainText after := List.flatMap_append

lemma chainText_cons (link : Link) (links : List Link) :
    chainText (link :: links) = link.text ++ chainText links := List.flatMap_cons

lemma whole_chainText (h : ∀ link ∈ links, link.Proper) : Whole .code ',' (chainText links) := by
  induction links with
  | nil => decide
  | cons link links ih =>
      rw [List.forall_mem_cons] at h
      rw [chainText_cons]
      exact h.1.whole.append (by decide) (ih h.2)

/-! ### Calls in links -/

/-- The calls that are looked for in a chain. -/
def chainCalls : List Pattern :=
  [methodCall ".notNull", methodCall ".primaryKey", methodCall ".unique", referencesCall]

/-- None of the calls that are looked for in a chain is found in a text. -/
def Mute (text : List Char) : Prop := ∀ q ∈ chainCalls, q.occursIn text = false

instance (text : List Char) : Decidable (Mute text) := inferInstanceAs (Decidable (∀ _ ∈ _, _))

/-- What a reference reads behind its second parenthesis. -/
lemma fails_behind_parentheses {before : List Char} (h : OpensLink v) :
    (blanks ++ (opt (char ':' ++ blanks ++
      many1 (fun c => isWordChar c || c == '<' || c == '>' || c == '[' || c == ']') ++ blanks) ++
        (lit "=>" ++ q))).Fails before v := by
  obtain ⟨g, w, rfl, hg⟩ := h
  refine fails_blanks_append (by rfl) hg (by simp; decide) ?_
  exact fails_opt_append.mpr ⟨(fails_of_stops rfl (by simp; decide)).append _,
    (fails_of_stops rfl (by simp; decide)).append _⟩

/-- No call goes on from one link into the next. -/
theorem staysIn_of_mem_chainCalls (hq : q ∈ chainCalls) (h : OpensLink v) :
    q.StaysIn (u ++ [')']) v := by
  have hmethods : ∀ name ∈ [".notNull", ".primaryKey", ".unique"],
      (methodCall name).StaysIn (u ++ [')']) v := by
    have hnever : ∀ name ∈ [".notNull", ".primaryKey", ".unique"],
        (methodCall name).neverReads ')' = true := by decide
    exact fun name hname => (stopsShort_of_neverReads (hnever name hname)).staysIn v
  have hreferences : referencesCall.StaysIn (u ++ [')']) v := by
    simp only [referencesCall, methodCall, staysIn_assoc]
    -- up to its second closing parenthesis, a reference reads none
    iterate 6 refine StaysIn.append_left ?_ (stopsShort_of_neverReads (by decide))
    refine StaysIn.one_append ?_ fun _ => fails_behind_parentheses h
    exact (stopsShort_of_neverReads (by decide)).staysIn v
  simp only [chainCalls, List.mem_cons, List.not_mem_nil, or_false] at hq
  rcases hq with rfl | rfl | rfl | rfl
  · exact hmethods _ (by decide)
  · exact hmethods _ (by decide)
  · exact hmethods _ (by decide)
  · exact hreferences

lemma chainCalls_free : ∀ q ∈ chainCalls, q.isFree = true ∧ q.isLed = true ∧
    q.nullable = false := by
  decide

/-- A call that is looked for in a chain is found link by link, and then in the text behind. -/
theorem map_captures_find?_chainText (hq : q ∈ chainCalls) (hlinks : ∀ link ∈ links, IsGap link.gap)
    (hz : z = [] ∨ OpensLink z) : (q.find? (chainText links ++ z)).map Match.captures
      = (links.findSome? fun link => (q.find? link.text).map Match.captures).or
          ((q.find? z).map Match.captures) := by
  obtain ⟨hfree, hled, hnull⟩ := chainCalls_free q hq
  induction links with
  | nil => rfl
  | cons link links ih =>
      rw [List.forall_mem_cons] at hlinks
      have hnext : chainText links ++ z = [] ∨ OpensLink (chainText links ++ z) := by
        cases links with
        | nil => exact hz
        | cons l links =>
            have hl := hlinks.2 l List.mem_cons_self
            have hopens := opensLink_append hl (chainText links ++ z)
            exact Or.inr (by simpa [chainText_cons] using hopens)
      have hstays : q.StaysIn link.text (chainText links ++ z) := by
        rcases hnext with hnil | hopens
        · rw [hnil]
          exact staysIn_nil _
        · have htext : link.text = (link.gap ++ '.' :: link.call) ++ [')'] := by simp [Link.text]
          rw [htext]
          exact staysIn_of_mem_chainCalls hq hopens
      rw [chainText_cons, List.append_assoc,
        map_captures_find?_append hfree hled hnull hstays, ih hlinks.2, List.findSome?_cons,
        ← Option.or_assoc]
      cases (q.find? link.text).map Match.captures <;> rfl

/-- The same without a text behind. -/
lemma map_captures_find?_links (hq : q ∈ chainCalls) (hlinks : ∀ link ∈ links, IsGap link.gap) :
    (q.find? (chainText links)).map Match.captures
      = links.findSome? fun link => (q.find? link.text).map Match.captures := by
  have hnone : q.find? [] = none := find?_eq_none trivial (fails_nil (chainCalls_free q hq).2.2)
  have hread := map_captures_find?_chainText hq hlinks (Or.inl rfl)
  rwa [List.append_nil, hnone, Option.map_none, Option.or_none] at hread

lemma map_captures_eq_none (hq : q.occursIn u = false) : (q.find? u).map Match.captures = none := by
  rw [occursIn, Option.isSome_eq_false_iff, Option.isNone_iff_eq_none] at hq
  rw [hq]
  rfl

/-! ### Columns with chains -/

/-- A column is what the calls in its chain say. -/
lemma ofChain_congr {head : Match} (h : ∀ q ∈ chainCalls,
    (q.find? u).map Match.captures = (q.find? v).map Match.captures) :
    ColumnEntry.ofChain head u = ColumnEntry.ofChain head v := by
  have hoccurs : ∀ q ∈ chainCalls, q.occursIn u = q.occursIn v := fun q hq => by
    simpa [occursIn] using congrArg Option.isSome (h q hq)
  have hgroups : ∀ o : Option Match, (o.map fun found =>
      (String.ofList (found.group 1), String.ofList (found.group 2)))
        = (o.map Match.captures).map fun captures =>
            (String.ofList ((captures.lookup 1).getD []),
              String.ofList ((captures.lookup 2).getD [])) :=
    fun o => by
      rw [Option.map_map]
      rfl
  simp only [ColumnEntry.ofChain,
    hoccurs _ (show methodCall ".notNull" ∈ chainCalls by simp [chainCalls]),
    hoccurs _ (show methodCall ".primaryKey" ∈ chainCalls by simp [chainCalls]),
    hoccurs _ (show methodCall ".unique" ∈ chainCalls by simp [chainCalls]), hgroups,
    h _ (show referencesCall ∈ chainCalls by simp [chainCalls])]

/-- A link in which none of the calls is found changes nothing about the column, wherever it
stands. -/
theorem ofChain_insert {head : Match} {link : Link}
    (hlinks : ∀ l ∈ before ++ link :: after, IsGap l.gap)
    (hmute : Mute link.text) : ColumnEntry.ofChain head (chainText (before ++ link :: after))
      = ColumnEntry.ofChain head (chainText (before ++ after)) := by
  refine ofChain_congr fun q hq => ?_
  have hrest : ∀ l ∈ before ++ after, IsGap l.gap := fun l hl => hlinks l (by
    rw [List.mem_append] at hl ⊢
    exact hl.imp_right (List.mem_cons_of_mem link))
  rw [map_captures_find?_links hq hlinks, map_captures_find?_links hq hrest, List.findSome?_append,
    List.findSome?_append, List.findSome?_cons, map_captures_eq_none (hmute q hq)]

/-- Nor does a text behind the chain in which none is found. -/
theorem ofChain_append {head : Match} (hlinks : ∀ l ∈ links, IsGap l.gap) (hz : OpensLink z)
    (hmute : Mute z) : ColumnEntry.ofChain head (chainText links ++ z)
      = ColumnEntry.ofChain head (chainText links) := by
  refine ofChain_congr fun q hq => ?_
  rw [map_captures_find?_chainText hq hlinks (Or.inr hz), map_captures_find?_links hq hlinks,
    map_captures_eq_none (hmute q hq), Option.or_none]

/-- A column before its chain: its key, its function and what the function is called with. -/
structure ChainedColumn where
  key : List Char
  function : List Char
  arguments : List Char

namespace ChainedColumn

/-- `key: function(arguments)` -/
def opening (column : ChainedColumn) : List Char :=
  column.key ++ (": ".toList ++ (column.function ++ '(' :: (column.arguments ++ [')'])))

/-- The text of a column with what follows the call of its function. -/
def text (column : ChainedColumn) (chain : List Char) : List Char := column.opening ++ chain

structure Proper (column : ChainedColumn) : Prop where
  key : IsWord column.key
  function : IsWord column.function
  arguments : Balanced .code column.arguments

instance (column : ChainedColumn) : Decidable column.Proper :=
  decidable_of_iff (IsWord column.key ∧ IsWord column.function ∧ Balanced .code column.arguments)
    ⟨fun h => ⟨h.1, h.2.1, h.2.2⟩, fun h => ⟨h.1, h.2, h.3⟩⟩

/-- The column that is meant with what follows the call of its function. -/
def entry (column : ChainedColumn) (chain : List Char) : ColumnEntry :=
  .ofChain (matchOf ([], [(2, column.function), (1, column.key)])) chain

variable {column : ChainedColumn}

/-- A column is read with its chain. -/
lemma Proper.ofText_text (h : column.Proper) (chain : List Char) :
    Entry.ofText (column.text chain) = .column (column.entry chain) := by
  have htext : column.text chain
      = (column.key ++ ([':'] ++ ([' '] ++ (column.function ++ ['('])))) ++
      (column.arguments ++ ')' :: chain) := by
    simp [text, opening]
  have hfound := find?_of_eq_append htext (takes_columnHead h.key h.function)
  have hclosing : isClosing ')' = true := by decide
  simp only [Entry.ofText, hfound, enclosed?_of_balanced h.arguments hclosing]
  rfl

lemma Proper.whole_opening (h : column.Proper) : Whole .code ',' column.opening := by
  have hword : ∀ {w}, IsWord w → Whole .code ',' w := fun hw =>
    whole_of_closed (IsWord.closed hw fun _ => ne_comma_of_isWordChar)
  have hcall : Whole .code ',' ('(' :: (column.arguments ++ [')'])) :=
    h.arguments.whole_bracket (by decide) (by decide)
  refine (hword h.key).append (by decide) (Whole.append (by decide) (by decide) ?_)
  exact (hword h.function).append (by decide) hcall

end ChainedColumn

end SchemaReader.TableModule
