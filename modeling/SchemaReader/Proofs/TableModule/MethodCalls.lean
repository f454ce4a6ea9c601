/-
Method calls with their arguments.

* `MethodCall`: a call in a chain with its name, its type arguments and its arguments, with
  `MethodCall.toLink`;
* `MethodCall.occursIn_text`: what is looked for in a call is its name, or stands in its arguments;
* `flags_callsText`: the flags of a column are what the calls of its chain ask for;
* `flags_of_alike`: chains of the same calls give the same flags, whatever their arguments are, as
  long as the same is found in these.
-/
import SchemaReader.Proofs.Schema.SameFlags
import SchemaReader.Proofs.TableModule.Draft
import SchemaReader.Proofs.TableModule.TypeArguments

namespace SchemaReader.TableModule

open Pattern
open Text (IsWord IsGap Stops isWordChar isBlank)

variable {q : Pattern} {m : String} {before u v w next rest : List Char} {d : Char}

/-! ### Calls that ask for a flag -/

/-- The methods that ask for a flag of a column. -/
def flagMethods : List String := ["notNull", "primaryKey", "unique"]

/-- The call of a method as it is looked for in a chain. -/
def flagCall (m : String) : Pattern := methodCall ("." ++ m)

lemma flagCall_mem_chainCalls (hm : m ∈ flagMethods) : flagCall m ∈ chainCalls := by
  have hall : ∀ m ∈ flagMethods, flagCall m ∈ chainCalls := by
    simp only [flagMethods, List.forall_mem_cons, List.not_mem_nil,
      IsEmpty.forall_iff, implies_true, and_true]
    exact ⟨by simp [flagCall, chainCalls], by simp [flagCall, chainCalls],
      by simp [flagCall, chainCalls]⟩
  exact hall m hm

lemma isWord_of_mem_flagMethods (hm : m ∈ flagMethods) : IsWord m.toList := by
  have hall : ∀ m ∈ flagMethods, IsWord m.toList := by decide
  exact hall m hm

lemma reads_flagCall : (flagCall m).Reads before w rest
    ↔ ∃ g, IsGap g ∧ w = '.' :: (m.toList ++ (g ++ ['('])) := by
  have hname : ("." ++ m).toList = '.' :: m.toList := by simp
  constructor
  · rintro ⟨_, _, rfl, ⟨x, g, rfl, hx, hg⟩, ⟨c, hc, rfl⟩⟩
    obtain rfl : c = '(' := by simpa using hc
    exact ⟨g, hg, by simp [reads_lit.mp hx, hname]⟩
  · rintro ⟨g, hg, rfl⟩
    exact ⟨'.' :: (m.toList ++ g),
      ['('], by simp, ⟨'.' :: m.toList,
        g, by simp, reads_lit.mpr hname.symm, hg⟩, '(', by decide, rfl⟩

/-- The call of a method is found where its name stands between a period and a parenthesis. -/
lemma occursIn_flagCall : (flagCall m).occursIn u = true
    ↔ ∃ v g rest, IsGap g ∧ u = v ++ '.' :: (m.toList ++ (g ++ '(' :: rest)) := by
  rw [occursIn_iff_reads]
  constructor
  · rintro ⟨v, w, rest, rfl, hread⟩
    obtain ⟨g, hg, rfl⟩ := reads_flagCall.mp hread
    exact ⟨v, g, rest, hg, by simp⟩
  · rintro ⟨v, g, rest, hg, rfl⟩
    exact ⟨v, '.' :: (m.toList ++ (g ++ ['('])), rest, by simp, reads_flagCall.mpr ⟨g, hg, rfl⟩⟩

lemma not_occursIn_flagCall (hu : '.' ∉ u ∨ '(' ∉ u) : (flagCall m).occursIn u = false := by
  rw [← Bool.not_eq_true, occursIn_flagCall]
  rintro ⟨v, g, rest, -, rfl⟩
  simp at hu

/-! ### Texts in parts -/

/-- What is found in two texts is found in one of them, if no reading goes on from the first into
the second. -/
lemma occursIn_append (hm : m ∈ flagMethods) (hstays : (flagCall m).StaysIn u v) :
    (flagCall m).occursIn (u ++ v) = ((flagCall m).occursIn u || (flagCall m).occursIn v) := by
  obtain ⟨hfree, hled, hnull⟩ := chainCalls_free _ (flagCall_mem_chainCalls hm)
  have hcaptures := congrArg Option.isSome (map_captures_find?_append hfree hled hnull hstays)
  simpa [Option.isSome_or, occursIn] using hcaptures

lemma neverReads_flagCall (hm : m ∈ flagMethods) (hd : d ∈ [')', '<', '>']) :
    (flagCall m).neverReads d = true := by
  have hall : ∀ m ∈ flagMethods, ∀ d ∈ [')', '<', '>'], (flagCall m).neverReads d = true := by
    decide
  exact hall m hm d hd

/-- Nor does one go on behind a text without a period. -/
lemma staysIn_of_not_mem (hu : '.' ∉ u) : (flagCall m).StaysIn u v := by
  intro before x y rest hx hxu _ _ hread
  obtain ⟨g, -, hw⟩ := reads_flagCall.mp hread
  obtain ⟨c, x, rfl⟩ := List.exists_cons_of_ne_nil hx
  obtain ⟨rfl, -⟩ := List.cons.inj hw
  exact hu (hxu.subset List.mem_cons_self)

/-- Nor behind an opening parenthesis, which ends what is read. -/
lemma staysIn_parenthesis (hm : m ∈ flagMethods) : (flagCall m).StaysIn (u ++ ['(']) v := by
  intro before x y rest hx hxu hy _ hread
  obtain ⟨x, rfl, -⟩ := exists_of_suffix_concat hx hxu
  obtain ⟨y, c, rfl⟩ := (List.eq_nil_or_concat y).resolve_left hy
  obtain ⟨g, hg, hw⟩ := reads_flagCall.mp hread
  -- the parenthesis would stand before the last character
  have hall : (x ++ '(' :: y) ++ [c] = ('.' :: (m.toList ++ g)) ++ ['('] := by simpa using hw
  have hinit : x ++ '(' :: y = '.' :: (m.toList ++ g) := List.append_inj_left' hall rfl
  have hmem : '(' ∈ '.' :: (m.toList ++ g) := hinit ▸ by simp
  rcases List.mem_cons.mp hmem with hdot | hmem
  · exact absurd hdot (by decide)
  · rcases List.mem_append.mp hmem with hname | hgap
    · exact (isWord_of_mem_flagMethods hm).forall_ne (by decide) _ hname rfl
    · exact absurd (hg _ hgap) (by decide)

/-! ### Calls in a chain -/

/-- A character of the name of a method. -/
def isMethodChar (c : Char) : Bool := isWordChar c || c == '$'

/-- A call in a chain: white space, a period, the name of a method, its type arguments if there are
any, white space and the arguments. -/
structure MethodCall where
  gap : List Char
  name : List Char
  types : Option (List Char)
  space : List Char
  arguments : List Char

namespace MethodCall

/-- The type arguments between angle brackets. -/
def typesText : Option (List Char) → List Char
  | none => []
  | some types => '<' :: (types ++ ['>'])

/-- A call up to the parenthesis of its arguments. -/
def opening (call : MethodCall) : List Char :=
  '.' :: (call.name ++ (typesText call.types ++ (call.space ++ ['('])))

def toLink (call : MethodCall) : Link :=
  ⟨call.gap, call.name ++ (typesText call.types ++ (call.space ++ '(' :: call.arguments))⟩

/-- A call whose arguments close what they open, and whose type arguments do so without a comma
outside of brackets. -/
structure Proper (call : MethodCall) : Prop where
  gap : IsGap call.gap
  name : ∀ c ∈ call.name, isMethodChar c = true
  types : ∀ types ∈ call.types, Whole .code ',' types
  space : IsGap call.space
  arguments : Balanced .code call.arguments

instance (call : MethodCall) : Decidable call.Proper :=
  decidable_of_iff (IsGap call.gap ∧ (∀ c ∈ call.name, isMethodChar c = true) ∧
      (∀ types ∈ call.types, Whole .code ',' types) ∧ IsGap call.space ∧
      Balanced .code call.arguments)
    ⟨fun h => ⟨h.1, h.2.1, h.2.2.1, h.2.2.2.1, h.2.2.2.2⟩, fun h => ⟨h.1, h.2, h.3, h.4, h.5⟩⟩

/-- A call asks for a flag: it is the call of the method, or such a call is found in its
arguments. -/
def Asks (call : MethodCall) (m : String) : Prop :=
  (call.name = m.toList ∧ call.types = none) ∨
    (∃ types ∈ call.types, (flagCall m).occursIn types = true) ∨
      (flagCall m).occursIn call.arguments = true

variable {call : MethodCall}

lemma text_toLink (call : MethodCall) :
    call.toLink.text = call.gap ++ (call.opening ++ (call.arguments ++ [')'])) := by
  simp [toLink, Link.text, opening]

lemma plain_of_isMethodChar {c : Char} (hc : isMethodChar c = true) :
    isPlain c = true ∧ c ≠ ',' := by
  rcases Bool.or_eq_true_iff.mp hc with hword | hdollar
  · exact ⟨isPlain_of_isWordChar hword, Text.ne_of_isWordChar hword (by decide)⟩
  · obtain rfl : c = '$' := by simpa using hdollar
    decide

lemma Proper.proper_toLink (h : call.Proper) : call.toLink.Proper where
  gap := h.gap
  whole := by
    have hname : Whole .code ',' call.name :=
      whole_of_closed (closed_of_forall fun c hc => plain_of_isMethodChar (h.name c hc))
    have htypes : Whole .code ',' (typesText call.types) := by
      cases hcase : call.types with
      | none => decide
      | some types =>
          have hclose : Whole .code ',' (types ++ ['>']) :=
            (h.types types hcase).append (by decide) (by decide)
          exact Whole.append (u := ['<']) (by decide) (by decide) hclose
    have harguments : Whole .code ',' ('(' :: (call.arguments ++ [')'])) :=
      h.arguments.whole_bracket (by decide) (by decide)
    have htext : call.toLink.text = call.gap ++ (['.'] ++ (call.name ++ (typesText call.types ++
        (call.space ++ '(' :: (call.arguments ++ [')']))))) := by
      simp [toLink, Link.text]
    rw [htext]
    exact (whole_gap h.gap).append (by decide) (Whole.append (by decide) (by decide)
      (hname.append (by decide) (htypes.append (by decide)
        ((whole_gap h.space).append (by decide) harguments))))

lemma not_mem_of_isGap {g : List Char} (hg : IsGap g) (hd : isBlank d = false) :
    d ∉ g := fun hmem => by
  simp [hg d hmem] at hd

lemma not_mem_name (h : call.Proper) (hd : isMethodChar d = false) : d ∉ call.name := fun hmem => by
  simp [h.name d hmem] at hd

/-- Without type arguments, a call up to its parenthesis is the call of the method of its name. -/
lemma occursIn_opening_of_none (h : call.Proper) (hm : m ∈ flagMethods)
    (htypes : call.types = none) :
    (flagCall m).occursIn call.opening = true ↔ call.name = m.toList := by
  have hopening : call.opening = '.' :: (call.name ++ (call.space ++ ['('])) := by
    simp [opening, htypes, typesText]
  have hstops : ∀ {g rest : List Char}, IsGap g → Stops isMethodChar (g ++ '(' :: rest) := fun hg =>
    hg.stops (fun _ => Text.not_of_isBlank isMethodChar (by decide)) (by simp; decide)
  have hmethod : ∀ c ∈ m.toList, isMethodChar c = true := fun c hc => by
    simp [isMethodChar, (isWord_of_mem_flagMethods hm).chars c hc]
  rw [occursIn_flagCall, hopening]
  constructor
  · rintro ⟨v, g, rest, hg, htext⟩
    -- the only period is the first character
    obtain rfl : v = [] := by
      rw [List.eq_nil_iff_forall_not_mem]
      intro c hc
      obtain ⟨c', v, rfl⟩ := List.exists_cons_of_ne_nil (List.ne_nil_of_mem hc)
      have hbehind : '.' ∈ call.name ++ (call.space ++ ['(']) := by
        rw [List.cons_append, List.cons.injEq] at htext
        rw [htext.2]
        simp
      simp [not_mem_name h (d := '.') (by decide),
        not_mem_of_isGap h.space (d := '.') (by decide)] at hbehind
    have hrest : call.name ++ (call.space ++ ['(']) = m.toList ++ (g ++ '(' :: rest) :=
      (List.cons.inj htext).2
    calc call.name = (call.name ++ (call.space ++ ['('])).takeWhile isMethodChar :=
          (Text.takeWhile_append_of_stops h.name (hstops h.space)).symm
      _ = (m.toList ++ (g ++ '(' :: rest)).takeWhile isMethodChar := by rw [hrest]
      _ = m.toList := Text.takeWhile_append_of_stops hmethod (hstops hg)
  · intro hname
    exact ⟨[], call.space, [], h.space, by simp [hname]⟩

/-- With type arguments, it is found in these. -/
lemma occursIn_opening_of_some (h : call.Proper) (hm : m ∈ flagMethods) {types : List Char}
    (htypes : call.types = some types) :
    (flagCall m).occursIn call.opening = (flagCall m).occursIn types := by
  have hopening : call.opening
      = ('.' :: call.name) ++ ('<' :: ([] ++ (types ++ '>' :: (call.space ++ ['('])))) := by
    simp [opening, htypes, typesText]
  have hname : (flagCall m).occursIn ('.' :: call.name) = false :=
    not_occursIn_flagCall (Or.inr (by simp [not_mem_name h (d := '(') (by decide)]))
  have hspace : (flagCall m).occursIn ('>' :: (call.space ++ ['('])) = false :=
    not_occursIn_flagCall (Or.inl (by simp [not_mem_of_isGap h.space (d := '.') (by decide)]))
  have hbracket : (flagCall m).occursIn ['<'] = false := not_occursIn_flagCall (Or.inl (by decide))
  have hbehind : (flagCall m).occursIn (['<'] ++ (types ++ '>' :: (call.space ++ ['('])))
      = (flagCall m).occursIn types := by
    rw [occursIn_append hm (staysIn_of_not_mem (by decide)),
      occursIn_append hm (staysIn_of_neverReads_next (neverReads_flagCall hm (by decide))),
      hspace, hbracket,
      Bool.or_false, Bool.false_or]
  rw [hopening, occursIn_append hm (staysIn_of_neverReads_next
    (neverReads_flagCall hm (by decide))), hname,
    Bool.false_or]
  exact hbehind

/-- What is looked for is found in a call that asks for it. -/
theorem occursIn_text (h : call.Proper) (hm : m ∈ flagMethods) :
    (flagCall m).occursIn call.toLink.text = true ↔ call.Asks m := by
  have hgap : (flagCall m).occursIn call.gap = false :=
    not_occursIn_flagCall (Or.inl (not_mem_of_isGap h.gap (by decide)))
  have hclose : (flagCall m).occursIn [')'] = false := not_occursIn_flagCall (Or.inl (by decide))
  have hopening : call.opening = ('.' :: (call.name ++ (typesText call.types ++ call.space)))
      ++ ['('] := by
    simp [opening]
  have hstays : (flagCall m).StaysIn call.opening (call.arguments ++ [')']) := by
    rw [hopening]
    exact staysIn_parenthesis hm
  have hparts : (flagCall m).occursIn call.toLink.text
      = ((flagCall m).occursIn call.opening || (flagCall m).occursIn call.arguments) := by
    rw [text_toLink, occursIn_append hm (staysIn_of_not_mem (not_mem_of_isGap h.gap (by decide))),
      occursIn_append hm hstays,
      occursIn_append hm (staysIn_of_neverReads_next (neverReads_flagCall hm (by decide))), hgap,
        hclose,
      Bool.or_false, Bool.false_or]
  rw [hparts, Bool.or_eq_true, Asks]
  cases htypes : call.types with
  | none => simp [occursIn_opening_of_none h hm htypes]
  | some types => simp [occursIn_opening_of_some h hm htypes]

/-- Two calls of the same method, in whose arguments the same is found. -/
structure Alike (call call' : MethodCall) : Prop where
  name : call.name = call'.name
  types : call.types = call'.types
  arguments : ∀ m ∈ flagMethods, (flagCall m).occursIn call.arguments
    = (flagCall m).occursIn call'.arguments

lemma Alike.asks_iff {call' : MethodCall} (h : call.Alike call') (hm : m ∈ flagMethods) :
    call.Asks m ↔ call'.Asks m := by
  rw [Asks, Asks, h.name, h.types, h.arguments m hm]

end MethodCall

/-! ### Flags of columns -/

/-- Calls one after the other. -/
def callsText (calls : List MethodCall) : List Char := chainText (calls.map MethodCall.toLink)

variable {column : ChainedColumn} {calls calls' : List MethodCall}

lemma proper_links (h : ∀ call ∈ calls, call.Proper) :
    ∀ link ∈ calls.map MethodCall.toLink, link.Proper :=
  List.forall_mem_map.mpr fun call hcall => (h call hcall).proper_toLink

/-- What is looked for is found in a chain of which a call asks for it. -/
theorem occursIn_callsText (h : ∀ call ∈ calls, call.Proper) (hm : m ∈ flagMethods) :
    (flagCall m).occursIn (callsText calls) = true ↔ ∃ call ∈ calls, call.Asks m := by
  have hcaptures := congrArg Option.isSome (map_captures_find?_links (flagCall_mem_chainCalls hm)
    fun link hlink => (proper_links h link hlink).gap)
  rw [Option.isSome_map] at hcaptures
  have hlinks : (flagCall m).occursIn (callsText calls) = true
      ↔ ∃ call ∈ calls, (flagCall m).occursIn call.toLink.text = true := by
    rw [occursIn, callsText, hcaptures, List.findSome?_isSome_iff]
    simp [occursIn]
  rw [hlinks]
  exact exists_congr fun call => and_congr_right fun hcall =>
    MethodCall.occursIn_text (h call hcall) hm

lemma flags_entry (column : ChainedColumn) (chain : List Char) :
    (column.entry chain).nullable = !(flagCall "notNull").occursIn chain ∧
    (column.entry chain).primaryKey = (flagCall "primaryKey").occursIn chain ∧
    (column.entry chain).unique = (flagCall "unique").occursIn chain := by
  simp [ChainedColumn.entry, ColumnEntry.ofChain, flagCall]

/-- The flags of a column are what the calls of its chain ask for. -/
theorem flags_callsText (column : ChainedColumn) (h : ∀ call ∈ calls, call.Proper) :
    ((column.entry (callsText calls)).nullable = true ↔ ∀ call ∈ calls, ¬ call.Asks "notNull") ∧
    ((column.entry (callsText calls)).primaryKey = true ↔ ∃ call ∈ calls, call.Asks "primaryKey") ∧
    ((column.entry (callsText calls)).unique = true ↔ ∃ call ∈ calls, call.Asks "unique") := by
  obtain ⟨hnullable, hprimaryKey, hunique⟩ := flags_entry column (callsText calls)
  rw [hnullable, hprimaryKey, hunique, occursIn_callsText h (m := "primaryKey") (by decide),
    occursIn_callsText h (m := "unique") (by decide), Bool.not_eq_true', ← Bool.not_eq_true,
    occursIn_callsText h (m := "notNull") (by decide)]
  simp

/-- Two columns of one name with the same flags. -/
structure ColumnEntry.SameFlags (entry entry' : ColumnEntry) : Prop where
  name : entry.name = entry'.name
  nullable : entry.nullable = entry'.nullable
  primaryKey : entry.primaryKey = entry'.primaryKey
  unique : entry.unique = entry'.unique

/-- Chains of calls that are alike give the same flags. -/
theorem sameFlags_entry (column : ChainedColumn) (h : ∀ call ∈ calls, call.Proper)
    (h' : ∀ call ∈ calls', call.Proper) (halike : List.Forall₂ MethodCall.Alike calls calls') :
    (column.entry (callsText calls)).SameFlags (column.entry (callsText calls')) := by
  have hasks : ∀ {m}, m ∈ flagMethods →
      ((∃ call ∈ calls, call.Asks m) ↔ ∃ call ∈ calls', call.Asks m) := fun {m} hm => by
    clear h h'
    induction halike with
    | nil => rfl
    | cons hcall _ ih => simp only [List.exists_mem_cons_iff, hcall.asks_iff hm, ih]
  have hoccurs : ∀ {m}, m ∈ flagMethods →
      (flagCall m).occursIn (callsText calls) = (flagCall m).occursIn (callsText calls') :=
        fun hm => by
    rw [Bool.eq_iff_iff, occursIn_callsText h hm, occursIn_callsText h' hm]
    exact hasks hm
  obtain ⟨hnullable, hprimaryKey, hunique⟩ := flags_entry column (callsText calls)
  obtain ⟨hnullable', hprimaryKey', hunique'⟩ := flags_entry column (callsText calls')
  refine ⟨rfl, ?_, ?_, ?_⟩
  · rw [hnullable, hnullable', hoccurs (m := "notNull") (by decide)]
  · rw [hprimaryKey, hprimaryKey', hoccurs (m := "primaryKey") (by decide)]
  · rw [hunique, hunique', hoccurs (m := "unique") (by decide)]

/-! ### Flags of tables -/

section Tables

variable {contents contents' : Contents} {table table' : Table} {call call' : TableCall}

/-- Two entries that are alike but for the types of columns and what these point at. -/
inductive Entry.SameFlags : Entry → Entry → Prop
  | refl (entry : Entry) : Entry.SameFlags entry entry
  | column {entry entry' : ColumnEntry} : entry.SameFlags entry' →
      Entry.SameFlags (.column entry) (.column entry')

lemma sameFlags_addEntry {entry entry' : ColumnEntry} (hentry : entry.SameFlags entry')
    (h : table.SameFlags table') : ((Entry.column entry).applyTo contents table).SameFlags
      ((Entry.column entry').applyTo contents' table') := by
  have hcolumn : ∀ r r', Column.flags ⟨entry.name, entry.type, entry.nullable, entry.primaryKey, r⟩
      = Column.flags ⟨entry'.name, entry'.type, entry'.nullable, entry'.primaryKey, r'⟩ :=
        fun r r' => by
    rw [Column.flags, Column.flags, hentry.name, hentry.nullable, hentry.primaryKey]
  simp only [Entry.applyTo, hentry.unique, h.name, hentry.name]
  split
  · exact (h.addColumn (by simpa [hentry.name] using hcolumn _ _)).addIndex _
  · exact h.addColumn (by simpa [hentry.name] using hcolumn _ _)

lemma sameFlags_applyTo {entry entry' : Entry} (hentry : entry.SameFlags entry')
    (h : table.SameFlags table') :
    (entry.applyTo contents table).SameFlags (entry'.applyTo contents' table') := by
  cases hentry with
  | column hentry => exact sameFlags_addEntry hentry h
  | refl =>
      cases entry with
      | column entry => exact sameFlags_addEntry ⟨rfl, rfl, rfl, rfl⟩ h
      | unterminated | unrecognized => exact h

/-- Two calls that make tables of one name, with entries that are alike. -/
structure TableCall.SameFlags (call call' : TableCall) : Prop where
  name : call.name = call'.name
  entries : List.Forall₂ Entry.SameFlags call.entries call'.entries
  callbacks : call.callbacks = call'.callbacks

lemma sameFlags_callback (callback : Callback) (h : table.SameFlags table') :
    (callback.applyTo table).SameFlags (callback.applyTo table') := by
  have hindexes : (callback.indexes.foldl addIndexCall table).SameFlags
      (callback.indexes.foldl addIndexCall table') :=
    Table.SameFlags.foldl addIndexCall (fun index ht => by
      rw [addIndexCall, addIndexCall, ht.name]
      exact ht.addIndex _) callback.indexes h
  exact Table.SameFlags.foldl Table.markPrimaryKey (fun names ht => ht.markPrimaryKey names)
    callback.keys hindexes

/-- Such calls make tables with the same flags, whatever the variables of other tables stand for. -/
lemma sameFlags_tableCall (h : call.SameFlags call') :
    (call.table contents).SameFlags (call'.table contents') := by
  have hentries : ∀ {entries entries' table table'}, List.Forall₂ Entry.SameFlags entries entries' →
      table.SameFlags table' → (entries.foldl (Entry.applyTo contents) table).SameFlags
        (entries'.foldl (Entry.applyTo contents') table') := by
    intro entries entries' table table' hentries ht
    induction hentries generalizing table table' with
    | nil => exact ht
    | cons hentry _ ih => exact ih (sameFlags_applyTo hentry ht)
  rw [TableCall.table, TableCall.table, h.callbacks, h.name]
  exact Table.SameFlags.foldl Callback.applyTo sameFlags_callback _
    (hentries h.entries (.refl _))

/-- Modules of calls that are alike define tables with the same flags. -/
lemma sameFlags_tables (h : List.Forall₂ TableCall.SameFlags contents.tables contents'.tables) :
    List.Forall₂ Table.SameFlags contents.draft.tables contents'.draft.tables := by
  rw [tables_draft, tables_draft]
  refine forall₂_foldl_putTable Table.SameFlags.name ?_ .nil
  rw [List.forall₂_map_left_iff, List.forall₂_map_right_iff]
  exact h.imp fun _ _ hcall => sameFlags_tableCall hcall

end Tables

/-! ### Modules -/

lemma tables_callTexts {texts : List CallText} (h : ∀ call ∈ texts, call.Proper) :
    (Contents.ofText (callTexts texts)).tables = texts.map CallText.read := by
  rw [Contents.tables, ofText_callTexts h]
  simp [List.filterMap_map, Function.comp_def, Except.toOption]

/-- In a module, an entry in the place of another one that has the same flags leaves those of all
tables as they are. -/
theorem ModuleAround.Proper.sameFlags {around : ModuleAround} (h : around.Proper) (hu : IsPiece u)
    (hv : IsPiece v) (hread : List.Forall₂ Entry.SameFlags (entriesIn u) (entriesIn v))
    (rawPath : String) :
    List.Forall₂ Table.SameFlags (Schema.ofText .drizzle (around.textWith u) rawPath).tables
      (Schema.ofText .drizzle (around.textWith v) rawPath).tables := by
  have htables : ∀ text, (Schema.ofText .drizzle text rawPath).tables
      = (Contents.ofText text).draft.tables :=
    fun _ => rfl
  have hrefl : ∀ texts : List CallText, List.Forall₂ TableCall.SameFlags (texts.map CallText.read)
      (texts.map CallText.read) := fun texts =>
    List.forall₂_same.mpr fun call _ => ⟨rfl, List.forall₂_same.mpr fun entry _ => .refl entry, rfl⟩
  have hentries : ∀ entries : List (List Char),
      List.Forall₂ Entry.SameFlags (entries.flatMap entriesIn) (entries.flatMap entriesIn) :=
    fun entries => List.forall₂_same.mpr fun entry _ => .refl entry
  rw [htables, htables]
  refine sameFlags_tables ?_
  rw [ModuleAround.textWith, ModuleAround.textWith, tables_callTexts (h.proper_callsWith hu),
    tables_callTexts (h.proper_callsWith hv), callsWith, callsWith, List.map_append,
    List.map_append,
    List.map_cons, List.map_cons]
  refine List.rel_append (hrefl _) (.cons ⟨rfl, ?_, rfl⟩ (hrefl _))
  rw [CallText.read, CallText.read, List.flatMap_append, List.flatMap_append, List.flatMap_cons,
    List.flatMap_cons]
  exact List.rel_append (hentries _) (List.rel_append hread (hentries _))

/-- **The flags of a column are asked for by calls.**  A column with a chain of calls is read as one
column that is null unless some call asks for `notNull`, and that is part of the primary key or
unique if some call asks for that: a call asks for a flag if it is the call of the method, or if the
call of the method is found in its arguments.  If the arguments of calls are replaced by others in
which the same of these calls are found, so that none is found in both if none was, all tables of
every module around keep their columns with the same flags, and their indexes. -/
theorem flags_of_alike (h : column.Proper) (hcalls : ∀ call ∈ calls, call.Proper) :
    (∃ entry, entriesIn (column.text (callsText calls)) = [.column entry] ∧
      entry.name = String.ofList column.key ∧
      (entry.nullable = true ↔ ∀ call ∈ calls, ¬ call.Asks "notNull") ∧
      (entry.primaryKey = true ↔ ∃ call ∈ calls, call.Asks "primaryKey") ∧
      (entry.unique = true ↔ ∃ call ∈ calls, call.Asks "unique")) ∧
    ∀ calls' : List MethodCall, (∀ call ∈ calls', call.Proper) →
      List.Forall₂ MethodCall.Alike calls calls' →
      ∀ (around : ModuleAround) (rawPath : String), around.Proper →
        IsPiece (column.text (callsText calls)) → IsPiece (column.text (callsText calls')) →
        List.Forall₂ Table.SameFlags
          (Schema.ofText .drizzle (around.textWith (column.text (callsText calls))) rawPath).tables
          (Schema.ofText .drizzle (around.textWith (column.text (callsText calls')))
            rawPath).tables := by
  have hentry := entriesIn_text h (proper_links hcalls)
  refine ⟨⟨_, hentry, rfl, flags_callsText column hcalls⟩, ?_⟩
  intro calls' hcalls' halike around rawPath haround hu hv
  refine haround.sameFlags hu hv ?_ rawPath
  rw [callsText, callsText, hentry, entriesIn_text h (proper_links hcalls')]
  exact .cons (.column (sameFlags_entry column hcalls hcalls' halike)) .nil

/-- `slug: text('slug')` -/
def sampleSlug : ChainedColumn := ⟨"slug".toList, "text".toList, "'slug'".toList⟩

/-- A default value, a function for the values of inserted rows, and that the column is never
null. -/
def defaultCalls (value body : String) : List MethodCall :=
  [⟨[], "default".toList, none, [], value.toList⟩,
    ⟨"\n  ".toList, "$defaultFn".toList, some "string".toList, [], ("() => " ++ body).toList⟩,
    ⟨[], "notNull".toList, none, [], []⟩]

def sampleCalls : List MethodCall := defaultCalls "'a'" "slugify(['b', \x7b\x7d])"

/-- The same calls with arguments in which names of methods stand, but no calls of them. -/
def otherCalls : List MethodCall :=
  defaultCalls "')' + sql.unique" "\x7b return \".primaryKey\"; \x7d"

theorem flags_of_alike_sampleSlug :
    sampleSlug.Proper ∧ (∀ call ∈ sampleCalls, call.Proper) ∧ (∀ call ∈ otherCalls, call.Proper) ∧
    List.Forall₂ Table.SameFlags
      (Schema.ofText .drizzle (sampleAround.textWith (sampleSlug.text (callsText sampleCalls)))
        "a.ts").tables
      (Schema.ofText .drizzle (sampleAround.textWith (sampleSlug.text (callsText otherCalls)))
        "a.ts").tables := by
  have hproper : sampleSlug.Proper := by decide
  have hcalls : ∀ call ∈ sampleCalls, call.Proper := by decide
  have hcalls' : ∀ call ∈ otherCalls, call.Proper := by decide
  have halike : List.Forall₂ MethodCall.Alike sampleCalls otherCalls :=
    .cons ⟨rfl, rfl, by decide⟩ (.cons ⟨rfl, rfl, by decide⟩ (.cons ⟨rfl, rfl, by decide⟩ .nil))
  have hpiece : IsPlainPiece (sampleSlug.text (callsText sampleCalls)) := by decide +kernel
  have hpiece' : IsPlainPiece (sampleSlug.text (callsText otherCalls)) := by decide +kernel
  obtain ⟨-, hreplaced⟩ := flags_of_alike hproper hcalls
  exact ⟨hproper, hcalls, hcalls',
    hreplaced otherCalls hcalls' halike sampleAround "a.ts" proper_sampleAround
    hpiece.isPiece hpiece'.isPiece⟩

/-- What is found in a default value asks for a flag. -/
theorem default_value_asks :
    Schema.ofText .drizzle
      "const t = pgTable('t', \x7b a: text('a').default('.notNull()') \x7d);".toList
        "inline" = ⟨.drizzle, [⟨"t", [⟨"a", "text", false, false, none⟩], []⟩], [], "inline"⟩ ∧
    Schema.ofText .drizzle "const t = pgTable('t', \x7b a: text('a').default('x') \x7d);".toList
      "inline"
      = ⟨.drizzle, [⟨"t", [⟨"a", "text", true, false, none⟩], []⟩], [], "inline"⟩ := by
  decide +kernel

end SchemaReader.TableModule
