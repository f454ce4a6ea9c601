/-
Table modules as they are written, token by token.

* `Token`: a word, a method, a path of two words, a literal, a sign or an arrow, with its text;
* `callWords`: the words whose calls declare something, and `holdsCall`: such a call in a literal;
* `Written`: a text writes tokens one after the other, each followed by white space, if any, but so
  that words do not run together;
* `ClosedTokens`, `Tidy`: the writings of tokens close the brackets that they open;
* `splitTopLevel_of_written`, `enclosed?_of_written`: cutting a written list gives the writings of
  its entries back, and looking for the partner of a bracket what stands before it;
* `forall_mem_of_written`, `uncommented_of_written`: what holds of all characters of written tokens,
  and that they hold no comment.
-/
import SchemaReader.Proofs.Lexical.Comments
import SchemaReader.Proofs.Lexical.Lists
import SchemaReader.TableModule.Module

namespace SchemaReader.TableModule

open Text (IsWord IsGap Stops isWordChar isBlank)

/-! ### Tokens -/

/-- A token of a table module. -/
inductive Token where
  | word (word : String)
  /-- A method of what stands before it, `.word`. -/
  | member (word : String)
  /-- A column of a variable, `t.c`. -/
  | path (binding column : String)
  | literal (quote : Char) (content : String)
  | sign (c : Char)
  /-- `=>` -/
  | arrow
  deriving DecidableEq, Repr

/-- The text of a token. -/
def Token.text : Token → List Char
  | .word w => w.toList
  | .member w => '.' :: w.toList
  | .path t c => t.toList ++ '.' :: c.toList
  | .literal q u => q :: (u.toList ++ [q])
  | .sign c => [c]
  | .arrow => ['=', '>']

/-- The signs of a table module. -/
def moduleSigns : List Char := ['(', ')', '{', '}', '[', ']', ',', ':', ';', '=']

/-- The words whose calls declare something. -/
def callWords : List String :=
  ["pgTable", "mysqlTable", "sqliteTable", "index", "uniqueIndex", "unique", "primaryKey",
   "notNull", "references", "relations", "one", "many"]

/-- Whether a text holds a word with an opening parenthesis behind it, if not directly then behind
white space. -/
def holdsCall (word text : List Char) : Bool :=
  text.tails.any fun v =>
    word.isPrefixOf v && ((v.drop word.length).dropWhile isBlank).head? == some '('

/-- What stands between the quotes of a literal: neither its own quote nor a backslash, and nothing
that looks like a call that declares something. -/
structure IsContent (q : Char) (text : List Char) : Prop where
  isQuote : isQuote q = true
  keeps : ∀ c ∈ text, c ≠ q ∧ c ≠ '\\'
  calls : ∀ word ∈ callWords, holdsCall word.toList text = false

instance (q : Char) (text : List Char) : Decidable (IsContent q text) :=
  decidable_of_iff (SchemaReader.isQuote q = true ∧ (∀ c ∈ text, c ≠ q ∧ c ≠ '\\') ∧
      ∀ word ∈ callWords, holdsCall word.toList text = false)
    ⟨fun h => ⟨h.1, h.2.1, h.2.2⟩, fun h => ⟨h.1, h.2, h.3⟩⟩

/-- Words are words, signs are signs, and literals have contents. -/
def Token.Proper : Token → Prop
  | .word w | .member w => IsWord w.toList
  | .path t c => IsWord t.toList ∧ IsWord c.toList
  | .literal q u => IsContent q u.toList
  | .sign c => c ∈ moduleSigns
  | .arrow => True

instance : (token : Token) → Decidable token.Proper
  | .word w | .member w => inferInstanceAs (Decidable (IsWord w.toList))
  | .path t c => inferInstanceAs (Decidable (IsWord t.toList ∧ IsWord c.toList))
  | .literal q u => inferInstanceAs (Decidable (IsContent q u.toList))
  | .sign c => inferInstanceAs (Decidable (c ∈ moduleSigns))
  | .arrow => isTrue trivial

variable {t : Token} {ts us : List Token} {entries : List (List Token)} {P : Char → Prop}
  {before text rest u v g : List Char} {c o : Char}

lemma sign_facts (h : c ∈ moduleSigns) :
    isWordChar c = false ∧ isBlank c = false ∧ isQuote c = false ∧ c ≠ '/' ∧ c ≠ '.' := by
  have hall : ∀ c ∈ moduleSigns,
      isWordChar c = false ∧ isBlank c = false ∧ isQuote c = false ∧ c ≠ '/' ∧ c ≠ '.' := by decide
  exact hall c h

lemma Token.Proper.ne_nil (h : t.Proper) : t.text ≠ [] := by
  cases t with
  | word w => exact IsWord.ne_nil h
  | path v c => exact List.append_ne_nil_of_right_ne_nil _ (List.cons_ne_nil _ _)
  | member | literal | sign | arrow => exact List.cons_ne_nil _ _

/-- A token neither begins nor ends with white space. -/
lemma Token.Proper.solid (h : t.Proper) : (Piece.verbatim t.text).Solid := by
  rintro _ rfl
  refine ⟨h.ne_nil, ?_⟩
  have hend : ∀ {w x : List Char}, IsWord w → Stops isBlank (x ++ w).reverse := by
    intro w x hw
    rw [List.reverse_append]
    exact (hw.stops_reverse fun _ => Text.not_isBlank_of_isWordChar).append_of_ne_nil
      (List.reverse_ne_nil_iff.mpr hw.ne_nil) _
  cases t with
  | word w => exact ⟨by simpa [Token.text] using IsWord.stops_isBlank h [], hend (x := []) h⟩
  | member w => exact ⟨by simp [Token.text]; decide, hend (x := ['.']) h⟩
  | path v c =>
      refine ⟨h.1.stops_isBlank _, ?_⟩
      have hsplit : (Token.path v c).text = (v.toList ++ ['.']) ++ c.toList := by simp [Token.text]
      rw [hsplit]
      exact hend h.2
  | literal q u =>
      have hq : isBlank q = false := by
        by_contra hblank
        exact absurd h.isQuote
          (by simp [Text.not_isQuote_of_isBlank (Bool.not_eq_false _ ▸ hblank)])
      simp [Token.text, hq]
  | sign c =>
      have hc := (sign_facts h).2.1
      simp [Token.text, hc]
  | arrow => exact ⟨by simp [Token.text]; decide, by simp [Token.text]; decide⟩

lemma Token.Proper.stops_isBlank (h : t.Proper) (rest : List Char) :
    Stops isBlank (t.text ++ rest) :=
  (h.solid _ rfl).2.1.append_of_ne_nil h.ne_nil rest

/-! ### Written tokens -/

/-- A text, which stands before `rest`, writes tokens: one after the other, each followed by white
space, if any, but so that words do not run together. -/
def Written (ts : List Token) (text rest : List Char) : Prop :=
  Writes (ts.map fun t => .verbatim t.text) text rest

@[simp]
lemma written_nil : Written [] text rest ↔ text = [] := Iff.rfl

lemma written_cons : Written (t :: ts) text rest ↔ ∃ g u, text = t.text ++ (g ++ u) ∧ IsGap g ∧
    Parted t.text (g ++ (u ++ rest)) ∧ Written ts u rest := by
  constructor
  · rintro ⟨_, g, u, rfl, rfl, h⟩
    exact ⟨g, u, rfl, h⟩
  · rintro ⟨g, u, rfl, h⟩
    exact ⟨_, g, u, rfl, rfl, h⟩

lemma written_append : Written (ts ++ us) text rest ↔
    ∃ u v, text = u ++ v ∧ Written ts u (v ++ rest) ∧ Written us v rest := by
  rw [Written, List.map_append, writes_append]
  rfl

/-- Tokens between two signs. -/
def bracketed (o c : Char) (ts : List Token) : List Token := .sign o :: (ts ++ [.sign c])

lemma written_bracketed (h : Written (bracketed o c ts) text rest) :
    ∃ g u g', text = o :: (g ++ (u ++ c :: g')) ∧ IsGap g ∧ IsGap g' ∧
      Written ts u (c :: (g' ++ rest)) := by
  obtain ⟨g, _, rfl, hg, -, h⟩ := written_cons.mp h
  obtain ⟨u, _, rfl, hu, h⟩ := written_append.mp h
  obtain ⟨g', _, rfl, hg', -, rfl⟩ := written_cons.mp h
  exact ⟨g, u, g', by simp [Token.text], hg, hg', by simpa [Token.text] using hu⟩

/-! ### Closed tokens -/

/-- All writings of tokens are closed, with only characters of a class outside of brackets and
literals. -/
def ClosedTokens (P : Char → Prop) (ts : List Token) : Prop :=
  ∀ text rest, Written ts text rest → Closed .code P text

lemma closedTokens_nil : ClosedTokens P [] := by
  rintro _ rest rfl
  exact .nil P

lemma ClosedTokens.append (hts : ClosedTokens P ts) (hus : ClosedTokens P us) :
    ClosedTokens P (ts ++ us) := by
  intro text rest h
  obtain ⟨u, v, rfl, hu, hv⟩ := written_append.mp h
  exact (hts u _ hu).append (hus v _ hv)

/-- Whether a token is a bracket. -/
def Token.isBracket : Token → Bool
  | .sign c => isOpening c || isClosing c
  | _ => false

lemma Token.Proper.closed (h : t.Proper) (ht : t.isBracket = false) (hP : ∀ c, c ≠ ',' → P c)
    (hcomma : t = .sign ',' → P ',') : Closed .code P t.text := by
  have hword : ∀ {w}, IsWord w → Closed .code P w := fun hw =>
    IsWord.closed hw fun c hc => hP c (ne_comma_of_isWordChar hc)
  have hperiod : ∀ {w}, IsWord w → Closed .code P ('.' :: w) := fun hw =>
    .cons (by decide) (hP _ (by decide)) (hword hw)
  cases t with
  | word w => exact hword h
  | member w => exact hperiod h
  | path v c => exact (hword h.1).append (hperiod h.2)
  | literal q u =>
      exact .literal P h.isQuote fun c hc => ⟨(h.keeps c hc).1, fun _ => (h.keeps c hc).2⟩
  | sign c =>
      have hplain : isPlain c = true := by
        have hquote := (sign_facts h).2.2.1
        simp only [Token.isBracket, Bool.or_eq_false_iff] at ht
        simp [isPlain, hquote, ht.1, ht.2]
      by_cases hc : c = ','
      · subst hc
        exact .plain hplain (hcomma rfl)
      · exact .plain hplain (hP c hc)
  | arrow =>
      exact .cons (by decide) (hP _ (by decide)) (.plain (by decide) (hP _ (by decide)))

lemma ClosedTokens.cons (ht : t.Proper) (hbracket : t.isBracket = false) (hP : ∀ c, c ≠ ',' → P c)
    (hcomma : t = .sign ',' → P ',') (hts : ClosedTokens P ts) : ClosedTokens P (t :: ts) := by
  intro text rest h
  obtain ⟨g, u, rfl, hg, -, hu⟩ := written_cons.mp h
  refine (ht.closed hbracket hP hcomma).append
    ((IsGap.closed hg fun c hc => ?_).append (hts u _ hu))
  exact hP c (ne_comma_of_isBlank hc)

lemma ClosedTokens.mono {Q : Char → Prop} (hPQ : ∀ c, P c → Q c) (h : ClosedTokens P ts) :
    ClosedTokens Q ts := fun text rest hts => (h text rest hts).mono hPQ

lemma closedTokens_bracketed (ho : isOpening o = true) (hc : isClosing c = true)
    (hP : ∀ c, c ≠ ',' → P c) (h : ClosedTokens (fun _ => True) ts) :
    ClosedTokens P (bracketed o c ts) := by
  intro text rest hts
  obtain ⟨g, u, g', rfl, hg, hg', hu⟩ := written_bracketed hts
  have hbody : Closed .code (fun _ => True) (g ++ u) :=
    (IsGap.closed hg fun _ _ => trivial).append (h u _ hu)
  have hbracket : Closed .code P (o :: ((g ++ u) ++ [c])) := .bracket P ho hc hbody
  simpa using hbracket.append (IsGap.closed hg' fun c hc => hP c (ne_comma_of_isBlank hc))

/-! ### Lists -/

/-- Several entries, with a comma between each two. -/
def commaSeparated : List (List Token) → List Token
  | [] => []
  | [entry] => entry
  | entry :: next :: rest => entry ++ .sign ',' :: commaSeparated (next :: rest)

lemma map_commaSeparated (f : Token → Piece) (hf : f (.sign ',') = .sign ',')
    (entries : List (List Token)) :
    (commaSeparated entries).map f = separated (entries.map (List.map f)) := by
  induction entries with
  | nil => rfl
  | cons entry entries ih =>
      cases entries with
      | nil => rfl
      | cons next entries =>
          rw [commaSeparated, List.map_append, List.map_cons, ih, hf]
          rfl

lemma forall_mem_commaSeparated {Q : Token → Prop} (hcomma : Q (.sign ','))
    (h : ∀ entry ∈ entries, ∀ t ∈ entry, Q t) : ∀ t ∈ commaSeparated entries, Q t := by
  induction entries with
  | nil => simp [commaSeparated]
  | cons entry entries ih =>
      rw [List.forall_mem_cons] at h
      cases entries with
      | nil => exact h.1
      | cons next entries =>
          rw [commaSeparated, List.forall_mem_append, List.forall_mem_cons]
          exact ⟨h.1, hcomma, ih h.2⟩

lemma closedTokens_commaSeparated (h : ∀ entry ∈ entries, ClosedTokens (· ≠ ',') entry) :
    ClosedTokens (fun _ => True) (commaSeparated entries) := by
  induction entries with
  | nil => exact closedTokens_nil
  | cons entry entries ih =>
      rw [List.forall_mem_cons] at h
      have hentry := h.1.mono fun _ _ => trivial
      cases entries with
      | nil => exact hentry
      | cons next entries =>
          exact hentry.append (.cons (by decide) (by decide) (fun _ _ => trivial)
            (fun _ => trivial) (ih h.2))

/-! ### Tidy tokens -/

/-- Proper tokens whose writings close the brackets that they open, with only characters of a class
outside of brackets and literals. -/
structure Tidy (P : Char → Prop) (ts : List Token) : Prop where
  proper : ∀ t ∈ ts, t.Proper
  closed : ClosedTokens P ts

lemma tidy_nil : Tidy P [] := ⟨by simp, closedTokens_nil⟩

lemma Tidy.append (hts : Tidy P ts) (hus : Tidy P us) : Tidy P (ts ++ us) :=
  ⟨List.forall_mem_append.mpr ⟨hts.proper, hus.proper⟩, hts.closed.append hus.closed⟩

/-- A class that holds all characters but perhaps the comma. -/
def HoldsSigns (P : Char → Prop) : Prop := ∀ c, c ≠ ',' → P c

lemma holdsSigns_true : HoldsSigns fun _ => True := fun _ _ => trivial

lemma holdsSigns_ne_comma : HoldsSigns (· ≠ ',') := fun _ => id

lemma Tidy.cons (hP : HoldsSigns P) (ht : t.Proper) (hbracket : t.isBracket = false)
    (hcomma : t ≠ .sign ',') (hts : Tidy P ts) : Tidy P (t :: ts) :=
  ⟨List.forall_mem_cons.mpr ⟨ht, hts.proper⟩,
    hts.closed.cons ht hbracket hP fun heq => absurd heq hcomma⟩

lemma tidy_bracketed (hP : HoldsSigns P) (ho : isOpening o = true) (hc : isClosing c = true)
    (hts : Tidy (fun _ => True) ts) : Tidy P (bracketed o c ts) := by
  refine ⟨?_, closedTokens_bracketed ho hc hP hts.closed⟩
  have hopening : ∀ {o}, isOpening o = true → o ∈ moduleSigns := by
    intro o ho
    simp only [isOpening, Bool.or_eq_true, beq_iff_eq] at ho
    rcases ho with (rfl | rfl) | rfl <;> decide
  have hclosing : ∀ {c}, isClosing c = true → c ∈ moduleSigns := by
    intro c hc
    simp only [isClosing, Bool.or_eq_true, beq_iff_eq] at hc
    rcases hc with (rfl | rfl) | rfl <;> decide
  exact List.forall_mem_cons.mpr ⟨hopening ho, List.forall_mem_append.mpr
    ⟨hts.proper, List.forall_mem_singleton.mpr (hclosing hc)⟩⟩

lemma tidy_flatMap {α : Type} {xs : List α} {tokens : α → List Token}
    (h : ∀ x ∈ xs, Tidy P (tokens x)) : Tidy P (xs.flatMap tokens) := by
  induction xs with
  | nil => exact tidy_nil
  | cons x xs ih =>
      rw [List.forall_mem_cons] at h
      exact h.1.append (ih h.2)

lemma tidy_commaSeparated (h : ∀ entry ∈ entries, Tidy (· ≠ ',') entry) :
    Tidy (fun _ => True) (commaSeparated entries) :=
  ⟨forall_mem_commaSeparated (by decide) fun entry hentry => (h entry hentry).proper,
    closedTokens_commaSeparated fun entry hentry => (h entry hentry).closed⟩

/-! ### Cutting lists -/

/-- Tokens that a comma at the top level can follow. -/
structure IsItem (ts : List Token) : Prop where
  ne_nil : ts ≠ []
  tidy : Tidy (· ≠ ',') ts

/-- A text writes tokens without white space at either end. -/
structure WritesItem (ts : List Token) (text : List Char) : Prop where
  written : Written ts text []
  ne_nil : text ≠ []
  start : Stops isBlank text
  stop : Stops isBlank text.reverse

/-- A single token as an item is its text. -/
lemma WritesItem.eq_text (h : WritesItem [t] text) : text = t.text := by
  obtain ⟨g, _, rfl, hg, -, rfl⟩ := written_cons.mp h.written
  have hstop := h.stop
  cases g using List.reverseRecOn with
  | nil => simp
  | append_singleton g c =>
      have hblank := hg c (by simp)
      simp [hblank] at hstop

/-- Cutting a written list at its commas gives writings of its entries. -/
theorem splitTopLevel_of_written (hentries : ∀ entry ∈ entries, IsItem entry)
    (h : Written (commaSeparated entries) text rest) (hg : IsGap g) :
    List.Forall₂ WritesItem entries (splitTopLevel .code ',' (g ++ text)) := by
  rw [Written, map_commaSeparated _ rfl] at h
  have hall : ∀ {p : List Piece → Prop}, (∀ entry, IsItem entry →
      p (entry.map fun t => .verbatim t.text)) →
      ∀ pieces ∈ entries.map (List.map fun t => .verbatim t.text), p pieces := by
    intro p hp pieces hpieces
    obtain ⟨entry, hentry, rfl⟩ := List.mem_map.mp hpieces
    exact hp entry (hentries entry hentry)
  have hsplit : List.Forall₂ WritesEntry (entries.map (List.map fun t => .verbatim t.text))
      (splitTopLevel .code ',' (g ++ text)) := splitTopLevel_of_closed_writes
    (hall fun entry hentry => by simpa using hentry.ne_nil)
    (hall fun entry hentry piece hpiece => by
      obtain ⟨t, ht, rfl⟩ := List.mem_map.mp hpiece
      exact (hentry.tidy.proper t ht).solid)
    (hall fun entry hentry => hentry.tidy.closed) h hg
  refine (List.forall₂_map_left_iff.mp hsplit).imp fun entry text hentry => ?_
  exact ⟨hentry.writes, hentry.ne_nil, hentry.start, hentry.stop⟩

/-- Written tokens without the white space around them. -/
lemma writesItem_trim (hne : ts ≠ []) (hts : ∀ t ∈ ts, t.Proper) (h : Written ts text rest)
    (hg : IsGap g) : WritesItem ts (Text.trim (g ++ text)) := by
  have hsolid : ∀ piece ∈ ts.map fun t => Piece.verbatim t.text, piece.Solid := by
    intro piece hpiece
    obtain ⟨t, ht, rfl⟩ := List.mem_map.mp hpiece
    exact (hts t ht).solid
  obtain ⟨t, g', rfl, hg', hempty, hstart, hend, ht⟩ := h.trimmed hsolid (by simpa using hne)
  rw [Text.trim_gaps hg hg' hstart hend hempty]
  exact ⟨ht, hempty, hstart, hend⟩

/-- What stands before a closing bracket, and what follows it. -/
lemma enclosed?_of_written (hc : isClosing c = true) (hts : Tidy P ts)
    (h : Written (ts ++ .sign c :: us) text rest) (hg : IsGap g) :
    ∃ u g' v, enclosed? .code (g ++ (text ++ rest)) = some (g ++ u, g' ++ (v ++ rest)) ∧
      IsGap g' ∧ Written ts u [] ∧ Written us v rest := by
  obtain ⟨u, _, rfl, hu, hclose⟩ := written_append.mp h
  obtain ⟨g', v, rfl, hg', -, hv⟩ := written_cons.mp hclose
  have hclosed : Closed .code (fun _ => True) (g ++ u) :=
    (IsGap.closed hg fun _ _ => trivial).append ((hts.closed u _ hu).mono fun _ _ => trivial)
  refine ⟨u, g', v, ?_, hg', hu.congr_rest fun _ => Text.stops_nil, hv⟩
  have henclosed : enclosed? .code ((g ++ u) ++ c :: (g' ++ (v ++ rest))) = _ :=
    enclosed?_of_closed hclosed hc
  simpa [Token.text] using henclosed

/-! ### Comments -/

/-- Outside of literals there are no quotes and no signs of comments. -/
lemma Token.Proper.isCode (h : t.Proper) (hbare : ∀ q u, t ≠ .literal q u) :
    ∀ c ∈ t.text, isQuote c = false ∧ c ≠ '/' := by
  have hword : ∀ {w}, IsWord w → ∀ c ∈ w, isQuote c = false ∧ c ≠ '/' := fun hw c hc => by
    have hc := isScriptText_of_isWordChar (hw.chars c hc)
    simp only [isScriptText, Bool.and_eq_true, Bool.not_eq_true', bne_iff_ne] at hc
    exact ⟨hc.1.1, hc.2⟩
  have hperiod : ∀ {w}, IsWord w → ∀ c ∈ '.' :: w, isQuote c = false ∧ c ≠ '/' := fun hw =>
    List.forall_mem_cons.mpr ⟨by decide, hword hw⟩
  cases t with
  | word w => exact hword h
  | member w => exact hperiod h
  | path v c => exact List.forall_mem_append.mpr ⟨hword h.1, hperiod h.2⟩
  | literal q u => exact absurd rfl (hbare q u)
  | sign c =>
      have hc := sign_facts h
      exact List.forall_mem_singleton.mpr ⟨hc.2.2.1, hc.2.2.2.1⟩
  | arrow => exact fun c hc => by simp [Token.text] at hc; rcases hc with rfl | rfl <;> decide

lemma Token.Proper.uncommented (h : t.Proper) : Uncommented .code t.text := by
  cases t with
  | literal q u =>
      exact uncommented_quoted h.isQuote fun c hc =>
        ⟨(h.keeps c hc).1, fun _ => (h.keeps c hc).2⟩
  | word | member | path | sign | arrow => exact uncommented_code (h.isCode (by simp))

lemma uncommented_gap (hg : IsGap g) : Uncommented .code g := uncommented_code fun c hc => by
  have hc := isScriptText_of_isBlank (hg c hc)
  simp only [isScriptText, Bool.and_eq_true, Bool.not_eq_true', bne_iff_ne] at hc
  exact ⟨hc.1.1, hc.2⟩

/-- What holds of blanks and of the characters of the tokens holds of a text they are written as. -/
lemma forall_mem_of_written {p : Char → Prop} (hblank : ∀ c, isBlank c = true → p c)
    (hts : ∀ t ∈ ts, ∀ c ∈ t.text, p c) (h : Written ts text rest) : ∀ c ∈ text, p c := by
  induction ts generalizing text with
  | nil =>
      obtain rfl := h
      simp
  | cons t ts ih =>
      obtain ⟨g, u, rfl, hg, -, hu⟩ := written_cons.mp h
      rw [List.forall_mem_cons] at hts
      exact List.forall_mem_append.mpr ⟨hts.1,
        List.forall_mem_append.mpr ⟨fun c hc => hblank c (hg c hc), ih hts.2 hu⟩⟩

/-- Written tokens hold no comment. -/
lemma uncommented_of_written (hts : ∀ t ∈ ts, t.Proper) (h : Written ts text rest) :
    Uncommented .code text := by
  induction ts generalizing text with
  | nil =>
      obtain rfl := h
      exact uncommented_nil
  | cons t ts ih =>
      obtain ⟨g, u, rfl, hg, -, hu⟩ := written_cons.mp h
      rw [List.forall_mem_cons] at hts
      exact hts.1.uncommented.append ((uncommented_gap hg).append (ih hts.2 hu))

end SchemaReader.TableModule
