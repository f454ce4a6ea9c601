/-
Scans of written tokens.

* `Next`, `Calm`: what may come next behind white space, and that it does not;
* `TokenScan`: a pattern that is looked for, with the tokens behind which it can go on and what it
  needs to come next there, and with what its matches are read as;
* `TokenScan.Passes`: in whatever text tokens are written, a scan comes upon certain results in
  them;
* `TokenScan.Passes.append`, `TokenScan.Catches.append`: rules that put such scans together;
* `LedTo`: a pattern that reads nothing but a lead and a sign behind it gives a sound scan.
-/
import SchemaReader.Proofs.Pattern.Words
import SchemaReader.Proofs.TableModule.Tokens

namespace SchemaReader.TableModule

open Pattern
open Text (IsWord IsGap Stops isWordChar isBlank)

variable {t : Token} {ts us head tail : List Token} {P : Token → Prop} {next : Next}
  {before text rest u v w g : List Char}

/-! ### What comes next -/

/-- What may come next behind white space. -/
inductive Next where
  | parenthesis
  | colon
  | word
  deriving DecidableEq, Repr

/-- The characters that it begins with. -/
def Next.begins : Next → Char → Bool
  | .parenthesis => (· == '(')
  | .colon => (· == ':')
  | .word => isWordChar

/-- Whether a token begins with it. -/
def Next.isFirst : Next → Token → Bool
  | .parenthesis, t => t == .sign '('
  | .colon, t => t == .sign ':'
  | .word, .word _ | .word, .path _ _ => true
  | .word, _ => false

/-- Behind white space something else comes next. -/
def Calm (next : Next) (rest : List Char) : Prop := Stops next.begins (rest.dropWhile isBlank)

lemma calm_nil : Calm next [] := Text.stops_nil

lemma calm_period (v : List Char) : Calm next ('.' :: v) := by
  have hblank : isBlank '.' = false := by decide
  cases next <;> simp [Calm, Next.begins, hblank]
  decide

lemma calm_of_first (h : t.Proper) (hfirst : next.isFirst t = false) (rest : List Char) :
    Calm next (t.text ++ rest) := by
  have hnot : ∀ {c} {v : List Char}, isBlank c = false → next.begins c = false →
      Calm next (c :: v) := fun hblank hc => by simpa [Calm, hblank] using hc
  have hword : ∀ {w v : List Char}, IsWord w → next ≠ .word → Calm next (w ++ v) := by
    intro w v hw hnext
    obtain ⟨c, w, rfl⟩ := List.exists_cons_of_ne_nil hw.ne_nil
    have hc := hw.chars c List.mem_cons_self
    refine hnot (Text.not_isBlank_of_isWordChar hc) ?_
    cases next with
    | parenthesis | colon => exact Text.beq_of_isWordChar (by decide) hc
    | word => exact absurd rfl hnext
  cases t with
  | word w => exact hword h (by rintro rfl; simp [Next.isFirst] at hfirst)
  | member w => exact hnot (by decide) (by cases next <;> rfl)
  | path v c =>
      rw [Token.text, List.append_assoc]
      exact hword h.1 (by rintro rfl; simp [Next.isFirst] at hfirst)
  | literal q u =>
      have hquote : ∀ c, isQuote c = true → isBlank c = false ∧ next.begins c = false := by
        intro c hc
        simp only [isQuote, Bool.or_eq_true, beq_iff_eq] at hc
        rcases hc with (rfl | rfl) | rfl <;> exact ⟨by decide, by cases next <;> decide⟩
      exact hnot (hquote q h.isQuote).1 (hquote q h.isQuote).2
  | sign c =>
      obtain ⟨hc, hblank, -⟩ := sign_facts h
      refine hnot hblank ?_
      cases next with
      | parenthesis | colon => simpa [Next.begins, Next.isFirst] using hfirst
      | word => exact hc
  | arrow => exact hnot (by decide) (by cases next <;> decide)

/-- Tokens that begin with something else keep what comes next calm. -/
lemma calm_of_written (hfirst : ∀ t ∈ ts.head?, t.Proper ∧ next.isFirst t = false)
    (hnil : ts = [] → Calm next rest) (h : Written ts text rest) : Calm next (text ++ rest) := by
  cases ts with
  | nil =>
      obtain rfl := h
      exact hnil rfl
  | cons t ts =>
      obtain ⟨g, u, rfl, -⟩ := written_cons.mp h
      rw [List.append_assoc]
      exact calm_of_first (hfirst t rfl).1 (hfirst t rfl).2 _

/-- No word goes on from what stands before a place, nearest character first, into the text behind
it. -/
def Meets (before text : List Char) : Prop := Stops isWordChar before ∨ Stops isWordChar text

lemma Meets.stops (h : Meets before (w ++ rest)) (hw : IsWord w) : Stops isWordChar before :=
  h.resolve_right (hw.not_stops rest)

lemma Meets.parted (h : Meets before (u ++ v)) (hparted : Parted u v) :
    Meets (u.reverse ++ before) v := by
  by_cases hu : u = []
  · subst hu
    exact h
  · exact hparted.imp_left fun hstop => hstop.append_of_ne_nil (by simpa using hu) before

lemma Meets.gap (h : Meets before (g ++ v)) (hg : IsGap g) : Meets (g.reverse ++ before) v := by
  refine h.parted ?_
  by_cases hne : g = []
  · subst hne
    exact Or.inl Text.stops_nil
  · have hreverse : IsGap g.reverse := fun c hc => hg c (List.mem_reverse.mp hc)
    have hstop := hreverse.stops_of_ne_nil (by simpa using hne)
      (fun _ => Text.not_isWordChar_of_isBlank) []
    exact Or.inl (by simpa using hstop)

lemma Written.meets (h : Written ts text rest) (hmeets : Meets before (text ++ rest)) :
    Meets (text.reverse ++ before) rest := by
  induction ts generalizing before text with
  | nil =>
      obtain rfl := h
      exact hmeets
  | cons t ts ih =>
      obtain ⟨g, u, rfl, hg, hparted, hu⟩ := written_cons.mp h
      have htoken : Meets before (t.text ++ (g ++ (u ++ rest))) := by simpa using hmeets
      simpa using ih hu ((htoken.parted hparted).gap hg)

/-- Whether a token ends with a word. -/
def Token.isWordly : Token → Bool
  | .word _ | .member _ | .path _ _ => true
  | .literal _ _ | .sign _ | .arrow => false

/-! ### Scans -/

/-- A pattern that is looked for in written tokens. -/
structure TokenScan (β : Type) where
  pattern : Pattern
  /-- What a match is read as. -/
  read : Match → List β
  /-- The tokens behind which the pattern can go on. -/
  leads : Token → Bool
  /-- What has to come next there. -/
  next : Next

variable {β : Type} {scan : TokenScan β} {rs rs' : List β}

/-- A pattern reads nothing within tokens of a class, unless they are leads and what it needs comes
next. -/
structure TokenScan.Sound (scan : TokenScan β) (P : Token → Prop) : Prop where
  proper : ∀ t, P t → t.Proper
  silent : ∀ {t g before rest}, P t → IsGap g → Parted t.text (g ++ rest) →
    (scan.leads t = true → Calm scan.next rest) →
      Silent scan.pattern before (t.text ++ g) rest
  gap : ∀ {g before rest}, IsGap g → Silent scan.pattern before g rest
  wordly : ∀ t, scan.leads t = true → t.isWordly = true
  fails_nil : ∀ before, scan.pattern.Fails before []
  read_yield : ∀ found, scan.read (matchOf found.yield) = scan.read found

/-- Whether the last of several tokens is a lead. -/
def TokenScan.leadsOn (scan : TokenScan β) (ts : List Token) : Bool := ts.getLast?.any scan.leads

/-- In tokens a scan comes upon matches with certain results, in whatever text they are written and
whatever is found behind them. -/
def TokenScan.Passes (scan : TokenScan β) (ts : List Token) (results : List β) : Prop :=
  ∀ before text rest behind, Written ts text rest → Meets before (text ++ rest) →
    (scan.leadsOn ts = true → Calm scan.next rest) →
      Finds scan.pattern (text.reverse ++ before) rest behind →
        ∃ found, Finds scan.pattern before (text ++ rest) (found ++ behind) ∧
          found.flatMap (fun yield => scan.read (matchOf yield)) = results

lemma passes_nil : scan.Passes [] [] := by
  rintro before _ rest behind rfl - - hbehind
  exact ⟨[], hbehind, rfl⟩

lemma leadsOn_append : scan.leadsOn (ts ++ us)
    = if us = [] then scan.leadsOn ts else scan.leadsOn us := by
  cases us using List.reverseRecOn with
  | nil => simp
  | append_singleton us t => simp [TokenScan.leadsOn, ← List.append_assoc]

/-- Nothing found in any of several places is nothing. -/
@[simp]
lemma flatMap_nil {α γ : Type} (xs : List α) : xs.flatMap (fun _ => ([] : List γ)) = [] :=
  List.flatMap_eq_nil_iff.mpr fun _ _ => rfl

namespace TokenScan

/-- Tokens can stand behind others: where these lead on, they do not begin with what comes next. -/
def Joins (scan : TokenScan β) (ts us : List Token) : Prop :=
  scan.leadsOn ts = true → ∀ t ∈ us.head?, t.Proper ∧ scan.next.isFirst t = false

lemma joins_of_not_leadsOn (h : scan.leadsOn ts = false) : scan.Joins ts us := by
  intro hleads
  simp [h] at hleads

lemma joins_before (ht : t.Proper) (hfirst : scan.next.isFirst t = false) :
    scan.Joins ts (t :: us) := by
  rintro - u hu
  obtain rfl := Option.mem_some_iff.mp hu
  exact ⟨ht, hfirst⟩

/-- A closing bracket is not what has to come next. -/
lemma joins_closing {c : Char} (hc : isClosing c = true) : scan.Joins ts (.sign c :: us) := by
  simp only [isClosing, Bool.or_eq_true, beq_iff_eq] at hc
  rcases hc with (rfl | rfl) | rfl <;> exact joins_before (by decide) (by cases scan.next <;> rfl)

/-- Nor is a comma. -/
lemma joins_comma : scan.Joins ts (.sign ',' :: us) :=
  joins_before (by decide) (by cases scan.next <;> rfl)

lemma Passes.append (hts : scan.Passes ts rs) (hus : scan.Passes us rs')
    (hjoins : scan.Joins ts us) : scan.Passes (ts ++ us) (rs ++ rs') := by
  intro before text rest behind h hmeets hcalm hbehind
  obtain ⟨u, v, rfl, hu, hv⟩ := written_append.mp h
  rw [List.append_assoc] at hmeets
  have hcalm₁ : scan.leadsOn ts = true → Calm scan.next (v ++ rest) := fun hleads =>
    calm_of_written (hjoins hleads)
      (fun hnil => hcalm (by simpa [leadsOn_append, hnil] using hleads)) hv
  have hcalm₂ : scan.leadsOn us = true → Calm scan.next rest := fun hleads => hcalm <| by
    rw [leadsOn_append, if_neg, hleads]
    rintro rfl
    simp [leadsOn] at hleads
  obtain ⟨found', hfound', hread'⟩ := hus _ v rest behind hv (hu.meets hmeets) hcalm₂
    (by simpa using hbehind)
  obtain ⟨found, hfound, hread⟩ := hts before u (v ++ rest) _ hu hmeets hcalm₁ hfound'
  exact ⟨found ++ found', by simpa using hfound, by simp [hread, hread']⟩

/-- A pattern takes the text of tokens, but for what is skipped before it and white space behind
it, and remembers captures of a kind. -/
def Catches (scan : TokenScan β) (head : List Token) (kind : Captures → Prop) : Prop :=
  ∀ before text rest, Written head text rest → Meets before (text ++ rest) →
    ∃ s w g caught, text = s ++ (w ++ g) ∧ w ≠ [] ∧ IsGap g ∧ kind caught ∧
      Silent scan.pattern before s (w ++ (g ++ rest)) ∧
        scan.pattern.Takes (s.reverse ++ before) w (g ++ rest) caught

/-- What a match with captures of a kind is read as that certain tokens follow. -/
def Reads (scan : TokenScan β) (kind : Captures → Prop) (tail : List Token) (results : List β) :
    Prop :=
  ∀ caught g text rest, kind caught → IsGap g → Written tail text rest →
    scan.read (matchOf (g ++ (text ++ rest), caught)) = results

section Sound

variable (hscan : scan.Sound P)

include hscan

lemma passes_token (ht : P t) : scan.Passes [t] [] := by
  intro before text rest behind h _ hcalm hbehind
  obtain ⟨g, _, rfl, hg, hparted, rfl⟩ := written_cons.mp h
  rw [List.append_nil] at hbehind ⊢
  have hsilent : Silent scan.pattern before (t.text ++ g) rest :=
    hscan.silent ht hg (by simpa using hparted) fun hleads =>
      hcalm (by simpa [leadsOn] using hleads)
  exact ⟨[], hbehind.skip hsilent, rfl⟩

lemma passes_cons (ht : P t) (hjoins : scan.Joins [t] ts) (hts : scan.Passes ts rs) :
    scan.Passes (t :: ts) rs := (passes_token hscan ht).append hts hjoins

lemma not_leadsOn (ts : List Token) (ht : t.isWordly = false) :
    scan.leadsOn (ts ++ [t]) = false := by
  rw [leadsOn, List.getLast?_concat, Option.any_some, Bool.eq_false_iff]
  intro hleads
  have hwordly := hscan.wordly t hleads
  simp [ht] at hwordly

/-- Brackets do not lead on. -/
lemma not_leadsOn_bracketed (us : List Token) {o c : Char} :
    scan.leadsOn (us ++ bracketed o c ts) = false := by
  rw [bracketed, ← List.cons_append, ← List.append_assoc]
  exact not_leadsOn hscan _ rfl

lemma joins_behind (ht : t.isWordly = false) : scan.Joins [t] us :=
  joins_of_not_leadsOn (not_leadsOn hscan [] ht)

/-- Brackets bring no results of their own. -/
lemma passes_bracketed {o c : Char} (ho : P (.sign o)) (hc : P (.sign c))
    (hclosing : isClosing c = true) (hts : scan.Passes ts rs) :
    scan.Passes (bracketed o c ts) rs := by
  have hend : scan.Passes (ts ++ [.sign c]) (rs ++ []) :=
    hts.append (passes_token hscan hc) (joins_closing hclosing)
  rw [List.append_nil] at hend
  exact passes_cons hscan ho (joins_behind hscan rfl) hend

/-- Nor do the commas of a list. -/
lemma passes_commaSeparated {α : Type} {xs : List α} {tokens : α → List Token}
    {results : α → List β} (hcomma : P (.sign ','))
    (h : ∀ x ∈ xs, scan.Passes (tokens x) (results x)) :
    scan.Passes (commaSeparated (xs.map tokens)) (xs.flatMap results) := by
  induction xs with
  | nil => exact passes_nil
  | cons x xs ih =>
      rw [List.forall_mem_cons] at h
      cases xs with
      | nil => simpa [commaSeparated] using h.1
      | cons y xs =>
          have htail : scan.Passes (.sign ',' :: commaSeparated ((y :: xs).map tokens))
              ((y :: xs).flatMap results) :=
            passes_cons hscan hcomma (joins_behind hscan rfl) (ih h.2)
          exact h.1.append htail joins_comma

lemma passes_commaSeparated_nil {α : Type} {xs : List α} {tokens : α → List Token}
    (hcomma : P (.sign ',')) (h : ∀ x ∈ xs, scan.Passes (tokens x) []) :
    scan.Passes (commaSeparated (xs.map tokens)) [] := by
  have hlist : scan.Passes (commaSeparated (xs.map tokens)) (xs.flatMap fun _ => []) :=
    passes_commaSeparated hscan hcomma h
  rwa [flatMap_nil] at hlist

/-- A call that a scan does not look for. -/
lemma passes_call (ht : P t) (ho : P (.sign '(')) (hc : P (.sign ')'))
    (hcall : scan.leads t = true → scan.next ≠ .parenthesis) (hts : scan.Passes ts rs) :
    scan.Passes (t :: bracketed '(' ')' ts) rs := by
  refine passes_cons hscan ht ?_ (passes_bracketed hscan ho hc (by decide) hts)
  intro hleads u hu
  obtain rfl := Option.mem_some_iff.mp hu
  refine ⟨by decide, ?_⟩
  have hnext := hcall (by simpa [leadsOn] using hleads)
  cases h : scan.next with
  | parenthesis => exact absurd h hnext
  | colon | word => rfl

lemma Catches.append {kind : Captures → Prop} (hcatch : scan.Catches head kind)
    (hread : scan.Reads kind tail rs)
    (htail : scan.Passes tail rs') : scan.Passes (head ++ tail) (rs ++ rs') := by
  intro before text rest behind h hmeets hcalm hbehind
  obtain ⟨u, v, rfl, hu, hv⟩ := written_append.mp h
  rw [List.append_assoc] at hmeets
  have hcalm' : scan.leadsOn tail = true → Calm scan.next rest := fun hleads => hcalm <| by
    rw [leadsOn_append, if_neg, hleads]
    rintro rfl
    simp [leadsOn] at hleads
  obtain ⟨found, hfound, hread'⟩ := htail _ v rest behind hv (hu.meets hmeets) hcalm'
    (by simpa using hbehind)
  obtain ⟨s, w, g, caught, rfl, hw, hg, hkind, hsilent, htakes⟩ :=
    hcatch before u (v ++ rest) hu hmeets
  have hskip : Finds scan.pattern (w.reverse ++ (s.reverse ++ before)) (g ++ (v ++ rest))
      (found ++ behind) := Finds.skip (hscan.gap hg) (by simpa using hfound)
  refine ⟨(g ++ (v ++ rest), caught) :: found, ?_, ?_⟩
  · simpa using Finds.found hsilent htakes hw hskip
  · rw [List.flatMap_cons, hread caught g v rest hkind hg hv, hread']

/-- A call that it looks for. -/
lemma Catches.call {kind : Captures → Prop} (hcatch : scan.Catches [t, .sign '('] kind)
    (hread : scan.Reads kind (ts ++ [.sign ')']) rs) (hc : P (.sign ')'))
    (hts : scan.Passes ts rs') : scan.Passes (t :: bracketed '(' ')' ts) (rs ++ rs') := by
  have hend : scan.Passes (ts ++ [.sign ')']) (rs' ++ []) :=
    hts.append (passes_token hscan hc) (joins_closing (by decide))
  rw [List.append_nil] at hend
  exact hcatch.append hscan hread hend

omit hscan in
/-- Pieces one after the other, none of which leads on. -/
lemma passes_flatMap {α : Type} {xs : List α} {tokens : α → List Token} {results : α → List β}
    (hleads : ∀ x ∈ xs, scan.leadsOn (tokens x) = false)
    (h : ∀ x ∈ xs, scan.Passes (tokens x) (results x)) :
    scan.Passes (xs.flatMap tokens) (xs.flatMap results) := by
  induction xs with
  | nil => exact passes_nil
  | cons x xs ih =>
      rw [List.forall_mem_cons] at h hleads
      exact h.1.append (ih hleads.2 h.2) (joins_of_not_leadsOn hleads.1)

omit hscan in
lemma passes_flatMap_nil {α : Type} {xs : List α} {tokens : α → List Token}
    (hleads : ∀ x ∈ xs, scan.leadsOn (tokens x) = false)
    (h : ∀ x ∈ xs, scan.Passes (tokens x) []) : scan.Passes (xs.flatMap tokens) [] := by
  have hlist : scan.Passes (xs.flatMap tokens) (xs.flatMap fun _ => []) := passes_flatMap hleads h
  rwa [flatMap_nil] at hlist

/-! ### What is found in a written text -/

lemma Passes.exists_finds (h : scan.Passes ts rs) (hts : Written ts text []) (hg : IsGap g) :
    ∃ found, Finds scan.pattern [] (g ++ text) found ∧
      found.flatMap (fun yield => scan.read (matchOf yield)) = rs := by
  have hend : Finds scan.pattern (text.reverse ++ g.reverse) [] [] :=
    .stop trivial (hscan.fails_nil _)
  have hmeets : Meets (g.reverse ++ []) (text ++ []) := Meets.gap (Or.inl Text.stops_nil) hg
  obtain ⟨found, hfound, hread⟩ := h g.reverse text [] [] hts (by simpa using hmeets)
    (fun _ => calm_nil) hend
  have hskip : Finds scan.pattern [] (g ++ text) found :=
    Finds.skip (hscan.gap hg) (by simpa using hfound)
  exact ⟨found, hskip, hread⟩

/-- What all matches in a text are read as. -/
lemma flatMap_findAll {found : List (List Char × Captures)} (h : Finds scan.pattern [] text found) :
    (scan.pattern.findAll text).flatMap scan.read
      = found.flatMap fun yield => scan.read (matchOf yield) := by
  rw [← findAll_of_finds h, List.flatMap_map]
  exact List.flatMap_congr fun found _ => (hscan.read_yield found).symm

/-- What all matches in a written text are read as. -/
theorem Passes.flatMap_findAll (h : scan.Passes ts rs) (hts : Written ts text []) (hg : IsGap g) :
    (scan.pattern.findAll (g ++ text)).flatMap scan.read = rs := by
  obtain ⟨found, hfound, rfl⟩ := h.exists_finds hscan hts hg
  exact TokenScan.flatMap_findAll hscan hfound

/-- What the first match in a written text is read as, where each is read as one result. -/
theorem Passes.map_find? {f : Match → β} (hread : ∀ found, scan.read found = [f found])
    (h : scan.Passes ts rs) (hts : Written ts text []) (hg : IsGap g) :
    (scan.pattern.find? (g ++ text)).map f = rs.head? := by
  obtain ⟨found, hfound, rfl⟩ := h.exists_finds hscan hts hg
  have hyield : ∀ found, f found = f (matchOf found.yield) := fun found => by
    have hsame := hscan.read_yield found
    rw [hread, hread] at hsame
    exact (List.singleton_inj.mp hsame).symm
  have hmap : (scan.pattern.find? (g ++ text)).map f
      = ((scan.pattern.find? (g ++ text)).map Match.yield).map fun yield => f (matchOf yield) := by
    rw [Option.map_map]
    exact Option.map_congr fun found _ => hyield found
  rw [hmap, find?_of_finds hfound]
  cases found with
  | nil => rfl
  | cons yield found => simp [hread]

end Sound

end TokenScan

/-! ### Leads -/

/-- A pattern that reads nothing but one of several leads and, behind white space, if any, what has
to come next; a lead that is a word only where the word begins. -/
def LedTo (q : Pattern) (leads : List (List Char)) (next : Next) : Prop :=
  ∀ before text, (∀ l ∈ leads, ∀ g v, IsGap g → ¬ Stops next.begins v → text = l ++ (g ++ v) →
    ¬ (IsWord l → Stops isWordChar before)) → q.Fails before text

/-- A lead is a word or a method. -/
def IsLead (l : List Char) : Prop := IsWord l ∨ ∃ w, l = '.' :: w ∧ IsWord w

/-- Whether a token ends with a lead. -/
def Token.endsIn (leads : List (List Char)) : Token → Bool
  | .word w => leads.contains w.toList
  | .member w | .path _ w => leads.contains w.toList || leads.contains ('.' :: w.toList)
  | .literal _ _ | .sign _ | .arrow => false

/-- White space is neither a lead nor a part of one. -/
lemma outside_of_isGap (hg : IsGap g) : ∀ c ∈ g, isWordChar c = false ∧ c ≠ '.' := by
  refine fun c hc => ⟨Text.not_isWordChar_of_isBlank (hg c hc), ?_⟩
  rintro rfl
  exact absurd (hg _ hc) (by decide)

section Leads

variable {q : Pattern} {leads : List (List Char)} {l g' : List Char}

lemma not_calm_of_lead (hnext : next ≠ .word) (hw : IsWord w) (hl : IsWord l) (hg : IsGap g)
    (hg' : IsGap g') (hstop : Stops isWordChar (g ++ rest)) (hv : ¬ Stops next.begins v)
    (h : w ++ (g ++ rest) = l ++ (g' ++ v)) : w = l ∧ ¬ Calm next rest := by
  obtain ⟨c, v, rfl⟩ : ∃ c v', v = c :: v' := by
    cases v with
    | nil => simp at hv
    | cons c v => exact ⟨c, v, rfl⟩
  have hc : isWordChar c = false ∧ isBlank c = false := by
    have hbegins : next.begins c = true := by simpa using hv
    cases next with
    | parenthesis | colon =>
        obtain rfl := by simpa [Next.begins] using hbegins
        decide
    | word => exact absurd rfl hnext
  have hstop' : Stops isWordChar (g' ++ c :: v) :=
    hg'.stops (fun _ => Text.not_isWordChar_of_isBlank) (by simpa using hc.1)
  have hwl : w = l := by
    rw [← Text.takeWhile_append_of_stops hw.chars hstop, h,
      Text.takeWhile_append_of_stops hl.chars hstop']
  refine ⟨hwl, fun hcalm => hv ?_⟩
  subst hwl
  have hrest := congrArg (List.dropWhile isBlank) (List.append_cancel_left h)
  rw [Text.dropWhile_append_of_stops hg' (by simpa using hc.2), List.dropWhile_append_of_pos hg]
    at hrest
  rwa [Calm, hrest] at hcalm

variable (h : LedTo q leads next) (hleads : ∀ l ∈ leads, IsLead l) (hnext : next ≠ .word)

include h hleads

/-- Nothing is read where a lead cannot begin. -/
lemma LedTo.fails_of_stops (htext : Stops (fun c => isWordChar c || c == '.') text) :
    q.Fails before text := by
  refine h _ _ fun l hl g v _ _ htext' _ => ?_
  subst htext'
  rcases hleads l hl with hw | ⟨w, rfl, -⟩
  · obtain ⟨c, w, rfl⟩ := List.exists_cons_of_ne_nil hw.ne_nil
    have hc := hw.chars c List.mem_cons_self
    simp [hc] at htext
  · simp at htext

lemma LedTo.silent_outside (hu : ∀ c ∈ u, isWordChar c = false ∧ c ≠ '.') :
    Silent q before u rest := by
  induction u generalizing before with
  | nil => trivial
  | cons c u ih =>
      rw [List.forall_mem_cons] at hu
      exact ⟨h.fails_of_stops hleads (by simpa using hu.1), ih hu.2⟩

lemma LedTo.silent_inside {d : Char} (hd : isWordChar d = true)
    (hw : ∀ c ∈ w, isWordChar c = true) : Silent q (d :: before) w rest := by
  induction w generalizing d before with
  | nil => trivial
  | cons c w ih =>
      rw [List.forall_mem_cons] at hw
      refine ⟨h _ _ fun l hl g v _ _ htext hbefore => ?_, ih hw.1 hw.2⟩
      rcases hleads l hl with hl | ⟨l, rfl, -⟩
      · simpa [hd] using hbefore hl
      · obtain ⟨rfl, -⟩ := List.cons.inj htext
        exact absurd hw.1 (by decide)

include hnext

lemma LedTo.silent_word (hw : IsWord w) (hg : IsGap g) (hstop : Stops isWordChar (g ++ rest))
    (hcalm : w ∈ leads → Calm next rest) : Silent q before w (g ++ rest) := by
  have hfails : q.Fails before (w ++ (g ++ rest)) := by
    refine h _ _ fun l hl g' v hg' hv htext _ => ?_
    rcases hleads l hl with hl' | ⟨l, rfl, -⟩
    · obtain ⟨rfl, hnot⟩ := not_calm_of_lead hnext hw hl' hg hg' hstop hv htext
      exact hnot (hcalm hl)
    · obtain ⟨c, w, rfl⟩ := List.exists_cons_of_ne_nil hw.ne_nil
      obtain ⟨rfl, -⟩ := List.cons.inj htext
      exact absurd (hw.chars '.' List.mem_cons_self) (by decide)
  obtain ⟨c, w, rfl⟩ := List.exists_cons_of_ne_nil hw.ne_nil
  have hchars := List.forall_mem_cons.mp hw.chars
  exact ⟨hfails, h.silent_inside hleads hchars.1 hchars.2⟩

lemma LedTo.silent_member (hw : IsWord w) (hg : IsGap g) (hstop : Stops isWordChar (g ++ rest))
    (hcalm : w ∈ leads ∨ '.' :: w ∈ leads → Calm next rest) :
    Silent q before ('.' :: w) (g ++ rest) := by
  refine ⟨h _ _ fun l hl g' v hg' hv htext _ => ?_,
    h.silent_word hleads hnext hw hg hstop fun hmem => hcalm (Or.inl hmem)⟩
  rcases hleads l hl with hl' | ⟨l, rfl, hl'⟩
  · obtain ⟨c, l, rfl⟩ := List.exists_cons_of_ne_nil hl'.ne_nil
    obtain ⟨rfl, -⟩ := List.cons.inj htext
    exact absurd (hl'.chars '.' List.mem_cons_self) (by decide)
  · obtain ⟨rfl, hnot⟩ := not_calm_of_lead hnext hw hl' hg hg' hstop hv (List.cons.inj htext).2
    exact hnot (hcalm (Or.inr hl))

/-- A literal in which no lead is followed by what has to come next holds nothing of a pattern. -/
lemma LedTo.silent_literal {c : Char} (hc : isQuote c = true) (hu : ∀ d ∈ u, d ≠ c)
    (hlead : ∀ l ∈ leads, ∀ x g d y, IsGap g → next.begins d = true →
      u ≠ x ++ (l ++ (g ++ d :: y))) : Silent q before (c :: (u ++ [c])) rest := by
  have hquote : isWordChar c = false ∧ isBlank c = false ∧ c ≠ '.' ∧ next.begins c = false := by
    simp only [isQuote, Bool.or_eq_true, beq_iff_eq] at hc
    rcases hc with (rfl | rfl) | rfl <;> cases next <;> decide
  have hend : ∀ before, Silent q before [c] rest := fun before =>
    h.silent_outside hleads (by simpa using ⟨hquote.1, hquote.2.2.1⟩)
  refine silent_append (u := [c]) |>.mpr ⟨h.silent_outside hleads
    (by simpa using ⟨hquote.1, hquote.2.2.1⟩), silent_append.mpr ⟨?_, hend _⟩⟩
  refine silent_of_forall fun x d y hxy => h _ _ fun l hl g v hg hv htext _ => ?_
  -- what would be read has no quote in it, so that it lies in the literal
  obtain ⟨e, v, rfl⟩ : ∃ e v', v = e :: v' := by
    cases v with
    | nil => simp at hv
    | cons e v => exact ⟨e, v, rfl⟩
  have he : next.begins e = true := by simpa using hv
  have hfree : ∀ b ∈ l ++ (g ++ [e]), b ≠ c := by
    simp only [List.mem_append, List.mem_singleton]
    rintro b (hb | hb | rfl) rfl
    · rcases hleads l hl with hw | ⟨w, rfl, hw⟩
      · simp [hw.chars b hb] at hquote
      · rcases List.mem_cons.mp hb with rfl | hb
        · exact hquote.2.2.1 rfl
        · simp [hw.chars b hb] at hquote
    · simp [hg b hb] at hquote
    · simp [he] at hquote
  have hsplit : (d :: y) ++ c :: rest = (l ++ (g ++ [e])) ++ v := by simpa using htext
  obtain ⟨z, hz, hrest⟩ | ⟨z, hz, -⟩ := List.append_eq_append_iff.mp hsplit
  · cases z with
    | nil => exact hlead l hl x g e [] hg he (by rw [hxy, hz, List.append_nil])
    | cons b z =>
        obtain ⟨rfl, -⟩ := List.cons.inj hrest
        exact hfree c (by simp [hz]) rfl
  · exact hlead l hl x g e z hg he (by simp [hxy, hz])

/-- A pattern with leads gives a sound scan. -/
theorem LedTo.sound {read : Match → List β}
    (hread : ∀ found, read (matchOf found.yield) = read found)
    (hP : ∀ t, P t → t.Proper) (hliteral : ∀ q u, P (.literal q u) → ∀ l ∈ leads, ∀ x g d y,
      IsGap g → next.begins d = true → u.toList ≠ x ++ (l ++ (g ++ d :: y))) :
    TokenScan.Sound ⟨q, read, Token.endsIn leads, next⟩ P where
  proper := hP
  silent := by
    intro t g before rest ht hg hparted hcalm
    have hgap : ∀ before, Silent q before g rest := fun before =>
      h.silent_outside hleads (outside_of_isGap hg)
    refine silent_append.mpr ⟨?_, hgap _⟩
    have hproper := hP t ht
    cases t with
    | word w =>
        exact h.silent_word hleads hnext hproper hg (hparted.stops hproper)
          fun hmem => hcalm (List.contains_iff_mem.mpr hmem)
    | member w =>
        exact h.silent_member hleads hnext hproper hg (hparted.stops_behind (s := ['.']) hproper)
          fun hmem => hcalm (by simpa [Token.endsIn] using hmem)
    | path v w =>
        have hsplit : (Token.path v w).text = (v.toList ++ ['.']) ++ w.toList := by
          simp [Token.text]
        rw [hsplit] at hparted
        refine silent_append.mpr ⟨?_, h.silent_member hleads hnext hproper.2 hg
          (hparted.stops_behind hproper.2) fun hmem => hcalm (by simpa [Token.endsIn] using hmem)⟩
        exact h.silent_word hleads hnext hproper.1 (g := []) Text.isGap_nil (by simp; decide)
          fun _ => calm_period _
    | literal c u =>
        exact h.silent_literal hleads hnext hproper.isQuote (fun d hd => (hproper.keeps d hd).1)
          (hliteral c u ht)
    | sign c =>
        have hc := sign_facts hproper
        exact h.silent_outside hleads (by simpa [Token.text] using ⟨hc.1, hc.2.2.2.2⟩)
    | arrow => exact h.silent_outside hleads (by decide)
  gap hg := h.silent_outside hleads (outside_of_isGap hg)
  wordly t ht := by cases t <;> simp_all [Token.endsIn, Token.isWordly]
  fails_nil _ := h.fails_of_stops hleads Text.stops_nil
  read_yield := hread

end Leads

/-! ### Calls -/

lemma not_holdsCall (h : holdsCall w u = false) (hg : IsGap g) :
    u ≠ v ++ (w ++ (g ++ '(' :: rest)) := by
  rintro rfl
  simp only [holdsCall, List.any_eq_false, List.mem_tails] at h
  refine h (w ++ (g ++ '(' :: rest)) (List.suffix_append _ _) ?_
  have hdrop : (g ++ '(' :: rest).dropWhile isBlank = '(' :: rest :=
    Text.dropWhile_append_of_stops hg (by simp; decide)
  simp [hdrop]

/-- The leads of a call that declares something. -/
def CallLeads (leads : List (List Char)) : Prop :=
  ∀ l ∈ leads, ∃ word ∈ callWords, l = word.toList ∨ l = '.' :: word.toList

instance (leads : List (List Char)) : Decidable (CallLeads leads) :=
  inferInstanceAs (Decidable (∀ l ∈ leads, ∃ word ∈ callWords,
    l = word.toList ∨ l = '.' :: word.toList))

/-- A pattern that is led by such calls gives a sound scan of all proper tokens. -/
theorem LedTo.sound_calls {q : Pattern} {leads : List (List Char)} {read : Match → List β}
    (h : LedTo q leads .parenthesis) (hleads : CallLeads leads)
    (hread : ∀ found, read (matchOf found.yield) = read found) :
    TokenScan.Sound ⟨q, read, Token.endsIn leads, .parenthesis⟩ Token.Proper := by
  have hwords : ∀ word ∈ callWords, IsWord word.toList := by decide
  refine h.sound (fun l hl => ?_) (by decide) hread (fun _ => id) fun c u hu l hl x g
    d y hg hd => ?_
  · obtain ⟨word, hword, rfl | rfl⟩ := hleads l hl
    · exact Or.inl (hwords word hword)
    · exact Or.inr ⟨_, rfl, hwords word hword⟩
  · obtain rfl : d = '(' := by simpa [Next.begins] using hd
    obtain ⟨word, hword, rfl | rfl⟩ := hleads l hl
    · exact not_holdsCall (hu.calls word hword) hg
    · have hnot : u.toList ≠ (x ++ ['.']) ++ (word.toList ++ (g ++ '(' :: y)) :=
        not_holdsCall (hu.calls word hword) hg
      simpa using hnot

end SchemaReader.TableModule
