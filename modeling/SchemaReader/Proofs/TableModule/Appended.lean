/-
Blocks of relations behind other text.

* `OpensExport`: a text begins like an exported declaration, with `staysIn_tableHead` and
  `staysIn_blockHead`: nothing that begins in the line before goes on into such a text;
* `not_isQuote_of_written`: a text in which a block is written holds no quotes;
* `flatMap_findAll_append`: what a scan comes upon in two texts;
* `calls_ofText_append`, `relations_ofText_append`: a block of relations behind a text that ends its
  last line adds its relations, and leaves the table calls as they are.
-/
import SchemaReader.Proofs.Lexical.Joining
import SchemaReader.Proofs.Pattern.Borders
import SchemaReader.Proofs.TableModule.ReadModule

namespace SchemaReader.TableModule

open Pattern
open Text (IsWord IsGap Stops isWordChar isBlank)

variable {β : Type} {scan : TokenScan β} {P : Token → Prop} {rs : List β} {t : Token}
  {ts : List Token} {block : BlockDef} {a q : Pattern}
    {before text more rest next u v g : List Char}

/-! ### Before an exported declaration -/

/-- A text begins with the word `export`, white space and another word. -/
def OpensExport (text : List Char) : Prop :=
  ∃ g v, text = "export".toList ++ (g ++ v) ∧ IsGap g ∧ g ≠ [] ∧ ¬ Stops isWordChar v

lemma opensExport_of_written (hexported : block.declared.exported = true)
    (h : Written block.tokens text rest) : OpensExport text := by
  simp only [BlockDef.tokens, Declared.opening, hexported, ite_true, List.cons_append,
    List.nil_append] at h
  obtain ⟨g, _, rfl, hg, hparted, h⟩ := written_cons.mp h
  obtain ⟨g', v, rfl, -, -, -⟩ := written_cons.mp h
  refine ⟨g, _, rfl, hg, ?_, by simp [Token.text]; decide⟩
  rintro rfl
  -- the two words would be one
  refine absurd hparted (not_or.mpr ⟨by decide, ?_⟩)
  simp [Token.text]
  decide

section OpensExport

variable (hnext : OpensExport next)

include hnext

lemma OpensExport.stops {p : Char → Bool} (hp : p 'e' = false) : Stops p next := by
  obtain ⟨g, v, rfl, -⟩ := hnext
  simpa using hp

/-- What reads no line feed and does not begin with an `e` stays before the declaration. -/
lemma OpensExport.halts (hq : q.Halts (u ++ ['\n']) next) (hnever : a.neverReads '\n' = true)
    (hnull : a.nullable = false) (hbegin : a.mayBegin 'e' = false) :
    (a ++ q).Halts (u ++ ['\n']) next :=
  hq.append_left (stopsShort_of_neverReads hnever) fun _ =>
    (fails_of_stops hnull (hnext.stops hbegin)).append q

/-- The word `export` could be a variable, but behind it there is another word. -/
lemma fails_variable (before : List Char) :
    (word ++ (blanks ++ (char '=' ++ q))).Fails before next := by
  obtain ⟨g, v, rfl, hg, hne, hv⟩ := hnext
  have hstops : ∀ p : Char → Bool, (∀ c, isWordChar c = true → p c = false) → Stops p v := fun p =>
    Text.stops_of_not_stops hv
  have hequals : (blanks ++ (char '=' ++ q)).Avoids isWordChar :=
    fun before text hword =>
      fails_assoc.mp ((blanks_char_avoids (by decide)).append q before text hword)
  refine fails_many1_append hequals (by decide)
    (hg.stops_of_ne_nil hne (fun _ => Text.not_isWordChar_of_isBlank) v) fun _ => ?_
  exact fails_blanks_append (by rfl) hg (hstops _ fun _ => Text.not_isBlank_of_isWordChar)
    (fails_one_append (hstops _ fun _ => Text.beq_of_isWordChar (by decide)))

lemma halts_parenthesis : (blanks ++ char '(').Halts (u ++ ['\n']) next := by
  have hsign : (char '(').Halts (u ++ ['\n']) next :=
    ⟨(stopsShort_of_neverReads (by decide)).staysIn next, fun _ =>
      fails_of_stops rfl (hnext.stops (by decide))⟩
  exact hsign.many_append (hnext.stops (by decide))

/-- No table that begins before an exported declaration goes on into it. -/
theorem staysIn_tableHead : tableHead.StaysIn (u ++ ['\n']) next := by
  have hblank : Stops isBlank next := hnext.stops (by decide)
  have hfunction : ((lit "pgTable" ||| lit "mysqlTable" ||| lit "sqliteTable") ++
      (blanks ++ char '(')).Halts (u ++ ['\n']) next :=
    hnext.halts (halts_parenthesis hnext) (by decide) (by decide) (by decide)
  have hequals := hnext.halts (a := char '=') (hfunction.many_append hblank) (by decide) (by decide)
    (by decide)
  have hvariable := (((hequals.many_append hblank).append_left (a := word)
    (stopsShort_of_neverReads (by decide)) (fails_variable hnext)).group_append 1).many1_append
      hblank
  have hconst := hnext.halts (a := lit "const") hvariable (by decide) (by decide) (by decide)
  have hexport : (lit "export").StopsShort (u ++ ['\n']) := stopsShort_of_neverReads (by decide)
  have hstays := ((hconst.many1_append hblank).stays.append_left hexport)
  simp only [tableHead, staysIn_assoc]
  exact (staysIn_assoc.mpr hstays).opt_append hconst.stays

/-- No block of relations does. -/
theorem staysIn_blockHead : blockHead.StaysIn (u ++ ['\n']) next := by
  have hword : (lit "relations" ++ (blanks ++ char '(')).Halts (u ++ ['\n']) next :=
    hnext.halts (halts_parenthesis hnext) (by decide) (by decide) (by decide)
  simp only [blockHead, staysIn_assoc]
  exact hword.stays.append_left (stopsShort_of_neverReads (by decide))

end OpensExport

/-! ### Texts without quotes -/

lemma not_isQuote_of_written (hts : ∀ t ∈ ts, t.Bare) (h : Written ts text rest) :
    ∀ c ∈ text, isQuote c = false :=
  forall_mem_of_written (fun _ => Text.not_isQuote_of_isBlank)
    (fun t ht c hc => ((hts t ht).1.isCode (hts t ht).2 c hc).1) h

lemma forall_mem_bracketed {Q : Token → Prop} {o c : Char} (ho : Q (.sign o)) (hc : Q (.sign c))
    (h : ∀ t ∈ ts, Q t) : ∀ t ∈ bracketed o c ts, Q t :=
  List.forall_mem_cons.mpr ⟨ho, List.forall_mem_append.mpr ⟨h, List.forall_mem_singleton.mpr hc⟩⟩

/-- In a block of relations there are no literals. -/
lemma ne_literal_of_mem_block : ∀ t ∈ block.tokens, ∀ q u, t ≠ .literal q u := by
  have hsigns : ∀ c, ∀ q u, Token.sign c ≠ .literal q u := by simp
  have hbrackets : ∀ {o c ts}, (∀ t ∈ ts, ∀ q u, t ≠ Token.literal q u) →
      ∀ t ∈ bracketed o c ts, ∀ q u, t ≠ .literal q u := forall_mem_bracketed (hsigns _) (hsigns _)
  have hlist : ∀ {entries : List (List Token)},
      (∀ entry ∈ entries, ∀ t ∈ entry, ∀ q u, t ≠ .literal q u) →
        ∀ t ∈ commaSeparated entries, ∀ q u, t ≠ .literal q u :=
          forall_mem_commaSeparated (hsigns _)
  have hpaths : ∀ paths, ∀ t ∈ pathList paths, ∀ q u, t ≠ .literal q u := fun paths =>
    hbrackets (hlist fun entry hentry => by
      obtain ⟨path, -, rfl⟩ := List.mem_map.mp hentry
      simp)
  have htarget : ∀ target : TargetDef, ∀ t ∈ target.tokens, ∀ q u, t ≠ .literal q u := by
    intro target
    cases target with
    | one binding | many binding =>
        exact List.forall_mem_cons.mpr ⟨by simp, hbrackets (by simp)⟩
    | oneAlong binding fields references =>
        refine List.forall_mem_cons.mpr ⟨by simp, hbrackets (List.forall_mem_append.mpr
          ⟨by simp, hbrackets (List.forall_mem_append.mpr ⟨List.forall_mem_append.mpr
            ⟨by simp, hpaths fields⟩, List.forall_mem_append.mpr ⟨by simp, hpaths references⟩⟩)⟩)⟩
  have hbody : ∀ t ∈ block.bodyTokens, ∀ q u, t ≠ .literal q u := by
    refine List.forall_mem_append.mpr ⟨hbrackets (hbrackets (hlist (by simp))),
      List.forall_mem_cons.mpr ⟨by simp, hbrackets (hbrackets (hlist fun ts hts => ?_))⟩⟩
    obtain ⟨entry, -, rfl⟩ := List.mem_map.mp hts
    exact List.forall_mem_append.mpr ⟨by simp, htarget entry.2⟩
  refine List.forall_mem_append.mpr ⟨?_, List.forall_mem_cons.mpr ⟨by simp,
    List.forall_mem_append.mpr ⟨hbrackets (hlist (by simpa using hbody)), ?_⟩⟩⟩
  · cases hexported : block.declared.exported <;> simp [Declared.opening, hexported]
  · cases hended : block.declared.ended <;> simp [Declared.closing, hended]

/-! ### Blocks behind other text -/

/-- What a scan comes upon in two texts is what it comes upon in each of them, if nothing goes on
from the first one into the second and the second changes nothing about what is read before it. -/
lemma flatMap_findAll_append (hscan : scan.Sound P) (hled : scan.pattern.isLed = true)
    (hnull : scan.pattern.nullable = false) (hstays : scan.pattern.StaysIn u text)
    (hread : ∀ v caught, scan.read (matchOf (v ++ text, caught)) = scan.read (matchOf (v, caught)))
    (hpasses : scan.Passes ts rs) (htext : Written ts text []) (hmeets : Meets u.reverse text) :
    (scan.pattern.findAll (u ++ text)).flatMap scan.read
      = (scan.pattern.findAll u).flatMap scan.read ++ rs := by
  obtain ⟨yields, hyields⟩ := exists_finds hnull [] u
  have hend : Finds scan.pattern (text.reverse ++ u.reverse) [] [] :=
    .stop trivial (hscan.fails_nil _)
  obtain ⟨found, hfound, rfl⟩ := hpasses u.reverse text [] [] htext (by simpa using hmeets)
    (fun _ => calm_nil) hend
  have hboth : Finds scan.pattern [] (u ++ text) (extend text yields ++ found) :=
    hyields.append hled (Alike.refl []) hstays (by simpa using hfound)
  rw [TokenScan.flatMap_findAll hscan hboth, TokenScan.flatMap_findAll hscan hyields,
    List.flatMap_append, extend, List.flatMap_map]
  simp only [hread]

section Block

variable (hend : EndsLine text) (hblock : block.Proper) (hexported : block.declared.exported = true)
  (hmore : Written block.tokens more [])

include hblock hmore

/-- A block changes nothing about the arguments of the calls before it. -/
lemma argumentsAfter?_append (v : List Char) (caught : Captures) :
    argumentsAfter? (matchOf (v ++ more, caught)) = argumentsAfter? (matchOf (v, caught)) := by
  have htidy := BlockDef.tidy_tokens hblock
  have hbare : ∀ t ∈ block.tokens, t.Bare := fun t ht =>
    ⟨htidy.proper t ht, ne_literal_of_mem_block t ht⟩
  exact map_enclosed?_append_closed (htidy.closed more [] hmore)
    (not_isQuote_of_written hbare hmore) v

include hend hexported

/-- What a scan comes upon in a text without comments that ends its last line, and in a block behind
it. -/
lemma flatMap_findAll_stripped (hscan : scan.Sound P) (hled : scan.pattern.isLed = true)
    (hnull : scan.pattern.nullable = false)
    (hstays : ∀ {u next}, OpensExport next → scan.pattern.StaysIn (u ++ ['\n']) next)
    (hread : ∀ v caught, scan.read (matchOf (v ++ more, caught)) = scan.read (matchOf (v, caught)))
    (hpasses : scan.Passes block.tokens rs) :
    (scan.pattern.findAll (stripComments .code (text ++ more))).flatMap scan.read
      = (scan.pattern.findAll (stripComments .code text)).flatMap scan.read ++ rs := by
  have hproper := (BlockDef.tidy_tokens hblock).proper
  obtain ⟨v, hv⟩ := hend.exists_stripComments
  rw [hend.stripComments_append, (uncommented_of_written hproper hmore).stripComments_eq, hv]
  refine flatMap_findAll_append hscan hled hnull (hstays (opensExport_of_written hexported hmore))
    hread hpasses hmore (Or.inl ?_)
  simp
  decide

/-- A block of relations behind a text declares no table and takes none away. -/
theorem calls_ofText_append :
    (Contents.ofText (text ++ more)).calls = (Contents.ofText text).calls := by
  have hcalls := flatMap_findAll_stripped hend hblock hexported hmore sound_tableScan (by decide)
    (by decide) staysIn_tableHead (fun v caught => by
      simp only [tableScan, TableCall.ofMatch, argumentsAfter?_append hblock hmore]
      rfl) (passes_tableScan_block hblock)
  simpa [tableScan, Contents.ofText, Contents.ofStripped, ← List.map_eq_flatMap] using hcalls

/-- Its relations come behind those of the text. -/
theorem relations_ofText_append (contents : Contents) :
    (Contents.ofText (text ++ more)).blocks.flatMap (RelationBlock.relations contents)
      = (Contents.ofText text).blocks.flatMap (RelationBlock.relations contents) ++
          block.toBlock.relations contents := by
  have hblocks := flatMap_findAll_stripped hend hblock hexported hmore (sound_blockScan contents)
    (by rfl) (by rfl) staysIn_blockHead (fun v caught => by
      simp only [blockScan, RelationBlock.ofMatch?, argumentsAfter?_append hblock hmore])
      (passes_blockScan_block contents hblock)
  simpa [blockScan, Contents.ofText, Contents.ofStripped, relationBlocks, flatMap_filterMap]
    using hblocks

end Block

end SchemaReader.TableModule
