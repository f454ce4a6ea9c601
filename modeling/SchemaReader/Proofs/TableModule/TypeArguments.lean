/-
Types as arguments of calls in a chain.

* `typeLink`: the call `.$type<T>()` in a chain;
* `entriesIn_typeLink_of_whole`: the call changes nothing about the column, if its type has no comma
  outside of brackets and literals;
* `entriesIn_typeLink_of_cut`: a column is cut at such a comma, and what is called behind the type
  is lost;
* `schema_typeLink`: the call in a module of tables.
-/
import SchemaReader.Proofs.TableModule.CallTexts
import SchemaReader.Proofs.TableModule.Chains

namespace SchemaReader.TableModule

open Pattern
open Text (IsWord IsGap Stops isWordChar isBlank)

variable {column : ChainedColumn} {before after links : List Link} {gap type u v w : List Char}

/-! ### The call -/

/-- What stands before the type: `.$type<` -/
def typeOpening (gap : List Char) : List Char := gap ++ ".$type<".toList

/-- The call `.$type<T>()`, behind white space. -/
def typeLink (gap type : List Char) : Link := ⟨gap, "$type<".toList ++ (type ++ ">(".toList)⟩

lemma text_typeLink (gap type : List Char) :
    (typeLink gap type).text = typeOpening gap ++ (type ++ ">()".toList) := by
  simp [typeLink, Link.text, typeOpening]

lemma whole_typeOpening (hg : IsGap gap) : Whole .code ',' (typeOpening gap) :=
  (whole_gap hg).append (by decide) (by decide)

/-- The call is proper, if its type has no comma at the top level. -/
lemma proper_typeLink (hg : IsGap gap) (htype : Whole .code ',' type) :
    (typeLink gap type).Proper where
  gap := hg
  whole := by
    rw [text_typeLink]
    exact (whole_typeOpening hg).append (by decide) (htype.append (by decide) (by decide))

/-! ### Entries -/

/-- A column with proper links ends with a parenthesis. -/
lemma exists_text_concat (column : ChainedColumn) (links : List Link) :
    ∃ v, column.text (chainText links) = v ++ [')'] := by
  obtain rfl | ⟨links, link, rfl⟩ := List.eq_nil_or_concat links
  · exact ⟨column.key ++ (": ".toList ++ (column.function ++ '(' :: column.arguments)), by
      simp [ChainedColumn.text, ChainedColumn.opening, chainText]⟩
  · exact ⟨column.opening ++ (chainText links ++ (link.gap ++ '.' :: link.call)), by
      simp [ChainedColumn.text, chainText, Link.text]⟩

lemma stops_isBlank_text (h : column.Proper) (chain : List Char) :
    Stops isBlank (column.text chain) := by
  rw [ChainedColumn.text, ChainedColumn.opening, List.append_assoc]
  exact h.key.stops_isBlank _

/-- A column with proper links is read as one column. -/
theorem entriesIn_text (h : column.Proper) (hlinks : ∀ link ∈ links, link.Proper) :
    entriesIn (column.text (chainText links)) = [.column (column.entry (chainText links))] := by
  have hwhole : Whole .code ',' (column.text (chainText links)) :=
    (h.whole_opening).append (by decide) (whole_chainText hlinks)
  obtain ⟨v, hv⟩ := exists_text_concat column links
  have hend : Stops isBlank (column.text (chainText links)).reverse := by
    rw [hv]
    simp
    decide
  have hne : column.text (chainText links) ≠ [] := by simp [hv]
  rw [entriesIn, hwhole.splitTopLevel_eq (stops_isBlank_text h _) hend hne, List.map_singleton,
    h.ofText_text]

/-- The call changes nothing about the column, if its type has no comma at the top level. -/
theorem entriesIn_typeLink_of_whole (h : column.Proper)
    (hlinks : ∀ link ∈ before ++ after, link.Proper)
    (hg : IsGap gap) (htype : Whole .code ',' type) (hmute : Mute (typeLink gap type).text) :
    entriesIn (column.text (chainText (before ++ typeLink gap type :: after)))
      = entriesIn (column.text (chainText (before ++ after))) := by
  have hall : ∀ link ∈ before ++ typeLink gap type :: after, link.Proper := by
    rw [List.forall_mem_append] at hlinks
    exact List.forall_mem_append.mpr ⟨hlinks.1, List.forall_mem_cons.mpr
      ⟨proper_typeLink hg htype, hlinks.2⟩⟩
  rw [entriesIn_text h hall, entriesIn_text h hlinks, ChainedColumn.entry, ChainedColumn.entry,
    ofChain_insert (fun l hl => (hall l hl).gap) hmute]

/-- What is mute up to its end is mute up to any place before. -/
lemma mute_of_append (h : Mute (u ++ v)) : Mute u := by
  intro q hq
  rw [← Bool.not_eq_true]
  intro hoccurs
  have hmore := occursIn_append_left (chainCalls_free q hq).1 hoccurs v
  simp [h q hq] at hmore

lemma whole_text_typeOpening (h : column.Proper) (hlinks : ∀ link ∈ before, link.Proper)
    (hg : IsGap gap)
    (hv : Whole .code ',' v) :
    Whole .code ',' (column.text (chainText before ++ (typeOpening gap ++ v))) :=
  h.whole_opening.append (by decide) ((whole_chainText hlinks).append (by decide)
    ((whole_typeOpening hg).append (by decide) hv))

/-- A column whose chain ends within a type is the one without the call that the type stands in. -/
lemma entriesIn_typeOpening (h : column.Proper) (hlinks : ∀ link ∈ before, link.Proper)
    (hg : IsGap gap)
    (hv : Whole .code ',' v) (hmute : Mute (typeOpening gap ++ v)) :
    entriesIn (column.text (chainText before ++ (typeOpening gap ++ v)))
      = [.column (column.entry (chainText before))] := by
  -- the piece is read without the white space at its end
  obtain ⟨g, y, hreverse, hgap, hend⟩ := exists_run isBlank v.reverse
  obtain rfl : v = y.reverse ++ g.reverse := by
    rw [← List.reverse_append, ← hreverse, List.reverse_reverse]
  have hwhole := whole_text_typeOpening h hlinks hg hv
  obtain ⟨x, hx⟩ : ∃ x, typeOpening gap = x ++ ['<'] :=
    ⟨gap ++ ".$type".toList, by simp [typeOpening]⟩
  have htext : column.text (chainText before ++ (typeOpening gap ++ (y.reverse ++ g.reverse)))
      = column.text (chainText before ++ (typeOpening gap ++ y.reverse)) ++ g.reverse := by
    simp [ChainedColumn.text]
  have hstop : Stops isBlank
      (column.text (chainText before ++ (typeOpening gap ++ y.reverse))).reverse := by
    have hbehind : (column.text (chainText before ++ (typeOpening gap ++ y.reverse))).reverse
        = y ++ '<' :: (x.reverse ++ (column.opening ++ chainText before).reverse) := by
      simp [ChainedColumn.text, hx]
    rw [hbehind]
    exact hend.append (by simp; decide)
  have hne : column.text (chainText before ++ (typeOpening gap ++ y.reverse)) ≠ [] := by
    simp [ChainedColumn.text, hx]
  have hopens : OpensLink (typeOpening gap ++ y.reverse) :=
    ⟨gap, "$type<".toList ++ y.reverse, by simp [typeOpening], hg⟩
  rw [← List.append_assoc] at hmute
  rw [htext] at hwhole ⊢
  rw [entriesIn, hwhole.splitTopLevel_append_gap (fun c hc => hgap c (List.mem_reverse.mp hc))
    (stops_isBlank_text h _) hstop hne, List.map_singleton, h.ofText_text, ChainedColumn.entry,
    ofChain_append (fun l hl => (hlinks l hl).gap) hopens (mute_of_append hmute),
      ChainedColumn.entry]

/-- At a comma in the type the column is cut: it is the one without what is called from there on,
and what follows the comma are other entries. -/
theorem entriesIn_typeLink_of_cut (h : column.Proper) (hlinks : ∀ link ∈ before, link.Proper)
    (hg : IsGap gap) (hv : Whole .code ',' v) (hmute : Mute (typeLink gap (v ++ ',' :: w)).text)
    (after : List Link) :
    entriesIn (column.text (chainText (before ++ typeLink gap (v ++ ',' :: w) :: after)))
      = .column (column.entry (chainText before)) :: entriesIn
        (w ++ (">()".toList ++ chainText after)) := by
  have htext : column.text (chainText (before ++ typeLink gap (v ++ ',' :: w) :: after))
      = column.text (chainText before ++ (typeOpening gap ++ v)) ++ ',' ::
          (w ++ (">()".toList ++ chainText after)) := by
    simp [ChainedColumn.text, chainText_append, chainText_cons, text_typeLink]
  have hlink : (typeLink gap (v ++ ',' :: w)).text
      = (typeOpening gap ++ v) ++ ',' :: (w ++ ">()".toList) := by
    simp [text_typeLink]
  rw [hlink] at hmute
  rw [htext, entriesIn_append_comma (whole_text_typeOpening h hlinks hg hv).balanced,
    entriesIn_typeOpening h hlinks hg hv (mute_of_append hmute)]
  rfl

/-! ### Modules -/

/-- **A type as the argument of a call.**  In a chain of calls, let `.$type<T>()` stand behind some
of them and before others, with a type that closes what it opens, and let none of the calls that say
something about the column be found in it.  If the type has no comma outside of its round, square
and curly brackets and its literals, the column is read as without the call, and so is every module
that it stands in.  Otherwise it is cut at the first such comma: what is called behind the type is
lost, and what follows the comma is read as entries of its own. -/
theorem schema_typeLink (h : column.Proper) (hlinks : ∀ link ∈ before ++ after, link.Proper)
    (hg : IsGap gap) (htype : Balanced .code type) (hmute : Mute (typeLink gap type).text) :
    (Whole .code ',' type →
      entriesIn (column.text (chainText (before ++ typeLink gap type :: after)))
        = entriesIn (column.text (chainText (before ++ after))) ∧
      ∀ (around : ModuleAround) (rawPath : String), around.Proper →
        IsPiece (column.text (chainText (before ++ typeLink gap type :: after))) →
        IsPiece (column.text (chainText (before ++ after))) →
        Schema.ofText .drizzle
            (around.textWith (column.text (chainText (before ++ typeLink gap type :: after))))
              rawPath
          = Schema.ofText .drizzle
            (around.textWith (column.text (chainText (before ++ after)))) rawPath) ∧
    (¬ Whole .code ',' type → ∃ v w, type = v ++ ',' :: w ∧ Whole .code ',' v ∧
      entriesIn (column.text (chainText (before ++ typeLink gap type :: after)))
        = .column (column.entry (chainText before)) ::
            entriesIn (w ++ (">()".toList ++ chainText after))) := by
  refine ⟨fun hwhole => ?_, fun hcut => ?_⟩
  · have hread := entriesIn_typeLink_of_whole h hlinks hg hwhole hmute
    exact ⟨hread, fun around rawPath haround hu hv => haround.schema_congr hu hv hread rawPath⟩
  · have hcases : Whole .code ',' type ∨ ∃ v w, type = v ++ ',' :: w ∧ Whole .code ',' v :=
      htype.whole_or_cut
    obtain hwhole | ⟨v, w, rfl, hv⟩ := hcases
    · exact absurd hwhole hcut
    · have hbefore : ∀ link ∈ before, link.Proper :=
        fun l hl => hlinks l (List.mem_append_left _ hl)
      exact ⟨v, w, rfl, hv, entriesIn_typeLink_of_cut h hbefore hg hv hmute after⟩

/-- `tags: json('tags')` -/
def sampleTags : ChainedColumn := ⟨"tags".toList, "json".toList, "'tags'".toList⟩

/-- A default value before the type, and that the column is never null behind it. -/
def sampleBefore : List Link := [⟨[], "default([]".toList⟩]

def sampleAfter : List Link := [⟨" ".toList, "notNull(".toList⟩]

/-- A type with commas in its brackets. -/
def sampleType : List Char := "[name: string, count: Map<string, number>][]".toList

/-- A table of posts behind one of users, with other columns around one of them. -/
def sampleAround : ModuleAround where
  ahead := [⟨"users", "users", ["id: uuid('id').primaryKey()".toList], []⟩]
  binding := "posts"
  name := "posts"
  front := ["id: uuid('id').primaryKey()".toList]
  behind := ["author: uuid('author').references(() => users.id)".toList]
  callbacks := []
  back := []

lemma proper_sampleAround : sampleAround.Proper := by
  have hplain : ∀ t ∈ sampleAround.front ++ sampleAround.behind, IsPlainPiece t := by decide
  refine ⟨?_, by decide, by decide, ?_⟩
  · refine List.forall_mem_singleton.mpr ⟨by decide, by decide, ?_, by simp⟩
    exact List.forall_mem_singleton.mpr (hplain _ List.mem_cons_self).isPiece
  · exact List.forall_mem_append.mpr ⟨fun t ht => (hplain t ht).isPiece, by simp [sampleAround]⟩

theorem schema_typeLink_sampleTags :
    sampleTags.Proper ∧ Whole .code ',' sampleType ∧ Mute (typeLink [] sampleType).text ∧
    Schema.ofText .drizzle (sampleAround.textWith
        (sampleTags.text (chainText (sampleBefore ++ typeLink [] sampleType :: sampleAfter))))
          "a.ts"
      = Schema.ofText .drizzle (sampleAround.textWith
          (sampleTags.text (chainText (sampleBefore ++ sampleAfter)))) "a.ts" := by
  have hproper : sampleTags.Proper := by decide
  have hlinks : ∀ link ∈ sampleBefore ++ sampleAfter, link.Proper := by decide
  have hwhole : Whole .code ',' sampleType := by decide
  have hmute : Mute (typeLink [] sampleType).text := by decide
  have hwith : IsPlainPiece (sampleTags.text
      (chainText (sampleBefore ++ typeLink [] sampleType :: sampleAfter))) := by decide +kernel
  have hwithout : IsPlainPiece (sampleTags.text (chainText (sampleBefore ++ sampleAfter))) := by
    decide
  obtain ⟨hinert, -⟩ := schema_typeLink hproper hlinks Text.isGap_nil hwhole.balanced hmute
  exact ⟨hproper, hwhole, hmute, (hinert hwhole).2 sampleAround "a.ts" proper_sampleAround
    hwith.isPiece hwithout.isPiece⟩

/-- A comma between angle brackets cuts the column, and what is called behind the type is lost. -/
theorem type_argument_cuts :
    Schema.ofText .drizzle
      ("const t = pgTable('t', \x7b tags: json('tags').$type<Record<string, string>>()" ++
        ".notNull() \x7d);").toList "inline"
      = ⟨.drizzle, [⟨"t", [⟨"tags", "json", true, false, none⟩], []⟩], [], "inline"⟩ ∧
    Schema.ofText .drizzle "const t = pgTable('t', \x7b tags: json('tags').notNull() \x7d);".toList
      "inline"
      = ⟨.drizzle, [⟨"t", [⟨"tags", "json", false, false, none⟩], []⟩], [], "inline"⟩ := by
  decide +kernel

end SchemaReader.TableModule
