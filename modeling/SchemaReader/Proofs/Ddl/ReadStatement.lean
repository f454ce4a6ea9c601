/-
Written statements, and what they are read as.

* `ofMatch?_created`, `ofMatch?_index`: the lists of created tables and of indexes are read as they
  are written;
* `scansAs_createTableHead`, `scansAs_createIndexHead`, `scansAs_addForeignKeyForm`: each form comes
  upon the statements of its own kind and passes over the others.
-/
import SchemaReader.Proofs.Ddl.ReadEntry
import SchemaReader.Proofs.Ddl.Scan
import SchemaReader.Proofs.Ddl.Silence

namespace SchemaReader.Ddl

open Text (IsWord IsGap IsKeyword Spells Stops isWordChar isBlank)
open Pattern

variable {before t t₁ t₂ u v w g g' e text rest list : List Char} {ps : List Piece} {q : Pattern}
  {piece : Piece} {K L : String} {table : TableDef} {statement : Statement} {names : List String}
  {caught : Captures}

/-! ### Lists of statements -/

lemma isEntry_items (htable : table.Proper) :
    ∀ entry ∈ table.items.map Prod.fst, IsEntry entry :=
  List.forall_mem_map.mpr (htable.forall_mem_items (fun _ => isEntry_column) fun _ =>
    isEntry_clause)

/-- What stands in the parentheses of a created table is read as its columns and clauses. -/
lemma map_ofText_items (htable : table.Proper)
    (h : Writes (separated (table.items.map Prod.fst)) text rest) (hg : IsGap g) :
    (splitTopLevel .script ',' (g ++ text)).map TableEntry.ofText = table.items.map Prod.snd :=
  map_of_forall₂ (htable.forall_mem_items (fun _ hcolumn _ => ofText_column hcolumn)
    fun _ hclause _ => ofText_clause hclause) (splitTopLevel_of_writes (isEntry_items htable) h hg)

/-- A created table is read as it is written. -/
lemma ofMatch?_created (htable : table.Proper)
    (h : Writes (separated (table.items.map Prod.fst)) text (')' :: rest)) (hg : IsGap g) :
    CreateTable.ofMatch? (matchOf (g ++ (text ++ ')' :: rest), [(1, table.name.toList)]))
      = some table.created := by
  have henclosed : enclosed? .script (g ++ (text ++ ')' :: rest)) = some (g ++ text, rest) :=
    enclosed?_separated (fun entry hentry =>
      closedPieces_mono (fun _ _ => trivial) (isEntry_items htable entry hentry).closed) h hg
  simp [CreateTable.ofMatch?, listAfter?, matchOf, henclosed, Match.group, Match.group?,
    nameOf_plain htable.name.isWord, map_ofText_items htable h hg, TableDef.created]

/-- A column of an index is read as its name. -/
lemma indexedColumn_of_writes {name : String} (hname : IsName name)
    (h : WritesEntry [.name name] text) : indexedColumn text = name.toList := by
  have hparenthesis : '(' ∉ text := by
    obtain ⟨s, g, _, rfl, rfl, hg, -, rfl⟩ := h.writes
    simp only [List.append_nil, List.mem_append, not_or]
    refine ⟨fun hmem => ?_, fun hmem => absurd (hg _ hmem) (by decide)⟩
    exact absurd (hname.isWord.chars _ hmem) (by decide)
  rw [indexedColumn, if_neg (by simpa using hparenthesis),
    leadingIdentifier_of_writes hname.isWord h]

/-- The columns of an index are read as their names. -/
lemma columns_of_writes (hnames : ∀ name ∈ names, IsName name)
    (h : Writes (namePieces names) text rest) (hg : IsGap g) :
    ((((splitTopLevel .script ',' (g ++ text)).map indexedColumn).filter
      fun column => !column.isEmpty).map String.ofList) = names := by
  have hwords : ∀ name ∈ names, IsWord name.toList := fun name hname => (hnames name hname).isWord
  rw [map_of_forall₂ (fun name hname _ => indexedColumn_of_writes (hnames name hname))
    (splitTopLevel_names hwords h hg), filter_names hwords, List.map_map]
  simp

/-- A created index is read as it is written; what is remembered of the word `UNIQUE` tells whether
it is unique. -/
lemma ofMatch?_index {name target : String} (hname : IsName name) (htarget : IsName target)
    (hnames : ∀ name ∈ names, IsName name) (h : Writes (namePieces names) text (')' :: rest))
    (hg : IsGap g) (caught : Captures) :
    CreateIndex.ofMatch? (matchOf (g ++ (text ++ ')' :: rest),
        ([(3, target.toList)] ++ [(2, name.toList)]) ++ caught))
      = some ⟨target, some name, names, (caught.lookup 1).isSome⟩ := by
  have henclosed : enclosed? .script (g ++ (text ++ ')' :: rest)) = some (g ++ text, rest) :=
    enclosed?_separated (closedPieces_names holdsWords_true hnames) h hg
  simp [CreateIndex.ofMatch?, listAfter?, matchOf, henclosed, Match.group, Match.group?,
    List.lookup_cons, nameOf_plain htarget.isWord, nameOf_plain hname.isWord]
  simpa using columns_of_writes hnames h hg

/-! ### Statements that are passed over -/

lemma allOrdinary_createIndex {name target : String} (unique : Bool) (hname : IsName name)
    (htarget : IsName target) (hnames : ∀ name ∈ names, IsName name) :
    AllOrdinary (Statement.createIndex unique name target names).pieces := by
  have hlist : AllOrdinary ([.keyword "INDEX", .name name, .keyword "ON", .name target] ++
      parenthesized (namePieces names) ++ [.sign ';']) :=
    .cons (.keyword (by decide)) (.cons (.name hname) (.cons (.keyword (by decide))
      (.cons (.name htarget) ((allOrdinary_namePieces hnames).parenthesized.append
        (.cons (.sign (by decide)) allOrdinary_nil)))))
  cases unique with
  | false => exact .cons (.keyword (by decide)) hlist
  | true => exact .cons (.keyword (by decide)) (.cons (.keyword (by decide)) hlist)

lemma allOrdinary_addForeignKey {target : String} {name : Option String} {key : KeyDef}
    (htarget : IsName target) (hname : ∀ n ∈ name, IsName n) (hkey : key.Proper) :
    AllOrdinary (Statement.addForeignKey target name key).pieces := by
  have halter : AllOrdinary [.keyword "ALTER", .keyword "TABLE", .name target, .keyword "ADD"] :=
    .cons (.keyword (by decide)) (.cons (.keyword (by decide)) (.cons (.name htarget)
      (.cons (.keyword (by decide)) allOrdinary_nil)))
  exact ((halter.append (allOrdinary_constraint hname)).append (allOrdinary_key hkey)).append
    (.cons (.sign (by decide)) allOrdinary_nil)

/-- The three parts of a written statement that creates a table. -/
lemma exists_created_text (h : Writes (Statement.createTable table).pieces text rest) :
    ∃ a b e, text = a ++ (b ++ e) ∧
      Writes [.keyword "CREATE", .keyword "TABLE", .name table.name] a (b ++ (e ++ rest)) ∧
      Writes (parenthesized (separated (table.items.map Prod.fst))) b (e ++ rest) ∧
      Writes [.sign ';'] e rest := by
  obtain ⟨_, e, rfl, hab, he⟩ := writes_append.mp h
  obtain ⟨a, b, rfl, ha, hb⟩ := writes_append.mp hab
  exact ⟨a, b, e, by simp, ha, hb, he⟩

lemma silent_semicolon (hq : q.WordLed) (h : Writes [.sign ';'] text rest) :
    Silent q before text rest := by
  obtain ⟨_, g, _, rfl, rfl, hg, -, rfl⟩ := h
  refine silent_append.mpr ⟨hq.silent_outside ?_, ?_⟩
  · simpa using not_isWordChar_of_mem_scriptSigns (c := ';') (by decide)
  · rw [List.append_nil]
    exact hq.silent_gap hg

/-- A form reads nothing at the word `CREATE` if it fails on the word behind it. -/
lemma silent_create (hq : IsStatementForm q "CREATE") (hL : IsKeyword L.toList)
    (hfails : ∀ before t₁ t₂ v, SpacedKeyword "CREATE" t₁ → SpacedKeyword L t₂ →
      q.Fails before (t₁ ++ (t₂ ++ v)))
    (hpiece : ∀ s, piece.Spelled s → IsWord s) (hps : AllOrdinary (.keyword L :: piece :: ps))
    (hnot : .keyword "CREATE" ∉ .keyword L :: piece :: ps)
    (h : Writes (.keyword "CREATE" :: .keyword L :: piece :: ps) text rest) :
    Silent q before text rest := by
  obtain ⟨t₁, u, rfl, ht₁, hu⟩ :=
    writes_spacedKeyword (by decide) (fun _ => Piece.isWord_of_spelled_keyword hL) h
  refine silent_append.mpr ⟨?_, hq.silent hps hnot hu⟩
  obtain ⟨t₂, v, rfl, ht₂, -⟩ := writes_spacedKeyword hL hpiece hu
  have hfails := hfails before t₁ t₂ (v ++ rest) ht₁ ht₂
  obtain ⟨s, g, rfl, hs, hg, -⟩ := ht₁.split
  have hword := hs.isWord ht₁.isKeyword
  refine silent_append.mpr ⟨?_, hq.ledBy.wordLed.silent_gap hg⟩
  exact hq.ledBy.wordLed.silent_word hword.chars (by simpa using hfails)

/-- A form passes over a created table if it reads nothing at its head. -/
lemma silent_created (hq : IsStatementForm q K) (htable : table.Proper)
    (hhead : ∀ u rest, Writes [.keyword "CREATE", .keyword "TABLE", .name table.name] u rest →
      Silent q before u rest)
    (h : Writes (Statement.createTable table).pieces text rest) : Silent q before text rest := by
  obtain ⟨a, b, e, rfl, ha, hb, he⟩ := exists_created_text h
  refine silent_append.mpr ⟨by simpa using hhead _ _ ha,
    silent_append.mpr ⟨?_, silent_semicolon hq.ledBy.wordLed he⟩⟩
  exact silent_parenthesized hq.ledBy.wordLed (hq.quiet_items htable) hb

/-- The form of a created index passes over a created table. -/
lemma silent_createIndexHead (htable : table.Proper)
    (h : Writes (Statement.createTable table).pieces text rest) :
    Silent createIndexHead before text rest := by
  have hq := isStatementForm_createIndexHead
  refine silent_created hq htable (fun u rest hu => ?_) h
  have hordinary : AllOrdinary [.keyword "TABLE", .name table.name] :=
    .cons (.keyword (by decide)) (.cons (.name htable.name) allOrdinary_nil)
  have hword : ∀ s, (Piece.name table.name).Spelled s → IsWord s := fun _ =>
    Piece.isWord_of_spelled_name htable.name.isWord
  refine silent_create hq (L := "TABLE") (by decide) (fun before t₁ t₂ v ht₁ ht₂ => ?_) hword
    hordinary (by simp [Piece.name]) hu
  simp only [createIndexHead, fails_assoc]
  rw [fails_wordEdge_append]
  intro _
  refine fails_keywordBefore_of_spaced ht₁ (by decide) (ht₂.stops_isBlank _) fun _ => ?_
  rw [fails_opt_append, fails_group_append]
  exact ⟨fails_keywordBefore_of_ne ht₂ (by decide) (by decide),
    fails_keywordBefore_of_ne ht₂ (by decide) (by decide)⟩

/-- The form of an added foreign key passes over a created table. -/
lemma silent_addForeignKeyForm (htable : table.Proper)
    (h : Writes (Statement.createTable table).pieces text rest) :
    Silent addForeignKeyForm before text rest := by
  have hq := isStatementForm_addForeignKeyForm
  have hordinary : AllOrdinary [.keyword "CREATE", .keyword "TABLE", .name table.name] :=
    .cons (.keyword (by decide)) (.cons (.keyword (by decide))
      (.cons (.name htable.name) allOrdinary_nil))
  exact silent_created hq htable (fun _ _ hu => hq.silent hordinary (by simp [Piece.name]) hu) h

/-- The form of a created table fails where neither its own word nor what may stand before it
follows the word `CREATE`. -/
lemma fails_createTableHead (ht₁ : SpacedKeyword "CREATE" t₁) (ht₂ : SpacedKeyword L t₂)
    (hL : L ∉ ["GLOBAL", "LOCAL", "TEMPORARY", "TEMP", "UNLOGGED", "TABLE"]) (v : List Char) :
    createTableHead.Fails before (t₁ ++ (t₂ ++ v)) := by
  have hskip : ∀ (K : String) (before : List Char), IsKeyword K.toList →
      K ∈ ["GLOBAL", "LOCAL", "TEMPORARY", "TEMP", "UNLOGGED", "TABLE"] → ∀ b : Pattern,
        (keyword K ++ (someBlanks ++ b)).Fails before (t₂ ++ v) := fun K before hK hmem b =>
    fails_keyword_of_ne ht₂ hK (fun heq => hL (heq ▸ hmem)) (someBlanks_avoids_isWordChar.append b)
  simp only [createTableHead, fails_assoc]
  rw [fails_wordEdge_append]
  intro _
  refine fails_keywordBefore_of_spaced ht₁ (by decide) (ht₂.stops_isBlank _) fun _ => ?_
  simp only [keywordBefore, fails_opt_append, fails_assoc, fails_alt_append]
  exact ⟨⟨hskip _ _ (by decide) (by decide) _, hskip _ _ (by decide) (by decide) _⟩,
    ⟨⟨hskip _ _ (by decide) (by decide) _, hskip _ _ (by decide) (by decide) _⟩,
      hskip _ _ (by decide) (by decide) _⟩, hskip _ _ (by decide) (by decide) _⟩

/-- The form of a created table passes over a created index. -/
lemma silent_createTableHead {name target : String} {unique : Bool} (hname : IsName name)
    (htarget : IsName target) (hnames : ∀ name ∈ names, IsName name)
    (h : Writes (Statement.createIndex unique name target names).pieces text rest) :
    Silent createTableHead before text rest := by
  have hq := isStatementForm_createTableHead
  have hordinary := allOrdinary_createIndex unique hname htarget hnames
  cases unique with
  | false =>
      refine silent_create hq (by decide) (fun _ _ _ v ht₁ ht₂ =>
        fails_createTableHead ht₁ ht₂ (by decide) v)
        (fun _ => Piece.isWord_of_spelled_name hname.isWord) (List.forall_mem_cons.mp hordinary).2
        (by simp [parenthesized, Piece.sign, Piece.name, keyword_not_mem_namePieces]) h
  | true =>
      refine silent_create hq (by decide) (fun _ _ _ v ht₁ ht₂ =>
        fails_createTableHead ht₁ ht₂ (by decide) v)
        (fun _ => Piece.isWord_of_spelled_keyword (by decide)) (List.forall_mem_cons.mp hordinary).2
        (by simp [parenthesized, Piece.sign, Piece.name, keyword_not_mem_namePieces]) h

lemma create_not_mem_addForeignKey (target : String) (name : Option String) (key : KeyDef) :
    .keyword "CREATE" ∉ (Statement.addForeignKey target name key).pieces := by
  cases name <;>
    simp [Statement.pieces, KeyDef.pieces, constraintPieces, parenthesized, Piece.sign, Piece.name,
      keyword_not_mem_namePieces]

lemma alter_not_mem_createIndex (unique : Bool) (name target : String) (names : List String) :
    .keyword "ALTER" ∉ (Statement.createIndex unique name target names).pieces := by
  cases unique <;>
    simp [Statement.pieces, parenthesized, Piece.sign, Piece.name, keyword_not_mem_namePieces]

/-! ### Statements that are come upon -/

/-- Behind the parenthesis that a head ends with, nothing is read up to the end of the statement. -/
lemma silent_behind_parenthesis (hq : q.WordLed) (hps : Quiet q ps)
    (hb : Writes (parenthesized ps) ('(' :: v) (e ++ rest)) (he : Writes [.sign ';'] e rest) :
    Silent q ('(' :: before) (v ++ e) rest := by
  have hlist : Silent q before ('(' :: v) (e ++ rest) := silent_parenthesized hq hps hb
  exact silent_append.mpr ⟨hlist.2, silent_semicolon hq he⟩

theorem scansAs_createTableHead (h : statement.Proper) : ScansAs createTableHead
    CreateTable.ofMatch? statement (statement.created?.map some).toList := by
  have hq := isStatementForm_createTableHead
  cases statement with
  | createIndex unique name target columns =>
      exact scansAs_of_silent fun _ _ _ _ htext => silent_createTableHead h.1 h.2.1 h.2.2 htext
  | addForeignKey target name key =>
      exact scansAs_of_silent fun _ _ _ _ htext =>
        hq.silent (allOrdinary_addForeignKey h.1 h.2.1 h.2.2)
          (create_not_mem_addForeignKey target name key) htext
  | createTable table =>
      refine scansAs_of_takes fun before text rest hbefore htext => ?_
      obtain ⟨a, b, e, rfl, ha, hb, he⟩ := exists_created_text htext
      have htable : ∀ s, (Piece.name table.name).Spelled s → IsWord s := fun _ =>
        Piece.isWord_of_spelled_name h.name.isWord
      obtain ⟨t₁, _, rfl, ht₁, htail⟩ := writes_spacedKeyword (by decide)
        (fun _ => Piece.isWord_of_spelled_keyword (by decide)) ha
      obtain ⟨t₂, _, rfl, ht₂, _, g, _, rfl, rfl, hg, -, rfl⟩ :=
        writes_spacedKeyword (by decide) htable htail
      obtain ⟨g₁, u, g₂, rfl, hg₁, hg₂, hu⟩ := writes_parenthesized hb
      refine ⟨t₁ ++ (t₂ ++ (table.name.toList ++ (g ++ ['(']))), (g₁ ++ (u ++ ')' :: g₂)) ++ e,
        [(1, table.name.toList)], by simp, by simp, ?_, ?_, ?_⟩
      · exact takes_createTableHead ht₁ ht₂ h.name.isWord hg hbefore
      · have hsilent : Silent createTableHead
            ('(' :: ((t₁ ++ (t₂ ++ (table.name.toList ++ g))).reverse
            ++ before)) ((g₁ ++ (u ++ ')' :: g₂)) ++ e) rest :=
          silent_behind_parenthesis hq.ledBy.wordLed (hq.quiet_items h) hb he
        simpa using hsilent
      · simpa using ofMatch?_created h hu hg₁

/-- The head of a created index from the word `INDEX` on. -/
lemma exists_indexHead_text {name target : String} (hname : IsName name) (htarget : IsName target)
    (h : Writes [.keyword "INDEX", .name name, .keyword "ON", .name target] text rest) :
    ∃ t r g, text = t ++ (r ++ g) ∧ IsGap g ∧ SpacedKeyword "INDEX" t ∧
      ∀ before rest, createIndexTail.Takes before (t ++ (r ++ (g ++ ['(']))) rest
        ([(3, target.toList)] ++ [(2, name.toList)]) := by
  obtain ⟨t, _, rfl, ht, hu⟩ := writes_spacedKeyword (by decide)
    (fun _ => Piece.isWord_of_spelled_name hname.isWord) h
  obtain ⟨_, g₁, _, rfl, rfl, hg₁, hparted, hv⟩ := hu
  obtain ⟨t', _, rfl, ht', _, g₂, _, rfl, rfl, hg₂, -, rfl⟩ := writes_spacedKeyword (by decide)
    (fun _ => Piece.isWord_of_spelled_name htarget.isWord) hv
  have hne : g₁ ≠ [] := by
    rintro rfl
    refine ht'.not_stops (target.toList ++ (g₂ ++ rest)) ?_
    simpa using hparted.stops hname.isWord
  refine ⟨t, name.toList ++ g₁ ++ (t' ++ target.toList), g₂, by simp, hg₂, ht,
    fun before rest => ?_⟩
  have htakes : createIndexTail.Takes before
      (t ++ ((name.toList ++ g₁) ++ (t' ++ (target.toList ++ (g₂ ++ ['(']))))) rest
        ([(3, target.toList)] ++ [(2, name.toList)]) :=
    takes_createIndexTail ht hname.isWord (hname.not_spells (by decide))
      (hname.not_spells (by decide)) hg₁ hne ht' htarget.isWord (htarget.not_spells (by decide)) hg₂
  simpa using htakes

/-- The head of a created index.  Its form remembers the word `UNIQUE` if the index is unique. -/
lemma exists_createIndexHead_text {unique : Bool} {name target : String} (hname : IsName name)
    (htarget : IsName target)
    (h : Writes (.keyword "CREATE" :: (if unique then [.keyword "UNIQUE"] else []) ++
      [.keyword "INDEX", .name name, .keyword "ON", .name target]) text rest) :
    ∃ head g caught, text = head ++ g ∧ IsGap g ∧ (caught.lookup 1).isSome = unique ∧
      ∀ before rest, Stops isWordChar before →
      createIndexHead.Takes before (head ++ (g ++ ['('])) rest
        (([(3, target.toList)] ++ [(2, name.toList)]) ++ caught) := by
  cases unique with
  | false =>
      obtain ⟨t₁, _, rfl, ht₁, hc⟩ := writes_spacedKeyword (by decide)
        (fun _ => Piece.isWord_of_spelled_keyword (by decide)) h
      obtain ⟨t₂, r, g, rfl, hg, ht₂, htakes⟩ := exists_indexHead_text hname htarget hc
      refine ⟨t₁ ++ (t₂ ++ r), g, [], by simp, hg, rfl, fun before rest hbefore => ?_⟩
      simpa using takes_createIndexHead ht₁ ht₂ (fun before => htakes before rest) hbefore
  | true =>
      obtain ⟨t₁, _, rfl, ht₁, hc⟩ := writes_spacedKeyword (by decide)
        (fun _ => Piece.isWord_of_spelled_keyword (by decide)) h
      obtain ⟨t, _, rfl, ht, hd⟩ := writes_spacedKeyword (by decide)
        (fun _ => Piece.isWord_of_spelled_keyword (by decide)) hc
      obtain ⟨t₂, r, g, rfl, hg, ht₂, htakes⟩ := exists_indexHead_text hname htarget hd
      refine ⟨t₁ ++ (t ++ (t₂ ++ r)), g, [(1, t)], by simp, hg, rfl, fun before rest hbefore => ?_⟩
      simpa using takes_createIndexHead_unique ht₁ ht ht₂ (fun before => htakes before rest) hbefore

theorem scansAs_createIndexHead (h : statement.Proper) : ScansAs createIndexHead
    CreateIndex.ofMatch? statement (statement.index?.map some).toList := by
  have hq := isStatementForm_createIndexHead
  cases statement with
  | createTable table =>
      exact scansAs_of_silent fun _ _ _ _ htext => silent_createIndexHead h htext
  | addForeignKey target name key =>
      exact scansAs_of_silent fun _ _ _ _ htext =>
        hq.silent (allOrdinary_addForeignKey h.1 h.2.1 h.2.2)
          (create_not_mem_addForeignKey target name key) htext
  | createIndex unique name target columns =>
      obtain ⟨hname, htarget, hcolumns⟩ := h
      refine scansAs_of_takes fun before text rest hbefore htext => ?_
      obtain ⟨_, e, rfl, hab, he⟩ := writes_append.mp htext
      obtain ⟨_, b, rfl, ha, hb⟩ := writes_append.mp hab
      obtain ⟨g₁, u, g₂, rfl, hg₁, hg₂, hu⟩ := writes_parenthesized hb
      have hquiet : Quiet createIndexHead (namePieces columns) := fun _ _ _ h _ =>
        hq.silent (allOrdinary_namePieces hcolumns) (keyword_not_mem_namePieces _ _) h
      obtain ⟨head, g, caught, rfl, hg, hunique, htakes⟩ :=
        exists_createIndexHead_text hname htarget ha
      refine ⟨head ++ (g ++ ['(']), (g₁ ++ (u ++ ')' :: g₂)) ++ e, _, by simp, by simp,
        htakes before _ hbefore, ?_, ?_⟩
      · have hsilent : Silent createIndexHead ('(' :: ((head ++ g).reverse ++ before))
            ((g₁ ++ (u ++ ')' :: g₂)) ++ e) rest :=
          silent_behind_parenthesis hq.ledBy.wordLed hquiet hb he
        simpa using hsilent
      · simpa [hunique] using ofMatch?_index hname htarget hcolumns hu hg₁ caught

/-- The parts of an added foreign key up to the key itself. -/
lemma exists_adding_text {target : String} {name : Option String} {key : KeyDef}
    (htarget : IsName target) (h : Writes (.keyword "ALTER" :: .keyword "TABLE" :: .name target ::
      .keyword "ADD" :: (constraintPieces name ++ key.pieces)) text rest) :
    ∃ t₁ t₂ g t₃ v, text = t₁ ++ (t₂ ++ (target.toList ++ (g ++ (t₃ ++ v)))) ∧
      SpacedKeyword "ALTER" t₁ ∧ SpacedKeyword "TABLE" t₂ ∧ IsGap g ∧ g ≠ [] ∧
        SpacedKeyword "ADD" t₃ ∧ Writes (constraintPieces name ++ key.pieces) v rest := by
  obtain ⟨K, ps, hps, hK⟩ : ∃ K ps, constraintPieces name ++ key.pieces = .keyword K :: ps ∧
      IsKeyword K.toList := by
    cases name with
    | none => exact ⟨_, _, rfl, by decide⟩
    | some name => exact ⟨_, _, rfl, by decide⟩
  rw [hps] at h ⊢
  obtain ⟨t₁, _, rfl, ht₁, htable⟩ := writes_spacedKeyword (by decide)
    (fun _ => Piece.isWord_of_spelled_keyword (by decide)) h
  obtain ⟨t₂, _, rfl, ht₂, _, g, _, rfl, rfl, hg, hparted, hadd⟩ := writes_spacedKeyword (by decide)
    (fun _ => Piece.isWord_of_spelled_name htarget.isWord) htable
  obtain ⟨t₃, v, rfl, ht₃, hv⟩ := writes_spacedKeyword (by decide)
    (fun _ => Piece.isWord_of_spelled_keyword hK) hadd
  refine ⟨t₁, t₂, g, t₃, v, rfl, ht₁, ht₂, hg, ?_, ht₃, hv⟩
  rintro rfl
  refine ht₃.not_stops (v ++ rest) ?_
  simpa using hparted.stops htarget.isWord

theorem scansAs_addForeignKeyForm (h : statement.Proper) : ScansAs addForeignKeyForm
    AddForeignKey.ofMatch statement statement.added?.toList := by
  have hq := isStatementForm_addForeignKeyForm
  cases statement with
  | createTable table =>
      exact scansAs_of_silent fun _ _ _ _ htext => silent_addForeignKeyForm h htext
  | createIndex unique name target columns =>
      exact scansAs_of_silent fun _ _ _ _ htext =>
        hq.silent (allOrdinary_createIndex unique h.1 h.2.1 h.2.2)
          (alter_not_mem_createIndex unique name target columns) htext
  | addForeignKey target name key =>
      obtain ⟨htarget, hname, hkey⟩ := h
      refine scansAs_of_takes fun before text rest hbefore htext => ?_
      obtain ⟨_, e, rfl, hadded, he⟩ := writes_append.mp htext
      obtain ⟨t₁, t₂, g, t₃, v, rfl, ht₁, ht₂, hg, hne, ht₃, hv⟩ :=
        exists_adding_text htarget (by simpa using hadded)
      obtain ⟨K, t, r, g', columns, targets, rfl, ht, hadd, hg', hcolumns, htargets, htakes⟩ :=
        exists_namedKey_text hname hkey hv
      refine ⟨t₁ ++ (t₂ ++ (target.toList ++ (g ++ (t₃ ++ (t ++ r))))), g' ++ e,
        keyCaptures 2 columns key.table.toList targets ++ [(1, target.toList)], by simp, ?_, ?_,
        silent_append.mpr ⟨hq.ledBy.wordLed.silent_gap hg', silent_semicolon hq.ledBy.wordLed he⟩,
          ?_⟩
      · simp [htarget.isWord.ne_nil]
      · rw [List.append_assoc]
        exact takes_addForeignKeyForm ht₁ ht₂ htarget.isWord hg hne ht₃ ht hadd (htakes 2) hbefore
      · simp [AddForeignKey.ofMatch, ForeignKey.ofMatch, matchOf, keyCaptures, Match.group,
          Match.group?, List.lookup_cons, nameOf_plain htarget.isWord,
          nameOf_plain hkey.table.isWord,
          hcolumns.namesOf_eq, htargets.namesOf_eq, KeyDef.key]

end SchemaReader.Ddl
