/-
Uniqueness in a field and in an attribute of its model.

* `BodyLine`, `FileBlock`: a file as it is written, line by line;
* `BodyLine.read`: how a line is read, with `ofText_uniqueLine` for the attribute of one unique
  column;
* `unmarkedLines`, `uniqueNames`: the lines of a model without what they say of the uniqueness of
  single columns, and the columns of which they say it;
* `LinesAlike`, `FileBlock.UniqueAlike`: two ways to write a model that differ in nothing else;
* `marked_table`: a table is the one without its marks, with an index for each column that is
  marked;
* `ofText_uniqueAlike`: files that say it in different places define the same schema up to the order
  of indexes.
-/
import SchemaReader.Proofs.ModelFile.AlikeModels
import SchemaReader.Proofs.ModelFile.WrittenAttributes
import SchemaReader.Proofs.ModelFile.WrittenBlocks
import SchemaReader.Proofs.Schema.IndexOrder

namespace SchemaReader.ModelFile

open Pattern
open Text (IsWord IsGap Stops isWordChar isBlank)

variable {before next column indent : List Char} {names declared : List String} {base t : Table}
  {keys : List (String × Reference)} {field : FieldDef} {line : BodyLine}
    {lines lines' : List BodyLine}

/-! ### The attribute of one unique column -/

/-- `@@unique([c])` -/
def uniqueText (column : List Char) : List Char :=
  "@@".toList ++ ("unique".toList ++ (['('] ++ (('[' :: (column ++ [']'])) ++ [')'])))

lemma takes_uniqueText (h : IsWord column) : blockAttributeForm.Takes [] (uniqueText column) []
    [(2, '[' :: (column ++ [']'])), (1, "unique".toList)] := by
  have hchars : ∀ c ∈ ('[' :: (column ++ [']'])) ++ [')'], (c != '\n') = true := by
    simp only [List.cons_append, List.forall_mem_cons, List.forall_mem_append]
    exact ⟨by decide, ⟨fun c hc =>
      bne_iff_ne.mpr (h.forall_ne (by decide) c hc), by decide⟩, by decide⟩
  have hclose : ∀ before, (char ')' ++ (blanks ++ textEnd)).Takes before [')'] [] [] :=
    fun before =>
    takes_char.append_nothing ((takes_many (by simp) Text.stops_nil).after_nothing takes_textEnd)
  have hkind : ∀ before rest, (lit "index" ||| lit "unique" ||| lit "id").Takes before
      "unique".toList rest [] := by
    intro before rest
    have hindex : (lit "index").Fails before ("unique".toList ++ rest) :=
      fails_of_not_mayBegin (by decide) (by decide)
    exact ((takes_lit "unique").alt_right hindex).alt_left _
  have hinner : ∀ before,
      (Pattern.group 2 (many (· != '\n')) ++ (char ')' ++ (blanks ++ textEnd))).Takes before
      (('[' :: (column ++ [']'])) ++ [')']) [] [(2, '[' :: (column ++ [']']))] := fun before =>
    takes_many_append_back hchars (fails_nil (by decide)) (hclose _) 2
  have hblanks : ∀ before rest, blanks.Takes before [] ('(' :: rest) [] := fun before rest =>
    takes_many (by simp) (by simp; decide)
  rw [uniqueText]
  simp only [blockAttributeForm, takes_assoc]
  refine takes_textStart.after_nothing ((takes_lit "@@").seq ?_)
  exact ((hkind _ _).group 1).append ((hblanks _ _).after_nothing (takes_char.seq (hinner _)))

/-- A list of one column. -/
lemma columnsOf?_single (h : IsWord column) :
    columnsOf? ('[' :: (column ++ [']'])) = some [String.ofList column] := by
  have hclosed : Closed .code (· ≠ ',') column := IsWord.closed h fun _ => ne_comma_of_isWordChar
  have hbody : bracketBody? .code ('[' :: (column ++ [']'])) = some column :=
    bracketBody?_of_closed hclosed (by decide) (by decide)
  have htrim : Text.trim column = column := by
    have hstart : Stops isBlank column := by simpa using h.stops_isBlank []
    exact Text.trimWhere_self hstart (h.stops_reverse fun _ => Text.not_isBlank_of_isWordChar)
  have hwhole : withoutOuterBrackets column = column := by
    simpa using withoutOuterBrackets_of_isWord h []
  have hname : leadingIdentifier column = column := by
    simpa using leadingIdentifier_plain h Text.isGap_nil
  have hnames : namesOf column = [String.ofList column] := by
    rw [namesOf, identifierList, htrim, hwhole,
      splitTopLevel_of_closed hclosed (by rw [htrim]; exact h.ne_nil), htrim,
      List.map_singleton, hname]
    simp [h.ne_nil]
  rw [columnsOf?, List.dropWhile_cons_of_neg (by simp), hbody, Option.map_some, hnames]

/-- The attribute of one unique column is read as such. -/
lemma ofLine?_uniqueText (h : IsWord column) : BlockAttribute.ofLine? (uniqueText column)
    = some (.index none [String.ofList column] true) := by
  have hfound := find?_of_takes (takes_uniqueText h)
  rw [List.append_nil] at hfound
  have hquote : '"' ∉ '[' :: (column ++ [']']) := by
    simp only [List.mem_cons, List.mem_append, not_or]
    exact ⟨by decide, fun hmem => h.forall_ne (by decide) _ hmem rfl, by decide, by simp⟩
  have hname : nameArgument.find? ('[' :: (column ++ [']'])) = none := by
    rw [nameArgument]
    exact (endsWith_append_char _ '"').find?_eq_none hquote
  simp [BlockAttribute.ofLine?, hfound, Match.group, Match.group?, List.lookup_cons,
    columnsOf?_single h, hname]

theorem ofText_uniqueLine (h : IsWord column) (hindent : IsGap indent) :
    Line.ofText (indent ++ uniqueText column)
      = .blockAttribute (some (.index none [String.ofList column] true)) := by
  obtain ⟨u, hu⟩ : ∃ u, uniqueText column = '@' :: '@' :: u := ⟨_, rfl⟩
  have hstart : Stops isBlank (uniqueText column) := by
    rw [hu]
    simp
    decide
  have hend : Stops isBlank (uniqueText column).reverse := by
    simp [uniqueText]
    decide
  have hne : uniqueText column ≠ [] := by simp [hu]
  have htrim := Text.trim_gaps hindent Text.isGap_nil hstart hend hne
  rw [List.append_nil] at htrim
  have hblock : ['@', '@'].isPrefixOf (uniqueText column) = true := by simp [hu]
  have hempty : (uniqueText column).isEmpty = false := by simp [hu]
  simp [Line.ofText, htrim, hblock, hempty, ofLine?_uniqueText h]

/-! ### Lines -/

/-- A line of a model as it is written. -/
inductive BodyLine where
  | field (indent : List Char) (field : FieldDef)
  /-- `@@unique([c])` behind white space. -/
  | unique (indent column : List Char)
  /-- Any other line. -/
  | other (text : List Char)
  deriving DecidableEq, Repr

namespace BodyLine

def text : BodyLine → List Char
  | .field indent field => indent ++ field.written.text
  | .unique indent column => indent ++ uniqueText column
  | .other text => text

/-- A line is indented with white space and holds no line feed. -/
def Proper : BodyLine → Prop
  | .field indent field => (IsGap indent ∧ '\n' ∉ indent) ∧ field.Proper
  | .unique indent column => (IsGap indent ∧ '\n' ∉ indent) ∧ IsWord column
  | .other text => '\n' ∉ text

instance (line : BodyLine) : Decidable line.Proper :=
  match line with
  | .field indent field =>
      inferInstanceAs (Decidable ((IsGap indent ∧ '\n' ∉ indent) ∧ field.Proper))
  | .unique indent column =>
      inferInstanceAs (Decidable ((IsGap indent ∧ '\n' ∉ indent) ∧ IsWord column))
  | .other text => inferInstanceAs (Decidable ('\n' ∉ text))

/-- What the line is read as. -/
def read : BodyLine → Line
  | .field _ field => .field field.written.field
  | .unique _ column => .blockAttribute (some (.index none [String.ofList column] true))
  | .other text => .ofText text

lemma Proper.ofText (h : line.Proper) : Line.ofText line.text = line.read := by
  cases line with
  | field indent field => exact h.2.ofText h.1.1
  | unique indent column => exact ofText_uniqueLine h.2 h.1.1
  | other text => rfl

lemma Proper.not_lineFeed_mem (h : line.Proper) : '\n' ∉ line.text := by
  cases line with
  | field indent field =>
      exact fun hmem => (List.mem_append.mp hmem).elim h.1.2 h.2.not_lineFeed_mem
  | unique indent column =>
      have hcolumn : '\n' ∉ column := fun hmem => h.2.forall_ne (by decide) _ hmem rfl
      simp [text, uniqueText, h.1.2, hcolumn]
  | other text => exact h

/-- The line without the mark, if it says anything else. -/
def unmarked? : BodyLine → Option BodyLine
  | .field indent field => some (.field indent field.unmarked)
  | .unique _ _ => none
  | .other text => some (.other text)

/-- The column that a field marks.  A field that is a relation is no column. -/
def markedField? (declared : List String) : BodyLine → Option String
  | .field _ field =>
    if field.isMarked && !field.written.field.isRelation declared then some
      (String.ofList field.name) else none
  | .unique _ _ | .other _ => none

/-- The column that an attribute of the model marks alone and without a name. -/
def markedAlone? : BodyLine → Option String
  | .unique _ column => some (String.ofList column)
  | .field _ _ | .other _ => none

end BodyLine

/-- The lines of a model. -/
def bodyText (lines : List BodyLine) : List Char :=
  '\n' :: lines.flatMap fun line => line.text ++ ['\n']

/-- Lines without their marks. -/
def unmarkedLines (lines : List BodyLine) : List BodyLine := lines.filterMap BodyLine.unmarked?

/-- The columns that are marked, in their fields and by attributes of the model. -/
def uniqueNames (declared : List String) (lines : List BodyLine) : List String :=
  lines.filterMap (BodyLine.markedField? declared) ++ lines.filterMap BodyLine.markedAlone?

/-- The model of a name with such lines. -/
def modelOf (name : String) (lines : List BodyLine) : Model :=
  ⟨name, .blank :: lines.map BodyLine.read ++ [.blank]⟩

lemma ofBody_bodyText (h : ∀ line ∈ lines, line.Proper) (name : String) :
    Model.ofBody name (bodyText lines) = modelOf name lines := by
  have hlines : Text.lines (lines.flatMap fun line => line.text ++ ['\n'])
      = lines.map BodyLine.text ++ [[]] :=
    Text.lines_flatMap fun line hline c hc => by
      rintro rfl
      exact (h line hline).not_lineFeed_mem hc
  have hfirst : Text.lines (bodyText lines)
      = [] :: Text.lines (lines.flatMap fun line => line.text ++ ['\n']) :=
    Text.segments_append_cons (u := []) (by simp) (by simp)
  have hblank : Line.ofText [] = .blank := by decide
  have hread : lines.map (Line.ofText ∘ BodyLine.text) = lines.map BodyLine.read :=
    List.map_congr_left fun line hline => (h line hline).ofText
  rw [Model.ofBody, modelOf, hfirst, hlines, List.map_cons, List.map_append, List.map_map,
    List.map_singleton, hblank, hread]
  rfl

/-! ### Tables -/

/-- The field that a line is. -/
def BodyLine.field? (line : BodyLine) : Option Field :=
  match line.read with
  | .field field => some field
  | _ => none

/-- What a line declares as an attribute of the model. -/
def BodyLine.declares? (line : BodyLine) : Option BlockAttribute :=
  match line.read with
  | .blockAttribute declared => declared
  | _ => none

lemma fields_modelOf (name : String) (lines : List BodyLine) :
    (modelOf name lines).fields = lines.filterMap BodyLine.field? := by
  simp [Model.fields, modelOf, List.filterMap_append, List.filterMap_map]
  rfl

lemma attributes_modelOf (name : String) (lines : List BodyLine) :
    (modelOf name lines).attributes = lines.filterMap BodyLine.declares? := by
  simp [Model.attributes, modelOf, List.filterMap_append, List.filterMap_map]
  rfl

/-- A table after the field that a line may be. -/
def addLine (declared : List String) (keys : List (String × Reference)) (table : Table)
    (line : BodyLine) : Table :=
  line.field?.elim table (addField declared keys table)

/-- A table after what a line may declare. -/
def applyLine (table : Table) (line : BodyLine) : Table :=
  line.declares?.elim table (BlockAttribute.applyTo table)

lemma table_modelOf (declared : List String) (name : String) (lines : List BodyLine) :
    (modelOf name lines).table declared
      = let keys := foreignKeys declared (modelOf name lines).fields
        lines.foldl applyLine (lines.foldl (addLine declared keys) (Table.empty name)) := by
  rw [Model.table, attributes_modelOf, fields_modelOf, foldl_filterMap_elim, foldl_filterMap_elim]
  rfl

/-- The same field is added to both tables. -/
lemma marked_addField (h : base.Marked names t) (field : Field) :
    (addField declared keys base field).Marked names (addField declared keys t field) := by
  have hgrown := h.addColumn (field.column keys)
  rw [addField, addField]
  split
  · exact h
  · split
    · rw [h.name]
      exact hgrown.addIndex _
    · exact hgrown

/-- A field adds the column that it adds without the mark, and marks it if it has the mark. -/
lemma marked_markedField (hfield : field.Proper) (h : base.Marked names t) :
    (addField declared keys base field.unmarked.written.field).Marked
      (names ++ (BodyLine.markedField? declared (.field [] field)).toList)
      (addField declared keys t field.written.field) := by
  have hsame := hfield.sameButUnique
  have hgrown := h.addColumn (field.written.field.column keys)
  have hunmarked : field.unmarked.written.field.isUnique = false := by
    rw [hfield.unmarked.isUnique, field.isMarked_unmarked]
  have hmarked := hfield.isUnique
  rw [addField, addField, hsame.isRelation, hsame.column, hunmarked, hmarked, BodyLine.markedField?]
  cases field.written.field.isRelation declared with
  | true => simpa using h
  | false =>
      cases field.isMarked with
      | true => exact hgrown.mark (String.ofList field.name)
      | false => simpa using hgrown

/-- The same attribute is applied to both tables. -/
lemma marked_applyTo (h : base.Marked names t) (part : BlockAttribute) :
    (part.applyTo base).Marked names (part.applyTo t) := by
  cases part with
  | id columns => exact h.markPrimaryKey columns
  | index name columns unique =>
      rw [BlockAttribute.applyTo, BlockAttribute.applyTo, h.name]
      exact h.addIndex _
  | withoutColumns => exact h

/-- The fields of a model and those without their marks. -/
lemma forall₂_fields (h : ∀ line ∈ lines, line.Proper) (name : String) :
    List.Forall₂ Field.SameButUnique
    (modelOf name (unmarkedLines lines)).fields (modelOf name lines).fields := by
  rw [fields_modelOf, fields_modelOf, unmarkedLines, List.filterMap_filterMap]
  induction lines with
  | nil => exact .nil
  | cons line lines ih =>
      rw [List.forall_mem_cons] at h
      cases line with
      | field indent field => exact .cons h.1.2.sameButUnique (ih h.2)
      | unique indent column => exact ih h.2
      | other text =>
          have hbase : (BodyLine.other text).unmarked?.bind BodyLine.field?
              = (BodyLine.other text).field? := rfl
          rw [List.filterMap_cons, List.filterMap_cons, hbase]
          cases (BodyLine.other text).field? with
          | none => exact ih h.2
          | some field => exact .cons (Field.Alike.refl field).toSameButUnique (ih h.2)

/-- **A model and its marks.**  A model is read as the table of its lines without their marks, with
an index for each of the columns that are marked, whether in their fields or by attributes of the
model. -/
theorem marked_table (h : ∀ line ∈ lines, line.Proper) (declared : List String) (name : String) :
    ((modelOf name (unmarkedLines lines)).table declared).Marked (uniqueNames declared lines)
      ((modelOf name lines).table declared) := by
  have hkeys := foreignKeys_of_alike (forall₂_fields h name) declared
  rw [table_modelOf, table_modelOf, hkeys]
  generalize foreignKeys declared (modelOf name lines).fields = keys
  rw [unmarkedLines, foldl_filterMap_elim, foldl_filterMap_elim, uniqueNames]
  refine Table.Marked.foldl lines BodyLine.markedAlone? (fun line _ names base t hmarked => ?_)
    ((Table.Marked.refl (Table.empty name)).foldl lines (BodyLine.markedField? declared)
      fun line hline names base t hmarked => ?_)
  · cases line with
    | field indent field => exact (List.append_nil names).symm ▸ hmarked
    | unique indent column =>
        have hmark := hmarked.mark (String.ofList column)
        rw [← Index.defaultName_singleton] at hmark
        exact hmark
    | other text =>
        have hsame : (applyLine base (.other text)).Marked names (applyLine t (.other text)) := by
          rw [applyLine, applyLine]
          cases (BodyLine.other text).declares? with
          | none => exact hmarked
          | some part => exact marked_applyTo hmarked part
        exact (List.append_nil names).symm ▸ hsame
  · cases line with
    | field indent field => exact marked_markedField (h _ hline).2 hmarked
    | unique indent column => exact (List.append_nil names).symm ▸ hmarked
    | other text =>
        have hsame : (addLine declared keys base (.other text)).Marked names
            (addLine declared keys t (.other text)) := by
          rw [addLine, addLine]
          cases (BodyLine.other text).field? with
          | none => exact hmarked
          | some field => exact marked_addField hmarked field
        exact (List.append_nil names).symm ▸ hsame

/-- Two lists of lines that mark the same columns and are the same without their marks. -/
structure LinesAlike (declared : List String) (lines lines' : List BodyLine) : Prop where
  unmarked : unmarkedLines lines = unmarkedLines lines'
  names : (uniqueNames declared lines).Perm (uniqueNames declared lines')

/-- Two models with the same relations and with tables that are alike. -/
structure Model.UniqueAlike (declared : List String) (model model' : Model) : Prop where
  relations : model.relations declared = model'.relations declared
  table : (model.table declared).Alike (model'.table declared)

lemma Model.UniqueAlike.refl (declared : List String) (model : Model) :
    model.UniqueAlike declared model :=
  ⟨rfl, .refl _⟩

/-- Such lines make such models. -/
lemma LinesAlike.uniqueAlike (halike : LinesAlike declared lines lines')
    (h : ∀ line ∈ lines, line.Proper)
    (h' : ∀ line ∈ lines', line.Proper) (name : String) :
    (modelOf name lines).UniqueAlike declared (modelOf name lines') where
  relations := by
    have hrelations := relations_of_alike (forall₂_fields h name) rfl declared
    rw [halike.unmarked, relations_of_alike (forall₂_fields h' name) rfl declared] at hrelations
    exact hrelations.symm
  table := by
    have hmarked := marked_table h declared name
    rw [halike.unmarked] at hmarked
    exact hmarked.alike (marked_table h' declared name) halike.names

/-- The lines with their marks in attributes of the model alone. -/
def marksInAttributes (declared : List String) (lines : List BodyLine) : List BodyLine :=
  unmarkedLines lines ++ (uniqueNames declared lines).map fun name => .unique [] name.toList

/-- Without the mark, a line has none. -/
lemma unmarked?_unmarked {other : BodyLine} (h : line.unmarked? = some other) :
    other.unmarked? = some other ∧ other.markedField? declared = none ∧
    other.markedAlone? = none := by
  cases line with
  | field indent field =>
      obtain rfl := Option.some.inj h
      have hagain : field.unmarked.unmarked = field.unmarked := by
        simp [FieldDef.unmarked, withoutMarks]
      refine ⟨?_, ?_, rfl⟩
      · rw [BodyLine.unmarked?, hagain]
      · rw [BodyLine.markedField?, field.isMarked_unmarked]
        rfl
  | unique indent column => simp [BodyLine.unmarked?] at h
  | other text =>
      obtain rfl := Option.some.inj h
      exact ⟨rfl, rfl, rfl⟩

/-- Every model can mark its columns in attributes of the model alone. -/
lemma linesAlike_marksInAttributes (declared : List String) (lines : List BodyLine) :
    LinesAlike declared lines (marksInAttributes declared lines) := by
  have hmarks : ∀ names : List String,
      let marks := names.map fun name => BodyLine.unique [] name.toList
      marks.filterMap BodyLine.unmarked? = [] ∧
        marks.filterMap (BodyLine.markedField? declared) = [] ∧
        marks.filterMap BodyLine.markedAlone? = names := fun names => by
    simp [List.filterMap_map, Function.comp_def, BodyLine.unmarked?, BodyLine.markedField?,
      BodyLine.markedAlone?]
  obtain ⟨hnone, hfields, halone⟩ := hmarks (uniqueNames declared lines)
  have hrest : ∀ line ∈ unmarkedLines lines, line.unmarked? = some line ∧
      line.markedField? declared = none ∧
      line.markedAlone? = none := fun line hline => by
    obtain ⟨marked, -, hmarked⟩ := List.mem_filterMap.mp hline
    exact unmarked?_unmarked hmarked
  have hagain : unmarkedLines (unmarkedLines lines) = unmarkedLines lines :=
    (List.filterMap_congr fun line hline => (hrest line hline).1).trans List.filterMap_some
  constructor
  · have hsplit : unmarkedLines (marksInAttributes declared lines)
        = unmarkedLines (unmarkedLines lines) ++
        ((uniqueNames declared lines).map fun name => .unique [] name.toList).filterMap
          BodyLine.unmarked? :=
      List.filterMap_append
    rw [hsplit, hagain, hnone, List.append_nil]
  · have hfield : (unmarkedLines lines).filterMap (BodyLine.markedField? declared) = [] :=
      List.filterMap_eq_nil_iff.mpr fun line hline => (hrest line hline).2.1
    have hattribute : (unmarkedLines lines).filterMap BodyLine.markedAlone? = [] :=
      List.filterMap_eq_nil_iff.mpr fun line hline => (hrest line hline).2.2
    have hnames : uniqueNames declared (marksInAttributes declared lines)
        = uniqueNames declared lines := by
      rw [uniqueNames, marksInAttributes, List.filterMap_append, List.filterMap_append,
        hfield, hattribute, hfields, halone]
      rfl
    rw [hnames]

/-! ### Files -/

/-- A model as it is written, with its lines. -/
structure ModelDef where
  indent : List Char
  gap : List Char
  name : List Char
  space : List Char
  lines : List BodyLine
  trail : List Char
  deriving DecidableEq, Repr

def ModelDef.block (model : ModelDef) : WrittenBlock :=
  ⟨.model, model.indent, model.gap, model.name, model.space, bodyText model.lines, model.trail⟩

lemma ModelDef.model_block {model : ModelDef} (h : ∀ line ∈ model.lines, line.Proper) :
    model.block.model = modelOf (String.ofList model.name) model.lines := ofBody_bodyText h _

/-- A block of a file: a model with its lines, or any other block. -/
inductive FileBlock where
  | model (model : ModelDef)
  | other (block : WrittenBlock)

namespace FileBlock

def written : FileBlock → WrittenBlock
  | .model m => m.block
  | .other block => block

def Proper : FileBlock → Prop
  | .model m => m.block.Proper ∧ ∀ line ∈ m.lines, line.Proper
  | .other block => block.Proper

instance (block : FileBlock) : Decidable block.Proper :=
  match block with
  | .model m => inferInstanceAs (Decidable (m.block.Proper ∧ ∀ line ∈ m.lines, line.Proper))
  | .other block => inferInstanceAs (Decidable block.Proper)

lemma Proper.written {block : FileBlock} (h : block.Proper) : block.written.Proper := by
  cases block with
  | model m => exact h.1
  | other block => exact h

/-- Two blocks that are the same, or two models of one name with such lines. -/
inductive UniqueAlike (declared : List String) : FileBlock → FileBlock → Prop
  | model {m m' : ModelDef} : m.name = m'.name → LinesAlike declared m.lines m'.lines →
      UniqueAlike declared (.model m) (.model m')
  | same (block : FileBlock) : UniqueAlike declared block block

end FileBlock

variable {blocks blocks' : List FileBlock} {text text' : List Char}

/-- The models and declarations of a file. -/
def fileContents (blocks : List FileBlock) : Contents := contentsOf (blocks.map FileBlock.written)

/-- A text with the blocks of a file. -/
structure IsFile (blocks : List FileBlock) (text : List Char) : Prop where
  proper : ∀ block ∈ blocks, block.Proper
  written : text = textOf (blocks.map FileBlock.written)

lemma IsFile.ofText (h : IsFile blocks text) : Contents.ofText text = fileContents blocks := by
  rw [h.written]
  exact ofText_blocks (List.forall_mem_map.mpr fun block hblock => (h.proper block hblock).written)

/-- The models of such files, one by one, and what the files declare beside them. -/
lemma uniqueAlike_contents (h : ∀ block ∈ blocks, block.Proper)
    (h' : ∀ block ∈ blocks', block.Proper)
    (halike : List.Forall₂ (FileBlock.UniqueAlike declared) blocks blocks') :
    List.Forall₂ (Option.Rel (Model.UniqueAlike declared)) (fileContents blocks).models
        (fileContents blocks').models ∧
      (fileContents blocks).declared = (fileContents blocks').declared := by
  rw [fileContents, fileContents, contentsOf, contentsOf]
  induction halike with
  | nil => exact ⟨.nil, rfl⟩
  | @cons block block' _ _ hblock _ ih =>
      rw [List.forall_mem_cons] at h h'
      obtain ⟨hmodels, hdeclared⟩ := ih h.2 h'.2
      cases hblock with
      | @model model model' hname hlines =>
          refine ⟨.cons (.some ?_) hmodels, hdeclared⟩
          change Model.UniqueAlike declared model.block.model model'.block.model
          rw [ModelDef.model_block h.1.2, ModelDef.model_block h'.1.2, ← hname]
          exact hlines.uniqueAlike h.1.2 h'.1.2 _
      | same =>
          simp only [List.map_cons, List.filter_cons]
          cases block.written.isModel with
          | true => exact ⟨.cons (.some (.refl declared _)) hmodels, hdeclared⟩
          | false => exact ⟨hmodels, congrArg (_ :: ·) hdeclared⟩

lemma alike_addModel {d d' : Draft} {model model' : Option Model}
    (hmodel : Option.Rel (Model.UniqueAlike declared) model model') (h : d.Alike d') :
    (addModel declared d model).Alike (addModel declared d' model') := by
  cases hmodel with
  | none => exact h.note _ _
  | some hmodel =>
      rw [addModel, addModel, Model.addTo, Model.addTo, hmodel.relations]
      exact ((((h.noteAll _ _).addRelations _).noteAll _ _).note _ _).addTable hmodel.table

/-- **Uniqueness in fields and in attributes of the model.**  Whether the uniqueness of a column is
an attribute of its field or an attribute of the model without a name, and among whatever other
attributes, lines and blocks, the files define the same schema up to the order of the indexes of a
table. -/
theorem ofText_uniqueAlike (h : IsFile blocks text) (h' : IsFile blocks' text')
    (halike : List.Forall₂ (FileBlock.UniqueAlike (fileContents blocks).declared) blocks blocks')
    (rawPath : String) :
    (Schema.ofText .prisma text rawPath).Alike (Schema.ofText .prisma text' rawPath) := by
  obtain ⟨hmodels, hdeclared⟩ := uniqueAlike_contents h.proper h'.proper halike
  suffices hdraft : (Contents.ofText text).draft.Alike (Contents.ofText text').draft from
    hdraft.schema .prisma rawPath rawPath
  rw [h.ofText, h'.ofText, Contents.draft, Contents.draft, ← hdeclared]
  exact Draft.Alike.foldl _ (R := Option.Rel (Model.UniqueAlike (fileContents blocks).declared))
    (fun hmodel hd => alike_addModel hmodel hd) hmodels (.refl .empty)

end SchemaReader.ModelFile
