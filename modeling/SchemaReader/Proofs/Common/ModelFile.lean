/-
Common tables as models.

* `CommonTable.model`: the model of a common table, and `commonModels`: the models of several
  tables;
* `ofText_commonModels`: such a model file is read as these models;
* `schema_commonModels`: it defines the tables.
-/
import SchemaReader.Extraction
import SchemaReader.Proofs.Common.Table
import SchemaReader.Proofs.Lexical.Comments
import SchemaReader.Proofs.Lexical.Lists
import SchemaReader.Proofs.ModelFile.Heads
import SchemaReader.Proofs.ModelFile.WrittenFields
import SchemaReader.Proofs.Pattern.Words
import SchemaReader.Proofs.Text.Segments

namespace SchemaReader

open ModelFile
open Text (IsWord IsGap Stops isWordChar isBlank)
open Pattern

/-! ### Models -/

/-- A question mark behind the type of a nullable column. -/
def fieldModifiers (nullable : Bool) : List Char := if nullable then ['?'] else []

/-- ` @id @unique`, with those of the attributes that a column has. -/
def fieldAttributes (primaryKey unique : Bool) : List Char :=
  (if primaryKey then " @id".toList else []) ++ if unique then " @unique".toList else []

/-- What stands behind the type of a column. -/
def CommonColumn.marks (column : CommonColumn) : List Char :=
  fieldModifiers column.nullable ++ fieldAttributes column.primaryKey column.unique

/-- `c String? @id @unique`, with those of the marks that the column has. -/
def CommonColumn.fieldText (column : CommonColumn) : List Char :=
  column.name.toList ++ (" String".toList ++ column.marks)

lemma CommonColumn.fieldText_eq (column : CommonColumn) : column.fieldText
    = column.name.toList ++ ([' '] ++ ("String".toList ++ column.marks)) := rfl

/-- `model T` and the bracket behind it. -/
def CommonTable.modelHead (table : CommonTable) : List Char :=
  "model".toList ++ ([' '] ++ (table.name.toList ++ ([' '] ++ ['\x7b'])))

/-- One line for every column. -/
def fieldLines (columns : List CommonColumn) : List Char :=
  columns.flatMap fun column => column.fieldText ++ ['\n']

/-- `model T`, and the lines of its columns in brackets. -/
def CommonTable.model (table : CommonTable) : List Char :=
  table.modelHead ++ ('\n' :: (fieldLines table.columns ++ ['\x7d']))

/-- The models of tables, each from a new line on. -/
def commonModels (tables : List CommonTable) : List Char :=
  tables.flatMap fun table => table.model ++ ['\n']

variable {column : CommonColumn} {columns : List CommonColumn} {table : CommonTable}
  {tables : List CommonTable}
  {before w rest : List Char}

/-! ### Fields -/

lemma fieldText_ne_lineFeed (hw : IsWord column.name.toList) :
    ∀ c ∈ column.fieldText, c ≠ '\n' := by
  have hmarks : ∀ nullable primaryKey unique, ∀ c ∈ " String".toList ++ (fieldModifiers nullable ++
      fieldAttributes primaryKey unique), c ≠ '\n' := by decide
  exact List.forall_mem_append.mpr ⟨hw.forall_ne (by decide), hmarks _ _ _⟩

lemma trim_fieldText (hw : IsWord column.name.toList) :
    Text.trim column.fieldText = column.fieldText := by
  have hlast : ∀ nullable primaryKey unique,
      Stops isBlank (" String".toList ++ (fieldModifiers nullable
      ++ fieldAttributes primaryKey unique)).reverse := by decide
  refine Text.trimWhere_self (hw.stops_isBlank _) ?_
  rw [CommonColumn.fieldText, List.reverse_append]
  exact (hlast _ _ _).append_of_ne_nil (by simp) _

/-- The field that a column is read as. -/
def CommonColumn.field (column : CommonColumn) : Field where
  name := column.name
  type := "String"
  isList := false
  optional := column.nullable
  attributes := fieldAttributes column.primaryKey column.unique

/-- The field as it is written. -/
def CommonColumn.written (column : CommonColumn) : WrittenField :=
  ⟨column.name.toList, [' '], "String".toList, none, if column.nullable then [.optional] else [],
    fieldAttributes column.primaryKey column.unique⟩

lemma CommonColumn.text_written (column : CommonColumn) :
    column.written.text = column.fieldText := by
  obtain ⟨name, nullable, primaryKey, unique⟩ := column
  cases nullable <;> rfl

lemma CommonColumn.field_written (column : CommonColumn) : column.written.field = column.field := by
  obtain ⟨name, nullable, primaryKey, unique⟩ := column
  cases nullable <;> simp [WrittenField.field, CommonColumn.written, CommonColumn.field]

lemma proper_written (hw : IsWord column.name.toList) : column.written.Proper := by
  have hgap : IsGap [' '] := by decide
  have htype : IsWord "String".toList := by decide
  have hmarks : ∀ nullable primaryKey unique : Bool,
      let attributes := fieldAttributes primaryKey unique
      let behind := modifiersText (if nullable then [.optional] else []) ++ attributes
      (Stops isWordChar behind ∧ Stops (· == '(') behind) ∧ Unmodified attributes ∧
        '\n' ∉ attributes := by
    decide
  obtain ⟨hbare, hunmodified, hline⟩ := hmarks column.nullable column.primaryKey column.unique
  exact ⟨hw, ⟨hgap, List.cons_ne_nil _ _⟩,
    htype, by simp [CommonColumn.written], fun _ => hbare, hunmodified, hline⟩

/-- The line of a column is a field. -/
lemma ofText_fieldText (hw : IsWord column.name.toList) :
    Line.ofText column.fieldText = .field column.field := by
  have hread := (proper_written hw).ofText_line ((trim_fieldText hw).trans column.text_written.symm)
  rwa [column.field_written] at hread

/-! ### Where models begin -/

/-- The place is the beginning of a line. -/
def BeginsLine (before : List Char) : Prop := (Cursor.mk before [] 0).atLineStart = true

lemma lineLed_modelHead : ModelFile.modelHead.LineLed :=
  (lineLed_lineStart.append _).append _

/-- A model begins with a word and the name of a block. -/
lemma fails_modelHead (h : (lit "model" ++ blockName).Fails before rest)
    (hrest : Stops (fun c => c == ' ' || c == '\t') rest) :
    ModelFile.modelHead.Fails before rest := by
  have havoids : (lit "model" ++ blockName).Avoids fun c => c == ' ' || c == '\t' := by
    refine avoids_of_mayBegin (by decide) fun c hc => ?_
    simp only [Bool.or_eq_true, beq_iff_eq] at hc
    rcases hc with rfl | rfl <;> decide
  simp only [ModelFile.modelHead, indentation, fails_assoc, fails_lineStart_append]
  intro _
  exact fails_many_append (w := []) havoids (by simp) hrest (by simpa using h)

lemma takes_modelHead (hw : IsWord table.name.toList) (hbefore : BeginsLine before) :
    ModelFile.modelHead.Takes before table.modelHead rest [(1, table.name.toList)] := by
  have hparts : HeadParts "model".toList [] [' '] table.name.toList [' '] :=
    ⟨by decide, by simp, by decide, by simp, hw, by decide⟩
  have htext : ([] ++ ("model".toList ++ ([' '] ++ (table.name.toList ++ [' '])))) ++ ['\x7b']
      = table.modelHead := by simp [CommonTable.modelHead]
  exact htext ▸ hparts.takes hbefore fun _ _ => takes_lit "model"

/-- Behind the type of a column comes no bracket. -/
lemma stops_marks (hblank : Stops isBlank rest) (hopen : Stops (· == '\x7b') rest) :
    Stops (· == '\x7b') ((column.marks ++ '\n' :: rest).dropWhile isBlank) := by
  have hmarks : ∀ nullable primaryKey unique,
      let marks := fieldModifiers nullable ++ fieldAttributes primaryKey unique
      marks = [] ∨ marks.dropWhile isBlank ≠ [] ∧
        Stops (· == '\x7b') (marks.dropWhile isBlank) := by
    decide
  rcases hmarks column.nullable column.primaryKey column.unique with hnil | ⟨hne, hstops⟩
  · have hdrop : ('\n' :: rest).dropWhile isBlank = rest :=
      Text.dropWhile_append_of_stops (u := ['\n']) (by decide) hblank
    rw [CommonColumn.marks, hnil, List.nil_append, hdrop]
    exact hopen
  · rw [CommonColumn.marks, List.dropWhile_append, if_neg (by simpa using hne)]
    exact hstops.append_of_ne_nil hne _

section Lines

variable (hw : IsWord column.name.toList)

include hw

/-- No model begins with the line of a column, also if the column is called `model`: no bracket
follows its type. -/
lemma fails_fieldText (hblank : Stops isBlank rest) (hopen : Stops (· == '\x7b') rest) :
    ModelFile.modelHead.Fails before (column.fieldText ++ '\n' :: rest) := by
  have hbracket : ∀ before, (blanks ++ char '\x7b').Fails before (column.marks ++ '\n' :: rest) :=
    fun before => fails_blanks_char (by decide) (stops_marks hblank hopen)
  have hword : ∀ nullable primaryKey unique, Stops isWordChar (fieldModifiers nullable ++
      fieldAttributes primaryKey unique) := by decide
  have hlineFeed : Stops isWordChar ('\n' :: rest) := by simp; decide
  have htype : blockName.Fails (column.name.toList.reverse ++ before)
      ([' '] ++ ("String".toList ++ (column.marks ++ '\n' :: rest))) := by
    simp only [blockName, fails_assoc]
    refine fails_someBlanks_append (by decide) (by decide) (by simp; decide) fun _ => ?_
    rw [fails_group_append]
    exact fails_many1_append (blanks_char_avoids (by decide)) (by decide)
      ((hword _ _ _).append hlineFeed)
      fun _ => hbracket _
  refine fails_modelHead ?_ ?_
  · rw [column.fieldText_eq]
    simp only [List.append_assoc]
    exact fails_lit_append (by decide)
      (((someBlanks_avoids_isWordChar.append _).append _).append _) hw.chars (by simp; decide)
      fun _ => htype
  · have hspace : ∀ c, isWordChar c = true → (c == ' ' || c == '\t') = false := fun c hc => by
      rw [Text.beq_of_isWordChar (by decide) hc, Text.beq_of_isWordChar (by decide) hc]
      rfl
    rw [CommonColumn.fieldText, List.append_assoc]
    exact hw.stops hspace _

end Lines

section Columns

variable (hwords : ∀ column ∈ columns, IsWord column.name.toList)

include hwords

/-- What follows the line of a column is the name of the next one or the closing bracket. -/
lemma stops_fieldLines {p : Char → Bool} (hp : ∀ c, isWordChar c = true → p c = false)
    (hclose : p '\x7d' = false) : Stops p (fieldLines columns ++ '\x7d' :: rest) := by
  cases columns with
  | nil => simpa [fieldLines] using hclose
  | cons column columns =>
      simp only [fieldLines, List.flatMap_cons, CommonColumn.fieldText, List.append_assoc]
      exact (hwords column List.mem_cons_self).stops hp _

/-- No model begins among the lines of a model. -/
lemma silent_fieldLines :
    Silent ModelFile.modelHead before (fieldLines columns ++ ['\x7d', '\n']) rest := by
  induction columns generalizing before with
  | nil =>
      have hclose : ModelFile.modelHead.Fails before ('\x7d' :: '\n' :: rest) :=
        fails_of_not_mayBegin (by decide) (by decide)
      exact lineLed_modelHead.silent_line (u := ['\x7d']) (by simp) hclose
  | cons column columns ih =>
      rw [List.forall_mem_cons] at hwords
      have hline : Silent ModelFile.modelHead before (column.fieldText ++ ['\n'])
          (fieldLines columns ++ '\x7d' :: '\n' :: rest) := by
        refine lineLed_modelHead.silent_line (fieldText_ne_lineFeed hwords.1)
          (fails_fieldText hwords.1 ?_ ?_)
        · exact stops_fieldLines hwords.2 (fun _ => Text.not_isBlank_of_isWordChar) (by decide)
        · exact stops_fieldLines hwords.2 (fun _ => Text.beq_of_isWordChar (by decide))
            (by decide)
      rw [fieldLines, List.flatMap_cons, ← fieldLines, List.append_assoc]
      exact silent_append.mpr ⟨by simpa using hline, ih hwords.2⟩

lemma closed_fieldLines : Closed .code (fun _ => True) ('\n' :: fieldLines columns) := by
  have hmarks : ∀ nullable primaryKey unique, ∀ c ∈ " String".toList ++ (fieldModifiers nullable ++
      fieldAttributes primaryKey unique), isPlain c = true := by decide
  have hfield : ∀ column ∈ columns, ∀ c ∈ column.fieldText, isPlain c = true := by
    intro column hcolumn
    exact List.forall_mem_append.mpr ⟨fun c hc =>
      isPlain_of_isWordChar ((hwords column hcolumn).chars c hc), hmarks _ _ _⟩
  refine closed_of_forall fun c hc => ⟨?_, trivial⟩
  rcases List.mem_cons.mp hc with rfl | hc
  · decide
  obtain ⟨column, hcolumn, hc⟩ := List.mem_flatMap.mp hc
  rcases List.mem_append.mp hc with hc | hc
  · exact hfield column hcolumn c hc
  · obtain rfl := List.mem_singleton.mp hc
    decide

/-- The lines of a model are its fields between two blank lines. -/
lemma lines_fieldLines : (Text.lines ('\n' :: fieldLines columns)).map Line.ofText
    = .blank :: (columns.map fun column => .field column.field) ++ [.blank] := by
  have hlines : Text.lines (fieldLines columns) = columns.map CommonColumn.fieldText ++ [[]] :=
    Text.lines_flatMap fun column hcolumn => fieldText_ne_lineFeed (hwords column hcolumn)
  have hfirst : Text.lines ('\n' :: fieldLines columns) = [] :: Text.lines (fieldLines columns) :=
    Text.segments_append_cons (u := []) (by simp) (by simp)
  have hblank : Line.ofText [] = .blank := by decide
  rw [hfirst, hlines, List.map_cons, List.map_append, List.map_map, List.map_singleton, hblank]
  refine congrArg (fun lines => Line.blank :: (lines ++ [Line.blank])) ?_
  exact List.map_congr_left fun column hcolumn => ofText_fieldText (hwords column hcolumn)

end Columns

/-! ### Model files -/

/-- The model that a table is read as. -/
def CommonTable.readModel (table : CommonTable) : Model where
  name := table.name
  lines := .blank :: (table.columns.map fun column => .field column.field) ++ [.blank]

/-- What stands behind the head of a model, up to the end of its last line. -/
def CommonTable.modelBody (table : CommonTable) : List Char :=
  '\n' :: (fieldLines table.columns ++ ['\x7d', '\n'])

lemma CommonTable.model_eq (table : CommonTable) :
    table.model ++ ['\n'] = table.modelHead ++ table.modelBody := by
  simp [CommonTable.model, CommonTable.modelBody]

section Models

variable (h : table.Proper)

include h

lemma opens_model : ModelFile.modelHead.Opens BeginsLine table.modelHead table.modelBody
    [(1, table.name.toList)] where
  ne_nil := by simp [CommonTable.modelHead]
  takes _ _ hbefore := takes_modelHead h.name hbefore
  silent before rest := by
    refine ⟨lineLed_modelHead _ _ ⟨'\x7b', by simp [CommonTable.modelHead], by decide⟩, ?_⟩
    exact silent_fieldLines fun column hcolumn => (h.columns column hcolumn).1
  next before := by simp [CommonTable.modelBody, BeginsLine, Cursor.atLineStart]

/-- What the match of a model is read as. -/
lemma ofMatch?_model (rest : List Char) :
    Model.ofMatch? (matchOf (table.modelBody ++ rest, [(1, table.name.toList)]))
      = some table.readModel := by
  have hwords : ∀ column ∈ table.columns, IsWord column.name.toList := fun column hcolumn =>
    (h.columns column hcolumn).1
  have henclosed : enclosed? .code (table.modelBody ++ rest)
      = some ('\n' :: fieldLines table.columns, '\n' :: rest) := by
    have hclosed : enclosed? .code ('\n' :: fieldLines table.columns ++ '\x7d' :: ('\n' :: rest))
        = some ('\n' :: fieldLines table.columns, '\n' :: rest) :=
      enclosed?_of_closed (closed_fieldLines hwords) (by decide)
    simpa [CommonTable.modelBody] using hclosed
  simp [Model.ofMatch?, matchOf, henclosed, Match.group, Match.group?, lines_fieldLines hwords,
    CommonTable.readModel]

lemma ne_slash_model : ∀ c ∈ table.model ++ ['\n'], c ≠ '/' := by
  have hword : ∀ {w}, IsWord w → ∀ c ∈ w, c ≠ '/' := fun hw => hw.forall_ne (by decide)
  have hmarks : ∀ nullable primaryKey unique, ∀ c ∈ " String".toList ++ (fieldModifiers nullable ++
      fieldAttributes primaryKey unique), c ≠ '/' := by decide
  have hfields : ∀ c ∈ fieldLines table.columns, c ≠ '/' := by
    intro c hc
    obtain ⟨column, hcolumn, hc⟩ := List.mem_flatMap.mp hc
    have hfield : ∀ c ∈ column.fieldText, c ≠ '/' :=
      List.forall_mem_append.mpr ⟨hword (h.columns column hcolumn).1, hmarks _ _ _⟩
    have hlineFeed : ∀ c ∈ ['\n'], c ≠ '/' := by decide
    exact List.forall_mem_append.mpr ⟨hfield, hlineFeed⟩ c hc
  have hhead : ∀ c ∈ table.modelHead, c ≠ '/' := by
    simp only [CommonTable.modelHead, List.forall_mem_append]
    exact ⟨by decide, by decide, hword h.name, by decide, by decide⟩
  rw [table.model_eq, CommonTable.modelBody]
  simp only [List.forall_mem_append, List.forall_mem_cons]
  exact ⟨hhead, by decide, hfields, by decide, by decide, by simp⟩

end Models

/-- A file of common tables is read as their models. -/
theorem ofText_commonModels (h : ∀ table ∈ tables, table.Proper) :
    (Contents.ofText (commonModels tables)).models = tables.map fun table =>
      some table.readModel := by
  have hcomments : stripComments .code (commonModels tables) = commonModels tables := by
    refine stripComments_code fun c hc => ?_
    obtain ⟨table, htable, hc⟩ := List.mem_flatMap.mp hc
    exact ne_slash_model (h table htable) c hc
  have hsplit : commonModels tables
      = tables.flatMap fun table => table.modelHead ++ table.modelBody :=
    List.flatMap_congr fun table _ => table.model_eq
  rw [Contents.ofText, hcomments, hsplit]
  exact map_findAll_of_opens (fun _ => rfl) (fun _ => fails_nil (by decide))
    (fun table htable => opens_model (h table htable))
    (fun table htable => ofMatch?_model (h table htable)) rfl

/-! ### The schema -/

lemma CommonTable.fields_readModel (table : CommonTable) :
    table.readModel.fields = table.columns.map CommonColumn.field := by
  simp [Model.fields, CommonTable.readModel, List.filterMap_map]

lemma CommonTable.attributes_readModel (table : CommonTable) : table.readModel.attributes = [] := by
  simp [Model.attributes, CommonTable.readModel]

/-- The type of the columns is scalar, whatever the file declares. -/
lemma CommonColumn.isRelation_field (declared : List String) (column : CommonColumn) :
    column.field.isRelation declared = false := by
  simp [Field.isRelation, namesModel, CommonColumn.field, scalarTypes]

lemma CommonTable.filter_isRelation (declared : List String) (table : CommonTable) :
    table.readModel.fields.filter (Field.isRelation declared) = [] := by
  rw [table.fields_readModel, List.filter_map, List.filter_eq_nil_iff.mpr, List.map_nil]
  intro column _
  simp [column.isRelation_field]

/-- The field of a column adds the column. -/
lemma CommonColumn.addField_field (declared : List String) (table : Table) (column : CommonColumn) :
    addField declared [] table column.field = column.addTo "String" table := by
  have hattributes : ∀ primaryKey unique,
      (attributeWord "@id").occursIn (fieldAttributes primaryKey unique) = primaryKey ∧
        (attributeWord "@unique").occursIn (fieldAttributes primaryKey unique) = unique := by
    decide
  obtain ⟨hid, hunique⟩ := hattributes column.primaryKey column.unique
  have hcolumn : column.field.column [] = column.column "String" := by
    simp [Field.column, CommonColumn.field, CommonColumn.column, Field.isId, hid]
  have hmark : column.field.isUnique = column.unique := hunique
  rw [addField, column.isRelation_field, if_neg (by simp), hcolumn, hmark]
  rfl

lemma CommonTable.table_readModel (declared : List String) (table : CommonTable) :
    table.readModel.table declared = table.table "String" := by
  have hkeys : foreignKeys declared table.readModel.fields = [] := by
    rw [foreignKeys, table.filter_isRelation, List.flatMap_nil]
  rw [Model.table, hkeys, table.attributes_readModel, table.fields_readModel, List.foldl_nil,
    List.foldl_map, ← foldl_addTo]
  simp only [CommonColumn.addField_field]
  rfl

/-- A file of common tables defines them. -/
theorem schema_commonModels (h : ∀ table ∈ tables, table.Proper)
    (hnames : (tables.map CommonTable.name).Nodup) (rawPath : String) :
    Schema.ofText .prisma (commonModels tables) rawPath
      = ⟨.prisma, tables.map (CommonTable.table "String"), [], rawPath⟩ := by
  have hstep : ∀ (declared : List String) (d : Draft) (table : CommonTable),
      (addModel declared d (some table.readModel)).tables
        = putTable (table.table "String") d.tables ∧
        (addModel declared d (some table.readModel)).relations = d.relations := by
    intro declared d table
    simp [addModel, Model.addTo, table.table_readModel, Model.relations, table.filter_isRelation,
      Draft.addRelations]
  have hschema : Schema.ofText .prisma (commonModels tables) rawPath
      = (Contents.ofText (commonModels tables)).draft.schema .prisma rawPath := rfl
  rw [hschema, Contents.draft, ofText_commonModels h, List.foldl_map]
  exact schema_foldl (fun d table => (hstep _ d table).1)
    (fun d table => (hstep _ d table).2) hnames
    ⟨rfl, rfl⟩ _ _

example : commonModels [⟨"t", [⟨"a", false, true, false⟩, ⟨"b", true, false, true⟩]⟩]
    = "model t \x7b\na String @id\nb String? @unique\n\x7d\n".toList := by decide

end SchemaReader
