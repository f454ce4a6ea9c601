/-
Written responses are read back.

* `Json.Within`: a textual value that nests no deeper than a bound, with the bounds of all records;
* `Response.ofJson?_toJson`: each record is read back from its members;
* `toText_faithful`: the text of a response stands for it, whatever the layout.
-/
import SchemaReader.Proofs.Json.Read
import SchemaReader.Response.Decode
import SchemaReader.Response.Encode

namespace SchemaReader

/-! ### Readable values -/

mutual

/-- A textual value is readable: it has no number that could be out of range. -/
theorem isReadable_of_isTextual : (value : Json) → value.isTextual = true → value.isReadable = true
  | .null, _ | .bool _, _ => rfl
  | .number _, h => by simp [Json.isTextual] at h
  | .string _, h => by simpa [Json.isTextual, Json.isReadable] using h
  | .array items, h => by
      simp only [Json.isTextual] at h
      simpa only [Json.isReadable] using itemsReadable_of_itemsTextual items h
  | .object members, h => by
      simp only [Json.isTextual] at h
      simpa only [Json.isReadable] using membersReadable_of_membersTextual members h

/-- Textual items are readable. -/
theorem itemsReadable_of_itemsTextual :
    (items : List Json) → itemsTextual items = true → itemsReadable items = true
  | [], _ => rfl
  | item :: items, h => by
      simp only [itemsTextual, Bool.and_eq_true] at h
      simp only [itemsReadable, Bool.and_eq_true]
      exact ⟨isReadable_of_isTextual item h.1, itemsReadable_of_itemsTextual items h.2⟩

/-- Textual members are readable. -/
theorem membersReadable_of_membersTextual : (members : List (QuotedText × Json)) →
    membersTextual members = true → membersReadable members = true
  | [], _ => rfl
  | (key, value) :: members, h => by
      simp only [membersTextual, Bool.and_eq_true] at h
      simp only [membersReadable, Bool.and_eq_true]
      exact ⟨⟨h.1.1, isReadable_of_isTextual value h.1.2⟩,
        membersReadable_of_membersTextual members h.2⟩

end

/-! ### Depth of values -/

/-- A value is textual and its arrays and objects nest at most `n` deep. -/
def Json.Within (n : Nat) (value : Json) : Prop :=
  value.isTextual = true ∧ value.height ≤ n

variable {m n : Nat} {value : Json}

lemma Json.Within.mono (h : value.Within m) (hmn : m ≤ n) : value.Within n :=
  ⟨h.1, Nat.le_trans h.2 hmn⟩

lemma within_ofString (text : String) (n : Nat) : (Json.ofString text).Within n :=
  ⟨rfl, Nat.zero_le n⟩

lemma within_bool (b : Bool) (n : Nat) : (Json.bool b).Within n :=
  ⟨rfl, Nat.zero_le n⟩

lemma within_array {items : List Json} (h : ∀ item ∈ items, item.Within n) :
    (Json.array items).Within (n + 1) := by
  have hall : itemsTextual items = true ∧ heightOfItems items ≤ n := by
    induction items with
    | nil => exact ⟨rfl, Nat.zero_le n⟩
    | cons item items ih =>
        rw [List.forall_mem_cons] at h
        obtain ⟨htextual, hheight⟩ := ih h.2
        exact ⟨by simp [itemsTextual, h.1.1, htextual], Nat.max_le.mpr ⟨h.1.2, hheight⟩⟩
  refine ⟨by simpa only [Json.isTextual] using hall.1, ?_⟩
  simpa only [Json.height] using Nat.add_le_add_right hall.2 1

lemma within_jsonObject {members : List (String × Json)} (h : ∀ m ∈ members, m.2.Within n) :
    (jsonObject members).Within (n + 1) := by
  have hall : membersTextual (members.map fun m => (some m.1.toList, m.2)) = true ∧
      heightOfMembers (members.map fun m => (some m.1.toList, m.2)) ≤ n := by
    induction members with
    | nil => exact ⟨rfl, Nat.zero_le n⟩
    | cons member members ih =>
        rw [List.forall_mem_cons] at h
        obtain ⟨htextual, hheight⟩ := ih h.2
        exact ⟨by simp [membersTextual, h.1.1, htextual], Nat.max_le.mpr ⟨h.1.2, hheight⟩⟩
  refine ⟨by simpa only [jsonObject, Json.isTextual] using hall.1, ?_⟩
  simpa only [jsonObject, Json.height] using Nat.add_le_add_right hall.2 1

lemma within_list {α : Type} {write : α → Json} (h : ∀ a, (write a).Within n) (list : List α) :
    (Json.array (list.map write)).Within (n + 1) :=
  within_array (List.forall_mem_map.mpr fun a _ => h a)

lemma Reference.within_toJson (reference : Reference) : reference.toJson.Within 1 :=
  within_jsonObject (by simp [within_ofString])

lemma Column.within_toJson (column : Column) : column.toJson.Within 2 := by
  refine within_jsonObject (List.forall_mem_append.mpr ⟨?_, ?_⟩)
  · simp [within_ofString, within_bool]
  · cases column.references with
    | none => simp
    | some reference => simp [reference.within_toJson]

lemma Index.within_toJson (index : Index) : index.toJson.Within 2 :=
  within_jsonObject
    (by simp [within_ofString, within_bool, within_list (n := 0) (within_ofString · 0)])

lemma Table.within_toJson (table : Table) : table.toJson.Within 4 := by
  have hcolumns := within_list Column.within_toJson table.columns
  have hindexes := within_list Index.within_toJson table.indexes
  exact within_jsonObject (by simp [within_ofString, hcolumns, hindexes])

lemma Relation.within_toJson (relation : Relation) : relation.toJson.Within 1 :=
  within_jsonObject (by simp [within_ofString])

/-- The arrays and objects of a response nest six deep at most: in the response its tables, their
columns and the references of these. -/
lemma Response.within_toJson (response : Response) : response.toJson.Within 6 := by
  have htables := within_list Table.within_toJson response.schema.tables
  have hrelations := (within_list Relation.within_toJson response.schema.relations).mono
    (show 2 ≤ 5 by decide)
  refine within_jsonObject (List.forall_mem_append.mpr ⟨?_, ?_⟩)
  · simp [within_ofString, htables, hrelations]
  · cases response.error with
    | none => simp
    | some error => simp [within_ofString]

/-! ### Members that are read back -/

/-- An object with distinct keys has under a key what was written under it. -/
lemma valuesOf_written (key : String) {members : List (String × Json)}
    (h : (members.map Prod.fst).Nodup) :
    valuesOf key (members.map fun m => (some m.1.toList, m.2)) = (members.lookup key).toList := by
  induction members with
  | nil => rfl
  | cons member members ih =>
      obtain ⟨name, value⟩ := member
      rw [List.map_cons, List.nodup_cons] at h
      obtain ⟨hfresh, hnodup⟩ := h
      have ih := ih hnodup
      rw [valuesOf] at ih ⊢
      by_cases hkey : name = key
      · subst hkey
        have hnone : members.lookup name = none := by
          rw [List.lookup_eq_none_iff]
          rintro ⟨other, value⟩ hmem
          exact bne_iff_ne.mpr fun h => hfresh (List.mem_map.mpr ⟨_, hmem, h.symm⟩)
        simp [ih, hnone]
      · have hwritten : (some name.toList == some key.toList) = false := by
          simpa [String.toList_inj] using hkey
        have hlookup : (key == name) = false := beq_eq_false_iff_ne.mpr (Ne.symm hkey)
        simp [hwritten, List.lookup_cons, hlookup, ih]

/-- A record is read from the object of its members: every key has the value written under it, and
a key under which nothing was written has none. -/
lemma mapM_optionalMember?_written (keys : List String) {members : List (String × Json)}
    (h : (members.map Prod.fst).Nodup) :
    keys.mapM (optionalMember? (members.map fun m => (some m.1.toList, m.2)))
      = some (keys.map fun key => members.lookup key) := by
  have hmember : ∀ key, optionalMember? (members.map fun m => (some m.1.toList, m.2)) key
      = some (members.lookup key) := by
    intro key
    rw [optionalMember?, valuesOf_written key h]
    cases members.lookup key <;> rfl
  induction keys with
  | nil => rfl
  | cons key keys ih =>
      rw [List.mapM_cons, hmember, ih]
      rfl

lemma fieldValues?_jsonObject (keys : List String) {members : List (String × Json)}
    (h : (members.map Prod.fst).Nodup) :
    fieldValues? keys (jsonObject members) = some (keys.map fun key => members.lookup key) :=
  mapM_optionalMember?_written keys h

@[simp] lemma string?_ofString (text : String) : (Json.ofString text).string? = some text := by
  simp [Json.ofString, Json.string?]

@[simp] lemma caseName?_ofString (text : String) : (Json.ofString text).caseName? = some text := by
  simp [Json.ofString, Json.caseName?]

@[simp] lemma nullable?_ofString {α : Type} (item : Json → Option α) (text : String) :
    nullable? item (some (Json.ofString text)) = (item (Json.ofString text)).map some := rfl

@[simp] lemma bool?_bool (b : Bool) : (Json.bool b).bool? = some b := rfl

@[simp] lemma Source.ofName?_name (source : Source) : Source.ofName? source.name = some source := by
  cases source <;> rfl

@[simp] lemma Cardinality.ofName?_name (cardinality : Cardinality) :
    Cardinality.ofName? cardinality.name = some cardinality := by
  cases cardinality <;> rfl

/-- A list is read back when each of its items is. -/
lemma list?_array_map {α : Type} {write : α → Json} {read : Json → Option α}
    (h : ∀ a, read (write a) = some a) (list : List α) :
    Json.list? read (.array (list.map write)) = some list := by
  induction list with
  | nil => rfl
  | cons a list ih =>
      rw [Json.list?] at ih ⊢
      rw [List.map_cons, List.mapM_cons, h, ih]
      rfl

/-! ### Records that are read back -/

lemma Reference.ofJson?_toJson (reference : Reference) :
    Reference.ofJson? reference.toJson = some reference := by
  rw [Reference.ofJson?, Reference.toJson, fieldValues?_jsonObject _ (by simp)]
  simp [List.lookup_cons]

lemma Column.ofJson?_toJson (column : Column) : Column.ofJson? column.toJson = some column := by
  obtain ⟨name, type, nullable, primaryKey, references⟩ := column
  cases references with
  | none =>
      rw [Column.ofJson?, Column.toJson, fieldValues?_jsonObject _ (by simp)]
      simp [List.lookup_cons, nullable?]
  | some reference =>
      rw [Column.ofJson?, Column.toJson, fieldValues?_jsonObject _ (by simp)]
      have href : nullable? Reference.ofJson? (some reference.toJson) = some (some reference) := by
        change (Reference.ofJson? reference.toJson).map some = _
        rw [reference.ofJson?_toJson]
        rfl
      simp [List.lookup_cons, href]

lemma Index.ofJson?_toJson (index : Index) : Index.ofJson? index.toJson = some index := by
  rw [Index.ofJson?, Index.toJson, fieldValues?_jsonObject _ (by simp)]
  simp [List.lookup_cons, list?_array_map string?_ofString]

lemma Table.ofJson?_toJson (table : Table) : Table.ofJson? table.toJson = some table := by
  rw [Table.ofJson?, Table.toJson, fieldValues?_jsonObject _ (by simp)]
  simp [List.lookup_cons, list?_array_map Column.ofJson?_toJson,
    list?_array_map Index.ofJson?_toJson]

lemma Relation.ofJson?_toJson (relation : Relation) :
    Relation.ofJson? relation.toJson = some relation := by
  rw [Relation.ofJson?, Relation.toJson, fieldValues?_jsonObject _ (by simp)]
  simp [List.lookup_cons]

/-- A response is read back from its value. -/
theorem Response.ofJson?_toJson (response : Response) :
    Response.ofJson? response.toJson = some response := by
  obtain ⟨⟨source, tables, relations, rawPath⟩, error⟩ := response
  have htables := list?_array_map Table.ofJson?_toJson tables
  have hrelations := list?_array_map Relation.ofJson?_toJson relations
  cases error with
  | none =>
      rw [Response.toJson, jsonObject, Response.ofJson?,
        mapM_optionalMember?_written _ (by simp)]
      simp [responseKeys, List.lookup_cons, htables, hrelations, nullable?]
  | some error =>
      rw [Response.toJson, jsonObject, Response.ofJson?,
        mapM_optionalMember?_written _ (by simp)]
      simp [responseKeys, List.lookup_cons, htables, hrelations]

/-- The text of a response is read as its value, in either layout. -/
lemma Response.ofText?_value (response : Response) (pretty : Bool) :
    Json.ofText? (response.toText pretty).toList = some response.toJson := by
  rw [Response.toText, String.toList_ofList]
  exact ofText?_toText _ response.within_toJson.1

/-- The text of a response is read as the response, in either layout. -/
lemma Response.ofText?_toText (response : Response) (pretty : Bool) :
    Response.ofText? (response.toText pretty).toList = some response := by
  obtain ⟨htextual, hheight⟩ := response.within_toJson
  have hreadable := isReadable_of_isTextual _ htextual
  have hshallow : response.toJson.height ≤ maximalHeight := Nat.le_trans hheight (by decide)
  simp [Response.ofText?, response.ofText?_value, hreadable, hshallow, response.ofJson?_toJson]

/-- The text of a response stands for it: it is read as the response, in either layout; two
responses with one text are one, whatever their layouts; both layouts are texts of one value; and a
response that was read from any text is read again from its own text, which is written as it is. -/
theorem toText_faithful :
    (∀ (response : Response) (pretty : Bool),
      Response.ofText? (response.toText pretty).toList = some response) ∧
    (∀ (response other : Response) (pretty otherPretty : Bool),
      response.toText pretty = other.toText otherPretty → response = other) ∧
    (∀ response : Response, Json.ofText? (response.toText true).toList = some response.toJson ∧
      Json.ofText? (response.toText false).toList = some response.toJson) ∧
    (∀ (text : List Char) (pretty : Bool) (again : String),
      (Response.ofText? text).map (·.toText pretty) = some again →
        (Response.ofText? again.toList).map (·.toText pretty) = some again) := by
  refine ⟨Response.ofText?_toText, fun response other pretty otherPretty h => ?_,
    fun response => ⟨response.ofText?_value true, response.ofText?_value false⟩,
    fun text pretty again h => ?_⟩
  · have hread := response.ofText?_toText pretty
    rw [h, other.ofText?_toText otherPretty] at hread
    exact (Option.some.inj hread).symm
  · obtain ⟨response, -, rfl⟩ := Option.map_eq_some_iff.mp h
    rw [response.ofText?_toText pretty]
    rfl

/-- A response whose strings hold quotes, a backslash, a line feed and a control. -/
def sampleResponse : Response :=
  ⟨⟨.sql, [⟨"t\n", [⟨"a\"", "INT", true, false, some ⟨"u", "\\id"⟩⟩], [⟨"i", ["a\""], true⟩]⟩],
    [⟨"t\n", "a\"", "u", "\\id", .oneToMany⟩], "schema.sql"⟩, some "\x01"⟩

/-- The sample is read from its text, and its text on one line is written again with line breaks. -/
theorem toText_faithful_sampleResponse :
    Response.ofText? (sampleResponse.toText true).toList = some sampleResponse ∧
    (Response.ofText? (sampleResponse.toText false).toList).map (·.toText true)
      = some (sampleResponse.toText true) ∧
    (Response.ofText? (sampleResponse.toText true).toList).map (·.toText true)
      = some (sampleResponse.toText true) :=
  have hread : (Response.ofText? (sampleResponse.toText false).toList).map (·.toText true)
      = some (sampleResponse.toText true) := by rw [toText_faithful.1]; rfl
  ⟨toText_faithful.1 sampleResponse true, hread, toText_faithful.2.2.2 _ true _ hread⟩

end SchemaReader
