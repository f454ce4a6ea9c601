/-
Written JSON is read as the value.

* `foldlM_tokens`: the tokens of a value complete the value where one may come;
* `ofText?_toText`: the text of a textual value, in either layout, is read as the value.
-/
import SchemaReader.Json.Reader
import SchemaReader.Proofs.Json.Scan

namespace SchemaReader

open ReadState (step? put?)

variable {frames : List Frame}

/-- The first item of an array is read as a value is: no value begins with the end of an array. -/
lemma foldlM_tokens_itemOrEnd (value : Json) (frames : List Frame) :
    value.tokens.foldlM step? ⟨frames, .itemOrEnd⟩
      = value.tokens.foldlM step? ⟨frames, .value⟩ := by
  cases value with
  | null | number | string => rfl
  | bool b => cases b <;> rfl
  | array items => cases items <;> rfl
  | object members =>
      cases members with
      | nil => rfl
      | cons member members => obtain ⟨key, value⟩ := member; rfl

lemma foldlM_one (state : ReadState) (token : Token) :
    [token].foldlM step? state = step? state token := by
  simp

mutual

/-- The tokens of a value complete the value where one may come. -/
theorem foldlM_tokens : (value : Json) → (frames : List Frame) →
    value.tokens.foldlM step? ⟨frames, .value⟩ = put? value frames
  | .null, frames => by
      rw [Json.tokens, foldlM_one]
      rfl
  | .bool true, frames => by
      rw [Json.tokens, foldlM_one]
      rfl
  | .bool false, frames => by
      rw [Json.tokens, foldlM_one]
      rfl
  | .number text, frames => by
      rw [Json.tokens, foldlM_one]
      rfl
  | .string content, frames => by
      rw [Json.tokens, foldlM_one]
      rfl
  | .array [], frames => by
      rw [Json.tokens, List.foldlM_cons]
      exact foldlM_one ⟨.array [] :: frames, .itemOrEnd⟩ .closeArray
  | .array (item :: items), frames => by
      have hitem : item.tokens.foldlM step? ⟨.array [] :: frames, .itemOrEnd⟩
          = some ⟨.array [item] :: frames, .commaOrEnd⟩ := by
        rw [foldlM_tokens_itemOrEnd, foldlM_tokens item]
        rfl
      rw [Json.tokens, List.foldlM_cons]
      change (item.tokens ++ (tokensOfItems items ++ [Token.closeArray])).foldlM step?
        ⟨.array [] :: frames, .itemOrEnd⟩ = _
      rw [List.foldlM_append, hitem]
      exact foldlM_tokensOfItems items [item] frames
  | .object [], frames => by
      rw [Json.tokens, List.foldlM_cons]
      exact foldlM_one ⟨.object [] :: frames, .keyOrEnd⟩ .closeObject
  | .object ((key, value) :: members), frames => by
      have hvalue : value.tokens.foldlM step? ⟨.member [] key :: frames, .value⟩
          = some ⟨.object [(key, value)] :: frames, .commaOrEnd⟩ := by
        rw [foldlM_tokens value]
        rfl
      rw [Json.tokens, List.foldlM_cons]
      change (value.tokens ++ (tokensOfMembers members ++ [Token.closeObject])).foldlM step?
        ⟨.member [] key :: frames, .value⟩ = _
      rw [List.foldlM_append, hvalue]
      exact foldlM_tokensOfMembers members [(key, value)] frames

/-- The tokens of further items and the end of the array complete the array. -/
theorem foldlM_tokensOfItems : (rest items : List Json) → (frames : List Frame) →
    (tokensOfItems rest ++ [Token.closeArray]).foldlM step? ⟨.array items :: frames, .commaOrEnd⟩
      = put? (.array (items.reverse ++ rest)) frames
  | [], items, frames => by simp [tokensOfItems, step?, ReadState.closeArray?]
  | item :: rest, items, frames => by
      have hitem : item.tokens.foldlM step? ⟨.array items :: frames, .value⟩
          = some ⟨.array (item :: items) :: frames, .commaOrEnd⟩ := by
        rw [foldlM_tokens item]
        rfl
      have hrest := foldlM_tokensOfItems rest (item :: items) frames
      simpa [tokensOfItems, step?, ReadState.comma?, hitem] using hrest

/-- The tokens of further members and the end of the object complete the object. -/
theorem foldlM_tokensOfMembers : (rest members : List (QuotedText × Json)) →
    (frames : List Frame) → (tokensOfMembers rest ++ [Token.closeObject]).foldlM step?
      ⟨.object members :: frames, .commaOrEnd⟩ = put? (.object (members.reverse ++ rest)) frames
  | [], members, frames => by simp [tokensOfMembers, step?, ReadState.closeObject?]
  | (key, value) :: rest, members, frames => by
      have hvalue : value.tokens.foldlM step? ⟨.member members key :: frames, .value⟩
          = some ⟨.object ((key, value) :: members) :: frames, .commaOrEnd⟩ := by
        rw [foldlM_tokens value]
        rfl
      have hrest := foldlM_tokensOfMembers rest ((key, value) :: members) frames
      simpa [tokensOfMembers, step?, ReadState.comma?, ReadState.key?, hvalue] using hrest

end

/-- The text of a value is read as the value. -/
theorem ofText?_toText (layout : Layout) {value : Json} (h : value.isTextual = true) :
    Json.ofText? (value.toText layout) = some value := by
  rw [Json.ofText?, scan?_toText layout h, Option.bind_some, Json.ofTokens?, foldlM_tokens]
  rfl

end SchemaReader
