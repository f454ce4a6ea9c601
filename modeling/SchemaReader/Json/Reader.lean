/-
Reading JSON.

* `Frame`, `ReadState`: the arrays and objects that are open, and what may come next;
* `ReadState.step?`: one more token;
* `Json.ofText?`: the value of a text.
-/
import SchemaReader.Json.Token

namespace SchemaReader

/-- An array or object that is open, with what it holds so far in reverse. -/
inductive Frame where
  | array (items : List Json)
  | object (members : List (QuotedText × Json))
  /-- An object in which a key waits for its value. -/
  | member (members : List (QuotedText × Json)) (key : QuotedText)

/-- What may come next. -/
inductive ReadMode where
  /-- A value. -/
  | value
  /-- The first item of an array, or its end. -/
  | itemOrEnd
  /-- The first key of an object, or its end. -/
  | keyOrEnd
  /-- A key. -/
  | key
  /-- The colon after a key. -/
  | colon
  /-- A comma, or the end of what is open. -/
  | commaOrEnd
  /-- Nothing; the value is complete. -/
  | finished (value : Json)

/-- Where the reading stands. -/
structure ReadState where
  /-- What is open, the innermost first. -/
  frames : List Frame
  mode : ReadMode

/-- The state after a complete value. -/
def ReadState.put? (value : Json) : List Frame → Option ReadState
  | [] => some ⟨[], .finished value⟩
  | .array items :: frames => some ⟨.array (value :: items) :: frames, .commaOrEnd⟩
  | .member members key :: frames =>
    some ⟨.object ((key, value) :: members) :: frames, .commaOrEnd⟩
  | .object _ :: _ => none

/-- The state after the first token of a value. -/
def ReadState.begin? (frames : List Frame) : Token → Option ReadState
  | .openArray => some ⟨.array [] :: frames, .itemOrEnd⟩
  | .openObject => some ⟨.object [] :: frames, .keyOrEnd⟩
  | .string content => put? (.string content) frames
  | .number text => put? (.number text) frames
  | .word text =>
    if text == "null".toList then put? .null frames
    else if text == "true".toList then put? (.bool true) frames
    else if text == "false".toList then put? (.bool false) frames
    else none
  | _ => none

/-- The state after the end of an array. -/
def ReadState.closeArray? : List Frame → Option ReadState
  | .array items :: frames => put? (.array items.reverse) frames
  | _ => none

/-- The state after the end of an object. -/
def ReadState.closeObject? : List Frame → Option ReadState
  | .object members :: frames => put? (.object members.reverse) frames
  | _ => none

/-- The state after a key. -/
def ReadState.key? : List Frame → Token → Option ReadState
  | .object members :: frames, .string key => some ⟨.member members key :: frames, .colon⟩
  | _, _ => none

/-- The state after a comma. -/
def ReadState.comma? : List Frame → Option ReadState
  | .array items :: frames => some ⟨.array items :: frames, .value⟩
  | .object members :: frames => some ⟨.object members :: frames, .key⟩
  | _ => none

/-- The state after one more token. -/
def ReadState.step? (state : ReadState) (token : Token) : Option ReadState :=
  match state.mode, token with
  | .value, token => begin? state.frames token
  | .itemOrEnd, .closeArray => closeArray? state.frames
  | .itemOrEnd, token => begin? state.frames token
  | .keyOrEnd, .closeObject => closeObject? state.frames
  | .keyOrEnd, token => key? state.frames token
  | .key, token => key? state.frames token
  | .colon, .colon => some ⟨state.frames, .value⟩
  | .commaOrEnd, .comma => comma? state.frames
  | .commaOrEnd, .closeArray => closeArray? state.frames
  | .commaOrEnd, .closeObject => closeObject? state.frames
  | _, _ => none

/-- The value that a state is complete with. -/
def ReadState.value? (state : ReadState) : Option Json :=
  match state.mode with
  | .finished value => some value
  | _ => none

/-- The value of a list of tokens. -/
def Json.ofTokens? (tokens : List Token) : Option Json :=
  (tokens.foldlM ReadState.step? ⟨[], .value⟩).bind ReadState.value?

/-- The value of a text. -/
def Json.ofText? (text : List Char) : Option Json :=
  (Token.scan? text).bind Json.ofTokens?

end SchemaReader
