/-
The tokens of written JSON.

* `scanString?_quote`: the literal of a string is read as the string;
* `Scans`: a text is scanned as a list of tokens, whatever was scanned before;
* `Json.tokens`: the tokens of a value, and `scan?_toText`: the text of a value, in either layout,
  is scanned as these.
-/
import Mathlib.Data.List.TakeDrop
import Mathlib.Tactic.SplitIfs
import SchemaReader.Json.Printer
import SchemaReader.Json.Token
import SchemaReader.Proofs.Text.Words

namespace SchemaReader

/-! ### Strings -/

lemma not_surrogate (c : Char) :
    isHighSurrogate c.toNat = false ∧ isLowSurrogate c.toNat = false := by
  have hvalid := c.valid
  simp only [UInt32.isValidChar, Nat.isValidChar] at hvalid
  simp only [isHighSurrogate, isLowSurrogate, Bool.and_eq_false_iff, decide_eq_false_iff_not,
    ← Char.toNat_val]
  omega

/-- The code points of characters are joined to the characters. -/
lemma joinSurrogates_map_toNat (before text : List Char) :
    joinSurrogates before (text.map Char.toNat) = some (before.reverse ++ text) := by
  induction text generalizing before with
  | nil => simp [joinSurrogates]
  | cons c text ih =>
      obtain ⟨hhigh, hlow⟩ := not_surrogate c
      cases text with
      | nil => simp [joinSurrogates, hhigh, hlow]
      | cons d text =>
          have ih := ih (c :: before)
          simp only [List.map_cons] at ih
          simp [joinSurrogates, hhigh, hlow, ih]

/-- The four digits of a control. -/
lemma hexDigits?_of_control (n : Nat) (h : n < 0x20) :
    hexDigits? ['0', '0', hexDigit (n / 16), hexDigit (n % 16)] = some n := by
  revert n
  decide

lemma scanString?_escape {c e : Char} (hu : e ≠ 'u') (h : escapedChar? e = some c)
    (codes : List Nat) (rest : List Char) :
    scanString? codes ('\\' :: e :: rest) = scanString? (c.toNat :: codes) rest := by
  rw [scanString?]
  · simp [h]
  · rintro a b c d rest rfl
    exact absurd rfl hu

lemma scanString?_plain {c : Char} (hquote : c ≠ '"') (hback : c ≠ '\\') (hcode : ¬ c.toNat < 0x20)
    (codes : List Nat) (rest : List Char) :
    scanString? codes (c :: rest) = scanString? (c.toNat :: codes) rest := by
  rw [scanString?]
  · simp [hcode]
  · exact fun h => hquote h
  · exact fun _ _ _ _ _ h => absurd h hback
  · exact fun _ _ h => absurd h hback

/-- A written character is read as its code point. -/
lemma scanString?_encodeChar (c : Char) (codes : List Nat) (rest : List Char) :
    scanString? codes (encodeChar c ++ rest) = scanString? (c.toNat :: codes) rest := by
  rw [encodeChar]
  split_ifs with hquote hback hline hreturn htab hbell hform hcode
  · obtain rfl : c = '"' := by simpa using hquote
    exact scanString?_escape (by decide) rfl _ _
  · obtain rfl : c = '\\' := by simpa using hback
    exact scanString?_escape (by decide) rfl _ _
  · obtain rfl : c = '\n' := by simpa using hline
    exact scanString?_escape (by decide) rfl _ _
  · obtain rfl : c = '\r' := by simpa using hreturn
    exact scanString?_escape (by decide) rfl _ _
  · obtain rfl : c = '\t' := by simpa using htab
    exact scanString?_escape (by decide) rfl _ _
  · obtain rfl : c = '\x08' := by simpa using hbell
    exact scanString?_escape (by decide) rfl _ _
  · obtain rfl : c = '\x0c' := by simpa using hform
    exact scanString?_escape (by decide) rfl _ _
  · simp only [List.cons_append, List.nil_append]
    rw [scanString?, hexDigits?_of_control _ hcode]
  · exact scanString?_plain (by simpa using hquote) (by simpa using hback) hcode _ _

lemma scanString?_flatMap (text : List Char) (codes : List Nat) (rest : List Char) :
    scanString? codes (text.flatMap encodeChar ++ '"' :: rest)
      = some (joinSurrogates [] (codes.reverse ++ text.map Char.toNat), rest) := by
  induction text generalizing codes with
  | nil => simp [scanString?]
  | cons c text ih =>
      rw [List.flatMap_cons, List.append_assoc, scanString?_encodeChar, ih]
      simp

/-- The literal of a string, after its opening quote, is read as the string. -/
theorem scanString?_quote (text rest : List Char) :
    scanString? [] (text.flatMap encodeChar ++ '"' :: rest) = some (some text, rest) := by
  rw [scanString?_flatMap, List.reverse_nil, List.nil_append, joinSurrogates_map_toNat]
  rfl

/-! ### Scanned texts -/

/-- A text, which stands before `rest`, is scanned as tokens, on top of any earlier ones, in no more
rounds than it has characters. -/
def Scans (text : List Char) (tokens : List Token) (rest : List Char) : Prop :=
  ∃ rounds ≤ text.length, ∀ earlier fuel, scanLoop earlier (rounds + fuel) (text ++ rest)
    = scanLoop (tokens.reverse ++ earlier) fuel rest

variable {u v text rest : List Char} {tokens more : List Token} {token : Token} {c : Char}

lemma scans_nil (rest : List Char) : Scans [] [] rest := ⟨0, by simp, by simp⟩

lemma Scans.append (hu : Scans u tokens (v ++ rest)) (hv : Scans v more rest) :
    Scans (u ++ v) (tokens ++ more) rest := by
  obtain ⟨m, hm, hu⟩ := hu
  obtain ⟨n, hn, hv⟩ := hv
  refine ⟨m + n, by simpa using Nat.add_le_add hm hn, fun earlier fuel => ?_⟩
  rw [List.append_assoc, Nat.add_assoc, hu, hv]
  simp

lemma scans_blank (hc : isJsonBlank c = true) (rest : List Char) : Scans [c] [] rest :=
  ⟨1, by simp, fun earlier fuel => by simp [Nat.add_comm 1, scanLoop, hc]⟩

/-- White space is scanned as nothing. -/
lemma scans_blanks (hu : ∀ c ∈ u, isJsonBlank c = true) (rest : List Char) : Scans u [] rest := by
  induction u with
  | nil => exact scans_nil rest
  | cons c u ih =>
      rw [List.forall_mem_cons] at hu
      exact (scans_blank hu.1 (u ++ rest)).append (ih hu.2)

lemma scans_token (hc : isJsonBlank c = false)
    (h : Token.scanOne? c (u ++ rest) = some (token, rest)) : Scans (c :: u) [token] rest :=
  ⟨1, by simp, fun earlier fuel => by simp [Nat.add_comm 1, scanLoop, hc, h]⟩

lemma scans_quote (text rest : List Char) :
    Scans (quote (some text)) [.string (some text)] rest := by
  refine scans_token (by decide) ?_
  rw [List.append_assoc]
  simp [Token.scanOne?, scanString?_quote]

/-- A word ends where no letter follows. -/
lemma scans_word (hc : c ∈ ['n', 't', 'f']) (hu : ∀ d ∈ u, d.isAlpha = true)
    (hrest : Text.Stops Char.isAlpha rest) : Scans (c :: u) [.word (c :: u)] rest := by
  have hspan : scanWord (u ++ rest) = (u, rest) := by
    rw [scanWord, List.span_eq_takeWhile_dropWhile, Text.takeWhile_append_of_stops hu hrest,
      Text.dropWhile_append_of_stops hu hrest]
  simp only [List.mem_cons, List.not_mem_nil, or_false] at hc
  rcases hc with rfl | rfl | rfl
  all_goals exact scans_token (by decide) (by simp [Token.scanOne?, hspan])

/-! ### Values -/

mutual

/-- The tokens of a value. -/
def Json.tokens : Json → List Token
  | .null => [.word "null".toList]
  | .bool true => [.word "true".toList]
  | .bool false => [.word "false".toList]
  | .number text => [.number text]
  | .string content => [.string content]
  | .array [] => [.openArray, .closeArray]
  | .array (item :: rest) =>
    .openArray :: (item.tokens ++ (tokensOfItems rest ++ [.closeArray]))
  | .object [] => [.openObject, .closeObject]
  | .object ((key, value) :: rest) =>
    .openObject :: .string key :: .colon ::
      (value.tokens ++ (tokensOfMembers rest ++ [.closeObject]))

/-- The tokens of the further items of an array. -/
def tokensOfItems : List Json → List Token
  | [] => []
  | item :: rest => .comma :: (item.tokens ++ tokensOfItems rest)

/-- The tokens of the further members of an object. -/
def tokensOfMembers : List (QuotedText × Json) → List Token
  | [] => []
  | (key, value) :: rest =>
    .comma :: .string key :: .colon :: (value.tokens ++ tokensOfMembers rest)

end

mutual

/-- Whether a value holds no numbers and only strings with a content. -/
def Json.isTextual : Json → Bool
  | .number _ => false
  | .string content => content.isSome
  | .array items => itemsTextual items
  | .object members => membersTextual members
  | _ => true

/-- Whether all items of an array are textual. -/
def itemsTextual : List Json → Bool
  | [] => true
  | item :: rest => item.isTextual && itemsTextual rest

/-- Whether all members of an object are textual, their keys included. -/
def membersTextual : List (QuotedText × Json) → Bool
  | [] => true
  | (key, value) :: rest => key.isSome && value.isTextual && membersTextual rest

end

/-! ### Texts of values -/

lemma scans_lineBreak (layout : Layout) (depth : Nat) (rest : List Char) :
    Scans (layout.lineBreak depth) [] rest := by
  cases layout with
  | compact => exact scans_nil rest
  | indented =>
      refine scans_blanks (fun c hc => ?_) rest
      simp only [Layout.lineBreak, List.mem_cons, List.mem_replicate] at hc
      rcases hc with rfl | ⟨-, rfl⟩ <;> decide

lemma scans_colon (layout : Layout) (rest : List Char) : Scans layout.colon [.colon] rest := by
  have hcolon : ∀ rest, Scans [':'] [.colon] rest := fun rest => scans_token (by decide) rfl
  cases layout with
  | compact => exact hcolon rest
  | indented => exact (hcolon (' ' :: rest)).append (scans_blank (c := ' ') (by decide) rest)

lemma stops_lineBreak (layout : Layout) (depth : Nat) (h : Text.Stops Char.isAlpha rest) :
    Text.Stops Char.isAlpha (layout.lineBreak depth ++ rest) := by
  cases layout with
  | compact => exact h
  | indented => simp [Layout.lineBreak]

lemma stops_renderItems (layout : Layout) (depth : Nat) (items : List Json)
    (h : Text.Stops Char.isAlpha rest) :
    Text.Stops Char.isAlpha (renderItems layout depth items ++ rest) := by
  cases items with
  | nil => simpa [renderItems] using h
  | cons item items => simp [renderItems]

lemma stops_renderMembers (layout : Layout) (depth : Nat) (members : List (QuotedText × Json))
    (h : Text.Stops Char.isAlpha rest) :
    Text.Stops Char.isAlpha (renderMembers layout depth members ++ rest) := by
  cases members with
  | nil => simpa [renderMembers] using h
  | cons member members => simp [renderMembers]

lemma scans_key {key : QuotedText} (hkey : key.isSome = true) (rest : List Char) :
    Scans (quote key) [.string key] rest := by
  obtain ⟨text, rfl⟩ := Option.isSome_iff_exists.mp hkey
  exact scans_quote text rest

mutual

/-- The text of a value is scanned as its tokens. -/
theorem scans_render (layout : Layout) (depth : Nat) : (value : Json) → value.isTextual = true →
    (rest : List Char) → Text.Stops Char.isAlpha rest →
      Scans (value.render layout depth) value.tokens rest
  | .null, _, _, hrest => scans_word (by decide) (by decide) hrest
  | .bool true, _, _, hrest => scans_word (by decide) (by decide) hrest
  | .bool false, _, _, hrest => scans_word (by decide) (by decide) hrest
  | .number _, h, _, _ => by simp [Json.isTextual] at h
  | .string _, h, rest, _ => scans_key (by simpa [Json.isTextual] using h) rest
  | .array [], _, rest, _ =>
      (scans_token (by decide) rfl : Scans ['['] [.openArray] (']' :: rest)).append
        (scans_token (by decide) rfl : Scans [']'] [.closeArray] rest)
  | .array (item :: items), h, rest, hrest => by
      simp only [Json.isTextual, itemsTextual, Bool.and_eq_true] at h
      have hclose : Text.Stops Char.isAlpha ((layout.lineBreak depth ++ [']']) ++ rest) := by
        rw [List.append_assoc]
        exact stops_lineBreak layout depth (by simp)
      have hopen : ∀ rest, Scans ['['] [.openArray] rest := fun _ => scans_token (by decide) rfl
      have hclosed : Text.Stops Char.isAlpha ((renderItems layout (depth + 1) items ++
          (layout.lineBreak depth ++ [']'])) ++ rest) := by
        rw [List.append_assoc]
        exact stops_renderItems _ _ _ hclose
      have hitem := scans_render layout (depth + 1) item h.1 _ hclosed
      have hitems := scans_renderItems layout (depth + 1) items h.2 _ hclose
      have hend : Scans (layout.lineBreak depth ++ [']']) [.closeArray] rest :=
        (scans_lineBreak layout depth _).append (scans_token (by decide) rfl)
      have hall := (hopen _).append ((scans_lineBreak layout (depth + 1) _).append
        (hitem.append (hitems.append hend)))
      simpa [Json.render, Json.tokens] using hall
  | .object [], _, rest, _ =>
      (scans_token (by decide) rfl : Scans ['\x7b'] [.openObject] ('\x7d' :: rest)).append
        (scans_token (by decide) rfl : Scans ['\x7d'] [.closeObject] rest)
  | .object ((key, value) :: members), h, rest, hrest => by
      simp only [Json.isTextual, membersTextual, Bool.and_eq_true] at h
      have hclose : Text.Stops Char.isAlpha ((layout.lineBreak depth ++ ['\x7d']) ++ rest) := by
        rw [List.append_assoc]
        exact stops_lineBreak layout depth (by simp)
      have hopen : ∀ rest, Scans ['\x7b'] [.openObject] rest := fun _ => scans_token (by decide) rfl
      have hclosed : Text.Stops Char.isAlpha ((renderMembers layout (depth + 1) members ++
          (layout.lineBreak depth ++ ['\x7d'])) ++ rest) := by
        rw [List.append_assoc]
        exact stops_renderMembers _ _ _ hclose
      have hvalue := scans_render layout (depth + 1) value h.1.2 _ hclosed
      have hmembers := scans_renderMembers layout (depth + 1) members h.2 _ hclose
      have hend : Scans (layout.lineBreak depth ++ ['\x7d']) [.closeObject] rest :=
        (scans_lineBreak layout depth _).append (scans_token (by decide) rfl)
      have hall := (hopen _).append ((scans_lineBreak layout (depth + 1) _).append
        ((scans_key h.1.1 _).append ((scans_colon layout _).append (hvalue.append
          (hmembers.append hend)))))
      simpa [Json.render, Json.tokens] using hall

/-- The text of further items is scanned as their tokens. -/
theorem scans_renderItems (layout : Layout) (depth : Nat) : (items : List Json) →
    itemsTextual items = true → (rest : List Char) → Text.Stops Char.isAlpha rest →
      Scans (renderItems layout depth items) (tokensOfItems items) rest
  | [], _, rest, _ => scans_nil rest
  | item :: items, h, rest, hrest => by
      simp only [itemsTextual, Bool.and_eq_true] at h
      have hcomma : ∀ rest, Scans [','] [.comma] rest := fun _ => scans_token (by decide) rfl
      have hitem := scans_render layout depth item h.1 _
        (stops_renderItems layout depth items hrest)
      have hall := (hcomma _).append ((scans_lineBreak layout depth _).append
        (hitem.append (scans_renderItems layout depth items h.2 rest hrest)))
      simpa [renderItems, tokensOfItems] using hall

/-- The text of further members is scanned as their tokens. -/
theorem scans_renderMembers (layout : Layout) (depth : Nat) :
    (members : List (QuotedText × Json)) → membersTextual members = true → (rest : List Char) →
      Text.Stops Char.isAlpha rest →
        Scans (renderMembers layout depth members) (tokensOfMembers members) rest
  | [], _, rest, _ => scans_nil rest
  | (key, value) :: members, h, rest, hrest => by
      simp only [membersTextual, Bool.and_eq_true] at h
      have hcomma : ∀ rest, Scans [','] [.comma] rest := fun _ => scans_token (by decide) rfl
      have hvalue := scans_render layout depth value h.1.2 _
        (stops_renderMembers layout depth members hrest)
      have hall := (hcomma _).append ((scans_lineBreak layout depth _).append
        ((scans_key h.1.1 _).append ((scans_colon layout _).append
          (hvalue.append (scans_renderMembers layout depth members h.2 rest hrest)))))
      simpa [renderMembers, tokensOfMembers] using hall

end

/-- The text of a value is scanned as the tokens of the value. -/
theorem scan?_toText (layout : Layout) {value : Json} (h : value.isTextual = true) :
    Token.scan? (value.toText layout) = some value.tokens := by
  obtain ⟨rounds, hrounds, hscan⟩ := scans_render layout 0 value h [] Text.stops_nil
  obtain ⟨fuel, hfuel⟩ := Nat.exists_eq_add_of_le hrounds
  have hall := hscan [] fuel
  rw [List.append_nil, List.append_nil] at hall
  rw [Token.scan?, Json.toText, hfuel, hall]
  cases fuel <;> simp [scanLoop]

end SchemaReader
