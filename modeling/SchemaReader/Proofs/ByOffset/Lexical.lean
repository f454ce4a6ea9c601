/-
Lexical readings by byte offsets.

* `stripComments`: the removal of comments, which looks ahead from the offset of a character;
* `findMatching`, `bracketBody`: the partner of the bracket at an offset, found by a counter of open
  brackets, and the slice between the two;
* `splitTopLevel`, `identifierList`: the slices between separators, found with a depth that may fall
  below zero, and the slice without the outer brackets;
* `stripComments_eq`, `findMatching_eq`, `bracketBody_eq`: nothing goes wrong in them, whatever the
  text and the offset, and they read what their namesakes read;
* `splitTopLevel_goesWell`, `identifierList_goesWell`: nothing goes wrong in these either, unless
  the depth leaves its 32 bits, with `piecesLoop_closings`: so it does where that many brackets are
  closed;
* `brackets_stripComments_le`, `brackets_enclosed?_le`, `brackets_le_of_mem_splitTopLevel`: what
  they read has no more brackets than the text.
-/
import SchemaReader.Lexical.Comments
import SchemaReader.Lexical.Identifier
import SchemaReader.Proofs.ByOffset.Basic
import SchemaReader.Proofs.Lexical.TopLevel

namespace SchemaReader.ByOffset

variable {dialect : Dialect} {depth : Nat} {literal : Literal} {text whole before u v w : List Char}
  {offset start n : Nat} {c separator : Char} {mode : CommentMode}

/-! ### Comments -/

/-- Reads a character of the text proper.  Whether a comment opens shows in the text from the
character's offset on. -/
def stripText (dialect : Dialect) (whole : List Char) (literal : Literal)
    (offset : Nat) (c : Char) :
    Checked (CommentMode × List Char) :=
  if literal.covers c then pure (.text (literal.step dialect c), [c])
  else do
    let ahead ← sliceFrom whole offset
    if dialect.lineComment.isPrefixOf ahead then pure (.line, [])
    else if dialect.blockComment && ['/', '*'].isPrefixOf ahead then pure (.blockSign, [])
    else pure (.text .outside, [c])

/-- Reads a character. -/
def stripStep (dialect : Dialect) (whole : List Char) (offset : Nat) (c : Char) :
    CommentMode → Checked (CommentMode × List Char)
  | .text literal => stripText dialect whole literal offset c
  | .line => if c == '\n' then stripText dialect whole .outside offset c else pure (.line, [])
  | .blockSign => pure (.block false, [])
  | .block star =>
    if star && c == '/' then pure (.text .outside, [' '])
    else pure (.block (c == '*'), if c == '\n' then ['\n'] else [])

/-- The loop of `stripComments`. -/
def stripLoop (dialect : Dialect) (whole : List Char) (mode : CommentMode) (offset : Nat)
    (out : List Char) : List Char → Checked (List Char)
  | [] => pure (out.reverseAux mode.atEnd)
  | c :: rest => do
    let next ← stripStep dialect whole offset c mode
    stripLoop dialect whole next.1 (offset + c.utf8Size) (next.2.reverseAux out) rest

/-- A text without its comments. -/
def stripComments (dialect : Dialect) (text : List Char) : Checked (List Char) :=
  stripLoop dialect text (.text .outside) 0 [] text

lemma stripText_eq (hwhole : whole = before ++ c :: text) :
    stripText dialect whole literal (Text.byteLength before) c
      = .ok (CommentMode.ofText dialect literal c text) := by
  rw [stripText, CommentMode.ofText, hwhole, sliceFrom_append]
  split
  · rfl
  · rw [ok_bind]
    split
    · rfl
    · split <;> rfl

lemma stripStep_eq (hwhole : whole = before ++ c :: text) (mode : CommentMode) :
    stripStep dialect whole (Text.byteLength before) c mode = .ok (mode.step dialect c text) := by
  cases mode with
  | text literal => exact stripText_eq hwhole
  | line =>
      rw [stripStep, CommentMode.step, stripText_eq hwhole]
      split <;> rfl
  | blockSign => rfl
  | block star =>
      rw [stripStep, CommentMode.step]
      split <;> rfl

lemma stripLoop_eq (hwhole : whole = before ++ text) (mode : CommentMode) (out : List Char) :
    stripLoop dialect whole mode (Text.byteLength before) out text
      = .ok (stripCommentsLoop dialect mode out text) := by
  induction text generalizing before mode out with
  | nil => rfl
  | cons c text ih =>
      have hnext : whole = (before ++ [c]) ++ text := by rw [hwhole, List.append_cons]
      rw [stripLoop, stripStep_eq hwhole, ok_bind, ← Text.byteLength_concat, ih hnext]
      rfl

/-- Nothing goes wrong in the removal of comments. -/
theorem stripComments_eq (dialect : Dialect) (text : List Char) :
    stripComments dialect text = .ok (SchemaReader.stripComments dialect text) := by
  have hwhole : text = [] ++ text := rfl
  exact stripLoop_eq hwhole _ _

/-- A step gains no brackets but the character that is read. -/
lemma brackets_step_le (mode : CommentMode) (c : Char) (rest : List Char) :
    brackets (mode.step dialect c rest).2 ≤ brackets [c] := by
  have htext : ∀ literal, brackets (CommentMode.ofText dialect literal c rest).2
      ≤ brackets [c] := by
    intro literal
    rw [CommentMode.ofText]
    split_ifs <;> simp [brackets]
  cases mode with
  | text literal => exact htext literal
  | line =>
      rw [CommentMode.step]
      split_ifs
      · exact htext .outside
      · simp [brackets]
  | blockSign => simp [CommentMode.step, brackets]
  | block star =>
      rw [CommentMode.step]
      split_ifs <;> simp [brackets, isOpening, isClosing]

lemma brackets_run_le (mode : CommentMode) (text : List Char) :
    brackets (mode.run dialect text).2 ≤ brackets text := by
  induction text generalizing mode with
  | nil => simp [CommentMode.run]
  | cons c text ih =>
      have hstep : brackets (mode.step dialect c text).2 ≤ brackets [c] :=
        brackets_step_le mode c text
      have hrest := ih (mode.step dialect c text).1
      have hsplit : brackets (c :: text) = brackets [c] + brackets text := brackets_append [c] text
      rw [CommentMode.run, brackets_append, hsplit]
      exact Nat.add_le_add hstep hrest

/-- The removal of comments adds no brackets. -/
theorem brackets_stripComments_le (dialect : Dialect) (text : List Char) :
    brackets (SchemaReader.stripComments dialect text) ≤ brackets text := by
  have hend : ∀ mode : CommentMode, brackets mode.atEnd = 0 := by rintro (_ | _ | _ | _) <;> rfl
  rw [stripComments_eq_run, brackets_append, hend, Nat.add_zero]
  exact brackets_run_le _ _

/-! ### Brackets and their partners -/

/-- Whether a byte is an opening bracket. -/
def isOpeningByte (b : UInt8) : Bool := b == 0x28 || b == 0x5B || b == 0x7B

/-- The loop of `findMatching`: `depth` brackets are open.  A closing bracket takes one from the
counter, which has no negative values. -/
def matchingLoop (dialect : Dialect) (depth : Nat) (literal : Literal) (offset : Nat) :
    List Char → Checked (Option Nat)
  | [] => pure none
  | c :: rest =>
    if literal.covers c then
      matchingLoop dialect depth (literal.step dialect c) (offset + c.utf8Size) rest
    else if isOpening c then
      matchingLoop dialect (depth + 1) .outside (offset + c.utf8Size) rest
    else if isClosing c then do
      let left ← decrement depth
      if left = 0 then pure (some offset)
      else matchingLoop dialect left .outside (offset + c.utf8Size) rest
    else matchingLoop dialect depth .outside (offset + c.utf8Size) rest

/-- The byte offset of the partner of the opening bracket at a byte offset. -/
def findMatching (dialect : Dialect) (text : List Char) (offset : Nat) : Checked (Option Nat) :=
  if (Text.byteAt? text offset).any isOpeningByte then do
    let rest ← sliceFrom text offset
    matchingLoop dialect 0 .outside offset rest
  else pure none

/-- What stands between the opening bracket at a byte offset and its partner. -/
def bracketBody (dialect : Dialect) (text : List Char) (offset : Nat) :
    Checked (Option (List Char)) := do
  let some close ← findMatching dialect text offset | pure none
  let body ← slice text (offset + 1) close
  return some body

lemma toNat_of_isOpeningByte {b : UInt8} (hb : isOpeningByte b = true) :
    b.toNat = '('.toNat ∨ b.toNat = '['.toNat ∨ b.toNat = '\x7b'.toNat := by
  simp only [isOpeningByte, Bool.or_eq_true, beq_iff_eq] at hb
  obtain (rfl | rfl) | rfl := hb
  · exact Or.inl rfl
  · exact Or.inr (Or.inl rfl)
  · exact Or.inr (Or.inr rfl)

/-- An opening bracket is one byte long. -/
lemma utf8EncodeChar_of_isOpening (hc : isOpening c = true) :
    String.utf8EncodeChar c = [c.toUInt8] ∧ isOpeningByte c.toUInt8 = true := by
  simp only [isOpening, Bool.or_eq_true, beq_iff_eq] at hc
  obtain (rfl | rfl) | rfl := hc <;> exact ⟨rfl, rfl⟩

/-- The byte of an opening bracket is the bracket itself, never a piece of another character. -/
lemma any_isOpeningByte_iff : (Text.byteAt? text offset).any isOpeningByte = true ↔
    ∃ c rest, Text.dropBytes? offset text = some (c :: rest) ∧ isOpening c = true := by
  constructor
  · intro h
    obtain ⟨b, hb, hopening⟩ : ∃ b, Text.byteAt? text offset = some b ∧ isOpeningByte b = true := by
      cases hbyte : Text.byteAt? text offset with
      | none => simp [hbyte] at h
      | some b => exact ⟨b, rfl, by simpa [hbyte] using h⟩
    have hvalue := toNat_of_isOpeningByte hopening
    have hsmall : b.toNat < 128 := by
      obtain hb | hb | hb := hvalue <;> rw [hb] <;> decide
    obtain ⟨c, rest, hdrop, hc⟩ := Text.exists_of_byteAt? hb hsmall
    refine ⟨c, rest, hdrop, ?_⟩
    rw [← hc] at hvalue
    obtain hc | hc | hc := hvalue <;> obtain rfl := Char.toNat_inj.mp hc <;> rfl
  · rintro ⟨c, rest, hdrop, hc⟩
    obtain ⟨u, rfl, rfl⟩ := Text.dropBytes?_eq_some_iff.mp hdrop
    obtain ⟨hb, hopening⟩ := utf8EncodeChar_of_isOpening hc
    rw [Text.byteAt?_append, hb]
    exact hopening

/-- The partner of a bracket is found where the text up to it ends.  The counter is one more than
the number of brackets open inside the one whose partner is sought, so it is never zero. -/
lemma matchingLoop_eq (depth : Nat) (literal : Literal) (body : List Char) (offset : Nat)
    (text : List Char) :
    matchingLoop dialect (depth + 1) literal (offset + Text.byteLength body) text
      = .ok ((enclosedLoop dialect depth literal body text).map fun inner =>
          offset + Text.byteLength inner.1) := by
  induction text generalizing depth literal body with
  | nil => rfl
  | cons c text ih =>
      have hnext : offset + Text.byteLength body + c.utf8Size
          = offset + Text.byteLength (c :: body) := by
        rw [Text.byteLength_cons]
        omega
      rw [matchingLoop]
      simp only [enclosedLoop]
      split
      · rw [hnext, ih]
      · split
        · rw [hnext, ih]
        · split
          · rw [decrement, ok_bind]
            cases depth with
            | zero => simp [Text.byteLength_reverse]
            | succ depth => rw [if_neg (Nat.succ_ne_zero depth), hnext, ih]
          · rw [hnext, ih]

/-- Nothing goes wrong in the search for a partner. -/
theorem findMatching_eq (dialect : Dialect) (text : List Char) (offset : Nat) :
    findMatching dialect text offset = .ok (findMatching? dialect text offset) := by
  rw [findMatching, findMatching?, bracketBodyAt?]
  split
  · next hany =>
      obtain ⟨c, rest, hdrop, hc⟩ := any_isOpeningByte_iff.mp hany
      have hloop : matchingLoop dialect 1 .outside (offset + 1) rest = _ :=
        matchingLoop_eq 0 .outside [] (offset + 1) rest
      rw [sliceFrom, hdrop, Option.elim_some, ok_bind, matchingLoop, Literal.covers,
        not_isQuote_of_isOpening hc, if_neg Bool.false_ne_true, if_pos hc,
        utf8Size_of_isOpening hc]
      simpa [bracketBody?, hc, enclosed?, Function.comp_def] using hloop
  · next hany =>
      cases hdrop : Text.dropBytes? offset text with
      | none => rfl
      | some rest =>
          cases rest with
          | nil => rfl
          | cons c rest =>
              have hc : isOpening c = false := by
                by_contra hc
                exact hany (any_isOpeningByte_iff.mpr ⟨c, rest, hdrop, by simpa using hc⟩)
              simp [bracketBody?, hc]

/-- Nothing goes wrong in reading what stands between a bracket and its partner. -/
theorem bracketBody_eq (dialect : Dialect) (text : List Char) (offset : Nat) :
    bracketBody dialect text offset = .ok (bracketBodyAt? dialect text offset) := by
  rw [bracketBody, findMatching_eq, ok_bind, findMatching?]
  cases hbody : bracketBodyAt? dialect text offset with
  | none => rfl
  | some body =>
      obtain ⟨rest, hdrop, hrest⟩ := Option.bind_eq_some_iff.mp hbody
      obtain ⟨u, rfl, rfl⟩ := Text.dropBytes?_eq_some_iff.mp hdrop
      cases rest with
      | nil => simp [bracketBody?] at hrest
      | cons c rest =>
          rw [bracketBody?] at hrest
          split at hrest
          · next hc =>
              obtain ⟨inner, hinner, rfl⟩ := Option.map_eq_some_iff.mp hrest
              obtain ⟨v, d, rfl, -, hv, -⟩ := exists_of_enclosedLoop hinner
              have hslice := slice_append (u ++ [c]) v (d :: inner.2)
              rw [← List.append_cons, Text.byteLength_concat, utf8Size_of_isOpening hc] at hslice
              rw [hv, List.reverse_nil, List.nil_append]
              simp [hslice]
          · simp at hrest

/-- What stands in a pair of brackets, and what stands behind it, are pieces of the text. -/
lemma brackets_enclosed?_le {inner : List Char × List Char}
    (h : enclosed? dialect text = some inner)
    (hn : brackets text ≤ n) : brackets inner.1 ≤ n ∧ brackets inner.2 ≤ n := by
  obtain ⟨v, d, rfl, -, hv, -⟩ := exists_of_enclosedLoop h
  rw [List.reverse_nil, List.nil_append] at hv
  rw [hv]
  have hbehind : inner.2.Sublist (v ++ d :: inner.2) :=
    (List.sublist_cons_self d inner.2).trans (List.sublist_append_right v _)
  exact ⟨brackets_le (List.sublist_append_left v _) hn, brackets_le hbehind hn⟩

lemma brackets_bracketBody?_le {body : List Char} (h : bracketBody? dialect text = some body)
    (hn : brackets text ≤ n) : brackets body ≤ n := by
  cases text with
  | nil => simp [bracketBody?] at h
  | cons c rest =>
      rw [bracketBody?] at h
      split at h
      · obtain ⟨inner, hinner, rfl⟩ := Option.map_eq_some_iff.mp h
        exact (brackets_enclosed?_le hinner (brackets_le (List.sublist_cons_self c rest) hn)).1
      · simp at h

/-! ### Pieces between separators -/

/-- The loop of `topLevelPieces`: the current piece began at the offset `start`.  The depth of
brackets falls below zero where more are closed than were opened. -/
def piecesLoop (dialect : Dialect) (separator : Char) (whole : List Char) (depth : Int)
    (literal : Literal) (start offset : Nat) : List Char → Checked (List (List Char))
  | [] => do
    let last ← sliceFrom whole start
    return [last]
  | c :: rest =>
    if literal.covers c then
      piecesLoop dialect separator whole depth (literal.step dialect c) start
        (offset + c.utf8Size) rest
    else if isOpening c then do
      let deeper ← counted (depth + 1)
      piecesLoop dialect separator whole deeper .outside start (offset + c.utf8Size) rest
    else if isClosing c then do
      let higher ← counted (depth - 1)
      piecesLoop dialect separator whole higher .outside start (offset + c.utf8Size) rest
    else if c == separator && depth == 0 then do
      let piece ← slice whole start offset
      let others ← piecesLoop dialect separator whole depth .outside (offset + c.utf8Size)
        (offset + c.utf8Size) rest
      return piece :: others
    else piecesLoop dialect separator whole depth .outside start (offset + c.utf8Size) rest

/-- The pieces of a text between separators at the top level, trimmed, the empty ones left out. -/
def splitTopLevel (dialect : Dialect) (separator : Char) (text : List Char) :
    Checked (List (List Char)) := do
  let pieces ← piecesLoop dialect separator text 0 .outside 0 0 text
  return (pieces.map Text.trim).filter fun piece => !piece.isEmpty

lemma slice_piece {piece : List Char} (hwhole : whole = u ++ (piece.reverse ++ text)) :
    slice whole (Text.byteLength u) (Text.byteLength u + Text.byteLength piece)
      = .ok piece.reverse := by
  rw [hwhole, ← Text.byteLength_reverse piece, slice_append]

/-- The current piece at its offset.  The depth and the brackets that are still to be read are at
most `n` together. -/
lemma piecesLoop_goesWell {depth : Int} {piece : List Char}
    (hwhole : whole = u ++ (piece.reverse ++ text)) (hroom : depth.natAbs + brackets text ≤ n) :
    GoesWell n (piecesLoop dialect separator whole depth literal (Text.byteLength u)
        (Text.byteLength u + Text.byteLength piece) text)
      (topLevelPiecesLoop dialect separator depth literal [] piece text) := by
  induction text generalizing depth literal u piece with
  | nil =>
      rw [List.append_nil] at hwhole
      rw [piecesLoop, hwhole, sliceFrom_append, topLevelPiecesLoop]
      exact .ok
  | cons c text ih =>
      have hsame : whole = u ++ ((c :: piece).reverse ++ text) := by simp [hwhole]
      have hnext : Text.byteLength u + Text.byteLength piece + c.utf8Size
          = Text.byteLength u + Text.byteLength (c :: piece) := by
        rw [Text.byteLength_cons]
        omega
      have hrest : brackets text ≤ brackets (c :: text) := (List.sublist_cons_self c text).countP_le
      have hbracket : (isOpening c || isClosing c) = true →
          brackets (c :: text) = brackets text + 1 := fun h => List.countP_cons_of_pos h
      simp only [piecesLoop, topLevelPiecesLoop]
      split
      · rw [hnext]
        exact ih hsame (by omega)
      · split
        · next hopening =>
            have hone := hbracket (by simp [hopening])
            rw [hnext]
            exact (counted_goesWell (by omega)).bind (ih hsame (by omega))
        · split
          · next hclosing =>
              have hone := hbracket (by simp [hclosing])
              rw [hnext]
              exact (counted_goesWell (by omega)).bind (ih hsame (by omega))
          · split
            · -- the piece ends here, and the next one begins behind the separator
              have hbegin : Text.byteLength u + Text.byteLength piece + c.utf8Size
                  = Text.byteLength (u ++ (piece.reverse ++ [c])) := by
                rw [← List.append_assoc, Text.byteLength_concat, Text.byteLength_append,
                  Text.byteLength_reverse]
              have hbehind : whole
                  = (u ++ (piece.reverse ++ [c])) ++ (([] : List Char).reverse ++ text) := by
                simp [hwhole]
              have hothers : GoesWell n (piecesLoop dialect separator whole depth .outside
                  (Text.byteLength (u ++ (piece.reverse ++ [c])))
                  (Text.byteLength (u ++ (piece.reverse ++ [c]))) text)
                    (topLevelPiecesLoop dialect separator depth .outside [] [] text) :=
                ih hbehind (by omega)
              rw [slice_piece hwhole, ok_bind, hbegin,
                topLevelPiecesLoop_done depth .outside [piece.reverse]]
              exact hothers.bind .ok
            · rw [hnext]
              exact ih hsame (by omega)

/-- Nothing but the depth goes wrong in the split at separators. -/
theorem splitTopLevel_goesWell (h : brackets text ≤ n) :
    GoesWell n (splitTopLevel dialect separator text)
      (SchemaReader.splitTopLevel dialect separator text) := by
  have hwhole : text = [] ++ (([] : List Char).reverse ++ text) := rfl
  have hroom : (0 : Int).natAbs + brackets text ≤ n := by simpa using h
  have hloop : GoesWell n (piecesLoop dialect separator text 0 .outside 0 0 text)
      (topLevelPieces dialect separator text) := piecesLoop_goesWell hwhole hroom
  exact hloop.bind .ok

/-- The pieces between commas are pieces of the text. -/
lemma brackets_le_of_mem_splitTopLevel {piece : List Char}
    (h : piece ∈ SchemaReader.splitTopLevel dialect ',' text) (hn : brackets text ≤ n) :
    brackets piece ≤ n := by
  obtain ⟨untrimmed, hmem, rfl⟩ := List.mem_map.mp (List.mem_of_mem_filter h)
  have hcomma : isPlain ',' = true := by decide
  have hsublist : untrimmed.Sublist text :=
    joinWith_topLevelPieces hcomma text ▸ Text.sublist_joinWith hmem
  exact brackets_le ((Text.trim_sublist _).trans hsublist) hn

/-- The depth leaves its 32 bits where more brackets are closed than it has room for below zero. -/
lemma piecesLoop_closings {depth : Int} {count : Nat} (hdepth : -2 ^ 31 ≤ depth ∧ depth ≤ 0)
    (hcount : depth - count < -2 ^ 31) :
    piecesLoop dialect separator whole depth .outside start offset (List.replicate count ']')
      = .error .depth := by
  induction count generalizing depth offset with
  | zero => omega
  | succ count ih =>
      have hsign : isOpening ']' = false ∧ isClosing ']' = true := by decide
      have hcovers : Literal.outside.covers ']' = false := rfl
      simp only [List.replicate_succ, piecesLoop, hcovers, hsign.1, hsign.2, Bool.false_eq_true,
        if_false, if_true]
      by_cases hroom : -2 ^ 31 ≤ depth - 1
      · rw [counted_eq (by omega), ok_bind]
        exact ih (by omega) (by omega)
      · rw [counted_eq_error (by omega)]
        rfl

/-! ### Lists of identifiers -/

/-- A trimmed text without the square brackets or parentheses around it. -/
def withoutOuterBrackets (text : List Char) : Checked (List Char) :=
  if (text.head? == some '[' && text.getLast? == some ']'
      || text.head? == some '(' && text.getLast? == some ')')
      && decide (2 ≤ Text.byteLength text) then do
    let last ← decrement (Text.byteLength text)
    slice text 1 last
  else pure text

/-- The bare names of the entries of a list separated by commas. -/
def identifierList (dialect : Dialect) (text : List Char) : Checked (List (List Char)) := do
  let inner ← withoutOuterBrackets (Text.trim text)
  let entries ← splitTopLevel dialect ',' inner
  return (entries.map leadingIdentifier).filter fun name => !name.isEmpty

/-- The slice between the first and the last character, if each has one byte. -/
lemma slice_inside {o : Char} (body : List Char) (ho : o.utf8Size = 1) (hc : c.utf8Size = 1) :
    (decrement (Text.byteLength (o :: (body ++ [c]))) >>= slice (o :: (body ++ [c])) 1)
      = .ok body := by
  have hfirst : Text.byteLength [o] = 1 := by simp [Text.byteLength_cons, ho]
  have hlast : Text.byteLength (o :: (body ++ [c])) = 1 + Text.byteLength body + 1 := by
    simp [Text.byteLength_cons, Text.byteLength_append, ho, hc]
    omega
  have hbody := slice_append [o] body [c]
  rw [hfirst] at hbody
  rw [hlast, decrement, ok_bind]
  exact hbody

lemma withoutOuterBrackets_eq (text : List Char) :
    withoutOuterBrackets text = .ok (SchemaReader.withoutOuterBrackets text) := by
  cases text with
  | nil => rfl
  | cons o rest =>
      obtain rfl | ⟨body, c, rfl⟩ := rest.eq_nil_or_concat'
      · by_cases hsquare : o = '['
        · rw [hsquare]
          rfl
        · by_cases hround : o = '('
          · rw [hround]
            rfl
          · simp [withoutOuterBrackets, SchemaReader.withoutOuterBrackets, hsquare, hround]
      · have hlong : 2 ≤ Text.byteLength (o :: (body ++ [c])) := by
          have ho := o.utf8Size_pos
          have hc := c.utf8Size_pos
          rw [Text.byteLength_cons, Text.byteLength_append, Text.byteLength_cons]
          omega
        have hend : (o :: (body ++ [c])).getLast? = some c := by
          rw [← List.cons_append, List.getLast?_concat]
        by_cases hsquare : o = '['
        · subst hsquare
          by_cases hc : c = ']'
          · subst hc
            simpa [withoutOuterBrackets, SchemaReader.withoutOuterBrackets, hend, hlong]
              using slice_inside body (by decide) (by decide)
          · simp [withoutOuterBrackets, SchemaReader.withoutOuterBrackets, hend, hc]
        · by_cases hround : o = '('
          · subst hround
            by_cases hc : c = ')'
            · subst hc
              simpa [withoutOuterBrackets, SchemaReader.withoutOuterBrackets, hend, hlong]
                using slice_inside body (by decide) (by decide)
            · simp [withoutOuterBrackets, SchemaReader.withoutOuterBrackets, hend, hc]
          · simp [withoutOuterBrackets, SchemaReader.withoutOuterBrackets, hsquare, hround]

/-- What stands in the outer brackets is a piece of the text. -/
lemma withoutOuterBrackets_sublist (text : List Char) :
    (SchemaReader.withoutOuterBrackets text).Sublist text := by
  have hinside : ∀ (c : Char) rest, (List.dropLast rest).Sublist (c :: rest) := fun c rest =>
    (List.dropLast_sublist rest).trans (List.sublist_cons_self c rest)
  unfold SchemaReader.withoutOuterBrackets
  split
  · split
    · exact hinside _ _
    · exact List.Sublist.refl _
  · split
    · exact hinside _ _
    · exact List.Sublist.refl _
  · exact List.Sublist.refl _

/-- Nothing but the depth goes wrong in reading a list of identifiers. -/
theorem identifierList_goesWell (h : brackets text ≤ n) :
    GoesWell n (identifierList dialect text) (SchemaReader.identifierList dialect text) := by
  have hinner : brackets (SchemaReader.withoutOuterBrackets (Text.trim text)) ≤ n :=
    brackets_le ((withoutOuterBrackets_sublist _).trans (Text.trim_sublist text)) h
  rw [identifierList, withoutOuterBrackets_eq, ok_bind]
  exact (splitTopLevel_goesWell hinner).bind .ok

end SchemaReader.ByOffset
