/-
Patterns that stand for one name, or for the names with one ending.

* `IsGlobSign`: the characters that mean something in a pattern;
* `globTokens_escapeGlob`, `matchesGlob_escapeToken`: an escaped name is a pattern, and the only
  name that it fits is the one that was escaped;
* `globTokens_ending`, `matchesGlob_ending`: the same with an asterisk and a plain ending behind it,
  which fits the names with that ending;
* `GlobPattern.ofText_suffixPattern`: the pattern that is searched for in a directory.
-/
import SchemaReader.Detection
import SchemaReader.Proofs.FileTree.Places
import SchemaReader.Proofs.Text.Segments

namespace SchemaReader

/-- A character that means something in a pattern. -/
def IsGlobSign (c : Char) : Prop := c ∈ ['?', '*', '[', ']']

instance (c : Char) : Decidable (IsGlobSign c) :=
  inferInstanceAs (Decidable (c ∈ ['?', '*', '[', ']']))

/-- The sign that stands for one character once it is escaped. -/
def escapeToken (c : Char) : GlobToken := if IsGlobSign c then .oneOf true [.single c] else .char c

/-- One character as it is escaped. -/
def escapeChar (c : Char) : List Char := if IsGlobSign c then ['[', c, ']'] else [c]

variable {c : Char} {name other text rest suffix : List Char} {tokens : List GlobToken}

lemma escapeGlob_eq (name : List Char) : escapeGlob name = name.flatMap escapeChar := by
  rw [escapeGlob]
  congr 1
  funext c
  simp [escapeChar, IsGlobSign]

/-! ### Reading -/

/-- A text is read as signs, whatever has been read before it and whatever follows. -/
def ReadsAs (text : List Char) (tokens : List GlobToken) : Prop :=
  ∀ before afterSlash position fuel rest, (text ++ rest).length ≤ fuel →
    ∃ afterSlash' position' fuel', rest.length ≤ fuel' ∧
      globLoop before afterSlash position fuel (text ++ rest)
        = globLoop (tokens.reverse ++ before) afterSlash' position' fuel' rest

lemma ReadsAs.nil : ReadsAs [] [] := fun _ afterSlash position fuel _ hfuel =>
  ⟨afterSlash, position, fuel, hfuel, rfl⟩

lemma ReadsAs.append {tokens' : List GlobToken} (h : ReadsAs text tokens)
    (h' : ReadsAs other tokens') : ReadsAs (text ++ other) (tokens ++ tokens') := by
  intro before afterSlash position fuel rest hfuel
  rw [List.append_assoc] at hfuel ⊢
  obtain ⟨afterSlash, position, fuel, hfuel, heq⟩ := h before afterSlash position fuel _ hfuel
  obtain ⟨afterSlash, position, fuel, hfuel, heq'⟩ :=
    h' (tokens.reverse ++ before) afterSlash position fuel _ hfuel
  refine ⟨afterSlash, position, fuel, hfuel, ?_⟩
  rw [heq, heq', List.reverse_append, List.append_assoc]

lemma readClass?_single (hc : IsGlobSign c) (rest : List Char) :
    readClass? (c :: ']' :: rest) = some (.oneOf true [.single c], rest) := by
  simp only [IsGlobSign, List.mem_cons, List.not_mem_nil, or_false] at hc
  rcases hc with rfl | rfl | rfl | rfl <;> rfl

/-- One character, escaped, is read as the sign for it. -/
lemma readsAs_escapeChar (c : Char) : ReadsAs (escapeChar c) [escapeToken c] := by
  intro before afterSlash position fuel rest hfuel
  by_cases hc : IsGlobSign c
  · simp only [escapeChar, escapeToken, hc, if_true] at hfuel ⊢
    obtain _ | fuel := fuel
    · simp at hfuel
    refine ⟨false, position + 1 + ((c :: ']' :: rest).length - rest.length), fuel,
      by simp at hfuel; omega, ?_⟩
    rw [List.cons_append, List.cons_append, List.cons_append, List.nil_append, globLoop,
      readClass?_single hc]
    rfl
  · simp only [escapeChar, escapeToken, hc, if_false] at hfuel ⊢
    obtain _ | fuel := fuel
    · simp at hfuel
    refine ⟨c == '/', position + 1, fuel, by simpa using hfuel, ?_⟩
    simp only [IsGlobSign, List.mem_cons, List.not_mem_nil, or_false, not_or] at hc
    rw [List.singleton_append, globLoop] <;> simp_all

lemma readsAs_escapeGlob (name : List Char) : ReadsAs (escapeGlob name) (name.map escapeToken) := by
  rw [escapeGlob_eq]
  induction name with
  | nil => exact ReadsAs.nil
  | cons c name ih => exact (readsAs_escapeChar c).append ih

lemma escapeGlob_of_plain (h : ∀ c ∈ name, ¬ IsGlobSign c) : escapeGlob name = name := by
  rw [escapeGlob_eq]
  induction name with
  | nil => rfl
  | cons c name ih =>
      rw [List.forall_mem_cons] at h
      rw [List.flatMap_cons, ih h.2, escapeChar, if_neg h.1]
      rfl

/-- An asterisk that no other one follows stands for any characters. -/
lemma readsAs_asterisk (h : ∀ c ∈ suffix, ¬ IsGlobSign c) :
    ∀ before afterSlash position fuel, suffix.length + 1 ≤ fuel →
      globLoop before afterSlash position fuel ('*' :: suffix)
        = .ok (before.reverse ++ .anyChars :: suffix.map escapeToken) := by
  intro before afterSlash position fuel hfuel
  obtain _ | fuel := fuel
  · omega
  have hstep : globLoop before afterSlash position (fuel + 1) ('*' :: suffix)
      = globLoop (.anyChars :: before) false (position + 1) fuel suffix := by
    cases suffix with
    | nil => simp [globLoop]
    | cons c suffix =>
        have hc : c ≠ '*' := by
          rintro rfl
          exact h '*' List.mem_cons_self (by decide)
        rw [globLoop] <;> simp_all
  have hread : ReadsAs suffix (suffix.map escapeToken) := by
    simpa only [escapeGlob_of_plain h] using readsAs_escapeGlob suffix
  obtain ⟨_, _, _, -, heq⟩ := hread (.anyChars :: before) false (position + 1) fuel []
    (by simp; omega)
  rw [List.append_nil] at heq
  rw [hstep, heq, globLoop]
  simp

/-- An escaped name is a pattern. -/
theorem globTokens_escapeGlob (name : List Char) :
    globTokens (escapeGlob name) = .ok (name.map escapeToken) := by
  obtain ⟨_, _, _, -, heq⟩ :=
    readsAs_escapeGlob name [] true 0 (escapeGlob name).length [] (by simp)
  rw [List.append_nil] at heq
  rw [globTokens, heq, globLoop]
  simp

/-- An escaped text with an asterisk and a plain ending behind it is a pattern. -/
theorem globTokens_ending (name : List Char) (h : ∀ c ∈ suffix, ¬ IsGlobSign c) :
    globTokens (escapeGlob name ++ '*' :: suffix)
      = .ok (name.map escapeToken ++ .anyChars :: suffix.map escapeToken) := by
  obtain ⟨afterSlash, position, fuel, hfuel, heq⟩ := readsAs_escapeGlob name [] true 0
    (escapeGlob name ++ '*' :: suffix).length ('*' :: suffix) (Nat.le_refl _)
  rw [globTokens, heq, readsAs_asterisk h _ _ _ _ (by simpa using hfuel)]
  simp

/-! ### Fitting -/

/-- An escaped name fits itself alone. -/
theorem matchesGlob_escapeToken (name other : List Char) :
    matchesGlob (name.map escapeToken) other = true ↔ other = name := by
  induction name generalizing other with
  | nil => simp [matchesGlob]
  | cons c name ih =>
      have hhead : ∀ tokens, matchesGlob (escapeToken c :: tokens) [] = false := fun tokens => by
        rw [escapeToken]; split <;> rfl
      have hcons : ∀ d rest tokens, matchesGlob (escapeToken c :: tokens) (d :: rest)
          = (d == c && matchesGlob tokens rest) := fun d rest tokens => by
        rw [escapeToken]
        split <;> simp [matchesGlob, ClassMember.covers]
      cases other with
      | nil => simp [hhead]
      | cons d other => rw [List.map_cons, hcons]; simp [ih]

lemma anySuffix_iff {test : List Char → Bool} :
    anySuffix test name = true ↔ ∃ ending, ending <:+ name ∧ test ending := by
  induction name with
  | nil => simp [anySuffix]
  | cons c name ih =>
      simp [anySuffix, ih, List.suffix_cons_iff, or_and_right, exists_or]

/-- An asterisk and an ending fit the names with the ending. -/
theorem matchesGlob_ending (suffix name : List Char) :
    matchesGlob (.anyChars :: suffix.map escapeToken) name = true ↔ suffix <:+ name := by
  simp [matchesGlob, anySuffix_iff, matchesGlob_escapeToken]

/-! ### The pattern of a directory -/

/-- What a pattern says about a part that was escaped. -/
def partPattern (part : List Char) : GlobPart := .ofTokens (part.map escapeToken)

/-- The parts of a path behind the slash at its start. -/
def relativeParts (path : List Char) : List (List Char) :=
  pathParts (if isAbsolute path then path.drop 1 else path)

lemma pathParts_escapeGlob (path : List Char) :
    pathParts (escapeGlob path) = (pathParts path).map escapeGlob := by
  rw [funext escapeGlob_eq]
  refine Text.segments_flatMap ?_ ?_ path
  · intro c hc
    obtain rfl := eq_of_beq hc
    decide
  · intro c hc d hd
    rw [escapeChar] at hd
    split at hd
    · simp only [List.mem_cons, List.not_mem_nil, or_false] at hd
      rcases hd with rfl | rfl | rfl <;> first | exact hc | decide
    · obtain rfl := List.mem_singleton.mp hd
      exact hc

lemma anyDirectories_notMem (part : List Char) :
    GlobToken.anyDirectories ∉ part.map escapeToken := by
  simp only [List.mem_map, escapeToken]
  rintro ⟨c, -, hc⟩
  split at hc <;> simp at hc

lemma partPattern_ne_anyDepth (part : List Char) : partPattern part ≠ .anyDepth := by
  rw [partPattern, GlobPart.ofTokens]
  split
  · simp
  · simp [anyDirectories_notMem]

lemma ofTokens_ending (suffix : List Char) :
    GlobPart.ofTokens (.anyChars :: suffix.map escapeToken)
      = .fitting (.anyChars :: suffix.map escapeToken) := by
  rw [GlobPart.ofTokens, List.mapM_cons]
  simp [GlobToken.char?, anyDirectories_notMem]

lemma collapseDepths_eq {parts : List GlobPart} (h : ∀ part ∈ parts, part ≠ .anyDepth) :
    collapseDepths parts = parts := by
  induction parts with
  | nil => rfl
  | cons part parts ih =>
      rw [List.forall_mem_cons] at h
      rw [collapseDepths, ih h.2]
      rintro rest rfl
      exact absurd rfl h.1

lemma suffixPattern_eq (directory : List Char) (suffix : String) :
    suffixPattern directory suffix = escapeGlob directory ++ '/' :: '*' :: suffix.toList := by
  simp [suffixPattern]

lemma relative_suffixPattern {directory : List Char} (suffix : String)
    (hdirectory : directory ≠ []) :
    isAbsolute (suffixPattern directory suffix) = isAbsolute directory ∧
      (if isAbsolute directory then (suffixPattern directory suffix).drop 1
        else suffixPattern directory suffix)
      = escapeGlob (if isAbsolute directory then directory.drop 1 else directory)
        ++ '/' :: '*' :: suffix.toList := by
  obtain ⟨c, rest, rfl⟩ := List.exists_cons_of_ne_nil hdirectory
  rw [suffixPattern_eq, escapeGlob_eq, escapeGlob_eq, List.flatMap_cons]
  by_cases hc : c = '/'
  · subst hc
    exact ⟨rfl, rfl⟩
  · have habsolute : isAbsolute (c :: rest) = false := by simpa [isAbsolute] using hc
    have hescaped : isAbsolute (escapeChar c) = false := by
      rw [escapeChar]
      split
      · rfl
      · simpa [isAbsolute] using hc
    have hne : escapeChar c ≠ [] := by rw [escapeChar]; split <;> simp
    obtain ⟨d, others, hd⟩ := List.exists_cons_of_ne_nil hne
    simp_all [isAbsolute]

lemma terminatedParts_ending (path : List Char) (hslash : '/' ∉ suffix) :
    terminatedParts (escapeGlob path ++ '/' :: '*' :: suffix)
      = (pathParts path).map escapeGlob ++ ['*' :: suffix] := by
  have hlast : pathParts ('*' :: suffix) = ['*' :: suffix] :=
    pathParts_of_no_slash (by simpa using hslash)
  rw [terminatedParts, pathParts_append_slash, pathParts_escapeGlob, hlast]
  simp

lemma mapM_globTokens_escapeGlob (parts : List (List Char)) :
    (parts.map escapeGlob).mapM globTokens = .ok (parts.map (·.map escapeToken)) := by
  induction parts with
  | nil => rfl
  | cons part parts ih =>
      rw [List.map_cons, List.mapM_cons, globTokens_escapeGlob, ih]
      rfl

/-- The pattern that is searched for in a directory: its path part by part, and then the ending. -/
theorem GlobPattern.ofText_suffixPattern {directory : List Char} {suffix : String}
    (hdirectory : directory ≠ []) (hplain : ∀ c ∈ suffix.toList, ¬ IsGlobSign c)
    (hslash : '/' ∉ suffix.toList) :
    GlobPattern.ofText (suffixPattern directory suffix)
      = .ok ⟨isAbsolute directory, (relativeParts directory).map partPattern
          ++ [.fitting (.anyChars :: suffix.toList.map escapeToken)], false⟩ := by
  obtain ⟨habsolute, hrelative⟩ := relative_suffixPattern suffix hdirectory
  have htokens : globTokens (suffixPattern directory suffix)
      = .ok ((directory ++ ['/']).map escapeToken
          ++ .anyChars :: suffix.toList.map escapeToken) := by
    rw [← globTokens_ending _ hplain, suffixPattern_eq, escapeGlob_eq, escapeGlob_eq,
      List.flatMap_append]
    simp [escapeChar, IsGlobSign]
  have hnone : ∀ part ∈ (relativeParts directory).map partPattern
      ++ [.fitting (.anyChars :: suffix.toList.map escapeToken)], part ≠ .anyDepth := by
    intro part hpart
    obtain hpart | hpart := List.mem_append.mp hpart
    · obtain ⟨name, -, rfl⟩ := List.mem_map.mp hpart
      exact partPattern_ne_anyDepth name
    · obtain rfl := List.mem_singleton.mp hpart
      simp
  have hlast : ((suffixPattern directory suffix).getLast? == some '/') = false := by
    rw [suffixPattern_eq, List.getLast?_append_cons, List.getLast?_cons_cons, beq_eq_false_iff_ne]
    intro hmem
    exact hslash (by simpa using List.mem_of_getLast? hmem)
  have hparts : (terminatedParts (escapeGlob (if isAbsolute directory then directory.drop 1
      else directory) ++ '/' :: '*' :: suffix.toList)).mapM globTokens
      = .ok ((relativeParts directory).map (·.map escapeToken)
        ++ [.anyChars :: suffix.toList.map escapeToken]) := by
    have hone : globTokens ('*' :: suffix.toList)
        = .ok (.anyChars :: suffix.toList.map escapeToken) := globTokens_ending [] hplain
    rw [terminatedParts_ending _ hslash, List.mapM_append, mapM_globTokens_escapeGlob,
      List.mapM_cons, hone]
    rfl
  simp only [GlobPattern.ofText, htokens, habsolute, hrelative, hparts, hlast]
  change Except.ok _ = _
  rw [List.map_append, List.map_map, List.map_singleton, ofTokens_ending]
  exact congrArg (fun parts => Except.ok (GlobPattern.mk (isAbsolute directory) parts false))
    (collapseDepths_eq hnone)

end SchemaReader
