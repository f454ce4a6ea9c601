/-
The search for the files of one directory by their ending.

* `HidesFromSearch`: an empty part stands right behind the points that a relative path begins with;
* `tidyPath`: the path of a file as the search writes it, without empty parts and without points at
  the start;
* `expandFrom_partPattern`: an escaped part leads on to the entry of that name and to nothing else;
* `firstFitting?_suffixPattern`: the search finds the least file name with the ending in a
  directory, whatever characters its path holds, unless the path hides it.
-/
import SchemaReader.Proofs.Glob.Escaped

namespace SchemaReader

variable {tree : FileTree} {node : Node} {pattern : GlobPattern} {place : List (List Char)}
  {path part name directory : List Char} {parts : List (List Char)}

/-! ### Paths of what is found -/

lemma childPath_point (name : List Char) : childPath ['.'] name = name := rfl

lemma childPath_of_ne (hpath : path ≠ ['.']) (name : List Char) :
    childPath path name = joinPath path name := by
  rw [childPath, if_neg (by simpa using hpath)]

lemma childPath_eq_append (path : List Char) (hpart : '/' ∉ part) :
    ∃ before, childPath path part = before ++ part ∧
    (before = [] ∨ before.getLast? = some '/') := by
  rw [childPath, joinPath_of_no_slash hpart]
  split
  · exact ⟨[], rfl, Or.inl rfl⟩
  · split
    case isTrue hend => exact ⟨path, rfl, by simpa using hend⟩
    case isFalse => exact ⟨path ++ ['/'], by simp, by simp⟩

lemma childPath_ne_nil (hpath : path ≠ []) (hpoint : path = ['.'] → part ≠ []) :
    childPath path part ≠ [] := by
  by_cases h : path = ['.']
  · subst h
    exact hpoint rfl
  · rw [childPath_of_ne h, joinPath]
    split
    case isTrue habsolute => rintro rfl; simp at habsolute
    case isFalse => split <;> simp [hpath]

lemma lastPart_childPath (hpart : '/' ∉ part) : lastPart (childPath path part) = part := by
  have hall : ∀ c ∈ part.reverse, (!(c == '/')) = true := by
    intro c hc
    have : c ≠ '/' := by rintro rfl; exact hpart (List.mem_reverse.mp hc)
    simpa using this
  obtain ⟨before, heq, hbefore⟩ := childPath_eq_append path hpart
  rw [heq, lastPart, Text.lastSegment, List.reverse_append, List.takeWhile_append_of_pos hall]
  obtain rfl | hbefore := hbefore
  · simp
  · obtain ⟨front, rfl⟩ := List.getLast?_eq_some_iff.mp hbefore
    simp

/-- Only points lead back to the current directory by its short name. -/
lemma eq_point_of_childPath (hpath : path ≠ []) (hpart : '/' ∉ part)
    (h : childPath path part = ['.']) : path = ['.'] ∧ part = ['.'] := by
  by_cases hpoint : path = ['.']
  · subst hpoint
    exact ⟨rfl, h⟩
  · rw [childPath_of_ne hpoint, joinPath_of_no_slash hpart] at h
    obtain ⟨c, rest, rfl⟩ := List.exists_cons_of_ne_nil hpath
    split at h
    case isTrue hend => cases rest <;> cases part <;> simp_all
    case isFalse => cases rest <;> simp_all

/-- A path of something in a directory leads one step further than the path of the directory. -/
lemma FileTree.locate_childPath (hpath : path ≠ []) (hslash : '/' ∉ part)
    (hzero : Char.ofNat 0 ∉ part) (hpoint : path = ['.'] → part ≠ []) :
    tree.locate (childPath path part) = tree.locate path >>= fun place => tree.step place part := by
  by_cases h : path = ['.']
  · subst h
    have hempty : part.isEmpty = false := by simpa using hpoint rfl
    have habsolute : isAbsolute part = false := by
      rw [isAbsolute, beq_eq_false_iff_ne]
      exact fun hhead => hslash (List.mem_of_mem_head? hhead)
    have hcurrent : tree.locate ['.'] = tree.step tree.current ['.'] := by
      change tree.step tree.current ['.'] >>= _ = _
      exact bind_pure _
    rw [childPath_point, hcurrent, step_step_of_stays (Or.inr rfl), locate, hempty,
      if_neg (by simp), if_neg (by simpa using hzero), pathParts_of_no_slash hslash, start,
      habsolute]
    exact bind_pure _
  · rw [childPath_of_ne h, locate_joinPath hpath hslash hzero]

lemma FileTree.node?_childPath (hpath : path ≠ []) (hname : IsEntryName name) :
    tree.node? (childPath path name) = (tree.node? path).bind (Node.child? name) := by
  rw [node?_eq, node?_eq, locate_childPath hpath hname.no_slash hname.no_zero
    fun _ => hname.ne_nil]
  cases tree.locate path with
  | error => rfl
  | ok place => exact node?_step hname

/-! ### One escaped part -/

lemma partPattern_of_plain (h : ∀ c ∈ part, ¬ IsGlobSign c) : partPattern part = .exactly part := by
  have hchars : (part.map escapeToken).mapM GlobToken.char? = some part := by
    induction part with
    | nil => rfl
    | cons c part ih =>
        rw [List.forall_mem_cons] at h
        rw [List.map_cons, List.mapM_cons, ih h.2, escapeToken, if_neg h.1]
        rfl
  rw [partPattern, GlobPart.ofTokens, hchars]

lemma partPattern_of_sign {c : Char} (hmem : c ∈ part) (hc : IsGlobSign c) :
    partPattern part = .fitting (part.map escapeToken) := by
  have hchars : (part.map escapeToken).mapM GlobToken.char? = none := by
    induction part with
    | nil => simp at hmem
    | cons d part ih =>
        rw [List.map_cons, List.mapM_cons]
        obtain rfl | hmem := List.mem_cons.mp hmem
        · rw [escapeToken, if_pos hc]
          rfl
        · rw [ih hmem]
          cases (escapeToken d).char? <;> rfl
  rw [partPattern, GlobPart.ofTokens, hchars]
  simp [anyDirectories_notMem]

/-- Only one entry of a directory has a given name. -/
lemma filter_eq_lookup {entries : List (List Char × Node)} (h : (entries.map (·.1)).Nodup)
    (name : List Char) : entries.filter (fun entry => entry.1 == name)
      = ((entries.lookup name).map fun node => (name, node)).toList := by
  induction entries with
  | nil => rfl
  | cons entry entries ih =>
      rw [List.map_cons, List.nodup_cons] at h
      rw [List.filter_cons, List.lookup_cons, Bool.beq_comm]
      cases heq : name == entry.1 with
      | true =>
          obtain rfl := eq_of_beq heq
          have hothers : entries.filter (fun other => other.1 == entry.1) = [] := by
            rw [List.filter_eq_nil_iff]
            intro other hother hname
            exact h.1 (List.mem_map.mpr ⟨other, hother, eq_of_beq hname⟩)
          simp [hothers]
      | false => simpa using ih h.2

lemma Node.Proper.filter_list (h : node.Proper) (name : List Char) :
    node.list.filter (fun entry => entry.1 == name)
      = ((node.child? name).map fun child => (name, child)).toList := by
  cases node with
  | file => rfl
  | directory entries =>
      have hperm : (entries.mergeSort nameBefore).Perm entries := List.mergeSort_perm _ _
      have hnodup : ((entries.mergeSort nameBefore).map (·.1)).Nodup :=
        (hperm.map _).nodup_iff.mpr h.entries_nodup
      have hlookup : (entries.mergeSort nameBefore).lookup name = entries.lookup name := by
        apply Option.ext
        intro child
        rw [lookup_eq_some_iff hnodup, lookup_eq_some_iff h.entries_nodup, hperm.mem_iff]
      rw [Node.list, filter_eq_lookup hnodup, hlookup]
      rfl

/-- A file has nothing below it, not even itself by a point. -/
lemma FileTree.found?_childPath_of_isFile (hpath : path ≠ []) (hslash : '/' ∉ part)
    (hzero : Char.ofNat 0 ∉ part) (hpoint : path = ['.'] → part ≠ [])
    (hnode : tree.node? path = some node) (hfile : node.isFile) :
    tree.found? (childPath path part) = none := by
  obtain ⟨content, rfl⟩ := Node.isFile_iff.mp hfile
  obtain ⟨place, hlocate, hat⟩ := exists_locate_of_node? hnode
  have hstep : tree.locate (childPath path part) = .error .notDirectory := by
    rw [locate_childPath hpath hslash hzero hpoint, hlocate]
    change tree.step place part = _
    simp only [step, hat]
  rw [found?, node?_eq, hstep]
  rfl

lemma Node.Proper.entryName_of_mem_list (h : node.Proper) {entry : List Char × Node}
    (hentry : entry ∈ node.list) : IsEntryName entry.1 := by
  cases node with
  | file => simp [Node.list] at hentry
  | directory entries => exact h.entryName (by simpa [Node.list] using hentry)

lemma Node.Proper.child?_of_mem_list (h : node.Proper) {entry : List Char × Node}
    (hentry : entry ∈ node.list) : node.child? entry.1 = some entry.2 := by
  cases node with
  | file => simp [Node.list] at hentry
  | directory entries =>
      exact (lookup_eq_some_iff h.entries_nodup).mpr (by simpa [Node.list] using hentry)

/-- The entries of a directory whose names fit a pattern, as they are found. -/
lemma filter_children (hproper : node.Proper) (path : List Char) (tokens : List GlobToken) :
    (FoundPath.children ⟨path, node⟩).filter (fun child => matchesGlob tokens (lastPart child.path))
      = (node.list.filter fun entry => matchesGlob tokens entry.1).map
        fun entry => ⟨childPath path entry.1, entry.2⟩ := by
  rw [FoundPath.children, List.filter_map]
  congr 1
  refine List.filter_congr fun entry hentry => ?_
  rw [Function.comp_apply, lastPart_childPath (hproper.entryName_of_mem_list hentry).no_slash]

/-- An escaped part leads on to the entry of that name and to nothing else. -/
lemma GlobPattern.expandFrom_partPattern (pattern : GlobPattern) (rest : List GlobPart)
    (hproper : node.Proper) (hnode : tree.node? path = some node) (hpath : path ≠ [])
    (hslash : '/' ∉ part) (hzero : Char.ofNat 0 ∉ part) :
    pattern.expandFrom tree (partPattern part :: rest) ⟨path, node⟩
      = (tree.found? (childPath path part)).toList.flatMap (pattern.expandFrom tree rest) := by
  by_cases hsign : ∃ c ∈ part, IsGlobSign c
  · obtain ⟨c, hmem, hc⟩ := hsign
    have hname : IsEntryName part := by
      refine ⟨List.ne_nil_of_mem hmem, hslash, hzero, ?_, ?_⟩ <;>
        · rintro rfl
          simp only [List.mem_cons, List.not_mem_nil, or_false, or_self] at hmem
          exact absurd hc (by subst hmem; decide)
    have hspecial : [['.', '.'], ['.']].filter (fun special =>
        node.isDirectory && fitsSpecial (part.map escapeToken) special) = [] := by
      rw [List.filter_eq_nil_iff]
      intro special hspecial hfits
      rw [fitsSpecial, Bool.and_eq_true_iff, Bool.and_eq_true_iff, matchesGlob_escapeToken] at hfits
      simp only [List.mem_cons, List.not_mem_nil, or_false, hfits.2.2] at hspecial
      exact hspecial.elim hname.ne_points hname.ne_point
    have hfits : (fun entry : List Char × Node => matchesGlob (part.map escapeToken) entry.1)
        = fun entry => entry.1 == part := by
      funext entry
      rw [Bool.eq_iff_iff, matchesGlob_escapeToken, beq_iff_eq]
    rw [partPattern_of_sign hmem hc, expandFrom, hspecial, filter_children hproper, hfits,
      hproper.filter_list, FileTree.found?, FileTree.node?_childPath hpath hname, hnode,
      Option.bind_some]
    cases node.child? part <;> simp
  · push Not at hsign
    rw [partPattern_of_plain hsign, expandFrom, FileTree.enter?]
    by_cases hspecial : ((part == ['.'] || part == ['.', '.']) && node.isFile) = true
    · have hfile : node.isFile = true := (Bool.and_eq_true_iff.mp hspecial).2
      have hne : part ≠ [] := by rintro rfl; simp at hspecial
      rw [FileTree.found?_childPath_of_isFile hpath hslash hzero (fun _ => hne) hnode hfile]
      simp only [hspecial, if_true]
      rfl
    · simp only [hspecial]
      rw [if_neg (by simp), ← childPath]
      cases tree.found? (childPath path part) <;> simp

/-! ### The parts of a directory's path -/

/-- Whether the parts of a path have an empty one right behind the points at the start. -/
def emptyBehindPoints (parts : List (List Char)) : Bool :=
  (parts.dropWhile (· == ['.'])).head? == some []

/-- An empty part stands right behind the points that a relative path begins with: the short name of
the current directory goes lost in it. -/
def HidesFromSearch (directory : List Char) : Prop :=
  isAbsolute directory = false ∧ emptyBehindPoints (pathParts directory) = true

instance (directory : List Char) : Decidable (HidesFromSearch directory) :=
  inferInstanceAs (Decidable (_ ∧ _))

/-- The path that a search starts from. -/
def searchStart (directory : List Char) : List Char :=
  if isAbsolute directory then ['/'] else ['.']

lemma emptyBehindPoints_point (parts : List (List Char)) :
    emptyBehindPoints (['.'] :: parts) = emptyBehindPoints parts := by
  simp [emptyBehindPoints]

lemma emptyBehindPoints_cons (hpart : part ≠ ['.']) (parts : List (List Char)) :
    emptyBehindPoints (part :: parts) = part.isEmpty := by
  rw [emptyBehindPoints, List.dropWhile_cons_of_neg (by simpa using hpart)]
  cases part <;> rfl

lemma emptyBehindPoints_relativeParts (habsolute : isAbsolute directory = false) :
    emptyBehindPoints (relativeParts directory) = emptyBehindPoints (pathParts directory) := by
  rw [relativeParts, habsolute, if_neg (by simp)]

/-- A search along the parts of a path gets as far as the path itself leads. -/
lemma GlobPattern.expandFrom_parts (pattern : GlobPattern) (rest : List GlobPart)
    {target : List (List Char)} (hproper : tree.root.Proper) (hnode : tree.node? path = some node)
    (hpath : path ≠ []) (hparts : ∀ part ∈ parts, '/' ∉ part ∧ Char.ofNat 0 ∉ part)
    (hpoints : path = ['.'] → emptyBehindPoints parts = false)
    (hwalk : (tree.locate path >>= fun place => parts.foldlM tree.step place) = .ok target) :
    parts.foldl childPath path ≠ [] ∧ tree.locate (parts.foldl childPath path) = .ok target ∧
      ∃ last, tree.node? (parts.foldl childPath path) = some last ∧
        pattern.expandFrom tree (parts.map partPattern ++ rest) ⟨path, node⟩
          = pattern.expandFrom tree rest ⟨parts.foldl childPath path, last⟩ := by
  induction parts generalizing path node with
  | nil => exact ⟨hpath, by simpa using hwalk, node, hnode, rfl⟩
  | cons part parts ih =>
      rw [List.forall_mem_cons] at hparts
      obtain ⟨⟨hslash, hzero⟩, hparts⟩ := hparts
      have hne : path = ['.'] → part ≠ [] := by
        rintro hpoint rfl
        simpa [emptyBehindPoints] using hpoints hpoint
      have hlocate := tree.locate_childPath hpath hslash hzero hne
      have hwalk' : (tree.locate (childPath path part) >>= fun place =>
          parts.foldlM tree.step place)
          = .ok target := by
        rw [← hwalk, hlocate, bind_assoc]
        rfl
      obtain ⟨place, hplace, -⟩ := exists_of_bind_eq_ok hwalk'
      obtain ⟨next, hnext⟩ := FileTree.exists_node?_of_locate hplace
      have hpoints' : childPath path part = ['.'] → emptyBehindPoints parts = false := by
        intro hpoint
        obtain ⟨hpoint, rfl⟩ := eq_point_of_childPath hpath hslash hpoint
        rw [← emptyBehindPoints_point]
        exact hpoints ‹path = ['.']›
      rw [List.map_cons, List.cons_append, pattern.expandFrom_partPattern _
        (FileTree.proper_of_node? hproper hnode) hnode hpath hslash hzero, FileTree.found?, hnext]
      simpa using ih hnext (childPath_ne_nil hpath hne) hparts hpoints' hwalk'

/-- Nothing is found behind a path that hides what it leads to. -/
lemma GlobPattern.expandFrom_hidden (pattern : GlobPattern) (rest : List GlobPart)
    (hproper : tree.root.Proper) (hnode : tree.node? ['.'] = some node)
    (hparts : ∀ part ∈ parts, '/' ∉ part ∧ Char.ofNat 0 ∉ part)
    (hpoints : emptyBehindPoints parts = true) :
    pattern.expandFrom tree (parts.map partPattern ++ rest) ⟨['.'], node⟩ = [] := by
  induction parts with
  | nil => simp [emptyBehindPoints] at hpoints
  | cons part parts ih =>
      rw [List.forall_mem_cons] at hparts
      obtain ⟨⟨hslash, hzero⟩, hparts⟩ := hparts
      rw [List.map_cons, List.cons_append, pattern.expandFrom_partPattern _
        (FileTree.proper_of_node? hproper hnode) hnode (by simp) hslash hzero, childPath_point]
      by_cases hpart : part = ['.']
      · subst hpart
        rw [emptyBehindPoints_point] at hpoints
        rw [FileTree.found?, hnode]
        simpa using ih hparts hpoints
      · rw [emptyBehindPoints_cons hpart, List.isEmpty_iff] at hpoints
        subst hpoints
        rfl

lemma mem_relativeParts (hzero : Char.ofNat 0 ∉ directory) :
    ∀ part ∈ relativeParts directory, '/' ∉ part ∧ Char.ofNat 0 ∉ part := by
  intro part hpart
  have hmem := Text.mem_of_mem_segments hpart
  refine ⟨fun hslash => by simpa using (hmem _ hslash).1, fun hnul => hzero ?_⟩
  have hin := (hmem _ hnul).2
  split at hin
  · exact List.mem_of_mem_drop hin
  · exact hin

/-- A path leads where its parts lead from the start of the search. -/
lemma FileTree.locate_eq_start (hdirectory : directory ≠ []) (hzero : Char.ofNat 0 ∉ directory) :
    tree.locate directory = tree.locate (searchStart directory) >>= fun place =>
      (relativeParts directory).foldlM tree.step place := by
  obtain ⟨first, rest, rfl⟩ := List.exists_cons_of_ne_nil hdirectory
  have hlocate : tree.locate (first :: rest) = (pathParts (first :: rest)).foldlM tree.step
      (tree.start (first :: rest)) := by
    rw [locate, if_neg (by simp), if_neg (by simpa using hzero)]
  rw [hlocate]
  by_cases hslash : first = '/'
  · subst hslash
    have hroot : tree.locate ['/'] = tree.step [] [] := by
      change tree.locate ([] ++ '/' :: []) = _
      rw [locate_append_slash (by simp) (by simp)]
      change (tree.step [] [] >>= pure) >>= _ = _
      rw [bind_pure, step_step_of_stays (Or.inl rfl)]
    rw [← List.nil_append ('/' :: rest), pathParts_append_slash]
    change _ = tree.locate ['/'] >>= fun place => (pathParts rest).foldlM tree.step place
    rw [hroot]
    rfl
  · have habsolute : isAbsolute (first :: rest) = false := by simpa [isAbsolute] using hslash
    have hpoint : tree.locate ['.'] = tree.step tree.current ['.'] := by
      change tree.step tree.current ['.'] >>= _ = _
      exact bind_pure _
    simp only [searchStart, relativeParts, start, habsolute, Bool.false_eq_true, if_false]
    obtain ⟨part, parts, hparts⟩ : ∃ part parts, pathParts (first :: rest) = part :: parts :=
      List.exists_cons_of_ne_nil (Text.segments_ne_nil _)
    rw [hpoint, hparts]
    simp only [List.foldlM_cons]
    rw [← bind_assoc, step_step_of_stays (Or.inr rfl)]

/-! ### The path of what is found -/

/-- The path of a file in a directory as the search writes it. -/
def tidyPath (directory name : List Char) : List Char :=
  let parts := relativeParts directory
  let named := if isAbsolute directory then parts else parts.dropWhile (· == ['.'])
  (if isAbsolute directory then ['/'] else [])
    ++ Text.joinWith ['/'] (named.filter (!·.isEmpty) ++ [name])

/-- What stands directly in a directory goes by a start and the parts that lead to it. -/
def WritesBelow (path start : List Char) (parts : List (List Char)) : Prop :=
  path ≠ [] ∧ path ≠ ['.'] ∧
    ∀ name, '/' ∉ name → childPath path name = start ++ Text.joinWith ['/'] (parts ++ [name])

/-- An empty part leaves the paths below as they are. -/
lemma childPath_childPath_nil (hpath : path ≠ []) (hpoint : path ≠ ['.']) (hname : '/' ∉ name) :
    childPath (childPath path []) name = childPath path name := by
  have hpoint' : childPath path [] ≠ ['.'] := fun h =>
    hpoint (eq_point_of_childPath hpath (by simp) h).1
  have hempty : path.isEmpty = false := by simpa using hpath
  have hnil : joinPath path [] = _ := joinPath_of_no_slash (by simp)
  rw [childPath_of_ne hpoint', childPath_of_ne hpoint, childPath_of_ne hpoint, hnil,
    joinPath_of_no_slash hname, joinPath_of_no_slash hname]
  by_cases hend : path.getLast? = some '/' <;> simp [hempty, hend]

/-- The parts of a path are gathered, but for empty ones. -/
lemma WritesBelow.child {start : List Char} (h : WritesBelow path start parts)
    (hpart : '/' ∉ part) :
    WritesBelow (childPath path part) start (parts ++ [part].filter (!·.isEmpty)) := by
  obtain ⟨hpath, hpoint, hbelow⟩ := h
  have hpoint' : childPath path part ≠ ['.'] := fun heq =>
    hpoint (eq_point_of_childPath hpath hpart heq).1
  refine ⟨childPath_ne_nil hpath fun heq => absurd heq hpoint, hpoint', fun name hname => ?_⟩
  by_cases hempty : part = []
  · subst hempty
    rw [childPath_childPath_nil hpath hpoint hname, hbelow name hname]
    simp
  · have hlast : ((childPath path part).isEmpty || (childPath path part).getLast? == some '/')
        = false := by
      obtain ⟨before, heq, -⟩ := childPath_eq_append path hpart
      obtain ⟨front, last, rfl⟩ := (List.eq_nil_or_concat part).resolve_left hempty
      have hne : last ≠ '/' := by
        rintro rfl
        simp at hpart
      rw [heq, List.concat_eq_append, ← List.append_assoc, List.getLast?_concat]
      simpa using hne
    rw [childPath_of_ne hpoint', joinPath_of_no_slash hname, hlast, hbelow part hpart]
    have hfilter : [part].filter (!·.isEmpty) = [part] := by simpa using hempty
    have hparts : parts ++ [part] ≠ [] := by simp
    rw [hfilter, Text.joinWith_concat hparts]
    simp

lemma WritesBelow.foldl {start : List Char} {more : List (List Char)}
    (h : WritesBelow path start parts) (hmore : ∀ part ∈ more, '/' ∉ part) :
    WritesBelow (more.foldl childPath path) start (parts ++ more.filter (!·.isEmpty)) := by
  induction more generalizing path parts with
  | nil => simpa using h
  | cons part more ih =>
      rw [List.forall_mem_cons] at hmore
      have hrest := ih (h.child hmore.1) hmore.2
      rwa [List.append_assoc, ← List.filter_append, List.singleton_append] at hrest

lemma foldl_childPath_point (parts : List (List Char)) :
    parts.foldl childPath ['.'] = (parts.dropWhile (· == ['.'])).foldl childPath ['.'] := by
  induction parts with
  | nil => rfl
  | cons part parts ih =>
      by_cases hpart : part = ['.']
      · subst hpart
        exact ih
      · rw [List.dropWhile_cons_of_neg (by simpa using hpart)]

lemma childPath_foldl (hzero : Char.ofNat 0 ∉ directory) (hhides : ¬ HidesFromSearch directory)
    (hname : '/' ∉ name) :
    childPath ((relativeParts directory).foldl childPath (searchStart directory)) name
      = tidyPath directory name := by
  have hparts : ∀ part ∈ relativeParts directory, '/' ∉ part := fun part hpart =>
    (mem_relativeParts hzero part hpart).1
  cases habsolute : isAbsolute directory with
  | true =>
      have hstart : WritesBelow ['/'] ['/'] [] := by
        refine ⟨by simp, by simp, fun name hname => ?_⟩
        rw [childPath_of_ne (by simp), joinPath_of_no_slash hname]
        simp [Text.joinWith]
      have hbelow := (hstart.foldl hparts).2.2 name hname
      simpa [searchStart, tidyPath, habsolute] using hbelow
  | false =>
      have hpoints : emptyBehindPoints (relativeParts directory) = false := by
        rw [emptyBehindPoints_relativeParts habsolute, ← Bool.not_eq_true]
        exact fun hempty => hhides ⟨habsolute, hempty⟩
      simp only [searchStart, tidyPath, habsolute, Bool.false_eq_true, if_false, List.nil_append]
      rw [foldl_childPath_point]
      cases hdrop : (relativeParts directory).dropWhile (· == ['.']) with
      | nil => simp [Text.joinWith, childPath_point]
      | cons part parts =>
          have hsub : ∀ other ∈ part :: parts, '/' ∉ other := fun other hother =>
            hparts other (List.dropWhile_subset _ (hdrop ▸ hother))
          rw [List.forall_mem_cons] at hsub
          have hne : part ≠ [] := by
            rintro rfl
            simp [emptyBehindPoints, hdrop] at hpoints
          have hpoint : part ≠ ['.'] := by
            rintro rfl
            have := List.head?_dropWhile_not (· == ['.']) (relativeParts directory)
            simp [hdrop] at this
          have hstart : WritesBelow part [] [part] := by
            refine ⟨hne, hpoint, fun name hname => ?_⟩
            have hend : (part.isEmpty || part.getLast? == some '/') = false := by
              rw [Bool.or_eq_false_iff, beq_eq_false_iff_ne]
              exact ⟨by simpa using hne, fun hlast => hsub.1 (List.mem_of_getLast? hlast)⟩
            rw [childPath_of_ne hpoint, joinPath_of_no_slash hname, hend,
              Text.joinWith_concat (by simp)]
            simp [Text.joinWith]
          have hbelow := (hstart.foldl hsub.2).2.2 name hname
          have hkept : (part :: parts).filter (!·.isEmpty) = part :: parts.filter (!·.isEmpty) := by
            simp [hne]
          rw [hkept]
          simpa [childPath_point] using hbelow

/-! ### The search in a directory -/

/-- An asterisk and an ending lead on to the entries with the ending. -/
lemma GlobPattern.expandFrom_ending (absolute : Bool) (described : List GlobPart)
    (tokens : List GlobToken) (hproper : node.Proper) :
    (GlobPattern.mk absolute described false).expandFrom tree [.fitting (.anyChars :: tokens)]
        ⟨path, node⟩
      = (node.list.filter fun entry => matchesGlob (.anyChars :: tokens) entry.1).map
        fun entry => ⟨childPath path entry.1, entry.2⟩ := by
  have hspecial : [['.', '.'], ['.']].filter (fun special =>
      node.isDirectory && fitsSpecial (.anyChars :: tokens) special) = [] := by
    simp [fitsSpecial]
  have haccept : (GlobPattern.mk absolute described false).expandFrom tree []
      = fun found => [found] := by
    funext found
    simp [expandFrom, accept]
  rw [expandFrom, hspecial, filter_children hproper, haccept]
  simp

/-- Of the entries of a directory, the search takes the first file with the ending. -/
lemma find?_expandFrom_ending {suffix : List Char} (absolute : Bool) (described : List GlobPart)
    (hproper : tree.root.Proper) (hnode : tree.node? path = some node) (hpath : path ≠ []) :
    ((GlobPattern.mk absolute described false).expandFrom tree
        [.fitting (.anyChars :: suffix.map escapeToken)] ⟨path, node⟩).find?
        (fun found => tree.isFile found.path)
      = (node.list.find? fun entry => entry.2.isFile && suffix.isSuffixOf entry.1).map
        fun entry => ⟨childPath path entry.1, entry.2⟩ := by
  have hentries := FileTree.proper_of_node? hproper hnode
  have hfits : ∀ entry ∈ node.list,
      (matchesGlob (.anyChars :: suffix.map escapeToken) entry.1 &&
        tree.isFile (childPath path entry.1)) = (entry.2.isFile && suffix.isSuffixOf entry.1) := by
    intro entry hentry
    have hfile : tree.isFile (childPath path entry.1) = entry.2.isFile := by
      rw [FileTree.isFile, FileTree.node?_childPath hpath (hentries.entryName_of_mem_list hentry),
        hnode, Option.bind_some, hentries.child?_of_mem_list hentry, Option.any_some]
    rw [hfile, Bool.and_comm, Bool.eq_iff_iff, Bool.and_eq_true_iff, Bool.and_eq_true_iff,
      matchesGlob_ending, List.isSuffixOf_iff_suffix]
  rw [GlobPattern.expandFrom_ending _ _ _ hentries, List.find?_map, List.find?_filter]
  simp only [Function.comp_def, Bool.decide_and, Bool.decide_eq_true]
  rw [← List.head?_filter, ← List.head?_filter, List.filter_congr hfits]

/-- Where the search starts in the working directory, a path that does not hide from it has no empty
part behind points. -/
lemma emptyBehindPoints_of_not_hidesFromSearch (hhides : ¬ HidesFromSearch directory)
    (hpoint : searchStart directory = ['.']) :
    emptyBehindPoints (relativeParts directory) = false := by
  have habsolute : isAbsolute directory = false := by
    rw [← Bool.not_eq_true]
    intro habsolute
    simp [searchStart, habsolute] at hpoint
  rw [emptyBehindPoints_relativeParts habsolute, ← Bool.not_eq_true]
  exact fun hempty => hhides ⟨habsolute, hempty⟩

/-- The search finds the least file name with the ending in a directory, whatever characters its
path holds, unless the path hides it. -/
theorem firstFitting?_suffixPattern {suffix : List Char} (hproper : tree.root.Proper)
    (hdirectory : tree.isDirectory directory = true) :
    firstFitting? tree ⟨isAbsolute directory, (relativeParts directory).map partPattern
        ++ [.fitting (.anyChars :: suffix.map escapeToken)], false⟩
      = if HidesFromSearch directory then none
        else ((tree.fileNames directory).find? fun name => suffix.isSuffixOf name).map
          (tidyPath directory) := by
  obtain ⟨entries, hnode⟩ := FileTree.isDirectory_iff.mp hdirectory
  obtain ⟨target, htarget, hat⟩ := FileTree.exists_locate_of_node? hnode
  obtain ⟨hne, hzero⟩ := FileTree.ne_nil_of_locate htarget
  have hwalk := (FileTree.locate_eq_start hne hzero).symm.trans htarget
  obtain ⟨place, hplace, -⟩ := exists_of_bind_eq_ok hwalk
  obtain ⟨start, hstart⟩ := FileTree.exists_node?_of_locate hplace
  have hparts := mem_relativeParts hzero
  rw [firstFitting?, GlobPattern.expand, ← searchStart, FileTree.found?, hstart, Option.map_some]
  dsimp only
  by_cases hhides : HidesFromSearch directory
  · have hpoint : searchStart directory = ['.'] := by simp [searchStart, hhides.1]
    rw [hpoint] at hstart ⊢
    rw [GlobPattern.expandFrom_hidden _ _ hproper hstart hparts
      (emptyBehindPoints_relativeParts hhides.1 ▸ hhides.2), if_pos hhides]
    rfl
  · have hpoints := emptyBehindPoints_of_not_hidesFromSearch hhides
    obtain ⟨hpath, hlocate, last, hlast, hexpand⟩ := GlobPattern.expandFrom_parts
      ⟨isAbsolute directory, (relativeParts directory).map partPattern
        ++ [.fitting (.anyChars :: suffix.map escapeToken)], false⟩
      [.fitting (.anyChars :: suffix.map escapeToken)] hproper hstart
      (FileTree.ne_nil_of_locate hplace).1 hparts hpoints hwalk
    obtain rfl : Node.directory entries = last := by
      rw [FileTree.node?_eq, hlocate] at hlast
      exact Option.some.inj (hat.symm.trans hlast)
    rw [hexpand, find?_expandFrom_ending _ _ hproper hlast hpath, if_neg hhides, FileTree.fileNames,
      FileTree.list, hnode]
    simp only [List.find?_map, List.find?_filter, Option.map_map, Function.comp_def,
      Bool.decide_and, Bool.decide_eq_true]
    cases hfind : (Node.directory entries).list.find? fun entry =>
        entry.2.isFile && suffix.isSuffixOf entry.1 with
    | none => rfl
    | some entry =>
        have hname := (FileTree.proper_of_node? hproper hnode).entryName_of_mem_list
          (List.mem_of_find?_eq_some hfind)
        rw [Option.map_some, Option.map_some, childPath_foldl hzero hhides hname.no_slash]

end SchemaReader
