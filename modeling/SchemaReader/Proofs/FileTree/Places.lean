/-
What stands in a tree of files.

* `IsEntryName`, `Node.Proper`: the names that entries can have, and trees whose directories hold
  each name once;
* `FileTree.locate_joinPath`: a path with one part more leads one step further;
* `FileTree.HasFile`: a file stands directly in the directory that a path leads to;
  `FileTree.HasFile.isFile_joinPath`: it is found by its path;
* `FileTree.fileNames`: the names of these files; `find?_eq_some_iff_isLeast` and
  `getLast?_eq_some_iff_isGreatest` say that the first hit among them is the least one and the last
  of them the greatest.
-/
import Mathlib.Data.Char
import Mathlib.Data.List.Basic
import Mathlib.Data.List.Lex
import Mathlib.Order.Bounds.Defs
import SchemaReader.FileTree.Basic
import SchemaReader.Proofs.Text.Segments

namespace SchemaReader

/-! ### Proper trees -/

/-- A name that an entry of a directory can have. -/
structure IsEntryName (name : List Char) : Prop where
  ne_nil : name ≠ []
  no_slash : '/' ∉ name
  no_zero : Char.ofNat 0 ∉ name
  ne_point : name ≠ ['.']
  ne_points : name ≠ ['.', '.']

instance (name : List Char) : Decidable (IsEntryName name) :=
  decidable_of_iff (name ≠ [] ∧ '/' ∉ name ∧ Char.ofNat 0 ∉ name ∧ name ≠ ['.'] ∧ name ≠ ['.', '.'])
    ⟨fun ⟨hne, hslash, hzero, hpoint, hpoints⟩ => ⟨hne, hslash, hzero, hpoint, hpoints⟩,
      fun h => ⟨h.ne_nil, h.no_slash, h.no_zero, h.ne_point, h.ne_points⟩⟩

/-- A tree in which every entry has a name of its own in its directory. -/
inductive Node.Proper : Node → Prop
  | file (content : List UInt8) : Proper (.file content)
  | directory {entries : List (List Char × Node)} (nodup : (entries.map (·.1)).Nodup)
      (names : ∀ entry ∈ entries, IsEntryName entry.1)
      (nodes : ∀ entry ∈ entries, Proper entry.2) : Proper (.directory entries)

variable {tree : FileTree} {node child : Node} {entries : List (List Char × Node)}
  {place : List (List Char)} {path directory name part : List Char}

lemma mem_of_lookup (h : entries.lookup name = some child) : (name, child) ∈ entries := by
  induction entries with
  | nil => simp at h
  | cons entry entries ih =>
      rw [List.lookup_cons] at h
      cases heq : name == entry.1 with
      | true =>
          rw [heq] at h
          obtain rfl := Option.some.inj h
          obtain rfl := eq_of_beq heq
          exact List.mem_cons_self
      | false =>
          rw [heq] at h
          exact List.mem_cons_of_mem _ (ih h)

/-- Where every entry has a name of its own, looking the name up finds the entry. -/
lemma lookup_eq_some_iff (h : (entries.map (·.1)).Nodup) :
    entries.lookup name = some child ↔ (name, child) ∈ entries := by
  refine ⟨mem_of_lookup, fun hmem => ?_⟩
  induction entries with
  | nil => simp at hmem
  | cons entry entries ih =>
      rw [List.map_cons, List.nodup_cons] at h
      rw [List.lookup_cons]
      obtain rfl | hmem := List.mem_cons.mp hmem
      · simp
      · have hne : (name == entry.1) = false := by
          rw [beq_eq_false_iff_ne]
          rintro rfl
          exact h.1 (List.mem_map.mpr ⟨(entry.1, child), hmem, rfl⟩)
        rw [hne]
        exact ih h.2 hmem

lemma Node.proper_file (content : List UInt8) : (Node.file content).Proper ↔ True :=
  iff_true_intro (.file content)

lemma Node.proper_directory : (Node.directory entries).Proper ↔ (entries.map (·.1)).Nodup ∧
    (∀ entry ∈ entries, IsEntryName entry.1) ∧ ∀ entry ∈ entries, entry.2.Proper := by
  constructor
  · rintro ⟨⟩
    exact ⟨‹_›, ‹_›, ‹_›⟩
  · rintro ⟨nodup, names, nodes⟩
    exact .directory nodup names nodes

namespace Node.Proper

lemma entries_nodup (h : (Node.directory entries).Proper) : (entries.map (·.1)).Nodup := by
  cases h with
  | directory nodup _ _ => exact nodup

lemma entryName (h : (Node.directory entries).Proper) (hmem : (name, child) ∈ entries) :
    IsEntryName name := by
  cases h with
  | directory _ names _ => exact names _ hmem

lemma child? (h : node.Proper) (hchild : node.child? name = some child) : child.Proper := by
  cases h with
  | file => simp [Node.child?] at hchild
  | directory _ _ nodes => exact nodes _ (mem_of_lookup hchild)

lemma at? (h : node.Proper) (hat : node.at? place = some child) : child.Proper := by
  induction place generalizing node with
  | nil => obtain rfl := Option.some.inj hat; exact h
  | cons name place ih =>
      obtain ⟨inner, hinner, hrest⟩ := Option.bind_eq_some_iff.mp hat
      exact ih (h.child? hinner) hrest

end Node.Proper

/-! ### One part further -/

lemma Node.at?_append (node : Node) (p q : List (List Char)) :
    node.at? (p ++ q) = (node.at? p).bind fun inner => inner.at? q := by
  induction p generalizing node with
  | nil => rfl
  | cons name p ih =>
      rw [List.cons_append, Node.at?, Node.at?, Option.bind_assoc]
      congr 1
      funext inner
      exact ih inner

lemma Node.at?_singleton (node : Node) (name : List Char) : node.at? [name] = node.child? name := by
  rw [Node.at?]
  exact Option.bind_fun_some _

/-- A part that stays needs only a directory to stay in. -/
lemma FileTree.step_of_stays (hpart : part = [] ∨ part = ['.']) :
    tree.step place part = match tree.root.at? place with
      | none => .error .notFound
      | some (.file _) => .error .notDirectory
      | some (.directory _) => .ok place := by
  have hplace : placeAfter place part = place := by
    obtain rfl | rfl := hpart <;> rfl
  rw [FileTree.step]
  split <;> simp_all

/-- A part that stays may be left out before another one. -/
lemma FileTree.step_step_of_stays (hpart : part = [] ∨ part = ['.']) (next : List Char) :
    (tree.step place part >>= fun place => tree.step place next) = tree.step place next := by
  rw [step_of_stays hpart]
  cases hat : tree.root.at? place with
  | none => simp only [step, hat]; rfl
  | some node => cases node with
    | file => simp only [step, hat]; rfl
    | directory => rfl

lemma pathParts_of_no_slash (hpart : '/' ∉ part) : pathParts part = [part] :=
  Text.segments_of_none fun c hc => by
    rw [beq_eq_false_iff_ne]
    rintro rfl
    exact hpart hc

lemma pathParts_append_slash (path part : List Char) :
    pathParts (path ++ '/' :: part) = pathParts path ++ pathParts part :=
  Text.segments_append (by decide) path part

lemma joinPath_of_no_slash (hpart : '/' ∉ part) : joinPath path part
    = if path.isEmpty || path.getLast? == some '/' then path ++ part else path ++ '/' :: part := by
  have hhead : (part.head? == some '/') = false := by
    rw [beq_eq_false_iff_ne]
    intro hhead
    exact hpart (List.mem_of_mem_head? hhead)
  rw [joinPath, if_neg (by simp [hhead])]

/-- The place that a path leads to as the part of a longer path before a slash: the empty path is
the root there. -/
def FileTree.locateAbove (tree : FileTree) (path : List Char) :
    Except FileFault (List (List Char)) :=
  if path.contains (Char.ofNat 0) then .error .zeroInPath
  else (pathParts path).foldlM tree.step (if path.isEmpty then [] else tree.start path)

lemma FileTree.locateAbove_eq (hpath : path ≠ []) : tree.locateAbove path = tree.locate path := by
  have hempty : path.isEmpty = false := by simpa using hpath
  simp [locateAbove, locate, hempty]

/-- What stands behind a slash leads one step further. -/
lemma FileTree.locate_append_slash (hslash : '/' ∉ part) (hzero : Char.ofNat 0 ∉ part) :
    tree.locate (path ++ '/' :: part)
      = tree.locateAbove path >>= fun place => tree.step place part := by
  have hstart : tree.start (path ++ '/' :: part) = if path.isEmpty then []
      else tree.start path := by
    cases path <;> rfl
  have hcontains : (path ++ '/' :: part).contains (Char.ofNat 0)
      = path.contains (Char.ofNat 0) := by
    simp [List.contains_eq_mem, hzero]
  rw [locate, if_neg (by simp), hcontains, hstart, pathParts_append_slash,
    pathParts_of_no_slash hslash, List.foldlM_append, locateAbove]
  split
  · rfl
  · simp only [List.foldlM_cons, List.foldlM_nil, bind_pure]

/-- A path with one part more leads one step further. -/
theorem FileTree.locate_joinPath (hpath : path ≠ []) (hslash : '/' ∉ part)
    (hzero : Char.ofNat 0 ∉ part) :
    tree.locate (joinPath path part)
      = tree.locate path >>= fun place => tree.step place part := by
  have hempty : path.isEmpty = false := by simpa using hpath
  rw [joinPath_of_no_slash hslash, hempty, Bool.false_or]
  split
  case isTrue hlast =>
    -- The part takes the place of the empty part behind the slash at the end.
    obtain ⟨above, rfl⟩ : ∃ above, path = above ++ ['/'] := by
      obtain ⟨above, last, rfl⟩ := (List.eq_nil_or_concat path).resolve_left hpath
      refine ⟨above, ?_⟩
      simpa using hlast
    rw [List.append_assoc, List.singleton_append, locate_append_slash hslash hzero,
      locate_append_slash (by simp) (by simp), bind_assoc]
    simp only [step_step_of_stays (Or.inl rfl)]
  case isFalse => rw [locate_append_slash hslash hzero, locateAbove_eq hpath]

/-! ### Entries by their paths -/

lemma FileTree.node?_eq (tree : FileTree) (path : List Char) :
    tree.node? path = (tree.locate path).toOption.bind tree.root.at? := by
  rw [node?, node]
  cases tree.locate path with
  | error => rfl
  | ok place =>
      simp only [Except.toOption, Option.bind_some, bind, Except.bind]
      cases tree.root.at? place <;> rfl

lemma exists_of_bind_eq_ok {α β ε : Type} {x : Except ε α} {f : α → Except ε β} {b : β}
    (h : x >>= f = .ok b) : ∃ a, x = .ok a ∧ f a = .ok b := by
  cases x with
  | error => cases h
  | ok a => exact ⟨a, rfl, h⟩

lemma FileTree.isSome_of_step {next : List (List Char)} (h : tree.step place part = .ok next) :
    (tree.root.at? next).isSome := by
  rw [step] at h
  split at h
  · cases h
  · cases h
  · dsimp only at h
    split at h
    case isTrue hsome => cases h; exact hsome
    case isFalse => cases h

/-- There is something at every place that a path leads to. -/
lemma FileTree.exists_node?_of_locate (h : tree.locate path = .ok place) :
    ∃ node, tree.node? path = some node := by
  have hsome : (tree.root.at? place).isSome := by
    rw [locate] at h
    split at h
    · cases h
    split at h
    · cases h
    obtain ⟨parts, last, hparts⟩ :=
      (List.eq_nil_or_concat (pathParts path)).resolve_left (Text.segments_ne_nil path)
    rw [hparts, List.concat_eq_append, List.foldlM_append] at h
    obtain ⟨above, -, hlast⟩ := exists_of_bind_eq_ok h
    change tree.step above last >>= pure = _ at hlast
    rw [bind_pure] at hlast
    exact isSome_of_step hlast
  rw [node?_eq, h]
  exact Option.isSome_iff_exists.mp hsome

lemma FileTree.exists_locate_of_node? (h : tree.node? path = some node) :
    ∃ place, tree.locate path = .ok place ∧ tree.root.at? place = some node := by
  rw [node?_eq] at h
  obtain ⟨place, hplace, hat⟩ := Option.bind_eq_some_iff.mp h
  cases hlocate : tree.locate path with
  | error => rw [hlocate] at hplace; cases hplace
  | ok target =>
      rw [hlocate] at hplace
      cases hplace
      exact ⟨place, rfl, hat⟩

/-- Only texts without the character zero lead somewhere, and the empty one does not. -/
lemma FileTree.ne_nil_of_locate (h : tree.locate path = .ok place) :
    path ≠ [] ∧ Char.ofNat 0 ∉ path := by
  constructor
  · rintro rfl
    cases h
  · intro hzero
    rw [locate, if_pos (List.contains_iff_mem.mpr hzero)] at h
    split at h <;> cases h

lemma FileTree.proper_of_node? (hproper : tree.root.Proper) (hnode : tree.node? path = some node) :
    node.Proper := by
  obtain ⟨place, -, hat⟩ := exists_locate_of_node? hnode
  exact hproper.at? hat

/-- A step by the name of an entry leads to what the directory holds under it. -/
lemma FileTree.node?_step (hname : IsEntryName name) :
    (tree.step place name).toOption.bind tree.root.at?
      = (tree.root.at? place).bind (Node.child? name) := by
  have hplace : placeAfter place name = place ++ [name] := by
    simp [placeAfter, hname.ne_nil, hname.ne_point, hname.ne_points]
  have hnext : tree.root.at? (place ++ [name]) = (tree.root.at? place).bind (Node.child? name) := by
    rw [Node.at?_append]
    congr 1
    funext inner
    exact inner.at?_singleton name
  rw [step, hplace]
  cases hat : tree.root.at? place with
  | none => rfl
  | some node => cases node with
    | file => rfl
    | directory entries =>
        rw [hat, Option.bind_some] at hnext
        simp only [hnext, Option.bind_some]
        cases hchild : (Node.directory entries).child? name <;>
          simp [Except.toOption, hnext, hchild]

/-- An entry is found in its directory, and nothing else is found by its name. -/
theorem FileTree.node?_joinPath (hpath : path ≠ []) (hname : IsEntryName name) :
    tree.node? (joinPath path name) = (tree.node? path).bind (Node.child? name) := by
  rw [node?_eq, node?_eq, locate_joinPath hpath hname.no_slash hname.no_zero]
  cases tree.locate path with
  | error => rfl
  | ok place => exact node?_step hname

/-! ### Files in a directory -/

/-- A file stands directly in the directory that a path leads to. -/
def FileTree.HasFile (tree : FileTree) (directory name : List Char) : Prop :=
  ∃ entries content, tree.node? directory = some (.directory entries) ∧
    (name, .file content) ∈ entries

/-- The names of the files in a directory, in their order. -/
def FileTree.fileNames (tree : FileTree) (directory : List Char) : List (List Char) :=
  ((tree.list directory).filter fun entry => entry.2.isFile).map (·.1)

lemma Node.isFile_iff : node.isFile = true ↔ ∃ content, node = .file content := by
  cases node <;> simp [Node.isFile]

lemma FileTree.isFile_iff :
    tree.isFile path = true ↔ ∃ content, tree.node? path = some (.file content) := by
  simp only [isFile, Option.any_eq_true, Node.isFile_iff]
  constructor
  · rintro ⟨node, hnode, content, rfl⟩
    exact ⟨content, hnode⟩
  · rintro ⟨content, hnode⟩
    exact ⟨_, hnode, content, rfl⟩

lemma FileTree.isDirectory_iff :
    tree.isDirectory path = true ↔ ∃ entries, tree.node? path = some (.directory entries) := by
  rw [isDirectory]
  cases tree.node? path with
  | none => simp
  | some node => cases node <;> simp [Node.isDirectory, Node.isFile]

lemma FileTree.mem_list : (name, node) ∈ tree.list directory
    ↔ ∃ entries, tree.node? directory = some (.directory entries) ∧ (name, node) ∈ entries := by
  rw [list]
  cases tree.node? directory with
  | none => simp
  | some found => cases found <;> simp [Node.list]

lemma FileTree.mem_fileNames : name ∈ tree.fileNames directory ↔ tree.HasFile directory name := by
  simp only [fileNames, List.mem_map, List.mem_filter, Prod.exists, exists_and_right,
    exists_eq_right, Node.isFile_iff, mem_list]
  constructor
  · rintro ⟨node, ⟨entries, hnode, hmem⟩, content, rfl⟩
    exact ⟨entries, content, hnode, hmem⟩
  · rintro ⟨entries, content, hnode, hmem⟩
    exact ⟨_, ⟨entries, hnode, hmem⟩, content, rfl⟩

lemma nameBefore_iff {a b : List Char × Node} : nameBefore a b = true ↔ a.1 ≤ b.1 := by
  rw [nameBefore, Bool.not_eq_true', decide_eq_false_iff_not]
  exact not_lt

lemma Node.list_sorted (node : Node) : node.list.Pairwise fun a b => a.1 ≤ b.1 := by
  cases node with
  | file => exact List.Pairwise.nil
  | directory entries =>
      refine List.Pairwise.imp nameBefore_iff.mp (List.pairwise_mergeSort ?_ ?_ entries)
      · intro a b c hab hbc
        exact nameBefore_iff.mpr (le_trans (nameBefore_iff.mp hab) (nameBefore_iff.mp hbc))
      · intro a b
        simpa [nameBefore_iff] using le_total a.1 b.1

lemma FileTree.fileNames_sorted (tree : FileTree) (directory : List Char) :
    (tree.fileNames directory).Pairwise (· ≤ ·) := by
  rw [fileNames, List.pairwise_map, list]
  refine List.Pairwise.filter _ ?_
  cases tree.node? directory with
  | none => exact List.Pairwise.nil
  | some node => exact node.list_sorted

/-- A file of a directory is found by its path. -/
theorem FileTree.HasFile.isFile_joinPath (hproper : tree.root.Proper)
    (h : tree.HasFile directory name) : tree.isFile (joinPath directory name) = true := by
  obtain ⟨entries, content, hnode, hmem⟩ := h
  obtain ⟨place, hplace, -⟩ := exists_locate_of_node? hnode
  have hentries := FileTree.proper_of_node? hproper hnode
  rw [isFile_iff, FileTree.node?_joinPath (ne_nil_of_locate hplace).1 (hentries.entryName hmem),
    hnode]
  exact ⟨content, (lookup_eq_some_iff hentries.entries_nodup).mpr hmem⟩

variable {names : List (List Char)}

lemma isLeast_of_find? (hsorted : names.Pairwise (· ≤ ·)) {p : List Char → Bool}
    (hfind : names.find? p = some name) : IsLeast {name | name ∈ names ∧ p name} name := by
  obtain ⟨hp, before, after, rfl, hbefore⟩ := List.find?_eq_some_iff_append.mp hfind
  refine ⟨⟨by simp, hp⟩, ?_⟩
  rintro other ⟨hother, hpother⟩
  obtain hother | hother := List.mem_append.mp hother
  · have hmissed := hbefore other hother
    rw [hpother] at hmissed
    exact absurd hmissed (by decide)
  · obtain rfl | hother := List.mem_cons.mp hother
    · exact le_refl _
    · exact List.rel_of_pairwise_cons (List.pairwise_append.mp hsorted).2.1 hother

/-- The first hit among sorted names is the least one. -/
theorem find?_eq_some_iff_isLeast (hsorted : names.Pairwise (· ≤ ·)) {p : List Char → Bool} :
    names.find? p = some name ↔ IsLeast {name | name ∈ names ∧ p name} name := by
  refine ⟨isLeast_of_find? hsorted, fun hleast => ?_⟩
  obtain ⟨first, hfirst⟩ : ∃ first, names.find? p = some first := by
    rw [← Option.isSome_iff_exists, List.find?_isSome]
    exact ⟨name, hleast.1⟩
  have hfirstLeast := isLeast_of_find? hsorted hfirst
  rw [hfirst, le_antisymm (hfirstLeast.2 hleast.1) (hleast.2 hfirstLeast.1)]

lemma isGreatest_of_getLast? (hsorted : names.Pairwise (· ≤ ·))
    (hlast : names.getLast? = some name) :
    IsGreatest {name | name ∈ names} name := by
  obtain ⟨before, rfl⟩ := List.getLast?_eq_some_iff.mp hlast
  refine ⟨List.mem_append_right _ (List.mem_singleton_self _), fun other hother => ?_⟩
  obtain hother | hother := List.mem_append.mp hother
  · exact (List.pairwise_append.mp hsorted).2.2 other hother name (List.mem_singleton_self _)
  · obtain rfl := List.mem_singleton.mp hother
    exact le_refl _

/-- The last one of sorted names is the greatest. -/
theorem getLast?_eq_some_iff_isGreatest (hsorted : names.Pairwise (· ≤ ·)) :
    names.getLast? = some name ↔ IsGreatest {name | name ∈ names} name := by
  refine ⟨isGreatest_of_getLast? hsorted, fun hgreatest => ?_⟩
  obtain ⟨last, hlast⟩ : ∃ last, names.getLast? = some last :=
    ⟨_, List.getLast?_eq_some_getLast (List.ne_nil_of_mem hgreatest.1)⟩
  have hlastGreatest := isGreatest_of_getLast? hsorted hlast
  rw [hlast, le_antisymm (hgreatest.2 hlastGreatest.1) (hlastGreatest.2 hgreatest.1)]

end SchemaReader
