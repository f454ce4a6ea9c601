/-
The words of table calls.

* `isWord_of_makes`: what a group remembers whose body is a word;
* `TableCall.Worded`: the variable of a table call, the keys of its columns and what these point at
  are words, with `worded_of_mem_tables`: those of every table that is found are.
-/
import SchemaReader.Proofs.Pattern.Groups
import SchemaReader.Proofs.Pattern.Words
import SchemaReader.TableModule.Module

namespace SchemaReader.TableModule

open Pattern (word)
open Text (IsWord)

variable {q : Pattern} {found : Match} {n : Nat} {binding : String} {arguments : List (List Char)}
  {text chain : List Char} {call : TableCall} {entry : ColumnEntry}

/-- A group whose body is a word remembers one. -/
lemma isWord_of_makes (h : q.Makes found) (hn : q.remembers n = true)
    (hgroups : ∀ body ∈ q.groups, body.2 = word) : IsWord (found.group n) := by
  obtain ⟨body, hbody, -, before, rest, hread⟩ := h.exists_reads hn
  rw [hgroups body hbody] at hread
  exact Pattern.isWord_of_reads hread

lemma groups_tableHead : tableHead.groups = [(1, word)] := rfl

lemma groups_columnHead : columnHead.groups = [(1, word), (2, word)] := rfl

lemma groups_referencesCall : referencesCall.groups = [(1, word), (2, word)] := rfl

/-- The names in a table call that stand outside of literals are words. -/
structure TableCall.Worded (call : TableCall) : Prop where
  binding : IsWord call.binding.toList
  key : ∀ entry, Entry.column entry ∈ call.entries → IsWord entry.name.toList
  references : ∀ entry, Entry.column entry ∈ call.entries → ∀ r ∈ entry.references,
    IsWord r.1.toList ∧ IsWord r.2.toList

lemma isWord_name_ofChain {head : Match} (h : columnHead.Makes head) :
    IsWord (ColumnEntry.ofChain head chain).name.toList := by
  have hkey : IsWord (head.group 1) := isWord_of_makes h (by decide) (by simp [groups_columnHead])
  simpa [ColumnEntry.ofChain] using hkey

lemma isWord_references_ofChain (head : Match) :
    ∀ r ∈ (ColumnEntry.ofChain head chain).references, IsWord r.1.toList ∧ IsWord r.2.toList := by
  intro r hr
  obtain ⟨found, hfound, rfl⟩ := Option.map_eq_some_iff.mp hr
  have hmakes := Pattern.makes_of_find? (by decide) hfound
  have hword : ∀ n, referencesCall.remembers n = true → IsWord (found.group n) := fun n hn =>
    isWord_of_makes hmakes hn (by simp [groups_referencesCall])
  exact ⟨by simpa using hword 1 (by decide), by simpa using hword 2 (by decide)⟩

lemma exists_ofChain (h : Entry.ofText text = .column entry) :
    ∃ head chain, columnHead.Makes head ∧ entry = .ofChain head chain := by
  rw [Entry.ofText] at h
  split at h
  · simp at h
  · next head hhead =>
      split at h
      · simp at h
      · next inner _ =>
          exact ⟨head, inner.2, Pattern.makes_of_find? (by decide) hhead, (Entry.column.inj h).symm⟩

lemma ok_mem_calls {contents : Contents} (h : call ∈ contents.tables) :
    .ok call ∈ contents.calls := by
  obtain ⟨result, hresult, hcall⟩ := List.mem_filterMap.mp h
  cases result with
  | error fault => simp [Except.toOption] at hcall
  | ok read => rwa [Option.some.inj hcall] at hresult

lemma exists_ofArguments (h : TableCall.ofMatch found = .ok call) :
    ∃ arguments, TableCall.ofArguments (String.ofList (found.group 1)) arguments = .ok call := by
  rw [TableCall.ofMatch] at h
  split at h
  · simp at h
  · exact ⟨_, h⟩

lemma exists_entriesOf (h : TableCall.ofArguments binding arguments = .ok call) :
    call.binding = binding ∧ ∃ object, call.entries = entriesOf object := by
  rw [TableCall.ofArguments] at h
  split at h
  · simp at h
  · split at h
    · obtain rfl := Except.ok.inj h
      exact ⟨rfl, _, rfl⟩
    · simp at h

/-- The names in every table that is found are words. -/
theorem worded_of_mem_tables (h : call ∈ (Contents.ofText text).tables) : call.Worded := by
  obtain ⟨found, hfound, hcall⟩ := List.mem_map.mp (ok_mem_calls h)
  obtain ⟨arguments, harguments⟩ := exists_ofArguments hcall
  obtain ⟨hbinding, object, hentries⟩ := exists_entriesOf harguments
  have hentry : ∀ entry, Entry.column entry ∈ call.entries →
      ∃ head chain, columnHead.Makes head ∧ entry = .ofChain head chain := by
    intro entry hmem
    obtain ⟨piece, -, hpiece⟩ := List.mem_map.mp (hentries ▸ hmem)
    exact exists_ofChain hpiece
  have hvariable : IsWord (found.group 1) :=
    isWord_of_makes (Pattern.makes_of_mem_findAll (by decide) hfound) (by decide)
      (by simp [groups_tableHead])
  refine ⟨by simpa [hbinding] using hvariable, fun entry hmem => ?_, fun entry hmem => ?_⟩
  · obtain ⟨head, chain, hhead, rfl⟩ := hentry entry hmem
    exact isWord_name_ofChain hhead
  · obtain ⟨head, chain, -, rfl⟩ := hentry entry hmem
    exact isWord_references_ofChain head

end SchemaReader.TableModule
