import Cirrove.Store.Handoff
import Cirrove.Store.State

/-!
# What the committed views contain

Membership in a listing, row by row: an entry of the snapshot that nothing newer hides,
a newer positive observation, or a row of the committed index. The order of a listing
plays no part here.
-/

namespace Cirrove.Store

open Cirrove.Library

variable {s s' : Store} {scope : Scope} {parent id : String} {revision : Nat} {n : Node}

/-! ## Marks -/

theorem changedAfter_iff {kind : MetadataChangeKind} :
    s.changedAfter scope kind id revision = true ↔
      ∃ r, s.versions.get ⟨scope, kind, id⟩ = some r ∧ revision < r := by
  unfold changedAfter
  cases s.versions.get ⟨scope, kind, id⟩ with
  | none => simp
  | some r => simp

/-! ## Rows of the two queries -/

/-- An entry of the snapshot is shown unless an observation newer than the snapshot
    exists. -/
def EntryShown (s : Store) (scope : Scope) (id : String) (revision : Nat) : Prop :=
  s.observedAfter scope id revision = false ∧ s.absentAfter scope id revision = false

theorem mem_snapshotRows :
    n ∈ s.snapshotRows scope parent revision ↔
      (∃ id, s.directoryEntries.get (scope, parent, id) = some n ∧
        EntryShown s scope id revision) ∨
      (∃ id row, s.observed.get (scope, id) = some row ∧ row.body = n ∧
        n.parentId = some parent ∧ revision < row.sourceRevision ∧
        s.absentAfter scope id revision = false) := by
  unfold snapshotRows EntryShown
  rw [List.mem_append, Table.mem_select, Table.mem_select]
  apply or_congr
  · constructor
    · rintro ⟨⟨sc, p, id⟩, body, hget, hsome⟩
      obtain ⟨⟨rfl, rfl, hobserved, habsent⟩, hbody⟩ := Option.ite_none_right_eq_some.mp hsome
      cases hbody
      exact ⟨id, hget, by simpa using hobserved, by simpa using habsent⟩
    · rintro ⟨id, hget, hobserved, habsent⟩
      exact ⟨(scope, parent, id), n, hget, by simp [hobserved, habsent]⟩
  · constructor
    · rintro ⟨⟨sc, id⟩, row, hget, hsome⟩
      obtain ⟨⟨rfl, hparent, hnewer, habsent⟩, hbody⟩ := Option.ite_none_right_eq_some.mp hsome
      cases hbody
      exact ⟨id, row, hget, rfl, hparent, hnewer, by simpa using habsent⟩
    · rintro ⟨id, row, hget, rfl, hparent, hnewer, habsent⟩
      exact ⟨(scope, id), row, hget, by simp [hparent, hnewer, habsent]⟩

theorem mem_indexedRows :
    n ∈ s.indexedRows scope parent ↔
      (∃ id, s.nodes.get (scope, id) = some n ∧ n.parentId = some parent ∧
        s.observed.get (scope, id) = none ∧ s.observedAbsent.get (scope, id) = none) ∨
      (∃ id row, s.observed.get (scope, id) = some row ∧ row.body = n ∧
        n.parentId = some parent) := by
  unfold indexedRows
  rw [List.mem_append, Table.mem_select, Table.mem_select]
  apply or_congr
  · constructor
    · rintro ⟨⟨sc, id⟩, body, hget, hsome⟩
      obtain ⟨⟨rfl, hparent, hobserved, habsent⟩, hbody⟩ := Option.ite_none_right_eq_some.mp hsome
      cases hbody
      exact ⟨id, hget, hparent, by simpa using hobserved, by simpa using habsent⟩
    · rintro ⟨id, hget, hparent, hobserved, habsent⟩
      exact ⟨(scope, id), n, hget, by simp [hparent, hobserved, habsent]⟩
  · constructor
    · rintro ⟨⟨sc, id⟩, row, hget, hsome⟩
      obtain ⟨⟨rfl, hparent⟩, hbody⟩ := Option.ite_none_right_eq_some.mp hsome
      cases hbody
      exact ⟨id, row, hget, rfl, hparent⟩
    · rintro ⟨id, row, hget, rfl, hparent⟩
      exact ⟨(scope, id), row, hget, by simp [hparent]⟩

/-! ## Known listings -/

/-- `n` is in the listing of a known directory. -/
def Lists (s : Store) (scope : Scope) (parent : String) (n : Node) : Prop :=
  ∃ nodes, s.childrenOn scope parent = some nodes ∧ n ∈ nodes

theorem lists_iff :
    Lists s scope parent n ↔
      ∃ source, s.readSource scope parent false = some source ∧
        n ∈ s.sourceRows scope parent source := by
  unfold Lists childrenOn
  cases s.readSource scope parent false with
  | none => simp
  | some source => simp [List.mem_insertionSort]

theorem mem_getD_childrenOn : n ∈ (s.childrenOn scope parent).getD [] ↔ Lists s scope parent n := by
  unfold Lists
  cases s.childrenOn scope parent with
  | none => simp
  | some nodes => simp

theorem readSource_of_directory {r : Nat} (h : s.directories.get (scope, parent) = some r) :
    s.readSource scope parent false = some (.snapshot r) := by
  unfold readSource
  rw [h]

theorem directory_of_readSource_snapshot {r : Nat}
    (h : s.readSource scope parent false = some (.snapshot r)) :
    s.directories.get (scope, parent) = some r := by
  unfold readSource at h
  split at h
  · next hget =>
    cases h
    exact hget
  · simp only [Bool.false_eq_true, if_false] at h
    split_ifs at h
    cases h

/-- The listing of a known directory, by which query answers for it. -/
theorem lists_cases :
    Lists s scope parent n ↔
      (∃ r, s.directories.get (scope, parent) = some r ∧ n ∈ s.snapshotRows scope parent r) ∨
      (s.readSource scope parent false = some .indexed ∧ n ∈ s.indexedRows scope parent) := by
  rw [lists_iff]
  constructor
  · rintro ⟨source, hsource, hmem⟩
    cases source with
    | snapshot r => exact .inl ⟨r, directory_of_readSource_snapshot hsource, hmem⟩
    | indexed => exact .inr ⟨hsource, hmem⟩
  · rintro (⟨r, hget, hmem⟩ | ⟨hsource, hmem⟩)
    · exact ⟨.snapshot r, readSource_of_directory hget, hmem⟩
    · exact ⟨.indexed, hsource, hmem⟩

/-! ## One item -/

theorem nodeOn_of_absent {r : Nat} (h : s.observedAbsent.get (scope, id) = some r) :
    s.nodeOn scope id = none := by
  simp [nodeOn, h]

theorem nodeOn_of_observed {row : Observed} (habsent : s.observedAbsent.get (scope, id) = none)
    (h : s.observed.get (scope, id) = some row) : s.nodeOn scope id = some row.body := by
  simp [nodeOn, habsent, h]

theorem nodeOn_of_indexed (habsent : s.observedAbsent.get (scope, id) = none)
    (h : s.observed.get (scope, id) = none) :
    s.nodeOn scope id = s.nodes.get (scope, id) := by
  simp [nodeOn, habsent, h]

/-- The view of an item depends on its own three rows only. -/
theorem nodeOn_congr (hobserved : s'.observed.get (scope, id) = s.observed.get (scope, id))
    (habsent : s'.observedAbsent.get (scope, id) = s.observedAbsent.get (scope, id))
    (hnodes : s'.nodes.get (scope, id) = s.nodes.get (scope, id)) :
    s'.nodeOn scope id = s.nodeOn scope id := by
  simp only [nodeOn, hobserved, habsent, hnodes]

end Cirrove.Store
