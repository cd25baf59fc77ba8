import Cirrove.Store.Outcome

/-!
# Invariants of every run

Two invariants hold in every reachable state, whatever the callers do:

- `Sound`: rows carry their identity, no revision is ahead of the clock, an item has no
  positive and negative observation at once, and snapshot entries belong to a directory
  row and name it as their parent;
- `Fenced`: an observation as new as a ticket has left a mark newer than the ticket, on
  the item if it was observed absent and on its parent if it was observed present.

`Fenced` is what the supersession check relies on. It says nothing about the item's own
mark for a positive observation, because an unchanged listing writes none.
-/

namespace Cirrove.Store

open Cirrove.Library

variable {s s' : Store} {op : Op} {reply : Reply}

/-! ## The clock and the marks -/

/-- A mark written by the step from `s` to `s'`. -/
def NewMark (s s' : Store) (k : MarkKey) : Prop :=
  ∃ r, s'.versions.get k = some r ∧ s.revision < r ∧ r ≤ s'.revision

/-- A step keeps a mark, renews it, or lets the mark of the whole scope replace it. -/
structure Advances (s s' : Store) : Prop where
  identity : s'.identity = s.identity
  clock : s.revision ≤ s'.revision
  marks : ∀ k, s'.versions.get k = s.versions.get k ∨ NewMark s s' k ∨
    (s'.versions.get k = none ∧ NewMark s s' ⟨k.scope, .scope, ""⟩)

theorem Effect.Applied.newMark {e : Effect} (h : e.Applied s s') {k : MarkKey} (hk : e.Marks k) :
    NewMark s s' k :=
  ⟨e.marked, h.versions_marked k hk, h.marked_gt, h.marked_le⟩

theorem Effect.Applied.advances {e : Effect} (h : e.Applied s s') : Advances s s' where
  identity := h.identity
  clock := le_trans h.marked_gt.le h.marked_le
  marks := by
    intro k
    by_cases hk : e.Marks k
    · exact .inr (.inl (h.newMark hk))
    · exact .inl (h.versions_kept k hk)

theorem Committed.advances {scope : Scope} {reset : Bool} {cursor : Cursor}
    (h : Committed s scope reset cursor s') : Advances s s' := by
  refine ⟨h.identity, h.clock, ?_⟩
  intro k
  by_cases hscope : k.scope = scope
  · cases reset with
    | true =>
      obtain ⟨r, hgt, hle, hmark, hnone⟩ := h.marks.baseline rfl
      by_cases hk : k = ⟨scope, .scope, ""⟩
      · subst hk
        exact .inr (.inl ⟨r, hmark, hgt, hle⟩)
      · refine .inr (.inr ⟨hnone k hscope hk, r, ?_, hgt, hle⟩)
        rw [hscope]
        exact hmark
    | false =>
      have hdelta := h.marks.delta rfl k hscope
      split at hdelta
      · exact .inr (.inl hdelta)
      · exact .inl hdelta
  · exact .inl (h.marks.other k hscope)

theorem Outcome.advances (h : Outcome s op reply s') : Advances s s' := by
  cases h with
  | answered => exact ⟨rfl, le_rfl, fun _ => .inl rfl⟩
  | granted => exact ⟨rfl, Nat.le_succ _, fun _ => .inl rfl⟩
  | read _ _ happlied => exact happlied.advances
  | notFound _ _ happlied => exact happlied.advances
  | listed _ _ _ _ _ _ _ _ _ _ happlied _ => exact happlied.advances
  | observed _ _ _ _ _ _ happlied _ => exact happlied.advances
  | began _ hbegan =>
    obtain ⟨clock, staged, feeds, rounds, rfl⟩ := hbegan.frame
    exact ⟨rfl, hbegan.clock, fun _ => .inl rfl⟩
  | @paged scope expected page feed _ =>
    obtain ⟨staged, hframe⟩ := stageChanges_frame s scope page.changes
    rw [hframe]
    exact ⟨rfl, le_rfl, fun _ => .inl rfl⟩
  | @committed scope expected page feed _ _ _ _ hcommitted =>
    obtain ⟨staged, hframe⟩ := stageChanges_frame s scope page.changes
    have hadvances := hcommitted.advances
    rw [hframe] at hadvances
    exact ⟨hadvances.identity, hadvances.clock, hadvances.marks⟩

/-- The key, or the whole scope, was marked after `revision`. -/
def Since (s : Store) (scope : Scope) (revision : Nat) (kind : MetadataChangeKind)
    (id : String) : Prop :=
  s.changedAfter scope kind id revision = true ∨ s.changedAfter scope .scope "" revision = true

theorem NewMark.changedAfter {scope : Scope} {kind : MetadataChangeKind} {id : String}
    {revision : Nat} (h : NewMark s s' ⟨scope, kind, id⟩) (hrevision : revision ≤ s.revision) :
    s'.changedAfter scope kind id revision = true := by
  obtain ⟨r, hget, hgt, _⟩ := h
  exact changedAfter_iff.mpr ⟨r, hget, lt_of_le_of_lt hrevision hgt⟩

/-- What was marked after a past revision stays so. -/
theorem Since.mono {scope : Scope} {kind : MetadataChangeKind} {id : String} {revision : Nat}
    (hadvances : Advances s s') (hrevision : revision ≤ s.revision)
    (h : Since s scope revision kind id) : Since s' scope revision kind id := by
  have hkey : ∀ kind id, s.changedAfter scope kind id revision = true →
      Since s' scope revision kind id := by
    intro kind id hchanged
    rcases hadvances.marks ⟨scope, kind, id⟩ with hkept | hnew | ⟨_, hscope⟩
    · obtain ⟨r, hget, hgt⟩ := changedAfter_iff.mp hchanged
      exact .inl (changedAfter_iff.mpr ⟨r, hkept.trans hget, hgt⟩)
    · exact .inl (hnew.changedAfter hrevision)
    · exact .inr (hscope.changedAfter hrevision)
  rcases h with hown | hscope
  · exact hkey kind id hown
  · rcases hkey .scope "" hscope with hscope' | hscope'
    · exact .inr hscope'
    · exact .inr hscope'

/-! ## Sound tables -/

/-- What every table keeps to. -/
structure Sound (s : Store) : Prop where
  keyed : WellKeyed s
  versions_le : ∀ k r, s.versions.get k = some r → r ≤ s.revision
  observed_le : ∀ key row, s.observed.get key = some row → row.sourceRevision ≤ s.revision
  absent_le : ∀ key r, s.observedAbsent.get key = some r → r ≤ s.revision
  directories_le : ∀ key r, s.directories.get key = some r → r ≤ s.revision
  rounds_le : ∀ scope r, s.rounds.get scope = some r → r ≤ s.revision
  exclusive : ∀ key row, s.observed.get key = some row → s.observedAbsent.get key = none
  entry_parent : ∀ scope parent id n, s.directoryEntries.get (scope, parent, id) = some n →
    n.parentId = some parent
  entry_directory : ∀ scope parent id n, s.directoryEntries.get (scope, parent, id) = some n →
    (s.directories.get (scope, parent)).isSome
  source_directory : ∀ scope parent x, s.directorySources.get (scope, parent) = some x →
    (s.directories.get (scope, parent)).isSome

theorem Sound.create (identity : String) : Sound (Store.create identity) where
  keyed := ⟨by simp [Store.create], by simp [Store.create], by simp [Store.create],
    by simp [Store.create]⟩
  versions_le := by simp [Store.create]
  observed_le := by simp [Store.create]
  absent_le := by simp [Store.create]
  directories_le := by simp [Store.create]
  rounds_le := by simp [Store.create]
  exclusive := by simp [Store.create]
  entry_parent := by simp [Store.create]
  entry_directory := by simp [Store.create]
  source_directory := by simp [Store.create]

theorem Advances.versions_le (h : Advances s s')
    (hle : ∀ k r, s.versions.get k = some r → r ≤ s.revision) {k : MarkKey} {r : Nat}
    (hget : s'.versions.get k = some r) : r ≤ s'.revision := by
  rcases h.marks k with hkept | ⟨r', hget', _, hle'⟩ | ⟨hnone, _⟩
  · exact le_trans (hle k r (hkept ▸ hget)) h.clock
  · rw [hget] at hget'
    cases hget'
    exact hle'
  · rw [hget] at hnone
    cases hnone

/-! ### Rows after a publication -/

namespace Effect.Applied

variable {e : Effect} {scope : Scope} {id parent : String}

/-- An observed row was written now or was there before. -/
theorem observed_cases (h : e.Applied s s') {row : Observed}
    (hget : s'.observed.get (scope, id) = some row) :
    (scope = e.scope ∧ ∃ n ∈ e.written, id = n.id ∧ row = ⟨n, e.source⟩) ∨
      (¬ e.Touches scope id ∧ s.observed.get (scope, id) = some row) := by
  by_cases htouch : e.Touches scope id
  · obtain ⟨rfl, hwritten | hhidden⟩ := htouch
    · obtain ⟨n, hn, rfl⟩ := List.mem_map.mp hwritten
      rw [(h.written n hn).1] at hget
      cases hget
      exact .inl ⟨rfl, n, hn, rfl, rfl⟩
    · rw [(h.hidden id hhidden).1] at hget
      cases hget
  · rw [(h.kept scope id htouch).1] at hget
    exact .inr ⟨htouch, hget⟩

theorem absent_cases (h : e.Applied s s') {r : Nat}
    (hget : s'.observedAbsent.get (scope, id) = some r) :
    (scope = e.scope ∧ id ∈ e.hidden ∧ r = e.source) ∨
      (¬ e.Touches scope id ∧ s.observedAbsent.get (scope, id) = some r) := by
  by_cases htouch : e.Touches scope id
  · obtain ⟨rfl, hwritten | hhidden⟩ := htouch
    · obtain ⟨n, hn, rfl⟩ := List.mem_map.mp hwritten
      rw [(h.written n hn).2] at hget
      cases hget
    · rw [(h.hidden id hhidden).2] at hget
      cases hget
      exact .inl ⟨rfl, hhidden, rfl⟩
  · rw [(h.kept scope id htouch).2] at hget
    exact .inr ⟨htouch, hget⟩

/-- A snapshot was taken now or was there before with all of its entries. -/
theorem directory_cases (h : e.Applied s s') (scope : Scope) (parent : String) :
    (scope = e.scope ∧ ∃ bound, e.listing = some (parent, bound) ∧
        s'.directories.get (scope, parent) = some e.source ∧
        (∀ id n, s'.directoryEntries.get (scope, parent, id) = some n →
          n ∈ e.written ∧ n.id = id) ∧
        s'.directorySources.get (scope, parent) = bound.map .bound) ∨
      (¬ e.Replaces scope parent ∧
        s'.directories.get (scope, parent) = s.directories.get (scope, parent) ∧
        (∀ id, s'.directoryEntries.get (scope, parent, id) =
          s.directoryEntries.get (scope, parent, id)) ∧
        s'.directorySources.get (scope, parent) = s.directorySources.get (scope, parent)) := by
  by_cases hreplaces : e.Replaces scope parent
  · obtain ⟨rfl, bound, hlisting⟩ := hreplaces
    obtain ⟨hdirectory, hentries, hnone, hsource⟩ := h.snapshot parent bound hlisting
    refine .inl ⟨rfl, bound, hlisting, hdirectory, ?_, hsource⟩
    intro id n hget
    by_cases hmem : id ∈ e.written.map Node.id
    · obtain ⟨m, hm, rfl⟩ := List.mem_map.mp hmem
      rw [hentries m hm] at hget
      cases hget
      exact ⟨hm, rfl⟩
    · rw [hnone id hmem] at hget
      cases hget
  · exact .inr ⟨hreplaces, h.unlisted scope parent hreplaces⟩

theorem keyed (h : e.Applied s s') (hs : WellKeyed s) : WellKeyed s' where
  observed := by
    intro scope id row hget
    rcases h.observed_cases hget with ⟨_, n, _, rfl, rfl⟩ | ⟨_, hold⟩
    · rfl
    · exact hs.observed scope id row hold
  nodes := by
    rw [h.nodes]
    exact hs.nodes
  staged := by
    rw [h.staged]
    exact hs.staged
  entries := by
    intro scope parent id n hget
    rcases h.directory_cases scope parent with ⟨_, _, _, _, hentries, _⟩ | ⟨_, _, hentries, _⟩
    · exact (hentries id n hget).2
    · exact hs.entries scope parent id n ((hentries id).symm.trans hget)

theorem sound (h : e.Applied s s') (hcovered : e.Covered s) (hsource : e.source ≤ s'.revision)
    (hs : Sound s) : Sound s' := by
  have hclock := h.advances.clock
  refine { keyed := h.keyed hs.keyed, versions_le := ?_, observed_le := ?_, absent_le := ?_,
           directories_le := ?_, rounds_le := ?_, exclusive := ?_, entry_parent := ?_,
           entry_directory := ?_, source_directory := ?_ }
  · intro k r hget
    exact h.advances.versions_le hs.versions_le hget
  · intro key row hget
    obtain ⟨scope, id⟩ := key
    rcases h.observed_cases hget with ⟨_, n, _, _, rfl⟩ | ⟨_, hold⟩
    · exact hsource
    · exact le_trans (hs.observed_le _ _ hold) hclock
  · intro key r hget
    obtain ⟨scope, id⟩ := key
    rcases h.absent_cases hget with ⟨_, _, rfl⟩ | ⟨_, hold⟩
    · exact hsource
    · exact le_trans (hs.absent_le _ _ hold) hclock
  · intro key r hget
    obtain ⟨scope, parent⟩ := key
    rcases h.directory_cases scope parent with ⟨_, _, _, hnew, _⟩ | ⟨_, hold, _⟩
    · rw [hnew] at hget
      cases hget
      exact hsource
    · exact le_trans (hs.directories_le _ _ (hold.symm.trans hget)) hclock
  · intro scope r hget
    rw [h.rounds] at hget
    exact le_trans (hs.rounds_le scope r hget) hclock
  · intro key row hget
    obtain ⟨scope, id⟩ := key
    rcases h.observed_cases hget with ⟨rfl, n, hn, rfl, _⟩ | ⟨htouch, hold⟩
    · exact (h.written n hn).2
    · exact (h.kept scope id htouch).2.trans (hs.exclusive _ _ hold)
  · intro scope parent id n hget
    rcases h.directory_cases scope parent with
      ⟨_, bound, hlisting, _, hentries, _⟩ | ⟨_, _, hentries, _⟩
    · exact hcovered.listed_parent parent bound hlisting n (hentries id n hget).1
    · exact hs.entry_parent scope parent id n ((hentries id).symm.trans hget)
  · intro scope parent id n hget
    rcases h.directory_cases scope parent with ⟨_, _, _, hnew, _⟩ | ⟨_, hold, hentries, _⟩
    · simp [hnew]
    · rw [hold]
      exact hs.entry_directory scope parent id n ((hentries id).symm.trans hget)
  · intro scope parent x hget
    rcases h.directory_cases scope parent with ⟨_, _, _, hnew, _⟩ | ⟨_, hold, _, hsources⟩
    · simp [hnew]
    · rw [hold]
      exact hs.source_directory scope parent x (hsources.symm.trans hget)

end Effect.Applied

/-! ### Rows after a page -/

/-- Staging a page keeps the tables sound: the last change of an item is staged under its
    own identity. -/
theorem Sound.stageChange (hs : Sound s) (scope : Scope) (change : Change) :
    Sound (s.stageChange scope change) := by
  refine { hs with keyed := ⟨hs.keyed.observed, hs.keyed.nodes, ?_, hs.keyed.entries⟩ }
  intro sc id n hget
  simp only [Store.stageChange, Table.get_set] at hget
  split at hget
  · next hkey =>
    obtain ⟨rfl, rfl⟩ := Prod.mk.inj hkey
    cases change with
    | upsert node =>
      cases hget
      rfl
    | delete x => cases hget
  · exact hs.keyed.staged sc id n hget

theorem Sound.stageChanges (hs : Sound s) (scope : Scope) (changes : List Change) :
    Sound (s.stageChanges scope changes) := by
  induction changes generalizing s with
  | nil => exact hs
  | cons change changes ih => exact ih (hs.stageChange scope change)

theorem Committed.sound {u : Store} {scope : Scope} {reset : Bool} {cursor : Cursor}
    (h : Committed u scope reset cursor s') (hu : Sound u) : Sound s' := by
  refine { keyed := ⟨?_, ?_, ?_, ?_⟩, versions_le := ?_, observed_le := ?_, absent_le := ?_,
           directories_le := ?_, rounds_le := ?_, exclusive := ?_, entry_parent := ?_,
           entry_directory := ?_, source_directory := ?_ }
  · intro sc id row hget
    exact hu.keyed.observed sc id row ((h.observed sc id row).mp hget).1
  · intro sc id n hget
    by_cases hsc : sc = scope
    · subst hsc
      cases hstaged : u.staged.get (sc, id) with
      | some body =>
        rw [h.nodes_staged id body hstaged] at hget
        rw [hget] at hstaged
        exact hu.keyed.staged sc id n hstaged
      | none =>
        rw [h.nodes_kept id hstaged] at hget
        split at hget
        · cases hget
        · exact hu.keyed.nodes sc id n hget
    · rw [h.nodes_other sc id hsc] at hget
      exact hu.keyed.nodes sc id n hget
  · intro sc id n hget
    by_cases hsc : sc = scope
    · subst hsc
      rw [h.staged_own id] at hget
      cases hget
    · rw [h.staged_other sc id hsc] at hget
      exact hu.keyed.staged sc id n hget
  · intro sc parent id n hget
    exact hu.keyed.entries sc parent id n ((h.entries sc parent id n).mp hget).1
  · intro k r hget
    exact h.advances.versions_le hu.versions_le hget
  · intro key row hget
    exact le_trans (hu.observed_le _ _ ((h.observed _ _ row).mp hget).1) h.clock
  · intro key r hget
    exact le_trans (hu.absent_le _ _ ((h.absent _ _ r).mp hget).1) h.clock
  · intro key r hget
    exact le_trans (hu.directories_le _ _ ((h.directories _ _ r).mp hget).1) h.clock
  · intro sc r hget
    rw [h.rounds] at hget
    exact le_trans (hu.rounds_le sc r hget) h.clock
  · intro key row hget
    have hnone := hu.exclusive _ _ ((h.observed _ _ row).mp hget).1
    cases habsent : s'.observedAbsent.get key with
    | none => rfl
    | some r =>
      rw [((h.absent key.1 key.2 r).mp habsent).1] at hnone
      cases hnone
  · intro sc parent id n hget
    exact hu.entry_parent sc parent id n ((h.entries sc parent id n).mp hget).1
  · intro sc parent id n hget
    obtain ⟨hold, hkept⟩ := (h.entries sc parent id n).mp hget
    exact hkept (hu.entry_directory sc parent id n hold)
  · intro sc parent x hget
    obtain ⟨hold, hkept⟩ := (h.sources sc parent x).mp hget
    exact hkept (hu.source_directory sc parent x hold)

theorem Began.sound (h : Began s s') (hs : Sound s) : Sound s' := by
  obtain ⟨clock, staged, feeds, rounds, rfl⟩ := h.frame
  exact {
    keyed := ⟨hs.keyed.observed, hs.keyed.nodes,
      fun sc id n hget => hs.keyed.staged sc id n (h.staged _ _ hget), hs.keyed.entries⟩
    versions_le := fun k r hget => le_trans (hs.versions_le k r hget) h.clock
    observed_le := fun key row hget => le_trans (hs.observed_le key row hget) h.clock
    absent_le := fun key r hget => le_trans (hs.absent_le key r hget) h.clock
    directories_le := fun key r hget => le_trans (hs.directories_le key r hget) h.clock
    rounds_le := fun sc r hget => (h.rounds sc r hget).elim
      (fun hold => le_trans (hs.rounds_le sc r hold) h.clock) id
    exclusive := hs.exclusive
    entry_parent := hs.entry_parent
    entry_directory := hs.entry_directory
    source_directory := hs.source_directory }

/-- Every committed operation keeps the tables sound. -/
theorem Outcome.sound (h : Outcome s op reply s') (hs : Sound s)
    (hticket : ∀ t, op.ticket = some t → t.database = s.identity → t.revision ≤ s.revision) :
    Sound s' := by
  cases h with
  | answered => exact hs
  | granted =>
    have hclock : s.revision ≤ s.revision + 1 := Nat.le_succ _
    exact { hs with
      keyed := ⟨hs.keyed.observed, hs.keyed.nodes, hs.keyed.staged, hs.keyed.entries⟩
      versions_le := fun k r hget => le_trans (hs.versions_le k r hget) hclock
      observed_le := fun key row hget => le_trans (hs.observed_le key row hget) hclock
      absent_le := fun key r hget => le_trans (hs.absent_le key r hget) hclock
      directories_le := fun key r hget => le_trans (hs.directories_le key r hget) hclock
      rounds_le := fun sc r hget => le_trans (hs.rounds_le sc r hget) hclock }
  | @read t _ _ _ _ haccepted happlied =>
    have hle := hticket t rfl haccepted.database.symm
    exact happlied.sound (nodesEffect_covered _ _ _ _ _)
      (le_trans hle happlied.advances.clock) hs
  | @notFound t _ _ _ _ haccepted happlied =>
    have hle := hticket t rfl haccepted.database.symm
    exact happlied.sound (absenceEffect_covered _ _ _ _)
      (le_trans hle happlied.advances.clock) hs
  | @listed _ _ t _ _ _ _ hop _ _ _ _ haccepted _ hsource _ _ happlied hcovered =>
    have hle := hticket t hop haccepted.database.symm
    exact happlied.sound hcovered
      (hsource ▸ le_trans hle happlied.advances.clock) hs
  | observed _ _ _ _ hclock _ happlied hcovered => exact happlied.sound hcovered hclock hs
  | began _ hbegan => exact hbegan.sound hs
  | @paged scope expected page feed _ =>
    have hstaged := hs.stageChanges scope page.changes
    exact { hstaged with keyed := ⟨hstaged.keyed.observed, hstaged.keyed.nodes,
      hstaged.keyed.staged, hstaged.keyed.entries⟩ }
  | @committed scope expected page _ _ _ _ _ hcommitted =>
    exact hcommitted.sound (hs.stageChanges scope page.changes)

/-! ## Tickets are fenced -/

/-- An observation at least as new as `revision` has left a newer mark. -/
structure FencedAt (s : Store) (scope : Scope) (revision : Nat) : Prop where
  present : ∀ id row, s.observed.get (scope, id) = some row → revision ≤ row.sourceRevision →
    ∀ parent, row.body.parentId = some parent → Since s scope revision .directory parent
  rootless : ∀ id row, s.observed.get (scope, id) = some row → revision ≤ row.sourceRevision →
    row.body.parentId = none → Since s scope revision .item id
  absent : ∀ id r, s.observedAbsent.get (scope, id) = some r → revision ≤ r →
    Since s scope revision .item id

/-- A row that was there before is still fenced. -/
theorem FencedAt.of_rows {scope : Scope} {revision : Nat} (hadvances : Advances s s')
    (hrevision : revision ≤ s.revision) (h : FencedAt s scope revision)
    (hobserved : ∀ id row, s'.observed.get (scope, id) = some row →
      s.observed.get (scope, id) = some row)
    (habsent : ∀ id r, s'.observedAbsent.get (scope, id) = some r →
      s.observedAbsent.get (scope, id) = some r) : FencedAt s' scope revision where
  present := by
    intro id row hget hle parent hparent
    exact (h.present id row (hobserved id row hget) hle parent hparent).mono hadvances hrevision
  rootless := by
    intro id row hget hle hroot
    exact (h.rootless id row (hobserved id row hget) hle hroot).mono hadvances hrevision
  absent := by
    intro id r hget hle
    exact (h.absent id r (habsent id r hget) hle).mono hadvances hrevision

theorem Effect.Applied.fencedAt {e : Effect} {scope : Scope} {revision : Nat}
    (happlied : e.Applied s s') (hcovered : e.Covered s) (hrevision : revision ≤ s.revision)
    (h : FencedAt s scope revision) : FencedAt s' scope revision := by
  have hadvances := happlied.advances
  -- A row written now has its mark from this very publication.
  have hitem : ∀ id, scope = e.scope → id ∈ e.items → Since s' scope revision .item id := by
    intro id hscope hid
    subst hscope
    exact .inl ((happlied.newMark ⟨rfl, .inl ⟨rfl, hid⟩⟩).changedAfter hrevision)
  have hdirectory : ∀ p, scope = e.scope → p ∈ e.directories →
      Since s' scope revision .directory p := by
    intro p hscope hp
    subst hscope
    exact .inl ((happlied.newMark ⟨rfl, .inr ⟨rfl, hp⟩⟩).changedAfter hrevision)
  refine ⟨?_, ?_, ?_⟩
  · intro id row hget hle parent hparent
    rcases happlied.observed_cases hget with ⟨hscope, n, hn, rfl, rfl⟩ | ⟨_, hold⟩
    · exact hdirectory parent hscope (hcovered.written_parent n hn parent hparent)
    · exact (h.present id row hold hle parent hparent).mono hadvances hrevision
  · intro id row hget hle hroot
    rcases happlied.observed_cases hget with ⟨hscope, n, hn, rfl, rfl⟩ | ⟨_, hold⟩
    · exact hitem n.id hscope (hcovered.written_root n hn hroot)
    · exact (h.rootless id row hold hle hroot).mono hadvances hrevision
  · intro id r hget hle
    rcases happlied.absent_cases hget with ⟨hscope, hid, _⟩ | ⟨_, hold⟩
    · exact hitem id hscope (hcovered.hidden_item id hid)
    · exact (h.absent id r hold hle).mono hadvances hrevision

theorem Outcome.fencedAt {scope : Scope} {revision : Nat} (houtcome : Outcome s op reply s')
    (hrevision : revision ≤ s.revision) (h : FencedAt s scope revision) :
    FencedAt s' scope revision := by
  have hadvances := houtcome.advances
  cases houtcome with
  | answered => exact h
  | granted => exact h.of_rows hadvances hrevision (fun _ _ hget => hget) (fun _ _ hget => hget)
  | read _ _ happlied => exact happlied.fencedAt (nodesEffect_covered _ _ _ _ _) hrevision h
  | notFound _ _ happlied => exact happlied.fencedAt (absenceEffect_covered _ _ _ _) hrevision h
  | listed _ _ _ _ _ _ _ _ _ _ happlied hcovered => exact happlied.fencedAt hcovered hrevision h
  | observed _ _ _ _ _ _ happlied hcovered => exact happlied.fencedAt hcovered hrevision h
  | began _ hbegan =>
    obtain ⟨clock, staged, feeds, rounds, rfl⟩ := hbegan.frame
    exact h.of_rows hadvances hrevision (fun _ _ hget => hget) (fun _ _ hget => hget)
  | @paged sc expected page feed _ =>
    obtain ⟨staged, hframe⟩ := stageChanges_frame s sc page.changes
    rw [hframe] at hadvances ⊢
    exact h.of_rows hadvances hrevision (fun _ _ hget => hget) (fun _ _ hget => hget)
  | @committed sc expected page feed _ _ _ _ hcommitted =>
    obtain ⟨staged, hframe⟩ := stageChanges_frame s sc page.changes
    rw [hframe] at hcommitted
    exact h.of_rows hadvances hrevision
      (fun id row hget => ((hcommitted.observed scope id row).mp hget).1)
      (fun id r hget => ((hcommitted.absent scope id r).mp hget).1)

/-! ## Reachable worlds -/

/-- What holds of a database and of the tickets it handed out. -/
structure Inv (w : World) : Prop where
  sound : Sound w.store
  ticket_database : ∀ t, w.Granted t → t.database = w.store.identity
  ticket_le : ∀ t, w.Granted t → t.revision ≤ w.store.revision
  fenced : ∀ t, w.Granted t → FencedAt w.store t.scope t.revision

theorem World.step_cases (w : World) (op : Op) :
    (w.step op = w) ∨ ∃ reply s', w.store.exec op = .ok (reply, s') ∧
      w.step op = ⟨s', w.log ++ [(op, reply)]⟩ := by
  unfold World.step
  cases hexec : w.store.exec op with
  | error e => exact .inl rfl
  | ok result => exact .inr ⟨result.1, result.2, rfl, rfl⟩

theorem World.granted_append {s : Store} {log : List (Op × Reply)} {t : ObservationTicket}
    (h : World.Granted ⟨s', log ++ [(op, reply)]⟩ t) :
    World.Granted ⟨s, log⟩ t ∨ reply = .ticket t := by
  obtain ⟨op', hmem⟩ := h
  rcases List.mem_append.mp hmem with hold | hnew
  · exact .inl ⟨op', hold⟩
  · cases List.mem_singleton.mp hnew
    exact .inr rfl

theorem Inv.create (identity : String) : Inv (World.create identity) where
  sound := Sound.create identity
  ticket_database := by
    intro t h
    obtain ⟨op, hmem⟩ := h
    cases hmem
  ticket_le := by
    intro t h
    obtain ⟨op, hmem⟩ := h
    cases hmem
  fenced := by
    intro t h
    obtain ⟨op, hmem⟩ := h
    cases hmem

/-- A permitted reply that the database does not refuse carries one of its own tickets. -/
theorem Permitted.granted {w : World} (h : Permitted w op) {t : ObservationTicket}
    (hop : op.ticket = some t) (hdatabase : t.database = w.store.identity) : w.Granted t := by
  rcases h.1 t hop with hgranted | hforeign
  · exact hgranted
  · exact absurd hdatabase hforeign

theorem Permitted.of_ticketless {w : World} (hop : op.ticket = none)
    (hwellFormed : op.wellFormed) : Permitted w op := by
  refine ⟨?_, hwellFormed⟩
  intro t ht
  rw [hop] at ht
  cases ht

theorem Permitted.of_granted {w : World} {t : ObservationTicket} (hop : op.ticket = some t)
    (hgranted : w.Granted t) (hwellFormed : op.wellFormed) : Permitted w op := by
  refine ⟨?_, hwellFormed⟩
  intro t' ht'
  rw [hop] at ht'
  cases ht'
  exact .inl hgranted

/-- What a permitted operation does in a state the invariant holds of. -/
theorem Inv.outcome {w : World} (hinv : Inv w) (hpermitted : Permitted w op)
    (hexec : w.store.exec op = .ok (reply, s')) : Outcome w.store op reply s' :=
  exec_outcome hinv.sound.keyed hpermitted.2 hexec

theorem Inv.step {w : World} (hinv : Inv w) (hpermitted : Permitted w op) : Inv (w.step op) := by
  rcases w.step_cases op with hsame | ⟨reply, s', hexec, hstep⟩
  · rw [hsame]
    exact hinv
  · rw [hstep]
    have houtcome := hinv.outcome hpermitted hexec
    have hadvances := houtcome.advances
    have hsound : Sound s' := houtcome.sound hinv.sound (fun t hop hdatabase =>
      hinv.ticket_le t (hpermitted.granted hop hdatabase))
    -- A ticket is either an old one, or the one this step has handed out.
    have hcases : ∀ t, World.Granted ⟨s', w.log ++ [(op, reply)]⟩ t →
        w.Granted t ∨ reply = .ticket t := fun t h => World.granted_append h
    have hnew : ∀ t, reply = .ticket t → t.database = w.store.identity ∧
        t.revision = w.store.revision + 1 ∧
        s' = { w.store with revision := w.store.revision + 1 } := by
      intro t ht
      cases houtcome with
      | granted =>
        cases ht
        exact ⟨rfl, rfl, rfl⟩
      | answered _ hticket => exact absurd ht (hticket t)
      | listed _ _ _ hreply => exact absurd ht (hreply t)
      | observed _ _ hticket => exact absurd ht (hticket t)
      | read => cases ht
      | notFound => cases ht
      | began => cases ht
      | paged => cases ht
      | committed => cases ht
    refine ⟨hsound, ?_, ?_, ?_⟩
    · intro t ht
      rcases hcases t ht with hold | hticket
      · exact (hinv.ticket_database t hold).trans hadvances.identity.symm
      · exact (hnew t hticket).1.trans hadvances.identity.symm
    · intro t ht
      rcases hcases t ht with hold | hticket
      · exact le_trans (hinv.ticket_le t hold) hadvances.clock
      · obtain ⟨_, hrevision, rfl⟩ := hnew t hticket
        exact hrevision.le
    · intro t ht
      rcases hcases t ht with hold | hticket
      · exact houtcome.fencedAt (hinv.ticket_le t hold) (hinv.fenced t hold)
      · -- Nothing recorded so far is as new as a new ticket.
        obtain ⟨_, hrevision, rfl⟩ := hnew t hticket
        refine ⟨?_, ?_, ?_⟩
        · intro id row hget hle
          have hold := hinv.sound.observed_le _ _ hget
          omega
        · intro id row hget hle
          have hold := hinv.sound.observed_le _ _ hget
          omega
        · intro id r hget hle
          have hold := hinv.sound.absent_le _ _ hget
          omega

/-- The invariant holds after every run. -/
theorem Reachable.inv {w : World} (h : Reachable w) : Inv w := by
  obtain ⟨identity, ops, hrun⟩ := h
  exact hrun.invariant Inv (Inv.create identity) (fun w op hinv hpermitted => hinv.step hpermitted)

end Cirrove.Store
