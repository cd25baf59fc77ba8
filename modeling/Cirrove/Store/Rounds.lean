import Cirrove.Store.Specs

/-!
# Specifications of the feed operations

What `begin`, `begin_snapshot` and `stage` do to the tables. `Committed` lists the
contents of every table after a terminal page.
-/

namespace Cirrove.Store

open Cirrove.Library

variable {s s' : Store} {scope : Scope}

/-! ## Beginning a round -/

/-- Beginning a round throws pages away and records where it started. -/
structure Began (s s' : Store) : Prop where
  frame : ∃ clock staged feeds rounds, s' = { s with
    revision := clock, staged := staged, feeds := feeds, rounds := rounds }
  clock : s.revision ≤ s'.revision
  staged : ∀ key body, s'.staged.get key = some body → s.staged.get key = some body
  rounds : ∀ scope r, s'.rounds.get scope = some r →
    s.rounds.get scope = some r ∨ r ≤ s'.revision
  cursor : ∀ scope, s'.cursor scope = s.cursor scope

theorem startRound_eq_ok (h : s.startRound scope = .ok s') :
    s' = { s with revision := s.revision + 1, rounds := s.rounds.set scope (s.revision + 1) } := by
  unfold startRound at h
  obtain ⟨⟨r, s₁⟩, hadvance, h⟩ := bind_eq_ok h
  obtain ⟨rfl, rfl⟩ := advance_eq_ok hadvance
  cases h
  rfl

/-- Setting a feed row keeps every completed cursor if the row keeps its own. -/
theorem cursor_setFeed (s : Store) {feed : Feed} (h : feed.cursor = s.cursor scope)
    (sc : Scope) : (s.setFeed scope feed).cursor sc = s.cursor sc := by
  unfold Store.cursor setFeed
  by_cases hsc : sc = scope
  · subst hsc
    simp only [Table.get_set_self, Option.bind_some]
    exact h
  · rw [Table.get_set_of_ne _ _ hsc]

theorem feedRow_cursor (s : Store) (scope : Scope) : (s.feedRow scope).cursor = s.cursor scope := by
  unfold feedRow Store.cursor
  cases s.feeds.get scope with
  | none => rfl
  | some feed => rfl

/-- Starting a round, with or without throwing away the pages. -/
theorem Began.of_start (s : Store) (scope : Scope) (staged : Table (Scope × String) (Option Node))
    (feed : Feed)
    (hstaged : ∀ key body, staged.get key = some body → s.staged.get key = some body)
    (hcursor : feed.cursor = s.cursor scope) :
    Began s { s with
      revision := s.revision + 1, rounds := s.rounds.set scope (s.revision + 1)
      staged := staged, feeds := s.feeds.set scope feed } where
  frame := ⟨_, _, _, _, rfl⟩
  clock := Nat.le_succ _
  staged := hstaged
  rounds := by
    intro sc r hr
    rw [Table.get_set] at hr
    split at hr
    · cases hr
      exact .inr le_rfl
    · exact .inl hr
  cursor := cursor_setFeed s hcursor

theorem Began.of_resume (s : Store) (feed : Feed) (hcursor : feed.cursor = s.cursor scope) :
    Began s (s.setFeed scope feed) where
  frame := ⟨_, _, _, _, rfl⟩
  clock := le_rfl
  staged := fun _ _ h => h
  rounds := fun _ _ h => .inl h
  cursor := cursor_setFeed s hcursor

theorem get_clearStaged {key : Scope × String} {body : Option Node}
    (h : (s.clearStaged scope).staged.get key = some body) : s.staged.get key = some body := by
  unfold clearStaged at h
  rw [Table.get_deleteWhere] at h
  exact (Option.filter_eq_some_iff.mp h).1

theorem begin_began {reset : Bool} {c : Option Cursor} (h : s.begin scope reset = .ok (c, s')) :
    Began s s' := by
  unfold begin at h
  dsimp only at h
  split at h
  · obtain ⟨s₁, hstart, h⟩ := bind_eq_ok h
    cases h
    rw [startRound_eq_ok hstart]
    exact Began.of_start s scope _ _ (fun key body hbody => get_clearStaged (s := s) hbody)
      (feedRow_cursor s scope)
  · split at h
    · cases h
      exact Began.of_resume s _ (feedRow_cursor s scope)
    · obtain ⟨s₁, hstart, h⟩ := bind_eq_ok h
      cases h
      rw [startRound_eq_ok hstart]
      exact Began.of_start s scope _ _ (fun key body hbody => hbody) (feedRow_cursor s scope)

theorem beginSnapshot_began {c : Option Cursor} (h : s.beginSnapshot scope = .ok (c, s')) :
    Began s s' := by
  unfold beginSnapshot at h
  dsimp only at h
  split at h
  · cases h
    exact Began.of_resume s _ (feedRow_cursor s scope)
  · obtain ⟨s₁, hstart, h⟩ := bind_eq_ok h
    cases h
    rw [startRound_eq_ok hstart]
    exact Began.of_start s scope _ _ (fun key body hbody => get_clearStaged (s := s) hbody)
      (feedRow_cursor s scope)

/-! ## Taking in a page -/

/-- `stageChanges` touches the staged table only. -/
theorem stageChanges_frame (s : Store) (scope : Scope) (changes : List Change) :
    ∃ staged, s.stageChanges scope changes = { s with staged := staged } := by
  induction changes generalizing s with
  | nil => exact ⟨s.staged, rfl⟩
  | cons c changes ih =>
    obtain ⟨staged, h⟩ := ih (s.stageChange scope c)
    exact ⟨staged, h⟩

/-- The marks a terminal page leaves. -/
structure RoundMarks (u : Store) (scope : Scope) (reset : Bool) (s' : Store) : Prop where
  other : ∀ k, k.scope ≠ scope → s'.versions.get k = u.versions.get k
  baseline : reset = true → ∃ r, u.revision < r ∧ r ≤ s'.revision ∧
    s'.versions.get ⟨scope, .scope, ""⟩ = some r ∧
    ∀ k, k.scope = scope → k ≠ ⟨scope, .scope, ""⟩ → s'.versions.get k = none
  delta : reset = false → ∀ k, k.scope = scope →
    if (k.kind = .item ∧ k.identity ∈ u.stagedIds scope) ∨
        (k.kind = .directory ∧ k.identity ∈ u.touchedDirectories scope) then
      ∃ r, s'.versions.get k = some r ∧ u.revision < r ∧ r ≤ s'.revision
    else s'.versions.get k = u.versions.get k

/-- Does the terminal page of a round replace what was learned at `revision`? -/
def Replaced (u : Store) (scope : Scope) (reset : Bool) (ids : List String) (sc : Scope)
    (id : String) (revision : Nat) : Prop :=
  sc = scope ∧ u.beforeRound scope revision = true ∧ (reset = true ∨ id ∈ ids)

/-- The tables after the terminal page; `u` is the store with the page staged. -/
structure Committed (u : Store) (scope : Scope) (reset : Bool) (cursor : Cursor) (s' : Store) :
    Prop where
  identity : s'.identity = u.identity
  clock : u.revision ≤ s'.revision
  marks : RoundMarks u scope reset s'
  observed : ∀ sc id row, s'.observed.get (sc, id) = some row ↔
    u.observed.get (sc, id) = some row ∧
      ¬ Replaced u scope reset (u.stagedIds scope) sc id row.sourceRevision
  absent : ∀ sc id r, s'.observedAbsent.get (sc, id) = some r ↔
    u.observedAbsent.get (sc, id) = some r ∧
      ¬ Replaced u scope reset (u.stagedIds scope) sc id r
  directories : ∀ sc p r, s'.directories.get (sc, p) = some r ↔
    u.directories.get (sc, p) = some r ∧
      ¬ (u.boundSource sc p = false ∧
        Replaced u scope reset (u.touchedDirectories scope) sc p r)
  entries : ∀ sc p id n, s'.directoryEntries.get (sc, p, id) = some n ↔
    u.directoryEntries.get (sc, p, id) = some n ∧
      ((u.directories.get (sc, p)).isSome → (s'.directories.get (sc, p)).isSome)
  sources : ∀ sc p x, s'.directorySources.get (sc, p) = some x ↔
    u.directorySources.get (sc, p) = some x ∧
      ((u.directories.get (sc, p)).isSome → (s'.directories.get (sc, p)).isSome)
  nodes_other : ∀ sc id, sc ≠ scope → s'.nodes.get (sc, id) = u.nodes.get (sc, id)
  nodes_staged : ∀ id body, u.staged.get (scope, id) = some body →
    s'.nodes.get (scope, id) = body
  nodes_kept : ∀ id, u.staged.get (scope, id) = none →
    s'.nodes.get (scope, id) = if reset then none else u.nodes.get (scope, id)
  staged_own : ∀ id, s'.staged.get (scope, id) = none
  staged_other : ∀ sc id, sc ≠ scope → s'.staged.get (sc, id) = u.staged.get (sc, id)
  feeds_own : s'.feeds.get scope = some ⟨some cursor, false, none, false⟩
  feeds_other : ∀ sc, sc ≠ scope → s'.feeds.get sc = u.feeds.get sc
  rounds : s'.rounds = u.rounds

theorem mem_stagedItems {id : String} {body : Option Node} :
    (id, body) ∈ s.stagedItems scope ↔ s.staged.get (scope, id) = some body := by
  unfold stagedItems
  rw [Table.mem_select]
  refine ⟨?_, ?_⟩
  · intro h
    obtain ⟨⟨sc, x⟩, b, hget, hsome⟩ := h
    obtain ⟨rfl, heq⟩ := Option.ite_none_right_eq_some.mp hsome
    cases heq
    exact hget
  · intro h
    exact ⟨(scope, id), body, h, by simp⟩

theorem mem_stagedIds {id : String} :
    id ∈ s.stagedIds scope ↔ ∃ body, s.staged.get (scope, id) = some body := by
  unfold stagedIds
  rw [List.mem_map]
  refine ⟨?_, ?_⟩
  · intro h
    obtain ⟨⟨x, body⟩, hmem, rfl⟩ := h
    exact ⟨body, mem_stagedItems.mp hmem⟩
  · intro h
    obtain ⟨body, hget⟩ := h
    exact ⟨(id, body), mem_stagedItems.mpr hget, rfl⟩

/-- `publish_delta` moves the clock and writes marks. -/
theorem publishDelta_spec {u u' : Store} {reset : Bool} (h : u.publishDelta scope reset = .ok u') :
    (∃ clock versions, u' = { u with revision := clock, versions := versions }) ∧
      u.revision ≤ u'.revision ∧ RoundMarks u scope reset u' := by
  unfold publishDelta at h
  split at h
  · next hempty =>
    cases h
    simp only [Bool.and_eq_true, Bool.not_eq_true', List.isEmpty_iff] at hempty
    obtain ⟨rfl, hnone⟩ := hempty
    refine ⟨⟨_, _, rfl⟩, le_rfl, ⟨fun _ _ => rfl, fun hreset => (by cases hreset), ?_⟩⟩
    intro _ k _
    have hitems : u.stagedIds scope = [] := by simp [stagedIds, hnone]
    have hdirectories : u.touchedDirectories scope = [] := by simp [touchedDirectories, hnone]
    simp [hitems, hdirectories]
  · obtain ⟨⟨r, u₁⟩, hadvance, h⟩ := bind_eq_ok h
    obtain ⟨rfl, rfl⟩ := advance_eq_ok hadvance
    dsimp only at h
    split at h
    · next hreset =>
      cases h
      refine ⟨⟨_, _, rfl⟩, Nat.le_succ _, ⟨?_, ?_, fun h => by rw [hreset] at h; cases h⟩⟩
      · intro k hk
        have hne : k ≠ ⟨scope, .scope, ""⟩ := fun heq => hk (heq ▸ rfl)
        refine (Table.get_set_of_ne _ _ hne).trans ?_
        exact Table.get_deleteWhere_of_kept _ (fun _ _ => by simpa using hk)
      · intro _
        refine ⟨u.revision + 1, Nat.lt_succ_self _, le_rfl, Table.get_set_self _ _ _, ?_⟩
        intro k hk hne
        refine (Table.get_set_of_ne _ _ hne).trans ?_
        exact Table.get_deleteWhere_of_deleted _ (fun _ _ => by simpa using hk)
    · next hreset =>
      cases h
      have hmarks := marking_versions u scope (u.stagedIds scope) (u.touchedDirectories scope)
      refine ⟨⟨_, _, rfl⟩, Nat.le_succ _, ⟨?_, fun h => absurd h hreset, ?_⟩⟩
      · intro k hk
        exact (hmarks k).trans (if_neg (fun h => hk h.1))
      · intro _ k hk
        split
        · next hmarked => exact ⟨u.revision + 1, (hmarks k).trans (if_pos ⟨hk, hmarked⟩),
            Nat.lt_succ_self _, le_rfl⟩
        · next hmarked => exact (hmarks k).trans (if_neg (fun h => hmarked h.2))

/-- The committed index after a round. -/
theorem commitNodes_nodes (u : Store) (scope : Scope) (reset : Bool) :
    (∀ sc id, sc ≠ scope →
      (u.commitNodes scope reset).nodes.get (sc, id) = u.nodes.get (sc, id)) ∧
    (∀ id body, u.staged.get (scope, id) = some body →
      (u.commitNodes scope reset).nodes.get (scope, id) = body) ∧
    (∀ id, u.staged.get (scope, id) = none → (u.commitNodes scope reset).nodes.get (scope, id) =
      if reset then none else u.nodes.get (scope, id)) := by
  -- What is inserted are exactly the staged bodies of the scope.
  have hupserted : ∀ sc id n, ((sc, id), n) ∈ ((u.stagedItems scope).filterMap fun item =>
      item.2.map fun n => ((scope, item.1), n)) ↔
      sc = scope ∧ u.staged.get (scope, id) = some (some n) := by
    intro sc id n
    rw [List.mem_filterMap]
    refine ⟨?_, ?_⟩
    · intro h
      obtain ⟨⟨x, body⟩, hmem, hsome⟩ := h
      cases body with
      | none => cases hsome
      | some m =>
        cases hsome
        exact ⟨rfl, mem_stagedItems.mp hmem⟩
    · intro h
      obtain ⟨rfl, hget⟩ := h
      exact ⟨(id, some n), mem_stagedItems.mpr hget, rfl⟩
  have hdeleted : ∀ id, id ∈ ((u.stagedItems scope).filterMap fun item =>
      if item.2.isNone then some item.1 else none) ↔
      u.staged.get (scope, id) = some none := by
    intro id
    rw [List.mem_filterMap]
    refine ⟨?_, ?_⟩
    · intro h
      obtain ⟨⟨x, body⟩, hmem, hsome⟩ := h
      obtain ⟨hnone, heq⟩ := Option.ite_none_right_eq_some.mp hsome
      cases heq
      obtain rfl : body = none := Option.isNone_iff_eq_none.mp hnone
      exact mem_stagedItems.mp hmem
    · intro h
      exact ⟨(id, none), mem_stagedItems.mpr h, rfl⟩
  have hfresh : ∀ sc id, (∀ n, ¬ (sc = scope ∧ u.staged.get (scope, id) = some (some n))) →
      (sc, id) ∉ ((u.stagedItems scope).filterMap fun item =>
        item.2.map fun n => ((scope, item.1), n)).map Prod.fst := by
    intro sc id hnone hmem
    obtain ⟨⟨_, n⟩, hrow, rfl⟩ := List.mem_map.mp hmem
    exact hnone n ((hupserted _ _ _).mp hrow)
  unfold commitNodes
  refine ⟨?_, ?_, ?_⟩
  · intro sc id hsc
    refine (Table.get_setRows_of_not_mem _ (hfresh sc id (fun n h => hsc h.1))).trans ?_
    exact Table.get_deleteWhere_of_kept _ (fun _ _ => by simp [hsc])
  · intro id body hget
    cases body with
    | none =>
      refine (Table.get_setRows_of_not_mem _ (hfresh scope id ?_)).trans ?_
      · intro n h
        rw [hget] at h
        cases h.2
      · refine Table.get_deleteWhere_of_deleted _ (fun _ _ => ?_)
        exact decide_eq_true ⟨rfl, .inr ((hdeleted id).mpr hget)⟩
    | some n =>
      apply Table.get_setRows_of_unique
      · intro m hm
        have hm' := ((hupserted _ _ _).mp hm).2
        rw [hget] at hm'
        cases hm'
        rfl
      · exact (hupserted _ _ _).mpr ⟨rfl, hget⟩
  · intro id hget
    refine (Table.get_setRows_of_not_mem _ (hfresh scope id ?_)).trans ?_
    · intro n h
      rw [hget] at h
      cases h.2
    · cases reset with
      | true => exact Table.get_deleteWhere_of_deleted _ (fun _ _ => by simp)
      | false =>
        refine Table.get_deleteWhere_of_kept _ (fun _ _ => ?_)
        have hnot := mt (hdeleted id).mp (by rw [hget]; simp)
        simpa using hnot

/-- The rows a terminal page drops, and their entries and sources with the directories. -/
theorem dropReplaced_rows (u : Store) (scope : Scope) (reset : Bool) :
    let d := u.dropReplaced scope reset
    (∀ sc id row, d.observed.get (sc, id) = some row ↔ u.observed.get (sc, id) = some row ∧
      ¬ Replaced u scope reset (u.stagedIds scope) sc id row.sourceRevision) ∧
    (∀ sc id r, d.observedAbsent.get (sc, id) = some r ↔
      u.observedAbsent.get (sc, id) = some r ∧
        ¬ Replaced u scope reset (u.stagedIds scope) sc id r) ∧
    (∀ sc p r, d.directories.get (sc, p) = some r ↔ u.directories.get (sc, p) = some r ∧
      ¬ (u.boundSource sc p = false ∧
        Replaced u scope reset (u.touchedDirectories scope) sc p r)) ∧
    (∀ sc p id n, d.directoryEntries.get (sc, p, id) = some n ↔
      u.directoryEntries.get (sc, p, id) = some n ∧
        ((u.directories.get (sc, p)).isSome → (d.directories.get (sc, p)).isSome)) ∧
    (∀ sc p x, d.directorySources.get (sc, p) = some x ↔
      u.directorySources.get (sc, p) = some x ∧
        ((u.directories.get (sc, p)).isSome → (d.directories.get (sc, p)).isSome)) := by
  intro d
  let drop := fun (key : Scope × String) (revision : Nat) => decide (key.1 = scope ∧
    ¬ u.boundSource key.1 key.2 ∧ u.beforeRound scope revision ∧
      (reset ∨ key.2 ∈ u.touchedDirectories scope))
  have hdrop : ∀ sc p r, drop (sc, p) r = false ↔ ¬ (u.boundSource sc p = false ∧
      Replaced u scope reset (u.touchedDirectories scope) sc p r) := by
    intro sc p r
    simp only [drop, Replaced, decide_eq_false_iff_not, Bool.not_eq_true]
    tauto
  -- A directory is dropped exactly when its row does not survive.
  have hdropped : ∀ key, ((u.directories.get key).any (drop key) = false) ↔
      ((u.directories.get key).isSome → (d.directories.get key).isSome) := by
    intro key
    have hget : d.directories.get key = (u.directories.get key).filter fun r => !drop key r :=
      Table.get_deleteWhere _ _ _
    rw [hget]
    cases u.directories.get key with
    | none => simp
    | some r => cases hr : drop key r <;> simp [hr]
  refine ⟨?_, ?_, ?_, ?_, ?_⟩
  · intro sc id row
    refine (Table.get_deleteWhere_eq_some_iff _ _ _ _).trans (and_congr_right fun _ => ?_)
    simp [Replaced]
  · intro sc id r
    refine (Table.get_deleteWhere_eq_some_iff _ _ _ _).trans (and_congr_right fun _ => ?_)
    simp [Replaced]
  · intro sc p r
    refine (Table.get_deleteWhere_eq_some_iff _ _ _ _).trans (and_congr_right fun _ => ?_)
    exact hdrop sc p r
  · intro sc p id n
    refine (Table.get_deleteWhere_eq_some_iff _ _ _ _).trans (and_congr_right fun _ => ?_)
    exact hdropped (sc, p)
  · intro sc p x
    refine (Table.get_deleteWhere_eq_some_iff _ _ _ _).trans (and_congr_right fun _ => ?_)
    exact hdropped (sc, p)

/-- A page is taken in against the saved cursor of a pending round only. A page that is not
    the last one is staged; the last one commits the round. -/
theorem stage_spec {expected : Option Cursor} {page : ChangePage}
    (h : s.stage scope expected page = .ok s') :
    ∃ feed, s.feeds.get scope = some feed ∧ feed.pending = true ∧ feed.nextCursor = expected ∧
      ((page.checkpoint.isComplete = false ∧
        s' = (s.stageChanges scope page.changes).setFeed scope
          { feed with nextCursor := some page.checkpoint.cursor }) ∨
      (page.checkpoint.isComplete = true ∧
        Committed (s.stageChanges scope page.changes) scope feed.reset
          page.checkpoint.cursor s')) := by
  unfold stage at h
  split at h
  · cases h
  · next feed hfeed =>
    split at h
    · cases h
    · next hpending =>
      split at h
      · cases h
      · next hcursor =>
        refine ⟨feed, hfeed, by simpa using hpending, not_not.mp hcursor, ?_⟩
        dsimp only at h
        split at h
        · next hcomplete =>
          obtain ⟨u₁, hdelta, h⟩ := bind_eq_ok h
          cases h
          refine .inr ⟨hcomplete, ?_⟩
          obtain ⟨⟨clock, versions, rfl⟩, hclock, hmarks⟩ := publishDelta_spec hdelta
          let u := s.stageChanges scope page.changes
          obtain ⟨hobserved, habsent, hdirectories, hentries, hsources⟩ :=
            dropReplaced_rows { u with revision := clock, versions := versions } scope feed.reset
          obtain ⟨hother, hstaged, hkept⟩ := commitNodes_nodes
            (Store.dropReplaced { u with revision := clock, versions := versions } scope
              feed.reset) scope feed.reset
          exact {
            identity := rfl
            clock := hclock
            marks := ⟨hmarks.other, hmarks.baseline, hmarks.delta⟩
            observed := hobserved
            absent := habsent
            directories := hdirectories
            entries := hentries
            sources := hsources
            nodes_other := hother
            nodes_staged := hstaged
            nodes_kept := hkept
            staged_own := fun id => Table.get_deleteWhere_of_deleted _ (fun _ _ => by simp)
            staged_other := fun sc id hsc =>
              Table.get_deleteWhere_of_kept _ (fun _ _ => by simpa using hsc)
            feeds_own := Table.get_set_self _ _ _
            feeds_other := fun sc hsc => Table.get_set_of_ne _ _ hsc
            rounds := rfl }
        · next hcomplete =>
          cases h
          exact .inl ⟨by simpa using hcomplete, rfl⟩

end Cirrove.Store
