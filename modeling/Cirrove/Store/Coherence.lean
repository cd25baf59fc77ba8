import Cirrove.Store.Supersession

/-!
# Listings and items agree

An item is looked up by its identity and listed by its directory, over the same tables
with different precedence. The two views agree as long as every entry of a snapshot is
still backed by an observation: the one it was written with, or a newer one that hides it
(`Anchored`).

Two steps can take that observation away. A late reply takes it back (see `Timely`), and
the terminal page of a round drops it together with the snapshots of the directories the
round touches, which need not include every snapshot that holds the item.

## Main results

- `stage_leavesNoGhost_iff`: a terminal page leaves no ghost entry exactly when every
  snapshot that holds a staged item is among the touched directories
- `coherent_of_run`: coherence of every run whose replies are timely and whose rounds touch
  the snapshots they have to
-/

namespace Cirrove.Store

open Cirrove.Library

variable {s s' : Store} {scope : Scope}

/-! ## Ghost entries -/

/-- The item was not observed after `revision`. -/
def SeenBy (s : Store) (scope : Scope) (id : String) (revision : Nat) : Prop :=
  ∀ r, s.sourceRevision scope id = some r → r ≤ revision

/-- After the terminal page, a staged item that was not observed after the round started is
    listed in its committed directory only, or by a snapshot taken after the start. -/
def LeavesNoGhost (s s' : Store) (scope : Scope) (changes : List Change) (started : Nat) : Prop :=
  ∀ id ∈ (s.stageChanges scope changes).stagedIds scope, SeenBy s scope id started →
    ∀ parent, s'.boundSource scope parent = false → ∀ n, Lists s' scope parent n → n.id = id →
      (∃ m, s'.nodes.get (scope, id) = some m ∧ m.parentId = some parent) ∨
      ∃ r, s'.directories.get (scope, parent) = some r ∧ started < r

/-- Every snapshot that was taken before the round started, has no bound source and holds a
    staged item not observed since, is of a directory the delta touches: the item itself, or
    its staged, committed or observed parent. A baseline replaces all of them. -/
def TouchesHolders (s : Store) (scope : Scope) (changes : List Change) (started : Nat) : Prop :=
  (s.feedRow scope).reset = true ∨
  ∀ parent r id n, s.directories.get (scope, parent) = some r → r ≤ started →
    s.boundSource scope parent = false → s.directoryEntries.get (scope, parent, id) = some n →
    id ∈ (s.stageChanges scope changes).stagedIds scope → SeenBy s scope id started →
    parent ∈ (s.stageChanges scope changes).touchedDirectories scope

theorem mem_touchedDirectories_of_staged {u : Store} {id : String} {n : Node}
    (hstaged : u.staged.get (scope, id) = some (some n)) {parent : String}
    (hparent : n.parentId = some parent) : parent ∈ u.touchedDirectories scope := by
  unfold touchedDirectories
  rw [List.mem_flatMap]
  refine ⟨(id, some n), mem_stagedItems.mpr hstaged, ?_⟩
  simp [hparent]

/-- A directory without a bound source keeps its snapshot, unless the round replaces it. -/
theorem Committed.boundSource {u : Store} {reset : Bool} {cursor : Cursor}
    (h : Committed u scope reset cursor s') {sc : Scope} {parent : String} {r : Nat}
    (hget : s'.directories.get (sc, parent) = some r) :
    s'.boundSource sc parent = u.boundSource sc parent := by
  have hsources : s'.directorySources.get (sc, parent) = u.directorySources.get (sc, parent) := by
    apply Option.ext
    intro x
    refine (h.sources sc parent x).trans ?_
    refine and_iff_left ?_
    intro _
    rw [hget]
    rfl
  unfold Store.boundSource
  rw [hsources]

/-- A committed round lists an item that was not observed since it started in three ways: by
    the index, by a snapshot newer than the round, or by an older snapshot it did not drop. -/
theorem Committed.listed_cases {u : Store} {reset : Bool} {cursor : Cursor} {started : Nat}
    (h : Committed u scope reset cursor s') (hu : Sound u)
    (hround : u.rounds.get scope = some started) {id : String} (hid : id ∈ u.stagedIds scope)
    (hseen : SeenBy u scope id started) {parent : String}
    (hbound : s'.boundSource scope parent = false) {n : Node} (hlists : Lists s' scope parent n)
    (hn : n.id = id) :
    (∃ m, s'.nodes.get (scope, id) = some m ∧ m.parentId = some parent) ∨
      (∃ r, s'.directories.get (scope, parent) = some r ∧ started < r) ∨
      (reset = false ∧ parent ∉ u.touchedDirectories scope ∧
        ∃ r, u.directories.get (scope, parent) = some r ∧ r ≤ started ∧
          u.boundSource scope parent = false ∧
          u.directoryEntries.get (scope, parent, id) = some n) := by
  have hs' := h.sound hu
  -- The observation of the item, if there was one, is gone.
  have hunobserved : ∀ row, s'.observed.get (scope, id) ≠ some row := by
    intro row hget
    obtain ⟨hold, hkept⟩ := (h.observed scope id row).mp hget
    have hle := hseen row.sourceRevision (by simp [Store.sourceRevision, hold])
    exact hkept ⟨rfl, beforeRound_iff.mpr ⟨started, hround, hle⟩, .inr hid⟩
  rcases lists_cases.mp hlists with ⟨r, hdirectory, hrow⟩ | ⟨_, hrow⟩
  · by_cases hlate : started < r
    · exact .inr (.inl ⟨r, hdirectory, hlate⟩)
    · rcases mem_snapshotRows.mp hrow with ⟨x, hentry, _⟩ | ⟨x, row, hget, rfl, _⟩
      · obtain rfl : x = id := (hs'.keyed.entries _ _ _ _ hentry).symm.trans hn
        obtain ⟨hold, _⟩ := (h.entries scope parent x n).mp hentry
        obtain ⟨holdDirectory, hkept⟩ := (h.directories scope parent r).mp hdirectory
        have hunbound : u.boundSource scope parent = false := (h.boundSource hdirectory).symm.trans hbound
        have hbefore : u.beforeRound scope r = true :=
          beforeRound_iff.mpr ⟨started, hround, not_lt.mp hlate⟩
        refine .inr (.inr ⟨?_, ?_, r, holdDirectory, not_lt.mp hlate, hunbound, hold⟩)
        · cases reset with
          | false => rfl
          | true => exact absurd ⟨hunbound, rfl, hbefore, .inl rfl⟩ hkept
        · intro htouched
          exact hkept ⟨hunbound, rfl, hbefore, .inr htouched⟩
      · obtain rfl : x = id := (hs'.keyed.observed _ _ _ hget).symm.trans hn
        exact absurd hget (hunobserved row)
  · rcases mem_indexedRows.mp hrow with ⟨x, hget, hparent, _⟩ | ⟨x, row, hget, rfl, _⟩
    · obtain rfl : x = id := (hs'.keyed.nodes _ _ _ hget).symm.trans hn
      exact .inl ⟨n, hget, hparent⟩
    · obtain rfl : x = id := (hs'.keyed.observed _ _ _ hget).symm.trans hn
      exact absurd hget (hunobserved row)

/-- A snapshot the round did not drop shows a staged item whose observation it did drop. -/
theorem Committed.lists_holder {u : Store} {cursor : Cursor} {started : Nat}
    (h : Committed u scope false cursor s') (hu : Sound u)
    (hround : u.rounds.get scope = some started) {id : String} (hid : id ∈ u.stagedIds scope)
    (hseen : SeenBy u scope id started) {parent : String} {r : Nat}
    (hdirectory : u.directories.get (scope, parent) = some r)
    (huntouched : parent ∉ u.touchedDirectories scope) {n : Node}
    (hentry : u.directoryEntries.get (scope, parent, id) = some n) :
    s'.directories.get (scope, parent) = some r ∧ Lists s' scope parent n := by
  have hkept : s'.directories.get (scope, parent) = some r := by
    refine (h.directories scope parent r).mpr ⟨hdirectory, ?_⟩
    intro hreplaced
    obtain ⟨_, _, _, hreset | htouched⟩ := hreplaced
    · cases hreset
    · exact huntouched htouched
  have hentry' : s'.directoryEntries.get (scope, parent, id) = some n := by
    refine (h.entries scope parent id n).mpr ⟨hentry, ?_⟩
    intro _
    rw [hkept]
    rfl
  have hgone : s'.sourceRevision scope id = none := by
    rcases h.sourceRevision hu scope id with hsame | ⟨_, _, hnone, _⟩
    · cases hsource : u.sourceRevision scope id with
      | none => exact hsame.trans hsource
      | some x =>
        -- What the item was seen at is before the round, so it cannot have been kept.
        exfalso
        have hbefore := beforeRound_iff.mpr ⟨started, hround, hseen x hsource⟩
        rw [hsource] at hsame
        rcases sourceRevision_cases hsame with ⟨row, hget, rfl⟩ | ⟨_, hget⟩
        · exact ((h.observed scope id row).mp hget).2 ⟨rfl, hbefore, .inr hid⟩
        · exact ((h.absent scope id x).mp hget).2 ⟨rfl, hbefore, .inr hid⟩
    · exact hnone
  refine ⟨hkept, lists_cases.mpr (.inl ⟨r, hkept, mem_snapshotRows.mpr (.inl ⟨id, hentry', ?_⟩)⟩)⟩
  have hobserved : s'.observed.get (scope, id) = none := by
    cases hget : s'.observed.get (scope, id) with
    | none => rfl
    | some row => simp [Store.sourceRevision, hget] at hgone
  have habsent : s'.observedAbsent.get (scope, id) = none := by
    simpa [Store.sourceRevision, hobserved] using hgone
  exact ⟨by simp [observedAfter, hobserved], by simp [absentAfter, habsent]⟩

/-- A terminal page leaves no ghost entry if and only if every snapshot that holds a staged
    item not observed since the round started is of a directory the round touches. -/
theorem stage_leavesNoGhost_iff {w : World} (hreachable : Reachable w) {expected : Option Cursor}
    {page : ChangePage} {reply : Reply} {started : Nat}
    (hexec : w.store.exec (.stage scope expected page) = .ok (reply, s'))
    (hcomplete : page.checkpoint.isComplete = true)
    (hround : w.store.rounds.get scope = some started) :
    LeavesNoGhost w.store s' scope page.changes started ↔
      TouchesHolders w.store scope page.changes started := by
  obtain ⟨s₁, hstage, h⟩ := bind_eq_ok hexec
  cases h
  obtain ⟨feed, hfeed, _, _, ⟨hnot, _⟩ | ⟨_, hcommitted⟩⟩ := stage_spec hstage
  · rw [hcomplete] at hnot
    cases hnot
  have hu := hreachable.inv.sound.stageChanges scope page.changes
  obtain ⟨staged, hframe⟩ := stageChanges_frame w.store scope page.changes
  have hrow : w.store.feedRow scope = feed := by simp [feedRow, hfeed]
  unfold LeavesNoGhost TouchesHolders
  rw [hframe] at hcommitted hu ⊢
  rw [hrow]
  refine ⟨?_, ?_⟩
  · intro hghost
    cases hreset : feed.reset with
    | true => exact .inl rfl
    | false =>
      refine .inr ?_
      intro parent r id n hdirectory hle hbound hentry hid hseen
      by_contra huntouched
      rw [hreset] at hcommitted
      obtain ⟨hkept, hlists⟩ := hcommitted.lists_holder hu hround hid hseen hdirectory
        huntouched hentry
      rcases hghost id hid hseen parent ((hcommitted.boundSource hkept).trans hbound) n hlists
          (hu.keyed.entries _ _ _ _ hentry) with ⟨m, hm, hparent⟩ | ⟨r', hr', hlate⟩
      · -- The committed parent is the staged one, and that is touched.
        obtain ⟨body, hbody⟩ := mem_stagedIds.mp hid
        rw [hcommitted.nodes_staged id body hbody] at hm
        rw [hm] at hbody
        exact huntouched (mem_touchedDirectories_of_staged hbody hparent)
      · rw [hkept] at hr'
        cases hr'
        omega
  · intro htouches id hid hseen parent hbound n hlists hn
    rcases hcommitted.listed_cases hu hround hid hseen hbound hlists hn with
      hindexed | hlate | ⟨hreset, huntouched, r, hdirectory, hle, hunbound, hentry⟩
    · exact .inl hindexed
    · exact .inr hlate
    · rcases htouches with hbaseline | hholders
      · rw [hreset] at hbaseline
        cases hbaseline
      · exact absurd (hholders parent r id n hdirectory hle hunbound hentry hid hseen) huntouched

/-! ### A round that drops its listing, and one that resurrects an item -/

/-- A first round, a listing that shows an item, and a second round. -/
def listedItem : List Op :=
  [.begin drive false, .stage drive none (pageTo [] "c"),
    .observeDirectory drive "p" [fileAt "x" "p"], .begin drive false]

theorem children_fileAt : ∀ n ∈ [fileAt "x" "p"], n.parentId = some "p" := by
  intro n hn
  rw [List.mem_singleton.mp hn]
  rfl

/-- The second round deletes the item and drops the listing of its observed parent. -/
theorem listedItem_leavesNoGhost :
    ∃ s', (listedItem.foldl World.step (World.create "db")).store.exec
        (.stage drive (some ⟨"c"⟩) (pageTo [.delete "x"] "d")) = .ok (.done, s') ∧
      LeavesNoGhost (listedItem.foldl World.step (World.create "db")).store s' drive
        [.delete "x"] 5 := by
  have hreachable : Reachable (listedItem.foldl World.step (World.create "db")) := by
    refine ⟨"db", listedItem, Run.extend .start ?_⟩
    exact ⟨.of_ticketless rfl trivial, .of_ticketless rfl trivial,
      .of_ticketless rfl children_fileAt, .of_ticketless rfl trivial, trivial⟩
  obtain ⟨s', hexec⟩ : ∃ s', (listedItem.foldl World.step (World.create "db")).store.exec
      (.stage drive (some ⟨"c"⟩) (pageTo [.delete "x"] "d")) = .ok (.done, s') := ⟨_, rfl⟩
  refine ⟨s', hexec, (stage_leavesNoGhost_iff hreachable hexec rfl rfl).mpr (.inr ?_)⟩
  intro parent r id n hdirectory _ _ _ _ _
  have hrow : ((drive, parent), r) ∈ [((drive, "p"), 3)] :=
    (Table.mem_rows _ _ _).mpr hdirectory
  cases List.mem_singleton.mp hrow
  decide

/-- The same, but a NotFound reply for the item arrives before the second round. -/
def missingItem : List Op :=
  [.begin drive false, .stage drive none (pageTo [] "c"),
    .observeDirectory drive "p" [fileAt "x" "p"], .nodeObservation drive "x",
    .publishAbsence ⟨drive, .node "x", "db", 5⟩, .begin drive false]

/-- The round deletes the item and with it the negative observation that hid it from the
    listing of its former parent, which it does not touch: the deleted item is listed again. -/
theorem deleted_item_is_listed_again :
    ¬ ∀ w, Reachable w → ∀ scope expected page reply s' started,
      w.store.exec (.stage scope expected page) = .ok (reply, s') →
      page.checkpoint.isComplete = true → w.store.rounds.get scope = some started →
      LeavesNoGhost w.store s' scope page.changes started := by
  intro hclaim
  have hreachable : Reachable (missingItem.foldl World.step (World.create "db")) := by
    refine ⟨"db", missingItem, Run.extend .start ?_⟩
    exact ⟨.of_ticketless rfl trivial, .of_ticketless rfl trivial,
      .of_ticketless rfl children_fileAt, .of_ticketless rfl trivial,
      .of_granted rfl ⟨.nodeObservation drive "x", List.mem_of_mem_getLast? rfl⟩ trivial,
      .of_ticketless rfl trivial, trivial⟩
  have hghost := hclaim _ hreachable drive (some ⟨"c"⟩) (pageTo [.delete "x"] "d") .done _ 7
    rfl rfl rfl "x" (by decide) ?_ "p" rfl (fileAt "x" "p") ⟨[fileAt "x" "p"], rfl, by simp⟩ rfl
  · rcases hghost with ⟨m, hm, _⟩ | ⟨r, hr, hlate⟩
    · cases hm
    · obtain rfl : (3 : Nat) = r := Option.some.inj hr
      omega
  · intro r hr
    obtain rfl : (5 : Nat) = r := Option.some.inj hr
    omega

/-! ## Anchored snapshots -/

/-- Every entry of a snapshot without a bound source is backed by the observation it was
    written with, or by a newer one. -/
def Anchored (s : Store) : Prop :=
  ∀ scope parent r id n, s.directories.get (scope, parent) = some r →
    s.boundSource scope parent = false → s.directoryEntries.get (scope, parent, id) = some n →
    s.observed.get (scope, id) = some ⟨n, r⟩ ∨
      ∃ r', s.sourceRevision scope id = some r' ∧ r < r'

/-- What is listed is what is looked up, and an item is listed in one directory at most. -/
structure Coherent (s : Store) : Prop where
  lookup : ∀ scope parent n, s.boundSource scope parent = false → Lists s scope parent n →
    s.nodeOn scope n.id = some n
  unique : ∀ scope parent parent' n n', s.boundSource scope parent = false →
    s.boundSource scope parent' = false → Lists s scope parent n → Lists s scope parent' n' →
    n.id = n'.id → parent = parent'

/-- A listed node names the directory it is listed in. -/
theorem Sound.listed_parent (hs : Sound s) {parent : String} {n : Node}
    (h : Lists s scope parent n) : n.parentId = some parent := by
  rcases lists_cases.mp h with ⟨r, _, hrow⟩ | ⟨_, hrow⟩
  · rcases mem_snapshotRows.mp hrow with ⟨id, hentry, _⟩ | ⟨_, _, _, _, hparent, _⟩
    · exact hs.entry_parent _ _ _ _ hentry
    · exact hparent
  · rcases mem_indexedRows.mp hrow with ⟨_, _, hparent, _⟩ | ⟨_, _, _, _, hparent⟩
    · exact hparent
    · exact hparent

theorem Anchored.lookup (h : Anchored s) (hs : Sound s) {parent : String} {n : Node}
    (hbound : s.boundSource scope parent = false) (hlists : Lists s scope parent n) :
    s.nodeOn scope n.id = some n := by
  have hobserved : ∀ id row, s.observed.get (scope, id) = some row →
      s.nodeOn scope row.body.id = some row.body := by
    intro id row hget
    rw [hs.keyed.observed _ _ _ hget]
    exact nodeOn_of_observed (hs.exclusive _ _ hget) hget
  rcases lists_cases.mp hlists with ⟨r, hdirectory, hrow⟩ | ⟨_, hrow⟩
  · rcases mem_snapshotRows.mp hrow with ⟨id, hentry, hshown⟩ | ⟨id, row, hget, rfl, _⟩
    · -- A newer observation would hide the entry.
      rcases h scope parent r id n hdirectory hbound hentry with hget | ⟨r', hr', hlt⟩
      · exact hobserved id ⟨n, r⟩ hget
      · exfalso
        obtain ⟨hpositive, hnegative⟩ := hshown
        rcases sourceRevision_cases hr' with ⟨row, hget, rfl⟩ | ⟨_, hget⟩
        · simp [observedAfter, hget] at hpositive
          omega
        · simp [absentAfter, hget] at hnegative
          omega
    · exact hobserved id row hget
  · rcases mem_indexedRows.mp hrow with ⟨id, hget, _, hnone, habsent⟩ | ⟨id, row, hget, rfl, _⟩
    · rw [hs.keyed.nodes _ _ _ hget]
      exact (nodeOn_of_indexed habsent hnone).trans hget
    · exact hobserved id row hget

theorem Anchored.coherent (h : Anchored s) (hs : Sound s) : Coherent s where
  lookup := by
    intro scope parent n hbound hlists
    exact h.lookup hs hbound hlists
  unique := by
    intro scope parent parent' n n' hbound hbound' hlists hlists' hid
    have hn := h.lookup hs hbound hlists
    have hn' := h.lookup hs hbound' hlists'
    rw [hid, hn'] at hn
    cases hn
    have hparent := hs.listed_parent hlists
    rw [hs.listed_parent hlists'] at hparent
    exact (Option.some.inj hparent).symm

/-! ### Steps -/

/-- An observation that is replaced only by newer ones keeps its entries anchored. -/
theorem Effect.Applied.anchored {e : Effect} (happlied : e.Applied s s')
    (hovertakes : e.Overtakes s) (h : Anchored s) : Anchored s' := by
  intro scope parent r id n hdirectory hbound hentry
  rcases happlied.directory_cases scope parent with
    ⟨rfl, bound, _, hnew, hentries, _⟩ | ⟨_, hold, hentries, hsources⟩
  · rw [hnew] at hdirectory
    cases hdirectory
    obtain ⟨hn, rfl⟩ := hentries id n hentry
    exact .inl (happlied.written n hn).1
  · rw [hold] at hdirectory
    rw [hentries id] at hentry
    have hunbound : s.boundSource scope parent = false := by
      unfold Store.boundSource at hbound ⊢
      rw [← hsources]
      exact hbound
    have hbefore := h scope parent r id n hdirectory hunbound hentry
    rcases happlied.sourceRevision scope id with ⟨htouch, hsource⟩ | ⟨huntouched, hsource⟩
    · -- The entry is hidden from now on.
      refine .inr ⟨e.source, hsource, ?_⟩
      obtain rfl := htouch.1
      rcases hbefore with hget | ⟨r', hr', hlt⟩
      · exact hovertakes id htouch r (by simp [Store.sourceRevision, hget])
      · exact lt_trans hlt (hovertakes id htouch r' hr')
    · rw [(happlied.kept scope id huntouched).1, hsource]
      exact hbefore

/-- A round that touches the holders of its items keeps the other snapshots anchored. -/
theorem Committed.anchored {u : Store} {reset : Bool} {cursor : Cursor}
    (hcommitted : Committed u scope reset cursor s') (hu : Sound u)
    (htouches : reset = true ∨ ∀ started, u.rounds.get scope = some started →
      ∀ parent r id n, u.directories.get (scope, parent) = some r → r ≤ started →
        u.boundSource scope parent = false → u.directoryEntries.get (scope, parent, id) = some n →
        id ∈ u.stagedIds scope → SeenBy u scope id started →
        parent ∈ u.touchedDirectories scope)
    (h : Anchored u) : Anchored s' := by
  intro sc parent r id n hdirectory hbound hentry
  obtain ⟨hold, hkept⟩ := (hcommitted.directories sc parent r).mp hdirectory
  have hunbound : u.boundSource sc parent = false :=
    (hcommitted.boundSource hdirectory).symm.trans hbound
  have hentryOld := ((hcommitted.entries sc parent id n).mp hentry).1
  have hbefore := h sc parent r id n hold hunbound hentryOld
  -- The observation that backs the entry is not dropped: the snapshot would be dropped too.
  have hsurvives : ∀ x, u.sourceRevision sc id = some x → r ≤ x →
      ¬ Replaced u scope reset (u.stagedIds scope) sc id x := by
    intro x hx hle hreplaced
    obtain ⟨rfl, hbeforeRound, hid⟩ := hreplaced
    obtain ⟨started, hround, hxle⟩ := beforeRound_iff.mp hbeforeRound
    have hr := beforeRound_iff.mpr ⟨started, hround, le_trans hle hxle⟩
    cases reset with
    | true => exact hkept ⟨hunbound, rfl, hr, .inl rfl⟩
    | false =>
      have hstaged := hid.resolve_left Bool.false_ne_true
      have hholders := htouches.resolve_left Bool.false_ne_true
      have hseen : SeenBy u sc id started := by
        intro y hy
        rw [hx] at hy
        cases hy
        exact hxle
      exact hkept ⟨hunbound, rfl, hr, .inr (hholders started hround parent r id n hold
        (le_trans hle hxle) hunbound hentryOld hstaged hseen)⟩
  rcases hbefore with hget | ⟨r', hr', hlt⟩
  · have hsource : u.sourceRevision sc id = some r := by simp [Store.sourceRevision, hget]
    exact .inl ((hcommitted.observed sc id ⟨n, r⟩).mpr ⟨hget, hsurvives r hsource le_rfl⟩)
  · rcases hcommitted.sourceRevision hu sc id with hsame | ⟨x, hx, _, hreplaced⟩
    · exact .inr ⟨r', hsame.trans hr', hlt⟩
    · rw [hr'] at hx
      cases hx
      exact absurd hreplaced (hsurvives r' hr' hlt.le)

/-! ### Runs -/

/-- A terminal page touches the directories whose snapshots hold its items. -/
def Sweeps (w : World) (op : Op) : Prop :=
  ∀ scope expected page started, op = .stage scope expected page →
    page.checkpoint.isComplete = true → w.store.rounds.get scope = some started →
    TouchesHolders w.store scope page.changes started

/-- The runs in which every reply is timely and every round sweeps. -/
def CarefulRun (identity : String) (ops : List Op) (w : World) : Prop :=
  Run World.step (fun w op => Permitted w op ∧ Timely w op ∧ Sweeps w op)
    (World.create identity) ops w

theorem Anchored.create (identity : String) : Anchored (Store.create identity) := by
  intro scope parent r id n hdirectory
  cases hdirectory

theorem Anchored.step {w : World} {op : Op} (h : Anchored w.store) (hinv : Inv w)
    (hpermitted : Permitted w op) (htimely : Timely w op) (hsweeps : Sweeps w op) :
    Anchored (w.step op).store := by
  rcases w.step_cases op with hsame | ⟨reply, s', hexec, hstep⟩
  · rw [hsame]
    exact h
  · rw [hstep]
    have houtcome := hinv.outcome hpermitted hexec
    show Anchored s'
    cases houtcome.overtakes hinv hpermitted htimely with
    | quiet hsame =>
      intro scope parent r id n hdirectory hbound hentry
      rw [hsame.directories] at hdirectory
      rw [hsame.directoryEntries] at hentry
      unfold Store.boundSource at hbound
      rw [hsame.directorySources] at hbound
      have hbefore := h scope parent r id n hdirectory hbound hentry
      unfold Store.sourceRevision at hbefore ⊢
      rw [hsame.observed, hsame.observedAbsent]
      exact hbefore
    | published happlied _ hovertakes => exact happlied.anchored hovertakes h
    | @committed scope expected page feed _ hcomplete hfeed _ hcommitted =>
      have hu := hinv.sound.stageChanges scope page.changes
      have hholders := fun started => hsweeps scope expected page started rfl hcomplete
      have hrow : w.store.feedRow scope = feed := by simp [feedRow, hfeed]
      obtain ⟨staged, hframe⟩ := stageChanges_frame w.store scope page.changes
      unfold TouchesHolders at hholders
      rw [hframe] at hcommitted hu hholders
      rw [hrow] at hholders
      refine hcommitted.anchored hu ?_ h
      cases hreset : feed.reset with
      | true => exact .inl rfl
      | false =>
        refine .inr ?_
        intro started hround
        rcases hholders started hround with hbaseline | htouches
        · rw [hreset] at hbaseline
          cases hbaseline
        · exact htouches

/-- In a run whose replies are timely and whose rounds sweep, what is listed is what is
    looked up. -/
theorem coherent_of_run {identity : String} {ops : List Op} {w : World}
    (hrun : CarefulRun identity ops w) : Coherent w.store := by
  have hboth : Inv w ∧ Anchored w.store := by
    refine hrun.invariant (fun w => Inv w ∧ Anchored w.store)
      ⟨Inv.create identity, Anchored.create identity⟩ ?_
    intro w op hw hallowed
    obtain ⟨hpermitted, htimely, hsweeps⟩ := hallowed
    exact ⟨hw.1.step hpermitted, hw.2.step hw.1 hpermitted htimely hsweeps⟩
  exact hboth.2.coherent hboth.1.sound

theorem listedItem_coherent :
    Coherent (listedItem.foldl World.step (World.create "db")).store := by
  have htimely : ∀ w op, op.ticket = none → Timely w op := by
    intro w op hop t ht
    rw [hop] at ht
    cases ht
  have hsweeps : ∀ w op, (∀ scope expected page, op ≠ .stage scope expected page) →
      Sweeps w op := by
    intro w op hop scope expected page started heq
    exact absurd heq (hop scope expected page)
  have hrun : CarefulRun "db" listedItem (listedItem.foldl World.step (World.create "db")) := by
    refine Run.extend .start ?_
    refine ⟨⟨.of_ticketless rfl trivial, htimely _ _ rfl, hsweeps _ _ (by simp)⟩,
      ⟨.of_ticketless rfl trivial, htimely _ _ rfl, ?_⟩,
      ⟨.of_ticketless rfl children_fileAt, htimely _ _ rfl, hsweeps _ _ (by simp)⟩,
      ⟨.of_ticketless rfl trivial, htimely _ _ rfl, hsweeps _ _ (by simp)⟩, trivial⟩
    -- The first round is a baseline.
    intro scope expected page started heq _ _
    cases heq
    exact .inl rfl
  exact coherent_of_run hrun

/-- The late reply that is published leaves an item listed in a directory it was moved out
    of. -/
theorem late_reply_leaves_two_locations :
    ¬ ∀ w, Reachable w → Coherent w.store := by
  intro hclaim
  have hreachable : Reachable ((confirmedListing ++ [lateRead]).foldl World.step
      (World.create "db")) := by
    refine ⟨"db", confirmedListing ++ [lateRead], Run.extend .start ?_⟩
    refine ⟨.of_ticketless rfl children_fileAt, .of_ticketless rfl trivial,
      .of_ticketless rfl trivial, .of_granted rfl ⟨.directoryObservation drive "p",
        List.mem_of_mem_getLast? rfl⟩ ?_,
      .of_granted rfl ⟨.nodeObservation drive "x", List.mem_cons_of_mem _ List.mem_cons_self⟩
        trivial, trivial⟩
    intro parent htarget
    cases htarget
    exact children_fileAt
  have hlookup := (hclaim _ hreachable).lookup drive "p" (fileAt "x" "p") rfl
    ⟨[fileAt "x" "p"], rfl, by simp⟩
  exact absurd hlookup (by decide)

end Cirrove.Store
