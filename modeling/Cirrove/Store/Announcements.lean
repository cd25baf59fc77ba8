import Cirrove.Store.Coherence
import Cirrove.Store.Resume

/-!
# Every visible change is announced

A mount drops what it has cached by following the revision marks. So whatever a step
changes in a view has to carry a mark newer than the clock was before the step.

An item that changes is marked itself. A listing that changes is announced by a mark of
its directory, or by marks of every member that came, went or changed. A directory that
turns into a package, or back, makes its listing unknown or known; this is announced by
the mark of the item, which also drops the cached listing of a folder.

One kind of item is set aside, step by step: a member that a listing reports unchanged is
written without a mark, although it was looked up otherwise or was listed elsewhere too
(`Overlooked`).
-/

namespace Cirrove.Store

open Cirrove.Library

variable {s s' : Store} {scope : Scope} {parent id : String}

/-! ## Members of a listing by identity -/

/-- The member of a listing with a given identity depends on the rows of that identity. -/
theorem lists_iff_rows (hs : WellKeyed s) {n : Node} :
    Lists s scope parent n ↔
      (∃ r, s.readSource scope parent false = some (.snapshot r) ∧
        ((s.directoryEntries.get (scope, parent, n.id) = some n ∧ EntryShown s scope n.id r) ∨
          ∃ row, s.observed.get (scope, n.id) = some row ∧ row.body = n ∧
            n.parentId = some parent ∧ r < row.sourceRevision ∧
            s.absentAfter scope n.id r = false)) ∨
      (s.readSource scope parent false = some .indexed ∧
        ((s.nodes.get (scope, n.id) = some n ∧ n.parentId = some parent ∧
            s.observed.get (scope, n.id) = none ∧ s.observedAbsent.get (scope, n.id) = none) ∨
          ∃ row, s.observed.get (scope, n.id) = some row ∧ row.body = n ∧
            n.parentId = some parent)) := by
  rw [lists_cases]
  refine or_congr ?_ (and_congr_right fun _ => ?_)
  · refine exists_congr fun r => ?_
    refine and_congr ⟨readSource_of_directory, directory_of_readSource_snapshot⟩ ?_
    rw [mem_snapshotRows]
    refine or_congr ?_ ?_
    · refine ⟨?_, fun h => ⟨n.id, h⟩⟩
      intro h
      obtain ⟨x, hentry, hshown⟩ := h
      obtain rfl := hs.entries _ _ _ _ hentry
      exact ⟨hentry, hshown⟩
    · refine ⟨?_, fun h => ⟨n.id, h⟩⟩
      intro h
      obtain ⟨x, row, hget, rfl, hrest⟩ := h
      obtain rfl := hs.observed _ _ _ hget
      exact ⟨row, hget, rfl, hrest⟩
  · rw [mem_indexedRows]
    refine or_congr ?_ ?_
    · refine ⟨?_, fun h => ⟨n.id, h⟩⟩
      intro h
      obtain ⟨x, hget, hrest⟩ := h
      obtain rfl := hs.nodes _ _ _ hget
      exact ⟨hget, hrest⟩
    · refine ⟨?_, fun h => ⟨n.id, h⟩⟩
      intro h
      obtain ⟨x, row, hget, rfl, hparent⟩ := h
      obtain rfl := hs.observed _ _ _ hget
      exact ⟨row, hget, rfl, hparent⟩

/-- The rows the two views read for one item. -/
structure SameItem (s s' : Store) (scope : Scope) (id : String) : Prop where
  observed : s'.observed.get (scope, id) = s.observed.get (scope, id)
  absent : s'.observedAbsent.get (scope, id) = s.observedAbsent.get (scope, id)
  nodes : s'.nodes.get (scope, id) = s.nodes.get (scope, id)

theorem SameItem.nodeOn (h : SameItem s s' scope id) :
    s'.nodeOn scope id = s.nodeOn scope id :=
  nodeOn_congr h.observed h.absent h.nodes

theorem SameItem.packageFlag (h : SameItem s s' scope id) :
    s'.packageFlag scope id = s.packageFlag scope id := by
  unfold Store.packageFlag
  rw [h.observed, h.nodes]

/-- What decides which query answers for a directory. -/
theorem readSource_congr
    (hdirectory : s'.directories.get (scope, parent) = s.directories.get (scope, parent))
    (hcursor : (s'.cursor scope).isNone = (s.cursor scope).isNone)
    (hpackage : s'.packageFlag scope parent = s.packageFlag scope parent) :
    s'.readSource scope parent false = s.readSource scope parent false := by
  unfold readSource
  rw [hdirectory, hcursor, hpackage]

theorem lists_congr (hs : WellKeyed s) (hs' : WellKeyed s') {n : Node}
    (hsource : s'.readSource scope parent false = s.readSource scope parent false)
    (hentry : s'.directoryEntries.get (scope, parent, n.id) =
      s.directoryEntries.get (scope, parent, n.id))
    (hitem : SameItem s s' scope n.id) : Lists s' scope parent n ↔ Lists s scope parent n := by
  rw [lists_iff_rows hs, lists_iff_rows hs']
  simp only [EntryShown, observedAfter, absentAfter, hsource, hentry, hitem.observed,
    hitem.absent, hitem.nodes]

theorem childrenOn_isSome (s : Store) (scope : Scope) (parent : String) :
    (s.childrenOn scope parent).isSome = (s.readSource scope parent false).isSome := by
  unfold childrenOn
  rw [Option.isSome_map]

/-! ## Announced steps -/

/-- A listing reports an item unchanged that is looked up otherwise, or that another
    directory lists too. It writes the item without a mark. -/
def Overlooked (s : Store) (op : Op) (scope : Scope) (id : String) : Prop :=
  ∃ parent nodes n, op.listing = some (scope, parent, nodes) ∧ n ∈ nodes ∧ n.id = id ∧
    Lists s scope parent n ∧
    (s.nodeOn scope id ≠ some n ∨ ∃ other m, other ≠ parent ∧ m.id = id ∧ Lists s scope other m)

/-- Everything a step changed in the views of a scope carries a mark of that step, but what
    it changed by overlooking an item. -/
structure Announced (s s' : Store) (op : Op) (scope : Scope) : Prop where
  node : ∀ id, ¬ Overlooked s op scope id → s'.nodeOn scope id ≠ s.nodeOn scope id →
    NewMark s s' ⟨scope, .item, id⟩ ∨ NewMark s s' ⟨scope, .scope, ""⟩
  listing : ∀ parent, ¬ Overlooked s op scope parent →
    s'.childrenOn scope parent ≠ s.childrenOn scope parent →
    NewMark s s' ⟨scope, .directory, parent⟩ ∨ NewMark s s' ⟨scope, .scope, ""⟩ ∨
      (s'.packageFlag scope parent ≠ s.packageFlag scope parent ∧
        NewMark s s' ⟨scope, .item, parent⟩) ∨
      ((s'.childrenOn scope parent).isSome = (s.childrenOn scope parent).isSome ∧
        ∀ n, ¬ Overlooked s op scope n.id →
          ¬ (Lists s' scope parent n ↔ Lists s scope parent n) →
          NewMark s s' ⟨scope, .item, n.id⟩)

/-- Steps of another scope, and steps that change no row, need no mark. -/
theorem Announced.of_same {op : Op} (hs : WellKeyed s) (hs' : WellKeyed s')
    (hitem : ∀ id, SameItem s s' scope id)
    (hdirectory : ∀ parent,
      s'.directories.get (scope, parent) = s.directories.get (scope, parent))
    (hentry : ∀ parent id, s'.directoryEntries.get (scope, parent, id) =
      s.directoryEntries.get (scope, parent, id))
    (hcursor : s'.cursor scope = s.cursor scope) : Announced s s' op scope where
  node := by
    intro id _ hdiffers
    exact absurd (hitem id).nodeOn hdiffers
  listing := by
    intro parent _ _
    have hsource := readSource_congr (hdirectory parent) (by rw [hcursor])
      (hitem parent).packageFlag
    refine .inr (.inr (.inr ⟨?_, ?_⟩))
    · rw [childrenOn_isSome, childrenOn_isSome, hsource]
    · intro n _ hdiffers
      exact absurd (lists_congr hs hs' hsource (hentry parent n.id) (hitem n.id)) hdiffers

/-! ## Publications -/

/-- What a publication has to know about the members it leaves unmarked. -/
structure Effect.Silent (e : Effect) (s : Store) (op : Op) : Prop where
  members : ∀ parent bound, e.listing = some (parent, bound) →
    op.listing = some (e.scope, parent, e.written)
  /-- An observation in the listed directory is older than the listing. -/
  newer : ∀ parent bound, e.listing = some (parent, bound) → ∀ n ∈ e.written, ∀ row,
    s.observed.get (e.scope, n.id) = some row → row.body.parentId = some parent →
    row.sourceRevision < e.source

theorem Effect.Silent.of_no_listing {e : Effect} {op : Op} (h : e.listing = none) :
    e.Silent s op where
  members := by
    intro parent bound hlisting
    rw [h] at hlisting
    cases hlisting
  newer := by
    intro parent bound hlisting
    rw [h] at hlisting
    cases hlisting

/-- What is known of a member that a listing writes without a mark. -/
structure Unmarked (s : Store) (e : Effect) (n : Node) : Prop where
  visible : s.nodeOn e.scope n.id = some n
  listing : ∃ parent bound, e.listing = some (parent, bound) ∧ n.parentId = some parent ∧
    (∀ other m, Lists s e.scope other m → m.id = n.id → other = parent) ∧
    ∀ row, s.observed.get (e.scope, n.id) = some row → row.sourceRevision < e.source

theorem Effect.Covered.touched_cases {e : Effect} {op : Op} (hcovered : e.Covered s)
    (hsilent : e.Silent s op) (hs : Sound s) (hseen : ¬ Overlooked s op e.scope id)
    (htouch : e.Touches scope id) :
    id ∈ e.items ∨ ∃ n ∈ e.written, n.id = id ∧ Unmarked s e n := by
  by_cases hitem : id ∈ e.items
  · exact .inl hitem
  · rcases htouch.2 with hwritten | hhidden
    · obtain ⟨n, hn, rfl⟩ := List.mem_map.mp hwritten
      obtain ⟨parent, bound, hlisting, hlists⟩ := hcovered.unmarked n hn hitem
      have hmembers := hsilent.members parent bound hlisting
      -- What is not overlooked is looked up as it is listed, and listed nowhere else.
      have hvisible : s.nodeOn e.scope n.id = some n := by
        by_contra hother
        exact hseen ⟨parent, e.written, n, hmembers, hn, rfl, hlists, .inl hother⟩
      have hunique : ∀ other m, Lists s e.scope other m → m.id = n.id → other = parent := by
        intro other m hm hid
        by_contra hother
        exact hseen ⟨parent, e.written, n, hmembers, hn, rfl, hlists,
          .inr ⟨other, m, hother, hid, hm⟩⟩
      have hparent := hcovered.listed_parent parent bound hlisting n hn
      refine .inr ⟨n, hn, rfl, hvisible, parent, bound, hlisting, hparent, hunique, ?_⟩
      intro row hget
      -- The observation is what is looked up, so it is in the listed directory.
      have hrow := nodeOn_of_observed (hs.exclusive _ _ hget) hget
      rw [hvisible] at hrow
      cases hrow
      exact hsilent.newer parent bound hlisting _ hn row hget hparent
    · exact absurd (hcovered.hidden_item id hhidden) hitem

/-- A silent member changes no other listing. -/
theorem Unmarked.lists_iff {e : Effect} (happlied : e.Applied s s') (hs : Sound s)
    (hs' : Sound s') {m : Node} (hm : m ∈ e.written) (h : Unmarked s e m)
    (hreplaces : ¬ e.Replaces e.scope parent) {n : Node} (hn : n.id = m.id)
    (hsource : s'.readSource e.scope parent false = s.readSource e.scope parent false) :
    Lists s' e.scope parent n ↔ Lists s e.scope parent n := by
  obtain ⟨listed, bound, hlisting, hparent, hunique, holder⟩ := h.listing
  have hother : parent ≠ listed := fun heq => hreplaces ⟨rfl, bound, heq ▸ hlisting⟩
  obtain ⟨hwritten, hpresent⟩ := happlied.written m hm
  have habsent : s.observedAbsent.get (e.scope, m.id) = none := by
    cases hget : s.observedAbsent.get (e.scope, m.id) with
    | none => rfl
    | some r =>
      have hnone := nodeOn_of_absent hget
      rw [h.visible] at hnone
      cases hnone
  have hbefore : ¬ Lists s e.scope parent n := fun hlists => hother (hunique parent n hlists hn)
  refine ⟨?_, fun hlists => absurd hlists hbefore⟩
  intro hlists
  exfalso
  rw [lists_iff_rows hs'.keyed, hn] at hlists
  rcases hlists with ⟨r, hsnapshot, hentry | hobserved⟩ | ⟨_, hindexed | hobserved⟩
  · -- The entry was hidden by an observation newer than the snapshot, hence than the listing.
    obtain ⟨hentry, hshown⟩ := hentry
    rw [(happlied.unlisted e.scope parent hreplaces).2.1] at hentry
    have hle : e.source ≤ r := by simpa [observedAfter, hwritten] using hshown.1
    apply hbefore
    rw [lists_iff_rows hs.keyed, hn]
    refine .inl ⟨r, hsource ▸ hsnapshot, .inl ⟨hentry, ?_, by simp [absentAfter, habsent]⟩⟩
    cases hget : s.observed.get (e.scope, m.id) with
    | none => simp [observedAfter, hget]
    | some row =>
      have hlt := holder row hget
      simp only [observedAfter, hget, Option.any_some, decide_eq_false_iff_not]
      omega
  · obtain ⟨row, hget, rfl, hin, _⟩ := hobserved
    rw [hwritten] at hget
    cases hget
    rw [hparent] at hin
    exact hother (Option.some.inj hin).symm
  · rw [hwritten] at hindexed
    cases hindexed.2.2.1
  · obtain ⟨row, hget, rfl, hin⟩ := hobserved
    rw [hwritten] at hget
    cases hget
    rw [hparent] at hin
    exact hother (Option.some.inj hin).symm

theorem packageFlag_of_nodeOn {n : Node} (h : s.nodeOn scope id = some n) :
    s.packageFlag scope id = n.package := by
  unfold Store.nodeOn at h
  split at h
  · cases h
  · unfold Store.packageFlag
    rw [h]
    rfl

theorem Effect.Applied.sameItem {e : Effect} (happlied : e.Applied s s')
    (huntouched : ¬ e.Touches scope id) : SameItem s s' scope id :=
  ⟨(happlied.kept scope id huntouched).1, (happlied.kept scope id huntouched).2,
    by rw [happlied.nodes]⟩

/-- A member written without a mark looks the same afterwards. -/
theorem Effect.Applied.nodeOn_written {e : Effect} (happlied : e.Applied s s') {n : Node}
    (hn : n ∈ e.written) : s'.nodeOn e.scope n.id = some n :=
  nodeOn_of_observed (happlied.written n hn).2 (happlied.written n hn).1

theorem Effect.Applied.announced {e : Effect} {op : Op} (happlied : e.Applied s s')
    (hcovered : e.Covered s) (hsilent : e.Silent s op) (hs : Sound s) (hs' : Sound s')
    (scope : Scope) : Announced s s' op scope := by
  have hcursor : s'.cursor scope = s.cursor scope := by
    unfold Store.cursor
    rw [happlied.feeds]
  by_cases hscope : scope = e.scope
  · subst hscope
    have hitem : ∀ id, id ∈ e.items → NewMark s s' ⟨e.scope, .item, id⟩ :=
      fun id hid => happlied.newMark ⟨rfl, .inl ⟨rfl, hid⟩⟩
    have hdirectory : ∀ p, p ∈ e.directories → NewMark s s' ⟨e.scope, .directory, p⟩ :=
      fun p hp => happlied.newMark ⟨rfl, .inr ⟨rfl, hp⟩⟩
    refine ⟨?_, ?_⟩
    · intro id hseen hdiffers
      by_cases htouch : e.Touches e.scope id
      · rcases hcovered.touched_cases hsilent hs hseen htouch with
          hmarked | ⟨n, hn, rfl, hunmarked⟩
        · exact .inl (hitem id hmarked)
        · exact absurd ((happlied.nodeOn_written hn).trans hunmarked.visible.symm) hdiffers
      · exact absurd (happlied.sameItem htouch).nodeOn hdiffers
    · intro parent hseen _
      by_cases hreplaces : e.Replaces e.scope parent
      · obtain ⟨_, bound, hlisting⟩ := hreplaces
        exact .inl (hdirectory parent (hcovered.listed_directory parent bound hlisting))
      by_cases hpackage : s'.packageFlag e.scope parent = s.packageFlag e.scope parent
      rotate_left
      · -- The item is touched, and not by a member that looks the same afterwards.
        have htouch : e.Touches e.scope parent := by
          by_contra huntouched
          exact hpackage (happlied.sameItem huntouched).packageFlag
        rcases hcovered.touched_cases hsilent hs hseen htouch with
          hmarked | ⟨n, hn, rfl, hunmarked⟩
        · exact .inr (.inr (.inl ⟨hpackage, hitem parent hmarked⟩))
        · rw [packageFlag_of_nodeOn hunmarked.visible,
            packageFlag_of_nodeOn (happlied.nodeOn_written hn)] at hpackage
          exact absurd rfl hpackage
      -- The same query answers for the directory, before and after.
      obtain ⟨hsame, hentries, _⟩ := happlied.unlisted e.scope parent hreplaces
      have hsource := readSource_congr hsame (by rw [hcursor]) hpackage
      refine .inr (.inr (.inr ⟨?_, ?_⟩))
      · rw [childrenOn_isSome, childrenOn_isSome, hsource]
      · intro n hseen hdiffers
        by_cases htouch : e.Touches e.scope n.id
        · rcases hcovered.touched_cases hsilent hs hseen htouch with
            hmarked | ⟨m, hm, hid, hunmarked⟩
          · exact hitem n.id hmarked
          · exact absurd (hunmarked.lists_iff happlied hs hs' hm hreplaces hid.symm hsource)
              hdiffers
        · exact absurd (lists_congr hs.keyed hs'.keyed hsource (hentries n.id)
            (happlied.sameItem htouch)) hdiffers
  · have huntouched : ∀ id, ¬ e.Touches scope id := fun id htouch => hscope htouch.1
    have hunlisted : ∀ parent, ¬ e.Replaces scope parent := fun parent h => hscope h.1
    exact .of_same hs.keyed hs'.keyed (fun id => happlied.sameItem (huntouched id))
      (fun parent => (happlied.unlisted scope parent (hunlisted parent)).1)
      (fun parent id => (happlied.unlisted scope parent (hunlisted parent)).2.1 id) hcursor

/-! ## Rounds -/

/-- A round of a scope without a completed cursor builds a baseline. -/
def FeedView.Grounded (f : FeedView) : Prop :=
  ∀ round, f.round = some round → f.cursor = none → round.fresh = true

theorem FeedView.Grounded.after {f : FeedView} (h : f.Grounded) (scope : Scope) (op : Op) :
    (f.after scope op).Grounded := by
  cases op with
  | begin sc reset =>
    simp only [FeedView.after, FeedView.begin]
    split
    · split
      · intro round hround _
        cases hround
        rfl
      · split
        · exact h
        · intro round hround hcursor
          cases hround
          have hnone : f.cursor = none := hcursor
          simp [hnone]
    · exact h
  | beginSnapshot sc =>
    simp only [FeedView.after, FeedView.beginSnapshot]
    split
    · split
      · exact h
      · intro round hround _
        cases hround
        rfl
    · exact h
  | stage sc expected page =>
    simp only [FeedView.after, FeedView.stage]
    split
    · split
      · exact h
      · next round hround =>
        split
        · intro round' hround'
          cases hround'
        · intro round' hround' hcursor
          cases hround'
          exact h round hround hcursor
    · exact h
  | _ => exact h

theorem grounded_ofLog (scope : Scope) (log : List (Op × Reply)) :
    (FeedView.ofLog scope log).Grounded := by
  have hgeneral : ∀ f : FeedView, f.Grounded →
      (log.foldl (fun f entry => f.after scope entry.1) f).Grounded := by
    induction log with
    | nil =>
      intro f h
      exact h
    | cons entry log ih =>
      intro f h
      exact ih _ (h.after scope entry.1)
  apply hgeneral
  intro round hround
  cases hround

/-- A delta is only committed to a scope whose cursor is known. -/
theorem Reachable.cursor_of_delta {w : World} (hreachable : Reachable w) {feed : Feed}
    (hfeed : w.store.feeds.get scope = some feed) (hpending : feed.pending = true)
    (hdelta : feed.reset = false) : (w.store.cursor scope).isNone = false := by
  have habstracts := hreachable.abstracts scope
  have hrow := feedRow_of_get hfeed
  have hround := habstracts.pending_iff
  rw [hrow, hpending] at hround
  obtain ⟨round, hround⟩ := Option.isSome_iff_exists.mp hround.symm
  obtain ⟨_, hreset, _, _⟩ := habstracts.active round hround
  rw [hrow, hdelta] at hreset
  have hcursor := habstracts.cursor
  rw [feedRow_cursor] at hcursor
  rw [hcursor]
  cases hnone : (FeedView.ofLog scope w.log).cursor with
  | some c => rfl
  | none =>
    have hfresh := grounded_ofLog scope w.log round hround hnone
    rw [← hreset] at hfresh
    cases hfresh

/-- The rows of a scope a round did not commit to, and of items it did not stage. -/
theorem Committed.sameItem {u : Store} {sc : Scope} {reset : Bool} {cursor : Cursor}
    (h : Committed u sc reset cursor s')
    (hother : scope ≠ sc ∨ (reset = false ∧ id ∉ u.stagedIds sc)) : SameItem u s' scope id := by
  have hkept : ∀ r, ¬ Replaced u sc reset (u.stagedIds sc) scope id r := by
    intro r hreplaced
    obtain ⟨hsc, _, hreset | hid⟩ := hreplaced
    · rcases hother with hne | ⟨hdelta, _⟩
      · exact hne hsc
      · rw [hreset] at hdelta
        cases hdelta
    · rcases hother with hne | ⟨_, hunstaged⟩
      · exact hne hsc
      · exact hunstaged hid
  refine ⟨?_, ?_, ?_⟩
  · rcases filtered_cases (h.observed scope id) with hsame | ⟨row, _, hreplaced, _⟩
    · exact hsame
    · exact absurd hreplaced (hkept _)
  · rcases filtered_cases (h.absent scope id) with hsame | ⟨r, _, hreplaced, _⟩
    · exact hsame
    · exact absurd hreplaced (hkept _)
  · by_cases hsc : scope = sc
    · subst hsc
      obtain ⟨hdelta, hunstaged⟩ := hother.resolve_left (fun h => h rfl)
      have hnone : u.staged.get (scope, id) = none := by
        cases hget : u.staged.get (scope, id) with
        | none => rfl
        | some body => exact absurd (mem_stagedIds.mpr ⟨body, hget⟩) hunstaged
      rw [h.nodes_kept id hnone, hdelta]
      rfl
    · exact h.nodes_other scope id hsc

/-- The snapshot of a directory the round did not touch, with its entries. -/
theorem Committed.sameSnapshot {u : Store} {sc : Scope} {reset : Bool} {cursor : Cursor}
    (h : Committed u sc reset cursor s')
    (hother : scope ≠ sc ∨ (reset = false ∧ parent ∉ u.touchedDirectories sc)) :
    s'.directories.get (scope, parent) = u.directories.get (scope, parent) ∧
    ∀ id, s'.directoryEntries.get (scope, parent, id) =
      u.directoryEntries.get (scope, parent, id) := by
  have hsame : s'.directories.get (scope, parent) = u.directories.get (scope, parent) := by
    rcases filtered_cases (h.directories scope parent) with hsame | ⟨r, _, hreplaced, _⟩
    · exact hsame
    · exfalso
      obtain ⟨_, hsc, _, hreset | htouched⟩ := hreplaced
      · rcases hother with hne | ⟨hdelta, _⟩
        · exact hne hsc
        · rw [hreset] at hdelta
          cases hdelta
      · rcases hother with hne | ⟨_, huntouched⟩
        · exact hne hsc
        · exact huntouched htouched
  refine ⟨hsame, ?_⟩
  intro id
  apply Option.ext
  intro n
  refine (h.entries scope parent id n).trans (and_iff_left ?_)
  rw [hsame]
  exact fun hsome => hsome

theorem Committed.announced {u : Store} {sc : Scope} {reset : Bool} {cursor : Cursor}
    (h : Committed u sc reset cursor s') (hu : Sound u)
    (hcursor : reset = false → (u.cursor sc).isNone = false) (op : Op) (scope : Scope) :
    Announced u s' op scope := by
  have hs' := h.sound hu
  by_cases hscope : scope = sc
  · subst hscope
    cases reset with
    | true =>
      -- The mark of the scope stands for everything in it.
      obtain ⟨r, hgt, hle, hmark, _⟩ := h.marks.baseline rfl
      have hnew : NewMark u s' ⟨scope, .scope, ""⟩ := ⟨r, hmark, hgt, hle⟩
      exact ⟨fun _ _ _ => .inr hnew, fun _ _ _ => .inr (.inl hnew)⟩
    | false =>
      have hitem : ∀ id, id ∈ u.stagedIds scope → NewMark u s' ⟨scope, .item, id⟩ := by
        intro id hid
        have hdelta := h.marks.delta rfl ⟨scope, .item, id⟩ rfl
        rw [if_pos (.inl ⟨rfl, hid⟩)] at hdelta
        exact hdelta
      refine ⟨?_, ?_⟩
      · intro id _ hdiffers
        by_cases hid : id ∈ u.stagedIds scope
        · exact .inl (hitem id hid)
        · exact absurd (h.sameItem (.inr ⟨rfl, hid⟩)).nodeOn hdiffers
      · intro parent _ _
        by_cases htouched : parent ∈ u.touchedDirectories scope
        · have hdelta := h.marks.delta rfl ⟨scope, .directory, parent⟩ rfl
          rw [if_pos (.inr ⟨rfl, htouched⟩)] at hdelta
          exact .inl hdelta
        by_cases hpackage : s'.packageFlag scope parent = u.packageFlag scope parent
        rotate_left
        · have hparent : parent ∈ u.stagedIds scope := by
            by_contra hunstaged
            exact hpackage (h.sameItem (.inr ⟨rfl, hunstaged⟩)).packageFlag
          exact .inr (.inr (.inl ⟨hpackage, hitem parent hparent⟩))
        obtain ⟨hdirectory, hentries⟩ := h.sameSnapshot (.inr ⟨rfl, htouched⟩)
        have hknown : (s'.cursor scope).isNone = (u.cursor scope).isNone := by
          rw [hcursor rfl]
          unfold Store.cursor
          rw [h.feeds_own]
          rfl
        have hsource := readSource_congr hdirectory hknown hpackage
        refine .inr (.inr (.inr ⟨?_, ?_⟩))
        · rw [childrenOn_isSome, childrenOn_isSome, hsource]
        · intro n _ hdiffers
          by_cases hid : n.id ∈ u.stagedIds scope
          · exact hitem n.id hid
          · exact absurd (lists_congr hu.keyed hs'.keyed hsource (hentries n.id)
              (h.sameItem (.inr ⟨rfl, hid⟩))) hdiffers
  · refine .of_same hu.keyed hs'.keyed (fun id => h.sameItem (.inl hscope))
      (fun parent => (h.sameSnapshot (.inl hscope)).1)
      (fun parent id => (h.sameSnapshot (.inl hscope)).2 id) ?_
    unfold Store.cursor
    rw [h.feeds_other scope hscope]

/-! ## Main theorem -/

/-- Every step announces what it changes, but for the items it overlooks. -/
theorem step_announced {w : World} (hreachable : Reachable w) {op : Op} {reply : Reply}
    (hpermitted : Permitted w op) (hexec : w.store.exec op = .ok (reply, s')) (scope : Scope) :
    Announced w.store s' op scope := by
  have hinv := hreachable.inv
  have houtcome := hinv.outcome hpermitted hexec
  have hs' : Sound s' := houtcome.sound hinv.sound (fun t hop hdatabase =>
    hinv.ticket_le t (hpermitted.granted hop hdatabase))
  have hkind : StepKind w.store (fun e => e.Silent w.store op) op s' := by
    apply houtcome.kind
    · intro t node _ _ _
      exact .of_no_listing rfl
    · intro t id _ _ _
      exact .of_no_listing rfl
    · intro t parent bound e hop _ _ htarget haccepted hescope hsource hlisting hmembers _
      have hfenced := hinv.fenced t (hpermitted.granted hop haccepted.database.symm)
      refine ⟨?_, ?_⟩
      · intro p b h
        rw [hlisting] at h
        cases h
        exact hmembers
      · intro p b h n hn row hget hparent
        rw [hlisting] at h
        cases h
        rw [hescope] at hget
        rw [hsource]
        refine haccepted.present_lt hfenced (haccepted.items n hn) hget ?_
        intro q hq
        rw [hparent] at hq
        cases hq
        exact haccepted.target_directory _ htarget
    · intro e hfresh hmembers
      refine ⟨hmembers, ?_⟩
      intro p b _ n _ row hget _
      exact lt_of_le_of_lt (hinv.sound.observed_le _ _ hget) hfresh
  cases hkind with
  | quiet hsame =>
    refine .of_same hinv.sound.keyed hs'.keyed (fun id => ⟨?_, ?_, ?_⟩) (fun parent => ?_)
      (fun parent id => ?_) (hsame.cursor scope)
    · rw [hsame.observed]
    · rw [hsame.observedAbsent]
    · rw [hsame.nodes]
    · rw [hsame.directories]
    · rw [hsame.directoryEntries]
  | published happlied hcovered hsilent =>
    exact happlied.announced hcovered hsilent hinv.sound hs' scope
  | @committed sc expected page feed _ _ hfeed hpending hcommitted =>
    have hu := hinv.sound.stageChanges sc page.changes
    have hcursor := fun hdelta => hreachable.cursor_of_delta hfeed hpending hdelta
    obtain ⟨staged, hframe⟩ := stageChanges_frame w.store sc page.changes
    rw [hframe] at hcommitted hu
    have hannounced := hcommitted.announced hu hcursor (.stage sc expected page) scope
    exact ⟨hannounced.node, hannounced.listing⟩

/-- The delta that deletes a listed item announces it. -/
theorem listedItem_announced :
    (listedItem.foldl World.step (World.create "db")).store.nodeOn drive "x" =
        some (fileAt "x" "p") ∧
      ∃ s', (listedItem.foldl World.step (World.create "db")).store.exec
          (.stage drive (some ⟨"c"⟩) (pageTo [.delete "x"] "d")) = .ok (.done, s') ∧
        s'.nodeOn drive "x" = none ∧
        (∀ id, ¬ Overlooked (listedItem.foldl World.step (World.create "db")).store
          (.stage drive (some ⟨"c"⟩) (pageTo [.delete "x"] "d")) drive id) ∧
        Announced (listedItem.foldl World.step (World.create "db")).store s'
          (.stage drive (some ⟨"c"⟩) (pageTo [.delete "x"] "d")) drive := by
  have hreachable : Reachable (listedItem.foldl World.step (World.create "db")) := by
    refine ⟨"db", listedItem, Run.extend .start ?_⟩
    exact ⟨.of_ticketless rfl trivial, .of_ticketless rfl trivial,
      .of_ticketless rfl children_fileAt, .of_ticketless rfl trivial, trivial⟩
  have hpermitted : Permitted (listedItem.foldl World.step (World.create "db"))
      (.stage drive (some ⟨"c"⟩) (pageTo [.delete "x"] "d")) := .of_ticketless rfl trivial
  refine ⟨rfl, _, rfl, rfl, ?_, step_announced hreachable hpermitted rfl drive⟩
  rintro id ⟨_, _, _, hlisting, _⟩
  cases hlisting

/-! ## Changes without a mark -/

/-- Every change of an item carries the mark of the item or of the scope, and every change of
    a listing the mark of the directory, of each member that changed, or of the scope. -/
structure Marked (s s' : Store) (scope : Scope) : Prop where
  node : ∀ id, s'.nodeOn scope id ≠ s.nodeOn scope id →
    NewMark s s' ⟨scope, .item, id⟩ ∨ NewMark s s' ⟨scope, .scope, ""⟩
  listing : ∀ parent, s'.childrenOn scope parent ≠ s.childrenOn scope parent →
    NewMark s s' ⟨scope, .directory, parent⟩ ∨ NewMark s s' ⟨scope, .scope, ""⟩ ∨
      ∀ n, ¬ (Lists s' scope parent n ↔ Lists s scope parent n) →
        NewMark s s' ⟨scope, .item, n.id⟩

/-- A folder with one file, read from a feed. -/
def indexedFolder : List Op :=
  [.begin drive false, .stage drive none
    (pageTo [.upsert { fileAt "p" "root" with kind := .folder }, .upsert (fileAt "x" "p")] "c")]

/-- The folder turns out to be a package. Its listing becomes unknown. -/
def packageRead : Op :=
  .observeNode drive { fileAt "p" "root" with kind := .folder, package := true }

/-- A file that a directory lists is looked up in another one, and the directory is read again. -/
def movedListing : List Op := confirmedListing ++ [lateRead, .directoryObservation drive "p"]

/-- The directory still lists the file, which is looked up there from now on. -/
def repeatedListing : Op := .publishDirectory ⟨drive, .directory "p", "db", 7⟩ [fileAt "x" "p"]

theorem changes_are_not_marked :
    (∃ s', Reachable (indexedFolder.foldl World.step (World.create "db")) ∧
      Permitted (indexedFolder.foldl World.step (World.create "db")) packageRead ∧
      (indexedFolder.foldl World.step (World.create "db")).store.exec packageRead =
        .ok (.done, s') ∧
      ¬ Marked (indexedFolder.foldl World.step (World.create "db")).store s' drive) ∧
    ∃ reply s', Reachable (movedListing.foldl World.step (World.create "db")) ∧
      Permitted (movedListing.foldl World.step (World.create "db")) repeatedListing ∧
      (movedListing.foldl World.step (World.create "db")).store.exec repeatedListing =
        .ok (reply, s') ∧
      ¬ Marked (movedListing.foldl World.step (World.create "db")).store s' drive := by
  have hread : Reachable (indexedFolder.foldl World.step (World.create "db")) := by
    refine ⟨"db", indexedFolder, Run.extend .start ?_⟩
    exact ⟨.of_ticketless rfl trivial, .of_ticketless rfl trivial, trivial⟩
  have hmoved : Reachable (movedListing.foldl World.step (World.create "db")) := by
    refine ⟨"db", movedListing, Run.extend .start ?_⟩
    refine ⟨.of_ticketless rfl children_fileAt, .of_ticketless rfl trivial,
      .of_ticketless rfl trivial,
      .of_granted rfl ⟨_, List.mem_cons_of_mem _ (List.mem_cons_of_mem _ List.mem_cons_self)⟩ ?_,
      .of_granted rfl ⟨_, List.mem_cons_of_mem _ List.mem_cons_self⟩ trivial,
      .of_ticketless rfl trivial, trivial⟩
    intro parent htarget
    cases htarget
    exact children_fileAt
  refine ⟨⟨_, hread, .of_ticketless rfl trivial, rfl, ?_⟩,
    ⟨_, _, hmoved, .of_granted rfl ⟨_, List.mem_of_getLast? rfl⟩ ?_, rfl, ?_⟩⟩
  · intro h
    have hlists : Lists (indexedFolder.foldl World.step (World.create "db")).store drive "p"
        (fileAt "x" "p") := ⟨[fileAt "x" "p"], rfl, by simp⟩
    rcases h.listing "p" (by decide) with ⟨r, hr, _⟩ | ⟨r, hr, hgt, _⟩ | hmembers
    · cases hr
    · obtain rfl : (2 : Nat) = r := Option.some.inj hr
      exact absurd hgt (by decide)
    · obtain ⟨r, hr, _⟩ := hmembers (fileAt "x" "p") (by
        intro hiff
        obtain ⟨nodes, hnodes, _⟩ := hiff.mpr hlists
        cases hnodes)
      cases hr
  · intro parent htarget
    cases htarget
    exact children_fileAt
  · intro h
    -- The last mark of the file is the one of the late read.
    rcases h.node "x" (by decide) with ⟨r, hr, hgt, _⟩ | ⟨r, hr, _⟩
    · obtain rfl : (6 : Nat) = r := Option.some.inj hr
      exact absurd hgt (by decide)
    · cases hr

end Cirrove.Store
