import Cirrove.Store.Effect
import Mathlib.Data.List.Dedup

/-!
# Specifications of the publishing operations

One theorem for each operation that publishes metadata: it leaves the store as it is, or
it has the effect of `nodesEffect`, `absenceEffect` or `listingEffect` after `current` let
the reply through. Nothing later unfolds these operations.

## Sections

- the supersession check, read off `current`
- rows that carry their own identity (`WellKeyed`)
- replies about one item, relocations, complete listings
-/

namespace Cirrove.Store

open Cirrove.Library

variable {s s' : Store} {scope : Scope} {parent : String}

/-! ## The supersession check -/

/-- Nothing newer than the ticket speaks about the key or about the whole scope. -/
def Quiet (s : Store) (t : ObservationTicket) (kind : MetadataChangeKind) (id : String) : Prop :=
  s.changedAfter t.scope kind id t.revision = false

/-- What `current` has checked when it lets a reply through. -/
structure Accepted (s : Store) (t : ObservationTicket) (nodes : List Node) : Prop where
  database : s.identity = t.database
  scope : Quiet s t .scope ""
  target_node : ∀ id, t.target = .node id → Quiet s t .item id
  target_directory : ∀ id, t.target = .directory id → Quiet s t .directory id
  items : ∀ n ∈ nodes, Quiet s t .item n.id
  parent : ∀ id, t.target = .node id → ∀ n ∈ nodes.head?, ∀ p, n.parentId = some p →
    Quiet s t .directory p

theorem current_accepted {t : ObservationTicket} {nodes : List Node}
    (h : s.current t nodes = .ok true) : Accepted s t nodes := by
  unfold current at h
  split at h
  · cases h
  · next hidentity =>
    simp only [Except.ok.injEq, Bool.and_eq_true, Bool.not_eq_true', List.any_eq_false,
      Bool.not_eq_true] at h
    obtain ⟨⟨⟨hscope, htarget⟩, hitems⟩, hparent⟩ := h
    refine ⟨not_not.mp hidentity, hscope, ?_, ?_, hitems, ?_⟩
    · intro id hid
      simpa [Quiet, hid] using htarget
    · intro id hid
      simp only [hid, Bool.and_eq_true, Bool.not_eq_true'] at htarget
      exact htarget.1
    · intro id hid n hn p hp
      have hn' : nodes.head? = some n := hn
      simp only [hid, hn', Option.bind_some, hp, Option.any_some, Bool.not_eq_true'] at hparent
      exact hparent

/-! ## Rows carry their identity -/

/-- The identity in a stored body is the key of its row. -/
structure WellKeyed (s : Store) : Prop where
  observed : ∀ scope id row, s.observed.get (scope, id) = some row → row.body.id = id
  nodes : ∀ scope id n, s.nodes.get (scope, id) = some n → n.id = id
  staged : ∀ scope id n, s.staged.get (scope, id) = some (some n) → n.id = id
  entries : ∀ scope parent id n, s.directoryEntries.get (scope, parent, id) = some n → n.id = id

/-- A body found under an identity carries it. -/
theorem WellKeyed.nodeOn (h : WellKeyed s) {id : String} {n : Node}
    (hnode : s.nodeOn scope id = some n) : n.id = id := by
  unfold Store.nodeOn at hnode
  split at hnode
  · cases hnode
  · cases hobserved : s.observed.get (scope, id) with
    | none =>
      rw [hobserved] at hnode
      exact h.nodes scope id n hnode
    | some row =>
      rw [hobserved] at hnode
      cases hnode
      exact h.observed scope id row hobserved

theorem mem_removedFrom (h : WellKeyed s) {ids : List String} {n : Node}
    (hn : n ∈ (s.removedFrom scope parent ids).rows.map Prod.snd) :
    n.id ∉ ids ∧ n.parentId = some parent ∧ Names s scope parent n.id := by
  obtain ⟨⟨k, n⟩, hrow, rfl⟩ := List.mem_map.mp hn
  rw [Table.mem_rows] at hrow
  -- A row comes from the committed index or from the observed items.
  rcases Table.get_setRows_cases _ hrow with hindexed | hobserved
  · obtain ⟨⟨sc, id⟩, body, hget, hsome⟩ := (Table.mem_select _ _ _).mp hindexed
    obtain ⟨⟨rfl, hparent, hmissing⟩, hbody⟩ := Option.ite_none_right_eq_some.mp hsome
    cases hbody
    have hid := h.nodes sc id _ hget
    exact ⟨hid ▸ hmissing, hparent, .inr ⟨n, hid ▸ hget, hparent⟩⟩
  · rcases Table.get_setRows_cases _ hobserved with hmem | hempty
    · obtain ⟨⟨sc, id⟩, row, hget, hsome⟩ := (Table.mem_select _ _ _).mp hmem
      obtain ⟨⟨rfl, hparent, hmissing⟩, hbody⟩ := Option.ite_none_right_eq_some.mp hsome
      cases hbody
      have hid := h.observed sc id _ hget
      exact ⟨hid ▸ hmissing, hparent, .inl ⟨row, hid ▸ hget, hparent⟩⟩
    · cases hempty

/-- The map of removed items is keyed by the identity in the body. -/
theorem removedFrom_id {ids : List String} {id : String} {n : Node}
    (hget : (s.removedFrom scope parent ids).get id = some n) : n.id = id := by
  rcases Table.get_setRows_cases _ hget with hindexed | hobserved
  · obtain ⟨_, _, _, hsome⟩ := (Table.mem_select _ _ _).mp hindexed
    obtain ⟨_, hbody⟩ := Option.ite_none_right_eq_some.mp hsome
    cases hbody
    rfl
  · rcases Table.get_setRows_cases _ hobserved with hmem | hempty
    · obtain ⟨_, _, _, hsome⟩ := (Table.mem_select _ _ _).mp hmem
      obtain ⟨_, hbody⟩ := Option.ite_none_right_eq_some.mp hsome
      cases hbody
      rfl
    · cases hempty

/-! ## Replies about one item -/

theorem publishNode_spec {t : ObservationTicket} {node : Node} {result : ObservationResult Node}
    (h : s.publishNode t node = .ok (result, s')) :
    (∃ view, result = .superseded view ∧ s' = s) ∨
    (∃ changed, result = .published node changed ∧ t.target = .node node.id ∧
      Accepted s t [node] ∧ (s.nodesEffect t.scope [node] [] t.revision).Applied s s') := by
  unfold publishNode at h
  split at h
  · cases h
  · next id htarget =>
    split at h
    · cases h
    · next hid =>
      obtain rfl : id = node.id := not_not.mp hid
      obtain ⟨isCurrent, hcurrent, h⟩ := bind_eq_ok h
      cases isCurrent with
      | false =>
        cases h
        exact .inl ⟨_, rfl, rfl⟩
      | true =>
        obtain ⟨s₁, hmarks, h⟩ := bind_eq_ok h
        cases h
        refine .inr ⟨_, rfl, htarget, current_accepted hcurrent, ?_⟩
        rw [changedItems_eq_ok hmarks]
        exact applied_writes s t.scope _ _ [node] t.revision (s.revision + 1) (by simp) le_rfl

theorem publishAbsence_spec {t : ObservationTicket} {result : AbsenceResult}
    (h : s.publishAbsence t = .ok (result, s')) :
    (∃ view, result = .superseded view ∧ s' = s) ∨
    (∃ id changed, result = .published changed ∧ t.target = .node id ∧
      Accepted s t (s.nodeOn t.scope id).toList ∧
      (s.absenceEffect t.scope id t.revision).Applied s s') := by
  unfold publishAbsence at h
  split at h
  · cases h
  · next id htarget =>
    obtain ⟨isCurrent, hcurrent, h⟩ := bind_eq_ok h
    cases isCurrent with
    | false =>
      cases h
      exact .inl ⟨_, rfl, rfl⟩
    | true =>
      obtain ⟨⟨r, s₁⟩, hadvance, h⟩ := bind_eq_ok h
      obtain ⟨rfl, rfl⟩ := advance_eq_ok hadvance
      cases h
      refine .inr ⟨id, _, rfl, htarget, current_accepted hcurrent, ?_⟩
      apply Effect.Applied.of_tables (s.absenceEffect t.scope id t.revision) rfl le_rfl
        (fun _ => rfl)
      · intro n hn
        cases hn
      · intro x hx
        obtain rfl : x = id := by simpa [absenceEffect] using hx
        exact ⟨by simp [absenceEffect, Table.get_erase], by simp [absenceEffect]⟩
      · intro sc x htouch
        have hne : (sc, x) ≠ (t.scope, id) := by
          intro heq
          cases heq
          exact htouch ⟨rfl, .inr (by simp [absenceEffect])⟩
        exact ⟨(Table.get_erase _ _ _).trans (if_neg hne), Table.get_set_of_ne _ _ hne⟩
      · intro p source hlisting
        cases hlisting
      · intro sc p _
        exact ⟨rfl, fun _ => rfl, rfl⟩

theorem observeNode_spec {node : Node} (h : s.observeNode scope node = .ok s') :
    ∃ source, s.revision < source ∧ source ≤ s'.revision ∧
      (s.nodesEffect scope [node] [] source).Applied s s' := by
  unfold observeNode at h
  obtain ⟨s₁, hmarks, h⟩ := bind_eq_ok h
  obtain ⟨⟨r, s₂⟩, hadvance, h⟩ := bind_eq_ok h
  cases h
  obtain ⟨rfl, rfl⟩ := advance_eq_ok hadvance
  rw [changedItems_eq_ok hmarks]
  have hclock : s.revision + 1 ≤ s.revision + 2 := Nat.le_succ _
  exact ⟨s.revision + 2, Nat.lt_of_succ_le hclock, le_rfl,
    applied_writes s scope _ _ [node] (s.revision + 2) (s.revision + 2) (by simp) hclock⟩

/-! ## Relocations -/

theorem relocation_spec {nodes removed : List Node} (hdistinct : (nodes.map Node.id).Nodup)
    {s₁ s₂ : Store} {revision : Nat} (hmarks : s.changedItems scope nodes removed none = .ok s₁)
    (hadvance : s₁.advance = .ok (revision, s₂)) :
    s.revision < revision ∧ revision ≤ (s₂.writeNodes scope nodes revision).revision ∧
      (s.nodesEffect scope nodes removed revision).Applied s
        (s₂.writeNodes scope nodes revision) := by
  obtain ⟨rfl, rfl⟩ := advance_eq_ok hadvance
  rw [changedItems_eq_ok hmarks]
  have hclock : s.revision + 1 ≤ s.revision + 2 := Nat.le_succ _
  obtain ⟨observed, absent, hframe⟩ := writeNodes_frame
    { s.marking scope ((nodes ++ removed).map Node.id)
        (s.changedParents scope (nodes ++ removed) none) with revision := s.revision + 2 }
    scope (s.revision + 2) nodes
  refine ⟨Nat.lt_of_succ_le hclock, ?_,
    applied_writes s scope _ _ nodes (s.revision + 2) (s.revision + 2) hdistinct hclock⟩
  show s.revision + 2 ≤ Store.revision (Store.writeNodes _ scope nodes (s.revision + 2))
  have hrevision := congrArg Store.revision hframe
  exact hrevision.ge

/-! ## Complete listings -/

theorem writeSnapshot_eq_ok {nodes : List Node} {source : Nat}
    (h : s.writeSnapshot scope parent nodes source = .ok s') :
    (nodes.map Node.id).Nodup ∧ s' = s.stagedSnapshot scope parent nodes none source := by
  unfold writeSnapshot at h
  split at h
  · next hdistinct =>
    cases h
    exact ⟨hdistinct, rfl⟩
  · cases h

/-- What the two listing operations leave behind, from the rows they leave. -/
theorem applied_listing {nodes : List Node} {bound : Option Node}
    {updated removed directories : List String} {source : Nat} {base : Store}
    (hdistinct : (nodes.map Node.id).Nodup)
    (hbase : ∃ versions observed absent, base = { s with
      revision := s.revision + 1, versions := versions, observed := observed,
      observedAbsent := absent })
    (hversions : ∀ k, base.versions.get k =
      (s.marking scope (updated ++ removed) directories).versions.get k)
    (hwritten : ∀ n ∈ nodes, base.observed.get (scope, n.id) = some ⟨n, source⟩ ∧
      base.observedAbsent.get (scope, n.id) = none)
    (hhidden : ∀ id ∈ removed.filter (s.hiddenBy scope parent),
      base.observed.get (scope, id) = none ∧ base.observedAbsent.get (scope, id) = some source)
    (hkept : ∀ sc id, ¬ (sc = scope ∧ (id ∈ nodes.map Node.id ∨
        id ∈ removed.filter (s.hiddenBy scope parent))) →
      base.observed.get (sc, id) = s.observed.get (sc, id) ∧
      base.observedAbsent.get (sc, id) = s.observedAbsent.get (sc, id)) :
    (s.listingEffect scope parent nodes bound updated removed directories source).Applied s
      (base.stagedSnapshot scope parent nodes bound source) := by
  obtain ⟨versions, observed, absent, rfl⟩ := hbase
  obtain ⟨hentries, hnone, hother⟩ := snapshot_entries s.directoryEntries scope parent nodes
    hdistinct
  apply Effect.Applied.of_tables
    (s.listingEffect scope parent nodes bound updated removed directories source)
    rfl le_rfl hversions hwritten hhidden hkept
  · intro p b hlisting
    cases hlisting
    refine ⟨Table.get_set_self _ _ _, hentries, hnone, ?_⟩
    cases bound with
    | none => exact (Table.get_erase _ _ _).trans (if_pos rfl)
    | some source => exact Table.get_set_self _ _ _
  · intro sc p hreplaces
    have hne : ¬ (sc = scope ∧ p = parent) := by
      intro heq
      obtain ⟨rfl, rfl⟩ := heq
      exact hreplaces ⟨rfl, bound, rfl⟩
    have hkey : (sc, p) ≠ (scope, parent) := by
      intro heq
      exact hne ⟨(Prod.mk.inj heq).1, (Prod.mk.inj heq).2⟩
    refine ⟨Table.get_set_of_ne _ _ hkey, fun id => hother sc p id hne, ?_⟩
    cases bound with
    | none => exact (Table.get_erase _ _ _).trans (if_neg hkey)
    | some source => exact Table.get_set_of_ne _ _ hkey

/-- The members of a listing that are not shown as they are now (`updated`). -/
def updatedMembers (s : Store) (scope : Scope) (parent : String) (nodes : List Node) : List Node :=
  nodes.filter fun n =>
    ((s.childrenOn scope parent).getD []).reverse.find? (fun m => m.id = n.id) ≠ some n

/-- The items a listing leaves out (`removed`). -/
def removedNodes (s : Store) (scope : Scope) (parent : String) (nodes : List Node) : List Node :=
  (s.removedFrom scope parent (nodes.map Node.id)).rows.map Prod.snd

/-- A complete listing as the change it makes. -/
def directoryEffect (s : Store) (scope : Scope) (parent : String) (nodes : List Node)
    (source : Nat) : Effect :=
  s.listingEffect scope parent nodes none
    ((s.updatedMembers scope parent nodes).map Node.id)
    ((s.removedNodes scope parent nodes).map Node.id)
    (s.changedParents scope
      (s.updatedMembers scope parent nodes ++ s.removedNodes scope parent nodes) (some parent))
    source

theorem writeDirectory_applied {nodes : List Node} {source : Nat} {changed : Bool}
    (hkeys : WellKeyed s) (h : s.writeDirectory scope parent nodes source = .ok (changed, s')) :
    changed = decide (s.childrenOn scope parent ≠ some nodes) ∧ s'.revision = s.revision + 1 ∧
      (s.directoryEffect scope parent nodes source).Applied s s' := by
  unfold writeDirectory at h
  obtain ⟨s₁, hmarks, h⟩ := bind_eq_ok h
  obtain ⟨s₂, hsnapshot, h⟩ := bind_eq_ok h
  cases h
  obtain ⟨hdistinct, rfl⟩ := writeSnapshot_eq_ok hsnapshot
  rw [changedItems_eq_ok hmarks]
  let updated := s.updatedMembers scope parent nodes
  let removed := s.removedNodes scope parent nodes
  let directories := s.changedParents scope (updated ++ removed) (some parent)
  let marked := s.marking scope ((updated ++ removed).map Node.id) directories
  have hrows := hideRemoved_rows marked scope parent source removed
  obtain ⟨observed₁, absent₁, hframe₁⟩ := hideRemoved_frame marked scope parent source removed
  obtain ⟨observed₂, absent₂, hframe₂⟩ := writeNodes_frame
    (marked.hideRemoved scope parent removed source) scope source nodes
  have hwritten := fun n (hn : n ∈ nodes) => writeNodes_written
    (marked.hideRemoved scope parent removed source) scope source nodes hdistinct hn
  have hkept := writeNodes_kept (marked.hideRemoved scope parent removed source) scope source
    nodes
  have hbase : ∃ versions observed absent,
      (marked.hideRemoved scope parent removed source).writeNodes scope nodes source =
        { s with revision := s.revision + 1, versions := versions, observed := observed,
                 observedAbsent := absent } := by
    exact ⟨marked.versions, observed₂, absent₂, by rw [hframe₂, hframe₁]; rfl⟩
  refine ⟨rfl, ?_, ?_⟩
  · obtain ⟨versions, observed, absent, heq⟩ := hbase
    exact congrArg Store.revision heq
  · apply applied_listing hdistinct hbase
    · intro k
      have hversions : ((marked.hideRemoved scope parent removed source).writeNodes scope nodes
          source).versions = marked.versions := by rw [hframe₂, hframe₁]
      rw [← List.map_append]
      exact congrArg (Table.get · k) hversions
    · exact hwritten
    · intro id hid
      -- What is hidden is not a member, so no later write brings it back.
      have hfresh : id ∉ nodes.map Node.id := by
        obtain ⟨n, hn, rfl⟩ := List.mem_map.mp (List.mem_filter.mp hid).1
        exact (mem_removedFrom hkeys hn).1
      obtain ⟨hobserved, habsent⟩ := hkept scope id (fun hmem => hfresh hmem.2)
      obtain ⟨hobserved', habsent'⟩ := hrows scope id
      rw [if_pos ⟨rfl, hid⟩] at hobserved' habsent'
      exact ⟨hobserved.trans hobserved', habsent.trans habsent'⟩
    · intro sc id hother
      obtain ⟨hobserved, habsent⟩ := hkept sc id (fun hmem => hother ⟨hmem.1, .inl hmem.2⟩)
      obtain ⟨hobserved', habsent'⟩ := hrows sc id
      rw [if_neg (fun hmem => hother ⟨hmem.1, .inr hmem.2⟩)] at hobserved' habsent'
      exact ⟨hobserved.trans hobserved', habsent.trans habsent'⟩

theorem directoryEffect_covered {nodes : List Node} (hkeys : WellKeyed s)
    (hchildren : ∀ n ∈ nodes, n.parentId = some parent) (source : Nat) :
    (s.directoryEffect scope parent nodes source).Covered s := by
  apply listingEffect_covered _ _ _ _ _ _ _ _ _ hchildren
  · exact List.mem_append_left _ (by simp)
  · intro id hid m hm p hp
    rw [← List.map_append] at hid
    obtain ⟨n, hn, rfl⟩ := List.mem_map.mp hid
    exact mem_changedParents_of_visible hn hm hp
  · intro id hid
    obtain ⟨n, hn, rfl⟩ := List.mem_map.mp hid
    obtain ⟨hmissing, _, hnames⟩ := mem_removedFrom hkeys hn
    exact ⟨hmissing, hnames⟩
  · intro n hn hunmarked
    have hold : ((s.childrenOn scope parent).getD []).reverse.find? (fun m => m.id = n.id) =
        some n := by
      by_contra hne
      exact hunmarked (List.mem_map.mpr ⟨n, List.mem_filter.mpr ⟨hn, by simpa using hne⟩, rfl⟩)
    rw [← mem_getD_childrenOn]
    exact List.mem_reverse.mp (List.mem_of_find?_eq_some hold)

theorem writeDirectory_spec {nodes : List Node} {source : Nat} {changed : Bool}
    (hkeys : WellKeyed s) (hchildren : ∀ n ∈ nodes, n.parentId = some parent)
    (h : s.writeDirectory scope parent nodes source = .ok (changed, s')) :
    s'.revision = s.revision + 1 ∧
    ∃ e : Effect, e.scope = scope ∧ e.source = source ∧ e.written = nodes ∧
      e.listing = some (parent, none) ∧ e.Applied s s' ∧ e.Covered s := by
  obtain ⟨_, hclock, happlied⟩ := writeDirectory_applied hkeys h
  exact ⟨hclock, s.directoryEffect scope parent nodes source, rfl, rfl, rfl, rfl, happlied,
    directoryEffect_covered hkeys hchildren source⟩

theorem mem_removedIds {ids : List String} {id : String}
    (h : id ∈ s.removedIds scope parent ids) : id ∉ ids ∧ Names s scope parent id := by
  unfold removedIds at h
  rw [List.mem_dedup, List.mem_append, Table.mem_select, Table.mem_select] at h
  rcases h with ⟨⟨sc, x⟩, row, hget, hsome⟩ | ⟨⟨sc, x⟩, body, hget, hsome⟩
  · obtain ⟨⟨rfl, hparent, hmissing⟩, hid⟩ := Option.ite_none_right_eq_some.mp hsome
    cases hid
    exact ⟨hmissing, .inl ⟨row, hget, hparent⟩⟩
  · obtain ⟨⟨rfl, hparent, hmissing⟩, hid⟩ := Option.ite_none_right_eq_some.mp hsome
    cases hid
    exact ⟨hmissing, .inr ⟨body, hget, hparent⟩⟩

/-- The directories a staged publication marks. -/
def stagedParents (s : Store) (scope : Scope) (parent : String) (affected : List String) :
    List String :=
  parent :: (affected.filterMap fun id => (s.nodeOn scope id).bind Node.parentId)

theorem stagedMarks_versions (affected : List String) (k : MarkKey) :
    (Store.stagedMarks { s with revision := s.revision + 1 } scope parent affected
      (s.revision + 1)).versions.get k =
    (s.marking scope affected (s.stagedParents scope parent affected)).versions.get k := by
  have hvisible : (Store.nodeOn { s with revision := s.revision + 1 } scope) = s.nodeOn scope := rfl
  have hself : ∀ k, k ∈ (affected.map fun _ => parent).map (MarkKey.mk scope .directory) →
      k = ⟨scope, .directory, parent⟩ := by
    intro k hk
    obtain ⟨p, hp, rfl⟩ := List.mem_map.mp hk
    obtain ⟨_, _, rfl⟩ := List.mem_map.mp hp
    rfl
  simp only [stagedMarks, marking, mark, markAll, stagedParents, hvisible, Table.get_setAll,
    Table.get_set, List.map_cons, List.mem_cons]
  by_cases hvisited : k ∈ (affected.filterMap fun id =>
      (s.nodeOn scope id).bind Node.parentId).map (MarkKey.mk scope .directory)
  · rw [if_pos hvisited, if_pos (.inr hvisited)]
  · by_cases hdirectory : k = ⟨scope, .directory, parent⟩
    · simp [hdirectory]
    · rw [if_neg hvisited, if_neg (fun h => hdirectory (hself k h)), if_neg hdirectory,
        if_neg (not_or.mpr ⟨hdirectory, hvisited⟩)]

/-- The observation rows of a staged publication. -/
theorem stagedRows_rows (s : Store) (scope : Scope) (nodes : List Node) (hidden : List String)
    (source : Nat) (hdistinct : (nodes.map Node.id).Nodup)
    (hapart : ∀ id ∈ hidden, id ∉ nodes.map Node.id) :
    (∀ n ∈ nodes, (s.stagedRows scope nodes hidden source).observed.get (scope, n.id) =
        some ⟨n, source⟩ ∧
      (s.stagedRows scope nodes hidden source).observedAbsent.get (scope, n.id) = none) ∧
    (∀ id ∈ hidden, (s.stagedRows scope nodes hidden source).observed.get (scope, id) = none ∧
      (s.stagedRows scope nodes hidden source).observedAbsent.get (scope, id) = some source) ∧
    (∀ sc id, ¬ (sc = scope ∧ (id ∈ nodes.map Node.id ∨ id ∈ hidden)) →
      (s.stagedRows scope nodes hidden source).observed.get (sc, id) = s.observed.get (sc, id) ∧
      (s.stagedRows scope nodes hidden source).observedAbsent.get (sc, id) =
        s.observedAbsent.get (sc, id)) := by
  have hkeys : (nodes.map fun n : Node => ((scope, n.id), (⟨n, source⟩ : Observed))).map
      Prod.fst = (nodes.map Node.id).map (fun id => (scope, id)) := by
    simp
  have hnotmem : ∀ sc id, ¬ (sc = scope ∧ id ∈ nodes.map Node.id) → (sc, id) ∉
      (nodes.map fun n : Node => ((scope, n.id), (⟨n, source⟩ : Observed))).map Prod.fst := by
    intro sc id h hmem
    rw [hkeys] at hmem
    obtain ⟨x, hx, heq⟩ := List.mem_map.mp hmem
    cases heq
    exact h ⟨rfl, hx⟩
  refine ⟨?_, ?_, ?_⟩
  · intro n hn
    refine ⟨?_, ?_⟩
    · apply Table.get_setRows_of_mem
      · rw [hkeys]
        exact hdistinct.map (fun a b h => (Prod.mk.inj h).2)
      · exact List.mem_map.mpr ⟨n, hn, rfl⟩
    · have hmem : n.id ∈ nodes.map Node.id := List.mem_map.mpr ⟨n, hn, rfl⟩
      exact Table.get_deleteWhere_of_deleted _ (fun _ _ => by simpa using hmem)
  · intro id hid
    have hfresh := hapart id hid
    refine ⟨?_, ?_⟩
    · refine (Table.get_setRows_of_not_mem _ (hnotmem scope id (fun h => hfresh h.2))).trans ?_
      exact Table.get_deleteWhere_of_deleted _ (fun _ _ => by simpa using hid)
    · refine (Table.get_deleteWhere_of_kept _ (fun _ _ => by simpa using hfresh)).trans ?_
      rw [Table.get_setAll, if_pos (List.mem_map.mpr ⟨id, hid, rfl⟩)]
  · intro sc id hother
    have hwritten : ¬ (sc = scope ∧ id ∈ nodes.map Node.id) :=
      fun h => hother ⟨h.1, .inl h.2⟩
    have hhidden : ¬ (sc = scope ∧ id ∈ hidden) := fun h => hother ⟨h.1, .inr h.2⟩
    refine ⟨?_, ?_⟩
    · refine (Table.get_setRows_of_not_mem _ (hnotmem sc id hwritten)).trans ?_
      exact Table.get_deleteWhere_of_kept _ (fun _ _ => by simpa using hhidden)
    · refine (Table.get_deleteWhere_of_kept _ (fun _ _ => by simpa using hwritten)).trans ?_
      rw [Table.get_setAll, if_neg]
      intro hmem
      obtain ⟨x, hx, heq⟩ := List.mem_map.mp hmem
      cases heq
      exact hhidden ⟨rfl, hx⟩

/-- The staged members that are not shown as they are now, in `affected`. -/
def updatedIncoming (s : Store) (scope : Scope) (parent : String) (nodes : List Node) :
    List Node :=
  nodes.filter fun n =>
    ((s.childrenOn scope parent).getD []).find? (fun p => p.id = n.id) ≠ some n

/-- A staged listing as the change it makes. -/
def stagedEffect (s : Store) (d : DirectoryPublication) : Effect :=
  let scope := d.ticket.scope
  let nodes := d.incoming.nodes
  let updated := (s.updatedIncoming scope d.parent nodes).map Node.id
  let removed := s.removedIds scope d.parent (nodes.map Node.id)
  s.listingEffect scope d.parent nodes d.source updated removed
    (s.stagedParents scope d.parent (updated ++ removed)) d.ticket.revision

theorem stagedEffect_covered (s : Store) (d : DirectoryPublication) :
    (s.stagedEffect d).Covered s := by
  apply listingEffect_covered
  · intro n hn
    exact (d.incoming.children n hn).1
  · exact List.mem_cons_self
  · intro id hid m hm p hp
    exact List.mem_cons_of_mem _ (List.mem_filterMap.mpr ⟨id, hid, by simp [hm, hp]⟩)
  · intro id hid
    exact mem_removedIds hid
  · intro n hn hunmarked
    have hold : ((s.childrenOn d.ticket.scope d.parent).getD []).find? (fun p => p.id = n.id) =
        some n := by
      by_contra hne
      exact hunmarked (List.mem_map.mpr ⟨n, List.mem_filter.mpr ⟨hn, by simpa using hne⟩, rfl⟩)
    rw [← mem_getD_childrenOn]
    exact List.mem_of_find?_eq_some hold

/-- The tables after the marks, the rows and the snapshot of a staged listing. -/
theorem stagedEffect_applied (s : Store) (d : DirectoryPublication) :
    let scope := d.ticket.scope
    let nodes := d.incoming.nodes
    let updated := (s.updatedIncoming scope d.parent nodes).map Node.id
    let removed := s.removedIds scope d.parent (nodes.map Node.id)
    (s.stagedEffect d).Applied s
      (((Store.stagedMarks { s with revision := s.revision + 1 } scope d.parent
        (updated ++ removed) (s.revision + 1)).stagedRows scope nodes
          (removed.filter (s.hiddenBy scope d.parent)) d.ticket.revision).stagedSnapshot
        scope d.parent nodes d.source d.ticket.revision) := by
  intro scope nodes updated removed
  obtain ⟨hwritten, hhidden, hkept⟩ := stagedRows_rows
    (Store.stagedMarks { s with revision := s.revision + 1 } scope d.parent (updated ++ removed)
      (s.revision + 1)) scope nodes (removed.filter (s.hiddenBy scope d.parent))
    d.ticket.revision d.incoming.distinct
    (fun id hid => (mem_removedIds (List.mem_filter.mp hid).1).1)
  exact applied_listing d.incoming.distinct ⟨_, _, _, rfl⟩ (stagedMarks_versions _) hwritten
    hhidden hkept

theorem publishStaged_spec {d : DirectoryPublication} {cancelled : Bool}
    {result : DirectoryPublicationResult} (h : s.publishStaged d cancelled = .ok (result, s')) :
    ((∀ changed, result ≠ .published changed) ∧ s' = s) ∨
    (∃ changed, result = .published changed ∧ Accepted s d.ticket d.incoming.nodes ∧
      ∃ e : Effect, e.scope = d.ticket.scope ∧ e.source = d.ticket.revision ∧
        e.written = d.incoming.nodes ∧ e.listing = some (d.parent, d.source) ∧
        e.Applied s s' ∧ e.Covered s) := by
  unfold publishStaged at h
  split_ifs at h with _ _ hsource
  · cases h
    exact .inl ⟨by simp, rfl⟩
  · obtain ⟨isCurrent, hcurrent, h⟩ := bind_eq_ok h
    split_ifs at h with hsuperseded
    · cases h
      exact .inl ⟨by simp, rfl⟩
    · dsimp only at h
      split at h
      · cases h
      obtain ⟨⟨r, s₁⟩, hadvance, h⟩ := bind_eq_ok h
      cases h
      obtain ⟨rfl, rfl⟩ := advance_eq_ok hadvance
      simp only [Bool.or_eq_true, Bool.not_eq_true', not_or, Bool.not_eq_false,
        List.any_eq_true, not_exists, not_and, Bool.not_eq_true] at hsuperseded
      obtain ⟨rfl, hnewer⟩ := hsuperseded
      have haccepted := current_accepted hcurrent
      refine .inr ⟨_, rfl, ?_, s.stagedEffect d, rfl, rfl, rfl, rfl, stagedEffect_applied s d,
        stagedEffect_covered s d⟩
      exact { haccepted with
        items := hnewer
        parent := by
          intro id hid
          rw [d.target] at hid
          cases hid }

theorem Effect.Applied.of_clock {e : Effect} {clock : Nat} (hclock : s.revision ≤ clock)
    (h : e.Applied { s with revision := clock } s') : e.Applied s s' :=
  { h with marked_gt := lt_of_le_of_lt hclock h.marked_gt }

theorem observeDirectory_spec {nodes : List Node} {changed : Bool}
    (hkeys : WellKeyed s) (hchildren : ∀ n ∈ nodes, n.parentId = some parent)
    (h : s.observeDirectory scope parent nodes = .ok (changed, s')) :
    ∃ e : Effect, e.scope = scope ∧ e.written = nodes ∧ e.listing = some (parent, none) ∧
      s.revision < e.source ∧ e.source ≤ s'.revision ∧ e.Applied s s' ∧ e.Covered s := by
  unfold observeDirectory at h
  obtain ⟨⟨r, s₁⟩, hadvance, h⟩ := bind_eq_ok h
  obtain ⟨rfl, rfl⟩ := advance_eq_ok hadvance
  have hkeys₁ : WellKeyed { s with revision := s.revision + 1 } :=
    ⟨hkeys.observed, hkeys.nodes, hkeys.staged, hkeys.entries⟩
  obtain ⟨hclock, e, hscope, hsource, hwritten, hlisting, happlied, hcovered⟩ :=
    writeDirectory_spec hkeys₁ hchildren h
  have hcovered₁ : e.Covered s := { hcovered with }
  refine ⟨e, hscope, hwritten, hlisting, ?_, ?_, happlied.of_clock (Nat.le_succ _), hcovered₁⟩
  · rw [hsource]
    exact Nat.lt_succ_self _
  · rw [hsource, hclock]
    exact Nat.le_succ _

theorem publishDirectory_spec {t : ObservationTicket} {nodes : List Node}
    {result : ObservationResult (List Node)} (hkeys : WellKeyed s)
    (hchildren : ∀ parent, t.target = .directory parent → ∀ n ∈ nodes, n.parentId = some parent)
    (h : s.publishDirectory t nodes = .ok (result, s')) :
    (∃ view, result = .superseded view ∧ s' = s) ∨
    (∃ parent changed, result = .published nodes changed ∧ t.target = .directory parent ∧
      Accepted s t nodes ∧ ∃ e : Effect, e.scope = t.scope ∧ e.source = t.revision ∧
        e.written = nodes ∧ e.listing = some (parent, none) ∧ e.Applied s s' ∧ e.Covered s) := by
  unfold publishDirectory at h
  split at h
  · cases h
  · next parent htarget =>
    obtain ⟨isCurrent, hcurrent, h⟩ := bind_eq_ok h
    cases isCurrent with
    | false =>
      cases h
      exact .inl ⟨_, rfl, rfl⟩
    | true =>
      obtain ⟨⟨changed, s₁⟩, hwrite, h⟩ := bind_eq_ok h
      cases h
      obtain ⟨_, e, he⟩ := writeDirectory_spec hkeys (hchildren parent htarget) hwrite
      exact .inr ⟨parent, changed, rfl, htarget, current_accepted hcurrent, e, he⟩

theorem publishOrdinaryHandoffBackup_spec {original currentNode backup : Node} {settled : Bool}
    (h : s.publishOrdinaryHandoffBackup scope original currentNode backup = .ok (settled, s')) :
    s' = s ∨ ∃ source, s.revision < source ∧ source ≤ s'.revision ∧
      (s.nodesEffect scope [backup] [original] source).Applied s s' := by
  unfold publishOrdinaryHandoffBackup at h
  split at h
  · cases h
  split at h
  · cases h
  dsimp only at h
  -- The five answers that leave the store as it is.
  split at h
  · cases h
    exact .inl rfl
  split at h
  · cases h
    exact .inl rfl
  split at h
  · cases h
    exact .inl rfl
  split at h
  · cases h
    exact .inl rfl
  split at h
  · cases h
    exact .inl rfl
  obtain ⟨s₁, hmarks, h⟩ := bind_eq_ok h
  obtain ⟨⟨r, s₂⟩, hadvance, h⟩ := bind_eq_ok h
  cases h
  exact .inr ⟨r, relocation_spec (by simp) hmarks hadvance⟩

theorem validNativeHandoff_distinct {original currentNode backup : Node}
    (h : validNativeHandoff scope original currentNode backup = true) :
    backup.id ≠ currentNode.id := by
  simp only [validNativeHandoff, Bool.and_eq_true, decide_eq_true_eq] at h
  obtain ⟨⟨⟨⟨⟨⟨⟨_, hcurrent⟩, _⟩, _⟩, hbackup⟩, _⟩, _⟩, _⟩ := h
  rw [hbackup]
  exact hcurrent.symm

theorem publishNativeHandoff_spec {original currentNode backup : Node} {settled : Bool}
    (h : s.publishNativeHandoff scope original currentNode backup = .ok (settled, s')) :
    s' = s ∨ ∃ published source, s.revision < source ∧ source ≤ s'.revision ∧
      (s.nodesEffect scope published [original] source).Applied s s' := by
  unfold publishNativeHandoff at h
  split at h
  · cases h
  next hvalid =>
  split at h
  · cases h
  dsimp only at h
  split at h
  · cases h
    exact .inl rfl
  split at h
  · cases h
    exact .inl rfl
  split at h
  · cases h
    exact .inl rfl
  obtain ⟨s₁, hmarks, h⟩ := bind_eq_ok h
  obtain ⟨⟨r, s₂⟩, hadvance, h⟩ := bind_eq_ok h
  cases h
  refine .inr ⟨_, r, relocation_spec ?_ hmarks hadvance⟩
  have hdistinct := validNativeHandoff_distinct (by simpa using hvalid)
  split
  · simp
  · simpa using hdistinct

end Cirrove.Store
