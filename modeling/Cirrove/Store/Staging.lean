import Cirrove.Library.Rows
import Cirrove.Store.Invariant
import Mathlib.Data.String.Basic

/-!
# Staged and immediate publication of a listing

`publish_directory` computes what changed in Rust and writes row by row;
`DirectoryPublication` collects pages in temporary tables and publishes them with
set-based SQL. Both are effects in the sense of `Effect.Applied`, so they leave the same
tables once their effects are the same up to the order and repetition of their lists.

## Sections

- effects with the same content leave the same tables
- the members of a listing have distinct identities
- the two effects of one listing
- staging a listing page by page
- the refinement
-/

namespace Cirrove.Store

open Cirrove.Library

variable {s s' : Store} {scope : Scope} {parent : String} {nodes : List Node}

/-! ## Effects with the same content -/

/-- Two databases with the same rows in every table. -/
structure SameTables (s s' : Store) : Prop where
  identity : s'.identity = s.identity
  revision : s'.revision = s.revision
  versions : ∀ k, s'.versions.get k = s.versions.get k
  observed : ∀ k, s'.observed.get k = s.observed.get k
  observedAbsent : ∀ k, s'.observedAbsent.get k = s.observedAbsent.get k
  nodes : ∀ k, s'.nodes.get k = s.nodes.get k
  staged : ∀ k, s'.staged.get k = s.staged.get k
  directories : ∀ k, s'.directories.get k = s.directories.get k
  directoryEntries : ∀ k, s'.directoryEntries.get k = s.directoryEntries.get k
  directorySources : ∀ k, s'.directorySources.get k = s.directorySources.get k
  feeds : ∀ k, s'.feeds.get k = s.feeds.get k
  rounds : ∀ k, s'.rounds.get k = s.rounds.get k

theorem SameTables.refl (s : Store) : SameTables s s :=
  ⟨rfl, rfl, fun _ => rfl, fun _ => rfl, fun _ => rfl, fun _ => rfl, fun _ => rfl, fun _ => rfl,
    fun _ => rfl, fun _ => rfl, fun _ => rfl, fun _ => rfl⟩

theorem SameTables.symm (h : SameTables s s') : SameTables s' s :=
  ⟨h.identity.symm, h.revision.symm, fun k => (h.versions k).symm, fun k => (h.observed k).symm,
    fun k => (h.observedAbsent k).symm, fun k => (h.nodes k).symm, fun k => (h.staged k).symm,
    fun k => (h.directories k).symm, fun k => (h.directoryEntries k).symm,
    fun k => (h.directorySources k).symm, fun k => (h.feeds k).symm, fun k => (h.rounds k).symm⟩

/-- Two effects that write, hide and mark the same, in any order. -/
structure Effect.Same (e e' : Effect) : Prop where
  scope : e'.scope = e.scope
  marked : e'.marked = e.marked
  source : e'.source = e.source
  written : e'.written = e.written
  listing : e'.listing = e.listing
  hidden : ∀ id, id ∈ e'.hidden ↔ id ∈ e.hidden
  items : ∀ id, id ∈ e'.items ↔ id ∈ e.items
  directories : ∀ id, id ∈ e'.directories ↔ id ∈ e.directories

namespace Effect

variable {e e' : Effect} {s₁ s₂ : Store}

theorem Same.marks_iff (h : Same e e') (k : MarkKey) : e'.Marks k ↔ e.Marks k := by
  unfold Marks
  rw [h.scope, h.items, h.directories]

theorem Same.touches_iff (h : Same e e') (scope : Scope) (id : String) :
    e'.Touches scope id ↔ e.Touches scope id := by
  unfold Touches
  rw [h.scope, h.written, h.hidden]

theorem Same.replaces_iff (h : Same e e') (scope : Scope) (parent : String) :
    e'.Replaces scope parent ↔ e.Replaces scope parent := by
  unfold Replaces
  rw [h.scope, h.listing]

theorem Applied.same_versions (h : Same e e') (h₁ : e.Applied s s₁) (h₂ : e'.Applied s s₂)
    (k : MarkKey) : s₂.versions.get k = s₁.versions.get k := by
  by_cases hk : e.Marks k
  · rw [h₁.versions_marked k hk, h₂.versions_marked k ((h.marks_iff k).mpr hk), h.marked]
  · rw [h₁.versions_kept k hk, h₂.versions_kept k (fun hk' => hk ((h.marks_iff k).mp hk'))]

theorem Applied.same_rows (h : Same e e') (h₁ : e.Applied s s₁) (h₂ : e'.Applied s s₂)
    (scope : Scope) (id : String) :
    s₂.observed.get (scope, id) = s₁.observed.get (scope, id) ∧
      s₂.observedAbsent.get (scope, id) = s₁.observedAbsent.get (scope, id) := by
  by_cases htouch : e.Touches scope id
  · obtain ⟨rfl, hwritten | hhidden⟩ := htouch
    · obtain ⟨n, hn, rfl⟩ := List.mem_map.mp hwritten
      have hrow₁ := h₁.written n hn
      have hrow₂ := h₂.written n (h.written ▸ hn)
      rw [h.scope, h.source] at hrow₂
      exact ⟨hrow₂.1.trans hrow₁.1.symm, hrow₂.2.trans hrow₁.2.symm⟩
    · have hrow₁ := h₁.hidden id hhidden
      have hrow₂ := h₂.hidden id ((h.hidden id).mpr hhidden)
      rw [h.scope, h.source] at hrow₂
      exact ⟨hrow₂.1.trans hrow₁.1.symm, hrow₂.2.trans hrow₁.2.symm⟩
  · have hrow₁ := h₁.kept scope id htouch
    have hrow₂ := h₂.kept scope id (fun ht => htouch ((h.touches_iff scope id).mp ht))
    exact ⟨hrow₂.1.trans hrow₁.1.symm, hrow₂.2.trans hrow₁.2.symm⟩

theorem Applied.same_snapshot (h : Same e e') (h₁ : e.Applied s s₁) (h₂ : e'.Applied s s₂)
    (scope : Scope) (parent : String) :
    s₂.directories.get (scope, parent) = s₁.directories.get (scope, parent) ∧
      (∀ id, s₂.directoryEntries.get (scope, parent, id) =
        s₁.directoryEntries.get (scope, parent, id)) ∧
      s₂.directorySources.get (scope, parent) = s₁.directorySources.get (scope, parent) := by
  by_cases hreplaces : e.Replaces scope parent
  · obtain ⟨rfl, source, hlisting⟩ := hreplaces
    obtain ⟨hdir₁, hin₁, hout₁, hsource₁⟩ := h₁.snapshot parent source hlisting
    obtain ⟨hdir₂, hin₂, hout₂, hsource₂⟩ := h₂.snapshot parent source (h.listing.trans hlisting)
    rw [h.scope, h.source] at hdir₂
    rw [h.scope] at hin₂ hout₂ hsource₂
    refine ⟨hdir₂.trans hdir₁.symm, ?_, hsource₂.trans hsource₁.symm⟩
    intro id
    by_cases hid : id ∈ e.written.map Node.id
    · obtain ⟨n, hn, rfl⟩ := List.mem_map.mp hid
      exact (hin₂ n (h.written ▸ hn)).trans (hin₁ n hn).symm
    · exact (hout₂ id (h.written ▸ hid)).trans (hout₁ id hid).symm
  · obtain ⟨hdir₁, hentry₁, hsource₁⟩ := h₁.unlisted scope parent hreplaces
    obtain ⟨hdir₂, hentry₂, hsource₂⟩ := h₂.unlisted scope parent
      (fun hr => hreplaces ((h.replaces_iff scope parent).mp hr))
    exact ⟨hdir₂.trans hdir₁.symm, fun id => (hentry₂ id).trans (hentry₁ id).symm,
      hsource₂.trans hsource₁.symm⟩

/-- Effects with the same content leave the same tables. -/
theorem Applied.sameTables (h : Same e e') (h₁ : e.Applied s s₁) (h₂ : e'.Applied s s₂)
    (hclock : s₂.revision = s₁.revision) : SameTables s₁ s₂ where
  identity := h₂.identity.trans h₁.identity.symm
  revision := hclock
  versions := Applied.same_versions h h₁ h₂
  observed := fun k => (Applied.same_rows h h₁ h₂ k.1 k.2).1
  observedAbsent := fun k => (Applied.same_rows h h₁ h₂ k.1 k.2).2
  nodes := fun k => by rw [h₁.nodes, h₂.nodes]
  staged := fun k => by rw [h₁.staged, h₂.staged]
  directories := fun k => (Applied.same_snapshot h h₁ h₂ k.1 k.2).1
  directoryEntries := fun k => (Applied.same_snapshot h h₁ h₂ k.1 k.2.1).2.1 k.2.2
  directorySources := fun k => (Applied.same_snapshot h h₁ h₂ k.1 k.2).2.2
  feeds := fun k => by rw [h₁.feeds, h₂.feeds]
  rounds := fun k => by rw [h₁.rounds, h₂.rounds]

end Effect

/-! ## Distinct members -/

theorem snapshotRows_nodup (hkeys : WellKeyed s) (revision : Nat) :
    ((s.snapshotRows scope parent revision).map Node.id).Nodup := by
  unfold snapshotRows
  rw [List.map_append, List.nodup_append]
  refine ⟨?_, ?_, ?_⟩
  · apply Table.select_map_nodup_of_get
    rintro ⟨sc, p, id⟩ n b ⟨sc', p', id'⟩ n' b' hget hget' hsome hsome' hsame
    obtain ⟨⟨rfl, rfl, _⟩, hbody⟩ := Option.ite_none_right_eq_some.mp hsome
    obtain ⟨⟨rfl, rfl, _⟩, hbody'⟩ := Option.ite_none_right_eq_some.mp hsome'
    cases hbody
    cases hbody'
    rw [hkeys.entries _ _ _ _ hget, hkeys.entries _ _ _ _ hget'] at hsame
    rw [hsame]
  · apply Table.select_map_nodup_of_get
    rintro ⟨sc, id⟩ row b ⟨sc', id'⟩ row' b' hget hget' hsome hsome' hsame
    obtain ⟨⟨rfl, _⟩, hbody⟩ := Option.ite_none_right_eq_some.mp hsome
    obtain ⟨⟨rfl, _⟩, hbody'⟩ := Option.ite_none_right_eq_some.mp hsome'
    cases hbody
    cases hbody'
    rw [hkeys.observed _ _ _ hget, hkeys.observed _ _ _ hget'] at hsame
    rw [hsame]
  · -- An entry is left out when a newer observation of the item is shown.
    intro a ha b hb hab
    obtain ⟨n, hn, rfl⟩ := List.mem_map.mp ha
    obtain ⟨m, hm, rfl⟩ := List.mem_map.mp hb
    obtain ⟨⟨sc, p, id⟩, _, hget, hsome⟩ := (Table.mem_select _ _ _).mp hn
    obtain ⟨⟨rfl, rfl, hnot, _⟩, hbody⟩ := Option.ite_none_right_eq_some.mp hsome
    cases hbody
    obtain ⟨⟨sc, id'⟩, row, hget', hsome'⟩ := (Table.mem_select _ _ _).mp hm
    obtain ⟨⟨rfl, _, hnewer, _⟩, hbody'⟩ := Option.ite_none_right_eq_some.mp hsome'
    cases hbody'
    rw [hkeys.entries _ _ _ _ hget, hkeys.observed _ _ _ hget'] at hab
    subst hab
    apply hnot
    simp [observedAfter, hget', hnewer]

theorem indexedRows_nodup (hkeys : WellKeyed s) :
    ((s.indexedRows scope parent).map Node.id).Nodup := by
  unfold indexedRows
  rw [List.map_append, List.nodup_append]
  refine ⟨?_, ?_, ?_⟩
  · apply Table.select_map_nodup_of_get
    rintro ⟨sc, id⟩ n b ⟨sc', id'⟩ n' b' hget hget' hsome hsome' hsame
    obtain ⟨⟨rfl, _⟩, hbody⟩ := Option.ite_none_right_eq_some.mp hsome
    obtain ⟨⟨rfl, _⟩, hbody'⟩ := Option.ite_none_right_eq_some.mp hsome'
    cases hbody
    cases hbody'
    rw [hkeys.nodes _ _ _ hget, hkeys.nodes _ _ _ hget'] at hsame
    rw [hsame]
  · apply Table.select_map_nodup_of_get
    rintro ⟨sc, id⟩ row b ⟨sc', id'⟩ row' b' hget hget' hsome hsome' hsame
    obtain ⟨⟨rfl, _⟩, hbody⟩ := Option.ite_none_right_eq_some.mp hsome
    obtain ⟨⟨rfl, _⟩, hbody'⟩ := Option.ite_none_right_eq_some.mp hsome'
    cases hbody
    cases hbody'
    rw [hkeys.observed _ _ _ hget, hkeys.observed _ _ _ hget'] at hsame
    rw [hsame]
  · intro a ha b hb hab
    obtain ⟨n, hn, rfl⟩ := List.mem_map.mp ha
    obtain ⟨m, hm, rfl⟩ := List.mem_map.mp hb
    obtain ⟨⟨sc, id⟩, _, hget, hsome⟩ := (Table.mem_select _ _ _).mp hn
    obtain ⟨⟨rfl, _, hnone, _⟩, hbody⟩ := Option.ite_none_right_eq_some.mp hsome
    cases hbody
    obtain ⟨⟨sc, id'⟩, row, hget', hsome'⟩ := (Table.mem_select _ _ _).mp hm
    obtain ⟨⟨rfl, _⟩, hbody'⟩ := Option.ite_none_right_eq_some.mp hsome'
    cases hbody'
    rw [hkeys.nodes _ _ _ hget, hkeys.observed _ _ _ hget'] at hab
    subst hab
    simp [hget'] at hnone

/-- The members shown for a directory have distinct identities. -/
theorem childrenOn_nodup (hkeys : WellKeyed s) :
    (((s.childrenOn scope parent).getD []).map Node.id).Nodup := by
  unfold childrenOn
  cases hsource : s.readSource scope parent false with
  | none => simp
  | some source =>
    rw [Option.map_some, Option.getD_some,
      ((List.perm_insertionSort byNameId _).map Node.id).nodup_iff]
    cases source with
    | snapshot revision => exact snapshotRows_nodup hkeys revision
    | indexed => exact indexedRows_nodup hkeys

/-- Among distinct identities, looking an item up finds the member with its identity. -/
theorem find?_id_iff {members : List Node} (hdistinct : (members.map Node.id).Nodup)
    (id : String) (n : Node) :
    members.find? (fun m => m.id = id) = some n ↔ n ∈ members ∧ n.id = id := by
  constructor
  · intro h
    exact ⟨List.mem_of_find?_eq_some h, by simpa using List.find?_some h⟩
  · rintro ⟨hn, rfl⟩
    cases hfind : members.find? (fun m => m.id = n.id) with
    | none =>
      have hnone := List.find?_eq_none.mp hfind n hn
      simp at hnone
    | some m =>
      have hm : m.id = n.id := by simpa using List.find?_some hfind
      rw [List.inj_on_of_nodup_map hdistinct (List.mem_of_find?_eq_some hfind) hn hm]

/-! ## The two effects of one listing -/

/-- The source looks members up in a map of the shown ones, the staged publication joins
    with a table of them. -/
theorem updatedMembers_eq (hkeys : WellKeyed s) :
    s.updatedMembers scope parent nodes = s.updatedIncoming scope parent nodes := by
  have hdistinct : (((s.childrenOn scope parent).getD []).map Node.id).Nodup :=
    childrenOn_nodup hkeys
  have hreverse : (((s.childrenOn scope parent).getD []).reverse.map Node.id).Nodup := by
    rw [List.map_reverse, List.nodup_reverse]
    exact hdistinct
  unfold updatedMembers updatedIncoming
  apply List.filter_congr
  intro n _
  rw [decide_eq_decide, not_iff_not, find?_id_iff hreverse, find?_id_iff hdistinct,
    List.mem_reverse]

theorem mem_removedIds_iff {ids : List String} {id : String} :
    id ∈ s.removedIds scope parent ids ↔ id ∉ ids ∧ Names s scope parent id := by
  constructor
  · exact mem_removedIds
  · rintro ⟨hmissing, ⟨row, hget, hparent⟩ | ⟨n, hget, hparent⟩⟩
    all_goals
      unfold removedIds
      rw [List.mem_dedup, List.mem_append, Table.mem_select, Table.mem_select]
    · exact .inl ⟨(scope, id), row, hget, if_pos ⟨rfl, hparent, hmissing⟩⟩
    · exact .inr ⟨(scope, id), n, hget, if_pos ⟨rfl, hparent, hmissing⟩⟩

theorem mem_removedNodes_iff (hkeys : WellKeyed s) {id : String} :
    id ∈ (s.removedNodes scope parent nodes).map Node.id ↔
      id ∉ nodes.map Node.id ∧ Names s scope parent id := by
  constructor
  · intro hid
    obtain ⟨n, hn, rfl⟩ := List.mem_map.mp hid
    obtain ⟨hmissing, _, hnames⟩ := mem_removedFrom hkeys hn
    exact ⟨hmissing, hnames⟩
  · rintro ⟨hmissing, hnames⟩
    -- Some row is collected under the identity, whichever table it is from.
    have hrow : ((s.removedFrom scope parent (nodes.map Node.id)).get id).isSome := by
      unfold removedFrom
      rw [Table.isSome_get_setRows, Table.isSome_get_setRows]
      rcases hnames with ⟨row, hget, hparent⟩ | ⟨n, hget, hparent⟩
      · refine .inr (.inl (List.mem_map.mpr ⟨(id, row.body), ?_, rfl⟩))
        refine (Table.mem_select _ _ _).mpr ⟨(scope, id), row, hget, ?_⟩
        rw [if_pos ⟨rfl, hparent, hmissing⟩, hkeys.observed _ _ _ hget]
      · refine .inl (List.mem_map.mpr ⟨(id, n), ?_, rfl⟩)
        refine (Table.mem_select _ _ _).mpr ⟨(scope, id), n, hget, ?_⟩
        rw [if_pos ⟨rfl, hparent, hmissing⟩, hkeys.nodes _ _ _ hget]
    obtain ⟨n, hn⟩ := Option.isSome_iff_exists.mp hrow
    have hmem : n ∈ s.removedNodes scope parent nodes :=
      List.mem_map.mpr ⟨(id, n), (Table.mem_rows _ _ _).mpr hn, rfl⟩
    have hid : n.id = id := removedFrom_id hn
    exact List.mem_map.mpr ⟨n, hmem, hid⟩

/-- The directories marked with the touched items: the listed one, as every touched item
    names it, and the one an item is shown in. -/
theorem mem_changedParents_iff {touched : List Node}
    (htouched : ∀ n ∈ touched, n.parentId = some parent) {p : String} :
    p ∈ s.changedParents scope touched (some parent) ↔
      p ∈ s.stagedParents scope parent (touched.map Node.id) := by
  unfold changedParents stagedParents touchedParents
  rw [List.mem_append, List.mem_cons, List.mem_flatMap, List.mem_filterMap]
  simp only [Option.toList_some, List.mem_singleton, List.mem_append, Option.mem_toList,
    List.mem_map]
  constructor
  · rintro (rfl | ⟨n, hn, hreported | hshown⟩)
    · exact .inl rfl
    · rw [htouched n hn] at hreported
      cases hreported
      exact .inl rfl
    · exact .inr ⟨n.id, ⟨n, hn, rfl⟩, hshown⟩
  · rintro (rfl | ⟨_, ⟨n, hn, rfl⟩, hshown⟩)
    · exact .inl rfl
    · exact .inr ⟨n, hn, .inr hshown⟩

theorem directoryEffect_same (hkeys : WellKeyed s) {d : DirectoryPublication}
    (hsource : d.source = none) :
    (s.directoryEffect d.ticket.scope d.parent d.incoming.nodes d.ticket.revision).Same
      (s.stagedEffect d) where
  scope := rfl
  marked := rfl
  source := rfl
  written := rfl
  listing := by
    show some (d.parent, d.source) = some (d.parent, none)
    rw [hsource]
  hidden := by
    intro id
    show id ∈ List.filter _ _ ↔ id ∈ List.filter _ _
    rw [List.mem_filter, List.mem_filter, mem_removedIds_iff, mem_removedNodes_iff hkeys]
  items := by
    intro id
    show id ∈ _ ++ _ ↔ id ∈ _ ++ _
    rw [List.mem_append, List.mem_append, updatedMembers_eq hkeys, mem_removedIds_iff,
      mem_removedNodes_iff hkeys]
  directories := by
    intro p
    let updated := s.updatedMembers d.ticket.scope d.parent d.incoming.nodes
    let removed := s.removedNodes d.ticket.scope d.parent d.incoming.nodes
    have htouched : ∀ n ∈ updated ++ removed, n.parentId = some d.parent := by
      intro n hn
      rcases List.mem_append.mp hn with hn | hn
      · exact (d.incoming.children n (List.mem_of_mem_filter hn)).1
      · exact (mem_removedFrom hkeys hn).2.1
    show p ∈ s.stagedParents _ _ _ ↔ p ∈ s.changedParents _ (updated ++ removed) _
    rw [mem_changedParents_iff htouched, List.map_append, ← updatedMembers_eq hkeys]
    unfold stagedParents
    simp only [List.mem_cons, List.mem_filterMap, List.mem_append, mem_removedIds_iff, removed,
      mem_removedNodes_iff hkeys, updated]

/-! ## The two `changed` flags -/

theorem byNameId_total (a b : Node) : byNameId a b ∨ byNameId b a := by
  unfold byNameId
  rcases lt_trichotomy a.name b.name with h | h | h
  · exact .inl (.inl h)
  · rcases le_total a.id b.id with hid | hid
    · exact .inl (.inr ⟨h, hid⟩)
    · exact .inr (.inr ⟨h.symm, hid⟩)
  · exact .inr (.inl h)

theorem byNameId_trans {a b c : Node} (hab : byNameId a b) (hbc : byNameId b c) :
    byNameId a c := by
  unfold byNameId at *
  rcases hab with hab | ⟨hname, hid⟩
  · rcases hbc with hbc | ⟨hname', _⟩
    · exact .inl (hab.trans hbc)
    · exact .inl (hname' ▸ hab)
  · rcases hbc with hbc | ⟨hname', hid'⟩
    · exact .inl (hname ▸ hbc)
    · exact .inr ⟨hname.trans hname', hid.trans hid'⟩

instance : Std.Total byNameId := ⟨byNameId_total⟩

instance : IsTrans Node byNameId := ⟨fun _ _ _ => byNameId_trans⟩

theorem byNameId_id {a b : Node} (hab : byNameId a b) (hba : byNameId b a) : a.id = b.id := by
  unfold byNameId at *
  rcases hab with hab | ⟨hname, hid⟩
  · rcases hba with hba | ⟨hname', _⟩
    · exact absurd hba hab.asymm
    · exact absurd hab (hname' ▸ lt_irrefl _)
  · rcases hba with hba | ⟨_, hid'⟩
    · exact absurd hba (hname ▸ lt_irrefl _)
    · exact le_antisymm hid hid'

/-- Sorted lists of distinct items are equal when they have the same members. -/
theorem eq_of_sorted_members {a b : List Node} (ha : (a.map Node.id).Nodup)
    (hb : (b.map Node.id).Nodup) (hsorta : a.Pairwise byNameId) (hsortb : b.Pairwise byNameId)
    (hmem : ∀ n, n ∈ a ↔ n ∈ b) : a = b := by
  have hperm : a.Perm b := (List.perm_ext_iff_of_nodup ha.of_map hb.of_map).mpr hmem
  apply hperm.eq_of_pairwise _ hsorta hsortb
  intro x y hx hy hxy hyx
  exact List.inj_on_of_nodup_map hb ((hmem x).mp hx) hy (byNameId_id hxy hyx)

/-- What the staged publication compares: is the listing shown as it is now? -/
def stagedChanged (s : Store) (scope : Scope) (parent : String) (nodes : List Node) : Bool :=
  (s.childrenOn scope parent).isNone || !(s.updatedIncoming scope parent nodes).isEmpty ||
    ((s.childrenOn scope parent).getD []).any (fun p => p.id ∉ nodes.map Node.id)

theorem stagedChanged_iff (hkeys : WellKeyed s) (hdistinct : (nodes.map Node.id).Nodup)
    (hsorted : nodes.Pairwise byNameId) :
    s.stagedChanged scope parent nodes = decide (s.childrenOn scope parent ≠ some nodes) := by
  have hshown : (((s.childrenOn scope parent).getD []).map Node.id).Nodup :=
    childrenOn_nodup hkeys
  unfold stagedChanged updatedIncoming
  cases hprevious : s.childrenOn scope parent with
  | none => simp
  | some previous =>
    rw [hprevious] at hshown
    simp only [Option.getD_some] at hshown ⊢
    have hsort : previous.Pairwise byNameId := by
      unfold childrenOn at hprevious
      obtain ⟨source, _, rfl⟩ := Option.map_eq_some_iff.mp hprevious
      exact List.pairwise_insertionSort byNameId _
    rw [eq_comm, Bool.eq_iff_iff]
    simp only [ne_eq, decide_not, Bool.not_eq_true', decide_eq_false_iff_not, Option.some.injEq,
      Option.isNone_some, Bool.false_or, Bool.or_eq_true, List.any_eq_true,
      List.isEmpty_eq_false_iff]
    constructor
    · -- Were nothing updated and nothing missing, the two lists would have the same members.
      intro hne
      by_contra hsame
      obtain ⟨hupdated, hmissing⟩ := not_or.mp hsame
      rw [not_not, List.filter_eq_nil_iff] at hupdated
      apply hne
      apply eq_of_sorted_members hshown hdistinct hsort hsorted
      have hmem : ∀ n ∈ nodes, n ∈ previous := by
        intro n hn
        have hfind := hupdated n hn
        simpa [find?_id_iff hshown] using hfind
      intro n
      refine ⟨?_, hmem n⟩
      intro hn
      have hid : n.id ∈ nodes.map Node.id := by
        by_contra hid
        exact hmissing ⟨n, hn, hid⟩
      obtain ⟨m, hm, heq⟩ := List.mem_map.mp hid
      rw [← List.inj_on_of_nodup_map hshown (hmem m hm) hn heq]
      exact hm
    · rintro (hupdated | ⟨p, hp, hmissing⟩) rfl
      · apply hupdated
        rw [List.filter_eq_nil_iff]
        intro n hn
        simpa [find?_id_iff hshown] using hn
      · exact hmissing (List.mem_map.mpr ⟨p, hp, rfl⟩)

/-! ## Staging page by page -/

/-- The bytes `page` counts for a page: its rows and its cursor. -/
def listingBytes (p : DirectoryPage) : Nat :=
  (p.nodes.map fun n => n.encoded.utf8ByteSize).sum +
    (p.next.map fun cursor => cursor.value.utf8ByteSize).getD 0

/-- A page within the limits of `page`. -/
structure PageFits (parent : String) (p : DirectoryPage) : Prop where
  strings : ∀ n ∈ p.nodes, DirectoryPublication.stringBytes parent n ≤ maxNodeBytes
  bodies : ∀ n ∈ p.nodes, n.encoded.utf8ByteSize ≤ maxNodeBytes
  rows : (p.nodes.map fun n => n.encoded.utf8ByteSize).sum ≤ maxPageBytes
  cursor : ∀ cursor, p.next = some cursor → cursor.value.utf8ByteSize ≤ maxCursorBytes

/-- A listing split into pages: within the size limits, with distinct cursors, and with its
    terminal page last. -/
structure Split (parent : String) (nodes : List Node) (more : List DirectoryPage)
    (last : DirectoryPage) : Prop where
  nodes : (more ++ [last]).flatMap DirectoryPage.nodes = nodes
  fits : ∀ p ∈ more ++ [last], PageFits parent p
  count : more.length < maxPages
  total : ((more ++ [last]).map listingBytes).sum ≤ maxInputBytes
  continued : ∀ p ∈ more, p.next.isSome
  terminal : last.next = none
  cursors : (more.filterMap fun p => p.next.map Cursor.value).Nodup

namespace DirectoryPublication

/-- A publication for a ticket, before its first page. -/
def opened (t : ObservationTicket) (parent : String) (htarget : t.target = .directory parent) :
    DirectoryPublication where
  ticket := t
  parent := parent
  target := htarget
  incoming := Incoming.empty parent
  cursors := []
  inputBytes := 0
  pages := 0
  complete := false
  source := none

/-- Every publication starts so, with a ticket of its own. -/
theorem directoryPublication_opened {d : DirectoryPublication}
    (h : s.directoryPublication scope parent false = .ok (d, s')) :
    ∃ htarget, d = opened ⟨scope, .directory parent, s.identity, s.revision + 1⟩ parent htarget := by
  unfold directoryPublication at h
  rw [if_neg Bool.false_ne_true] at h
  split at h
  · cases h
    exact ⟨rfl, rfl⟩
  · cases h

/-- Stage pages in order. -/
def stage (d : DirectoryPublication) (pages : List DirectoryPage) :
    Except StoreError DirectoryPublication :=
  pages.foldlM (fun d p => d.page false p) d

theorem stageNodes_ok {parent : String} (rows : List Node) (i : Incoming parent) (bytes : Nat)
    (hchildren : ∀ n ∈ rows, n.parentId = some parent ∧ n.id ≠ "")
    (hdistinct : ((i.nodes ++ rows).map Node.id).Nodup)
    (hstrings : ∀ n ∈ rows, stringBytes parent n ≤ maxNodeBytes)
    (hbodies : ∀ n ∈ rows, n.encoded.utf8ByteSize ≤ maxNodeBytes)
    (hbytes : bytes + (rows.map fun n => n.encoded.utf8ByteSize).sum ≤ maxPageBytes) :
    ∃ i' : Incoming parent, i'.nodes = i.nodes ++ rows ∧
      rows.foldlM stageNode (i, bytes) =
        .ok (i', bytes + (rows.map fun n => n.encoded.utf8ByteSize).sum) := by
  induction rows generalizing i bytes with
  | nil => exact ⟨i, by simp, by simp; rfl⟩
  | cons n rows ih =>
    rw [List.map_cons, List.sum_cons] at hbytes
    have hchild := hchildren n List.mem_cons_self
    have hfresh : n.id ∉ i.nodes.map Node.id := by
      rw [List.map_append, List.map_cons] at hdistinct
      intro hmem
      exact (List.nodup_append.mp hdistinct).2.2 _ hmem _ List.mem_cons_self rfl
    -- The row goes in and the rest of the page follows on top of it.
    obtain ⟨i₁, hnodes₁, hinsert⟩ : ∃ i₁ : Incoming parent, i₁.nodes = i.nodes ++ [n] ∧
        stageNode (i, bytes) n = .ok (i₁, bytes + n.encoded.utf8ByteSize) := by
      unfold stageNode Incoming.insert
      rw [dif_pos hchild, dif_neg hfresh,
        if_neg (Nat.not_lt.mpr (hstrings n List.mem_cons_self)),
        if_neg (not_or.mpr ⟨Nat.not_lt.mpr (hbodies n List.mem_cons_self), by omega⟩)]
      exact ⟨_, rfl, rfl⟩
    obtain ⟨i', hnodes, hfold⟩ := ih i₁ (bytes + n.encoded.utf8ByteSize)
      (fun m hm => hchildren m (List.mem_cons_of_mem _ hm))
      (by rw [hnodes₁, List.append_assoc]; exact hdistinct)
      (fun m hm => hstrings m (List.mem_cons_of_mem _ hm))
      (fun m hm => hbodies m (List.mem_cons_of_mem _ hm)) (by omega)
    refine ⟨i', by rw [hnodes, hnodes₁, List.append_assoc]; rfl, ?_⟩
    rw [List.foldlM_cons, hinsert, List.map_cons, List.sum_cons, ← Nat.add_assoc]
    exact hfold

/-- One page within the limits. -/
theorem page_ok (d : DirectoryPublication) (p : DirectoryPage) (hopen : d.complete = false)
    (hpages : d.pages < maxPages) (hfits : PageFits d.parent p)
    (hchildren : ∀ n ∈ p.nodes, n.parentId = some d.parent ∧ n.id ≠ "")
    (hdistinct : ((d.incoming.nodes ++ p.nodes).map Node.id).Nodup)
    (hcursors : (d.cursors ++ (p.next.map Cursor.value).toList).Nodup)
    (hbytes : d.inputBytes + listingBytes p ≤ maxInputBytes) :
    ∃ i : Incoming d.parent, i.nodes = d.incoming.nodes ++ p.nodes ∧
      d.page false p = .ok { d with
        incoming := i
        cursors := d.cursors ++ (p.next.map Cursor.value).toList
        inputBytes := d.inputBytes + listingBytes p
        pages := d.pages + 1
        complete := p.next.isNone } := by
  obtain ⟨i, hnodes, hfold⟩ := stageNodes_ok p.nodes d.incoming 0 hchildren hdistinct
    hfits.strings hfits.bodies (by simpa using hfits.rows)
  refine ⟨i, hnodes, ?_⟩
  unfold page listingBytes at *
  rw [Nat.zero_add] at hfold
  rw [if_neg Bool.false_ne_true, if_neg (by simp [hopen, hpages]), hfold]
  cases hnext : p.next with
  | none =>
    rw [hnext] at hbytes
    simp only [Option.map_none, Option.getD_none, Nat.add_zero, Option.toList_none,
      List.append_nil] at hbytes ⊢
    show (if _ then _ else _) = _
    rw [if_neg (Nat.not_lt.mpr hbytes)]
  | some cursor =>
    rw [hnext] at hbytes hcursors
    have hsize := hfits.cursor cursor hnext
    have hfresh : cursor.value ∉ d.cursors := by
      intro hmem
      exact (List.nodup_append.mp hcursors).2.2 _ hmem _ (by simp) rfl
    simp only [Option.map_some, Option.getD_some, Option.toList_some] at hbytes ⊢
    simp only [Nat.not_lt.mpr hsize, hfresh, if_false]
    show (if _ then _ else _) = _
    rw [if_neg (Nat.not_lt.mpr hbytes)]

/-- Pages that announce a further one. -/
theorem stage_more (pages : List DirectoryPage) (d : DirectoryPublication)
    (hopen : d.complete = false) (hpages : d.pages + pages.length ≤ maxPages)
    (hfits : ∀ p ∈ pages, PageFits d.parent p) (hcontinued : ∀ p ∈ pages, p.next.isSome)
    (hchildren : ∀ n ∈ pages.flatMap DirectoryPage.nodes, n.parentId = some d.parent ∧ n.id ≠ "")
    (hdistinct : ((d.incoming.nodes ++ pages.flatMap DirectoryPage.nodes).map Node.id).Nodup)
    (hcursors : (d.cursors ++ pages.filterMap fun p => p.next.map Cursor.value).Nodup)
    (hbytes : d.inputBytes + (pages.map listingBytes).sum ≤ maxInputBytes) :
    ∃ i : Incoming d.parent, i.nodes = d.incoming.nodes ++ pages.flatMap DirectoryPage.nodes ∧
      d.stage pages = .ok { d with
        incoming := i
        cursors := d.cursors ++ pages.filterMap fun p => p.next.map Cursor.value
        inputBytes := d.inputBytes + (pages.map listingBytes).sum
        pages := d.pages + pages.length
        complete := false } := by
  induction pages generalizing d with
  | nil =>
    refine ⟨d.incoming, by simp, ?_⟩
    obtain ⟨_, _, _, _, _, _, _, complete, _⟩ := d
    subst hopen
    simp only [List.filterMap_nil, List.append_nil, List.map_nil, List.sum_nil, Nat.add_zero,
      List.length_nil]
    rfl
  | cons p pages ih =>
    obtain ⟨cursor, hnext⟩ := Option.isSome_iff_exists.mp (hcontinued p List.mem_cons_self)
    have hsplit : (p :: pages).filterMap (fun p => p.next.map Cursor.value) =
        (p.next.map Cursor.value).toList ++ pages.filterMap fun p => p.next.map Cursor.value := by
      rw [List.filterMap_cons, hnext]
      rfl
    simp only [List.length_cons, List.flatMap_cons, List.map_cons, List.sum_cons] at *
    rw [hsplit, ← List.append_assoc] at hcursors
    rw [← List.append_assoc, List.map_append] at hdistinct
    obtain ⟨i₁, hnodes₁, hpage⟩ := page_ok d p hopen (by omega) (hfits p List.mem_cons_self)
      (fun n hn => hchildren n (List.mem_append_left _ hn)) (List.nodup_append.mp hdistinct).1
      (List.nodup_append.mp hcursors).1 (by omega)
    -- The rest is staged on what the first page left.
    obtain ⟨i, hnodes, hrest⟩ := ih { d with
        incoming := i₁
        cursors := d.cursors ++ (p.next.map Cursor.value).toList
        inputBytes := d.inputBytes + listingBytes p
        pages := d.pages + 1
        complete := p.next.isNone } (by simp [hnext]) (by show _ + 1 + _ ≤ _; omega)
      (fun q hq => hfits q (List.mem_cons_of_mem _ hq))
      (fun q hq => hcontinued q (List.mem_cons_of_mem _ hq))
      (fun n hn => hchildren n (List.mem_append_right _ hn))
      (by rw [hnodes₁, List.map_append]; exact hdistinct) hcursors (by show _ + _ + _ ≤ _; omega)
    refine ⟨i, by rw [hnodes, hnodes₁, List.append_assoc], ?_⟩
    unfold stage at hrest ⊢
    rw [List.foldlM_cons, hpage, hsplit, ← List.append_assoc, ← Nat.add_assoc,
      Nat.add_comm pages.length 1, ← Nat.add_assoc]
    exact hrest

/-- A listing split into pages can be staged, and leaves its rows in order. -/
theorem stage_ok {t : ObservationTicket} (htarget : t.target = .directory parent)
    (hdistinct : (nodes.map Node.id).Nodup)
    (hchildren : ∀ n ∈ nodes, n.parentId = some parent ∧ n.id ≠ "") {more : List DirectoryPage}
    {last : DirectoryPage} (hsplit : Split parent nodes more last) :
    ∃ d, (opened t parent htarget).stage (more ++ [last]) = .ok d ∧ d.ticket = t ∧
      d.parent = parent ∧ d.incoming.nodes = nodes ∧ d.complete = true ∧ d.source = none := by
  obtain ⟨hnodes, hfits, hcount, htotal, hcontinued, hterminal, hcursors⟩ := hsplit
  simp only [List.flatMap_append, List.flatMap_cons, List.flatMap_nil, List.append_nil] at hnodes
  simp only [List.map_append, List.sum_append, List.map_cons, List.map_nil, List.sum_cons,
    List.sum_nil, Nat.add_zero] at htotal
  subst hnodes
  obtain ⟨i, hi, hmore⟩ := stage_more more (opened t parent htarget) rfl
    (by show 0 + _ ≤ _; omega) (fun p hp => hfits p (List.mem_append_left _ hp)) hcontinued
    (fun n hn => hchildren n (List.mem_append_left _ hn))
    (by
      rw [List.map_append] at hdistinct
      exact (List.nodup_append.mp hdistinct).1)
    hcursors (by show 0 + _ ≤ _; omega)
  let before : DirectoryPublication := { opened t parent htarget with
    incoming := i
    cursors := [] ++ more.filterMap fun p => p.next.map Cursor.value
    inputBytes := 0 + (more.map listingBytes).sum
    pages := 0 + more.length
    complete := false }
  obtain ⟨j, hj, hlast⟩ := page_ok before last rfl (by show 0 + _ < _; omega)
    (hfits last (by simp)) (fun n hn => hchildren n (List.mem_append_right _ hn))
    (by show ((i.nodes ++ _).map Node.id).Nodup; rw [hi]; exact hdistinct)
    (by rw [hterminal]; simpa [before] using hcursors)
    (by show 0 + _ + _ ≤ _; omega)
  refine ⟨{ before with
    incoming := j
    cursors := before.cursors ++ (last.next.map Cursor.value).toList
    inputBytes := before.inputBytes + listingBytes last
    pages := before.pages + 1
    complete := last.next.isNone }, ?_, rfl, rfl, ?_, ?_, rfl⟩
  · unfold stage at hmore ⊢
    rw [List.foldlM_append, hmore]
    show List.foldlM (m := Except StoreError) (fun d p => page d false p) before [last] = _
    rw [List.foldlM_cons, hlast]
    rfl
  · exact hj.trans (congrArg (· ++ last.nodes) hi)
  · simp [hterminal]

end DirectoryPublication

/-! ## The refinement -/

/-- The two publications of one listing: the same kind of outcome, the same tables, and for
    a listing in order the same flag. -/
def Agree (nodes : List Node) : Except StoreError (DirectoryPublicationResult × Store) →
    Except StoreError (ObservationResult (List Node) × Store) → Prop
  | .ok (.published changed, s), .ok (.published value changed', s') =>
    value = nodes ∧ SameTables s s' ∧ (nodes.Pairwise byNameId → changed = changed')
  | .ok (.superseded known, s), .ok (.superseded view, s') =>
    known = view.isSome ∧ SameTables s s'
  | .error e, .error e' => e = e'
  | _, _ => False

/-- For a listing the check of the reported items can be made apart from the others. -/
theorem current_directory {t : ObservationTicket} (htarget : t.target = .directory parent)
    (nodes : List Node) :
    s.current t nodes = (s.current t []).map fun quiet =>
      quiet && !nodes.any (fun n => s.changedAfter t.scope .item n.id t.revision) := by
  unfold current
  split
  · rfl
  · simp [htarget, Except.map]

theorem publishDirectory_superseded {t : ObservationTicket}
    (htarget : t.target = .directory parent) (h : s.current t nodes = .ok false) :
    s.publishDirectory t nodes = .ok (.superseded (s.childrenOn t.scope parent), s) := by
  unfold publishDirectory
  rw [htarget]
  simp only [h]
  rfl

/-- A complete listing without a bound source, after the two checks that refuse it. -/
theorem publishStaged_bind {d : DirectoryPublication} (hkeys : WellKeyed s)
    (hcomplete : d.complete = true) (hsource : d.source = none) :
    s.publishStaged d false = (do
      let quiet ← s.current d.ticket d.incoming.nodes
      if !quiet then
        return (.superseded (s.readSource d.ticket.scope d.parent false).isSome, s)
      let (revision, s₁) ← s.advance
      let updated := (s.updatedIncoming d.ticket.scope d.parent d.incoming.nodes).map Node.id
      let removed := s.removedIds d.ticket.scope d.parent (d.incoming.nodes.map Node.id)
      let s₂ := s₁.stagedMarks d.ticket.scope d.parent (updated ++ removed) revision
      let hidden := removed.filter (s₂.hiddenBy d.ticket.scope d.parent)
      let s₃ := s₂.stagedRows d.ticket.scope d.incoming.nodes hidden d.ticket.revision
      return (.published (s.stagedChanged d.ticket.scope d.parent d.incoming.nodes),
        s₃.stagedSnapshot d.ticket.scope d.parent d.incoming.nodes d.source
          d.ticket.revision)) := by
  rw [current_directory d.target]
  unfold publishStaged
  rw [if_neg Bool.false_ne_true, if_neg (by simp [hcomplete]), if_neg (by simp [hsource])]
  cases hquiet : s.current d.ticket [] with
  | error e => rfl
  | ok quiet =>
    have hshown : (((s.childrenOn d.ticket.scope d.parent).getD []).map Node.id).Nodup :=
      childrenOn_nodup hkeys
    simp only [Except.map, bind, Except.bind, Bool.not_and, Bool.not_not, hshown, not_true,
      if_false]
    rfl

theorem publishDirectory_published {t : ObservationTicket} (hkeys : WellKeyed s)
    (htarget : t.target = .directory parent) (hdistinct : (nodes.map Node.id).Nodup)
    (hclock : s.revision + 1 ≤ maxRevision) (hquiet : s.current t nodes = .ok true) :
    ∃ s', s.publishDirectory t nodes =
        .ok (.published nodes (decide (s.childrenOn t.scope parent ≠ some nodes)), s') ∧
      s'.revision = s.revision + 1 ∧
      (s.directoryEffect t.scope parent nodes t.revision).Applied s s' := by
  have hwrite : ∃ changed s', s.writeDirectory t.scope parent nodes t.revision =
      .ok (changed, s') := by
    unfold writeDirectory changedItems advance writeSnapshot
    rw [if_pos hclock]
    simp only [if_pos hdistinct]
    exact ⟨_, _, rfl⟩
  obtain ⟨changed, s', hwrite⟩ := hwrite
  obtain ⟨rfl, hrevision, happlied⟩ := writeDirectory_applied hkeys hwrite
  refine ⟨s', ?_, hrevision, happlied⟩
  unfold publishDirectory
  rw [htarget]
  simp only [hquiet, hwrite]
  rfl

theorem publishDirectory_exhausted {t : ObservationTicket}
    (htarget : t.target = .directory parent) (hclock : ¬ s.revision + 1 ≤ maxRevision)
    (hquiet : s.current t nodes = .ok true) :
    s.publishDirectory t nodes = .error .outOfOrder := by
  unfold publishDirectory writeDirectory changedItems advance
  rw [htarget, if_neg hclock]
  simp only [hquiet]
  rfl

/-- Publishing a staged listing agrees with publishing it at once. -/
theorem publishStaged_agrees (hkeys : WellKeyed s) {d : DirectoryPublication}
    (hcomplete : d.complete = true) (hsource : d.source = none) :
    Agree d.incoming.nodes (s.publishStaged d false)
      (s.publishDirectory d.ticket d.incoming.nodes) := by
  rw [publishStaged_bind hkeys hcomplete hsource]
  cases hquiet : s.current d.ticket d.incoming.nodes with
  | error e =>
    have hdirect : s.publishDirectory d.ticket d.incoming.nodes = .error e := by
      unfold publishDirectory
      rw [d.target]
      simp only [hquiet]
      rfl
    rw [hdirect]
    rfl
  | ok quiet =>
    cases quiet with
    | false =>
      rw [publishDirectory_superseded d.target hquiet]
      refine ⟨?_, SameTables.refl s⟩
      show _ = (Option.map _ _).isSome
      rw [Option.isSome_map]
    | true =>
      by_cases hclock : s.revision + 1 ≤ maxRevision
      · obtain ⟨s', hdirect, hrevision, happlied⟩ := publishDirectory_published hkeys d.target
          d.incoming.distinct hclock hquiet
        have hadvance : s.advance =
            .ok (s.revision + 1, { s with revision := s.revision + 1 }) := if_pos hclock
        rw [hdirect, hadvance]
        refine ⟨rfl, ?_, ?_⟩
        · exact (Effect.Applied.sameTables (directoryEffect_same hkeys hsource) happlied
            (stagedEffect_applied s d) hrevision.symm).symm
        · intro hsorted
          exact stagedChanged_iff hkeys d.incoming.distinct hsorted
      · have hadvance : s.advance = .error .outOfOrder := if_neg hclock
        rw [publishDirectory_exhausted d.target hclock hquiet, hadvance]
        rfl

/-- Staging a listing in pages and publishing it refines publishing the listing at once: in
    every reachable state, for every ticket of a directory and every split. -/
theorem staged_publication_refines {w : World} (hw : Reachable w) {t : ObservationTicket}
    {parent : String} (htarget : t.target = .directory parent) {nodes : List Node}
    (hdistinct : (nodes.map Node.id).Nodup)
    (hchildren : ∀ n ∈ nodes, n.parentId = some parent ∧ n.id ≠ "") {more : List DirectoryPage}
    {last : DirectoryPage} (hsplit : Split parent nodes more last) :
    ∃ d, (DirectoryPublication.opened t parent htarget).stage (more ++ [last]) = .ok d ∧
      Agree nodes (w.store.publishStaged d false) (w.store.publishDirectory t nodes) := by
  obtain ⟨d, hstage, rfl, rfl, rfl, hcomplete, hsource⟩ :=
    DirectoryPublication.stage_ok htarget hdistinct hchildren hsplit
  exact ⟨d, hstage, publishStaged_agrees hw.inv.sound.keyed hcomplete hsource⟩

/-- Two pages of one file each. -/
theorem split_two_pages :
    Split "root" [fileAt "b" "root", fileAt "a" "root"] [⟨[fileAt "b" "root"], some ⟨"next"⟩⟩]
      ⟨[fileAt "a" "root"], none⟩ where
  nodes := rfl
  fits := by
    intro p hp
    simp only [List.cons_append, List.nil_append, List.mem_cons, List.not_mem_nil, or_false] at hp
    rcases hp with rfl | rfl
    · refine ⟨?_, ?_, ?_, ?_⟩
      · simp only [List.forall_mem_singleton]; decide +kernel
      · simp only [List.forall_mem_singleton]; decide +kernel
      · decide +kernel
      · intro cursor hcursor
        cases hcursor
        decide +kernel
    · refine ⟨?_, ?_, ?_, ?_⟩
      · simp only [List.forall_mem_singleton]; decide +kernel
      · simp only [List.forall_mem_singleton]; decide +kernel
      · decide +kernel
      · intro cursor hcursor
        cases hcursor
  count := by decide
  total := by decide +kernel
  continued := by simp
  terminal := rfl
  cursors := by simp

/-- A listing of two files staged for a new database. -/
theorem staged_publication_refines_two_pages :
    ∃ d, (DirectoryPublication.opened ⟨drive, .directory "root", "db", 1⟩ "root" rfl).stage
        ([⟨[fileAt "b" "root"], some ⟨"next"⟩⟩] ++ [⟨[fileAt "a" "root"], none⟩]) = .ok d ∧
      Agree [fileAt "b" "root", fileAt "a" "root"]
        ((World.create "db").store.publishStaged d false)
        ((World.create "db").store.publishDirectory ⟨drive, .directory "root", "db", 1⟩
          [fileAt "b" "root", fileAt "a" "root"]) :=
  staged_publication_refines (w := World.create "db") ⟨"db", [], .start⟩ rfl
    (by simp [fileAt]) (by simp [fileAt]) split_two_pages

end Cirrove.Store
