import Cirrove.Store.Machine
import Cirrove.Store.Reading

/-!
# What a publication does

Eight operations publish metadata. Each of them takes the next revision, writes marks
with it, and then writes positive and negative observations of one source revision and
at most one directory snapshot. `Effect` is that change as data and `Effect.Applied`
says what every table holds afterwards; the invariants are proved from these two
definitions and not from the eight bodies.

`Effect.Covered` records the part of the marking discipline that all eight share: the
parent of every written item is marked, and so is every item that is hidden. An item
that a listing reports unchanged is the one kind of row that is written without a mark
of its own.
-/

namespace Cirrove.Store

open Cirrove.Library

/-- One publication as the change it makes to the tables. -/
structure Effect where
  scope : Scope
  /-- The revision of its marks. -/
  marked : Nat
  /-- The source revision of its rows. -/
  source : Nat
  /-- Items observed present. -/
  written : List Node
  /-- Items observed absent. -/
  hidden : List String
  /-- The directory whose snapshot becomes `written`, with its bound source. -/
  listing : Option (String × Option Node)
  /-- Items and directories that are marked. -/
  items : List String
  directories : List String

/-- An observed or committed row of the item names `parent`. -/
def Names (s : Store) (scope : Scope) (parent id : String) : Prop :=
  (∃ row, s.observed.get (scope, id) = some row ∧ row.body.parentId = some parent) ∨
    ∃ m, s.nodes.get (scope, id) = some m ∧ m.parentId = some parent

namespace Effect

/-- Does the publication mark this key? -/
def Marks (e : Effect) (k : MarkKey) : Prop :=
  k.scope = e.scope ∧
    ((k.kind = .item ∧ k.identity ∈ e.items) ∨ (k.kind = .directory ∧ k.identity ∈ e.directories))

/-- Does the publication touch the observation of this item? -/
def Touches (e : Effect) (scope : Scope) (id : String) : Prop :=
  scope = e.scope ∧ (id ∈ e.written.map Node.id ∨ id ∈ e.hidden)

/-- Does the publication replace the snapshot of this directory? -/
def Replaces (e : Effect) (scope : Scope) (parent : String) : Prop :=
  scope = e.scope ∧ ∃ source, e.listing = some (parent, source)

/-- The tables after a publication. -/
structure Applied (e : Effect) (s s' : Store) : Prop where
  identity : s'.identity = s.identity
  marked_gt : s.revision < e.marked
  marked_le : e.marked ≤ s'.revision
  versions_marked : ∀ k, e.Marks k → s'.versions.get k = some e.marked
  versions_kept : ∀ k, ¬ e.Marks k → s'.versions.get k = s.versions.get k
  written : ∀ n ∈ e.written, s'.observed.get (e.scope, n.id) = some ⟨n, e.source⟩ ∧
    s'.observedAbsent.get (e.scope, n.id) = none
  hidden : ∀ id ∈ e.hidden, s'.observed.get (e.scope, id) = none ∧
    s'.observedAbsent.get (e.scope, id) = some e.source
  kept : ∀ scope id, ¬ e.Touches scope id →
    s'.observed.get (scope, id) = s.observed.get (scope, id) ∧
    s'.observedAbsent.get (scope, id) = s.observedAbsent.get (scope, id)
  nodes : s'.nodes = s.nodes
  staged : s'.staged = s.staged
  feeds : s'.feeds = s.feeds
  rounds : s'.rounds = s.rounds
  snapshot : ∀ parent source, e.listing = some (parent, source) →
    s'.directories.get (e.scope, parent) = some e.source ∧
    (∀ n ∈ e.written, s'.directoryEntries.get (e.scope, parent, n.id) = some n) ∧
    (∀ id, id ∉ e.written.map Node.id → s'.directoryEntries.get (e.scope, parent, id) = none) ∧
    s'.directorySources.get (e.scope, parent) = source.map .bound
  unlisted : ∀ scope parent, ¬ e.Replaces scope parent →
    s'.directories.get (scope, parent) = s.directories.get (scope, parent) ∧
    (∀ id, s'.directoryEntries.get (scope, parent, id) =
      s.directoryEntries.get (scope, parent, id)) ∧
    s'.directorySources.get (scope, parent) = s.directorySources.get (scope, parent)

/-- The marking discipline, against the store before the publication. -/
structure Covered (e : Effect) (s : Store) : Prop where
  written_parent : ∀ n ∈ e.written, ∀ parent, n.parentId = some parent → parent ∈ e.directories
  written_root : ∀ n ∈ e.written, n.parentId = none → n.id ∈ e.items
  hidden_item : ∀ id ∈ e.hidden, id ∈ e.items
  old_parent : ∀ id ∈ e.items, ∀ m, s.nodeOn e.scope id = some m →
    ∀ parent, m.parentId = some parent → parent ∈ e.directories
  listed_directory : ∀ parent source, e.listing = some (parent, source) → parent ∈ e.directories
  listed_parent : ∀ parent source, e.listing = some (parent, source) →
    ∀ n ∈ e.written, n.parentId = some parent
  /-- A listing hides what still named the directory and is not known to be elsewhere. -/
  hidden_listed : ∀ parent source, e.listing = some (parent, source) → ∀ id ∈ e.hidden,
    id ∉ e.written.map Node.id ∧ s.hiddenBy e.scope parent id = true ∧
      Names s e.scope parent id
  /-- What is written without a mark of its own is an unchanged member of a listing. -/
  unmarked : ∀ n ∈ e.written, n.id ∉ e.items →
    ∃ parent source, e.listing = some (parent, source) ∧ Lists s e.scope parent n

end Effect

/-! ## The steps every publication is made of -/

variable {s s' : Store} {scope : Scope} {parent : String} {revision : Nat}

theorem advance_eq_ok {r : Nat} (h : s.advance = .ok (r, s')) :
    r = s.revision + 1 ∧ s' = { s with revision := s.revision + 1 } := by
  unfold advance at h
  split at h
  · cases h
    exact ⟨rfl, rfl⟩
  · cases h

/-- The store after the marks of `changed_items`. -/
def marking (s : Store) (scope : Scope) (items directories : List String) : Store :=
  { s with
    revision := s.revision + 1
    versions := (s.versions.setAll (items.map (⟨scope, .item, ·⟩)) (s.revision + 1)).setAll
      (directories.map (⟨scope, .directory, ·⟩)) (s.revision + 1) }

/-- The directories `changed_items` marks. -/
def changedParents (s : Store) (scope : Scope) (touched : List Node) (parent : Option String) :
    List String :=
  parent.toList ++ touched.flatMap (s.touchedParents scope)

theorem changedItems_eq_ok {nodes removed : List Node} {parent : Option String}
    (h : s.changedItems scope nodes removed parent = .ok s') :
    s' = s.marking scope ((nodes ++ removed).map Node.id)
      (s.changedParents scope (nodes ++ removed) parent) := by
  unfold changedItems at h
  cases hadvance : s.advance with
  | error e => rw [hadvance] at h; cases h
  | ok result =>
    obtain ⟨r, s₁⟩ := result
    obtain ⟨rfl, rfl⟩ := advance_eq_ok hadvance
    rw [hadvance] at h
    cases h
    rfl

/-- Which marks `marking` leaves. -/
theorem marking_versions (s : Store) (scope : Scope) (items directories : List String)
    (k : MarkKey) :
    (s.marking scope items directories).versions.get k =
      if k.scope = scope ∧ ((k.kind = .item ∧ k.identity ∈ items) ∨
          (k.kind = .directory ∧ k.identity ∈ directories)) then some (s.revision + 1)
      else s.versions.get k := by
  obtain ⟨sc, kind, identity⟩ := k
  simp only [marking, Table.get_setAll, List.mem_map, MarkKey.mk.injEq]
  by_cases hdir : kind = .directory ∧ sc = scope ∧ identity ∈ directories
  · obtain ⟨rfl, rfl, hmem⟩ := hdir
    rw [if_pos ⟨identity, hmem, rfl, rfl, rfl⟩, if_pos ⟨rfl, .inr ⟨rfl, hmem⟩⟩]
  · rw [if_neg (by rintro ⟨i, hi, rfl, rfl, rfl⟩; exact hdir ⟨rfl, rfl, hi⟩)]
    by_cases hitem : kind = .item ∧ sc = scope ∧ identity ∈ items
    · obtain ⟨rfl, rfl, hmem⟩ := hitem
      rw [if_pos ⟨identity, hmem, rfl, rfl, rfl⟩, if_pos ⟨rfl, .inl ⟨rfl, hmem⟩⟩]
    · rw [if_neg (by rintro ⟨i, hi, rfl, rfl, rfl⟩; exact hitem ⟨rfl, rfl, hi⟩),
        if_neg (by
          rintro ⟨rfl, ⟨rfl, hmem⟩ | ⟨rfl, hmem⟩⟩
          · exact hitem ⟨rfl, rfl, hmem⟩
          · exact hdir ⟨rfl, rfl, hmem⟩)]

/-! ## Writing observation rows -/

theorem writeNodes_cons (s : Store) (n : Node) (nodes : List Node) :
    s.writeNodes scope (n :: nodes) revision =
      (s.writeNode scope n revision).writeNodes scope nodes revision := rfl

/-- `writeNodes` touches two tables only. -/
theorem writeNodes_frame (s : Store) (scope : Scope) (revision : Nat) (nodes : List Node) :
    ∃ observed absent, s.writeNodes scope nodes revision =
      { s with observed := observed, observedAbsent := absent } := by
  induction nodes generalizing s with
  | nil => exact ⟨s.observed, s.observedAbsent, rfl⟩
  | cons n nodes ih =>
    obtain ⟨observed, absent, h⟩ := ih (s.writeNode scope n revision)
    exact ⟨observed, absent, by rw [writeNodes_cons, h]; rfl⟩

theorem writeNodes_kept (s : Store) (scope : Scope) (revision : Nat) (nodes : List Node)
    (sc : Scope) (id : String) (h : ¬ (sc = scope ∧ id ∈ nodes.map Node.id)) :
    (s.writeNodes scope nodes revision).observed.get (sc, id) = s.observed.get (sc, id) ∧
    (s.writeNodes scope nodes revision).observedAbsent.get (sc, id) =
      s.observedAbsent.get (sc, id) := by
  induction nodes generalizing s with
  | nil => exact ⟨rfl, rfl⟩
  | cons n nodes ih =>
    have hne : (sc, id) ≠ (scope, n.id) := by
      intro heq
      cases heq
      exact h ⟨rfl, by simp⟩
    have hrest : ¬ (sc = scope ∧ id ∈ nodes.map Node.id) :=
      fun hmem => h ⟨hmem.1, List.mem_cons_of_mem _ hmem.2⟩
    obtain ⟨hobserved, habsent⟩ := ih (s.writeNode scope n revision) hrest
    rw [writeNodes_cons, hobserved, habsent]
    simp [writeNode, Table.get_set, Table.get_erase, hne]

theorem writeNodes_written (s : Store) (scope : Scope) (revision : Nat) (nodes : List Node)
    (hdistinct : (nodes.map Node.id).Nodup) {n : Node} (hn : n ∈ nodes) :
    (s.writeNodes scope nodes revision).observed.get (scope, n.id) = some ⟨n, revision⟩ ∧
    (s.writeNodes scope nodes revision).observedAbsent.get (scope, n.id) = none := by
  induction nodes generalizing s with
  | nil => cases hn
  | cons m nodes ih =>
    rw [List.map_cons, List.nodup_cons] at hdistinct
    rw [writeNodes_cons]
    rcases List.mem_cons.mp hn with rfl | hn
    · -- Later rows of the reply are other items.
      obtain ⟨hobserved, habsent⟩ := writeNodes_kept (s.writeNode scope n revision) scope
        revision nodes scope n.id (fun hmem => hdistinct.1 hmem.2)
      rw [hobserved, habsent]
      simp [writeNode, Table.get_erase]
    · exact ih (s.writeNode scope m revision) hdistinct.2 hn

/-! ## Hiding what a listing left out -/

theorem hideRemoved_cons (s : Store) (n : Node) (removed : List Node) :
    s.hideRemoved scope parent (n :: removed) revision =
      (if s.hiddenBy scope parent n.id then s.hideNode scope n.id revision else s).hideRemoved
        scope parent removed revision := rfl

theorem nodeOn_hideNode (s : Store) (id id' : String) :
    (s.hideNode scope id revision).nodeOn scope id' =
      if id' = id then none else s.nodeOn scope id' := by
  by_cases h : id' = id
  · subst h
    rw [if_pos rfl]
    exact nodeOn_of_absent (Table.get_set_self _ _ _)
  · have hne : (scope, id') ≠ (scope, id) := by
      intro heq
      exact h (Prod.mk.inj heq).2
    rw [if_neg h]
    exact nodeOn_congr (by simp [hideNode, Table.get_erase, hne])
      (by simp [hideNode, Table.get_set, hne]) rfl

/-- Hiding one item never changes whether another, or it again, is to be hidden. -/
theorem hiddenBy_hideNode (s : Store) (id id' : String) (h : s.hiddenBy scope parent id = true) :
    (s.hideNode scope id revision).hiddenBy scope parent id' = s.hiddenBy scope parent id' := by
  unfold hiddenBy at h ⊢
  rw [nodeOn_hideNode]
  by_cases heq : id' = id
  · subst heq
    rw [if_pos rfl, h]
  · rw [if_neg heq]

theorem hideRemoved_frame (s : Store) (scope : Scope) (parent : String) (revision : Nat)
    (removed : List Node) :
    ∃ observed absent, s.hideRemoved scope parent removed revision =
      { s with observed := observed, observedAbsent := absent } := by
  induction removed generalizing s with
  | nil => exact ⟨s.observed, s.observedAbsent, rfl⟩
  | cons n removed ih =>
    rw [hideRemoved_cons]
    by_cases hhidden : s.hiddenBy scope parent n.id = true
    · rw [if_pos hhidden]
      obtain ⟨observed, absent, h⟩ := ih (s.hideNode scope n.id revision)
      exact ⟨observed, absent, by rw [h]; rfl⟩
    · rw [if_neg hhidden]
      exact ih s

/-- The observation rows after the removed items of a listing were hidden. -/
theorem hideRemoved_rows (s : Store) (scope : Scope) (parent : String) (revision : Nat)
    (removed : List Node) (sc : Scope) (id : String) :
    (s.hideRemoved scope parent removed revision).observed.get (sc, id) =
      (if sc = scope ∧ id ∈ (removed.map Node.id).filter (s.hiddenBy scope parent) then none
        else s.observed.get (sc, id)) ∧
    (s.hideRemoved scope parent removed revision).observedAbsent.get (sc, id) =
      (if sc = scope ∧ id ∈ (removed.map Node.id).filter (s.hiddenBy scope parent) then
        some revision else s.observedAbsent.get (sc, id)) := by
  induction removed generalizing s with
  | nil => simp [hideRemoved]
  | cons n removed ih =>
    rw [hideRemoved_cons]
    by_cases hhidden : s.hiddenBy scope parent n.id = true
    · rw [if_pos hhidden]
      obtain ⟨hobserved, habsent⟩ := ih (s.hideNode scope n.id revision)
      have hsame : (s.hideNode scope n.id revision).hiddenBy scope parent =
          s.hiddenBy scope parent := by
        funext id'
        exact hiddenBy_hideNode s n.id id' hhidden
      rw [hobserved, habsent, hsame, List.map_cons, List.filter_cons_of_pos hhidden]
      by_cases hself : sc = scope ∧ id = n.id
      · obtain ⟨rfl, rfl⟩ := hself
        simp [hideNode, Table.get_erase]
      · have hne : (sc, id) ≠ (scope, n.id) := by
          intro heq
          exact hself ⟨(Prod.mk.inj heq).1, (Prod.mk.inj heq).2⟩
        have hmem : (sc = scope ∧ id ∈ n.id :: (removed.map Node.id).filter
              (s.hiddenBy scope parent)) ↔
            (sc = scope ∧ id ∈ (removed.map Node.id).filter (s.hiddenBy scope parent)) := by
          rw [List.mem_cons]
          tauto
        simp only [hmem, hideNode, Table.get_erase, Table.get_set, if_neg hne]
        exact ⟨trivial, trivial⟩
    · rw [if_neg hhidden, List.map_cons, List.filter_cons_of_neg (by simpa using hhidden)]
      exact ih s

/-! ## Assembling a publication -/

/-- A publication is its marks and what it leaves in the five tables it may write. -/
theorem Effect.Applied.of_tables (e : Effect) {s : Store} {clock : Nat}
    {versions : Table MarkKey Nat}
    {observed : Table (Scope × String) Observed} {absent : Table (Scope × String) Nat}
    {directories : Table (Scope × String) Nat}
    {entries : Table (Scope × String × String) Node}
    {sources : Table (Scope × String) DirectorySource}
    (hmarked : e.marked = s.revision + 1) (hclock : s.revision + 1 ≤ clock)
    (hversions : ∀ k, versions.get k = (s.marking e.scope e.items e.directories).versions.get k)
    (hwritten : ∀ n ∈ e.written, observed.get (e.scope, n.id) = some ⟨n, e.source⟩ ∧
      absent.get (e.scope, n.id) = none)
    (hhidden : ∀ id ∈ e.hidden, observed.get (e.scope, id) = none ∧
      absent.get (e.scope, id) = some e.source)
    (hkept : ∀ scope id, ¬ e.Touches scope id →
      observed.get (scope, id) = s.observed.get (scope, id) ∧
      absent.get (scope, id) = s.observedAbsent.get (scope, id))
    (hsnapshot : ∀ parent source, e.listing = some (parent, source) →
      directories.get (e.scope, parent) = some e.source ∧
      (∀ n ∈ e.written, entries.get (e.scope, parent, n.id) = some n) ∧
      (∀ id, id ∉ e.written.map Node.id → entries.get (e.scope, parent, id) = none) ∧
      sources.get (e.scope, parent) = source.map .bound)
    (hunlisted : ∀ scope parent, ¬ e.Replaces scope parent →
      directories.get (scope, parent) = s.directories.get (scope, parent) ∧
      (∀ id, entries.get (scope, parent, id) = s.directoryEntries.get (scope, parent, id)) ∧
      sources.get (scope, parent) = s.directorySources.get (scope, parent)) :
    e.Applied s { s with
      revision := clock, versions := versions, observed := observed, observedAbsent := absent,
      directories := directories, directoryEntries := entries, directorySources := sources } where
  identity := rfl
  marked_gt := by
    rw [hmarked]
    exact Nat.lt_succ_self _
  marked_le := by
    rw [hmarked]
    exact hclock
  versions_marked := by
    intro k hk
    rw [hmarked, hversions]
    exact (marking_versions s e.scope _ _ k).trans (if_pos hk)
  versions_kept := by
    intro k hk
    rw [hversions]
    exact (marking_versions s e.scope _ _ k).trans (if_neg hk)
  written := hwritten
  hidden := hhidden
  kept := hkept
  nodes := rfl
  staged := rfl
  feeds := rfl
  rounds := rfl
  snapshot := hsnapshot
  unlisted := hunlisted

/-- Marks and positive observations, as for a single item and for a relocation. -/
theorem applied_writes (s : Store) (scope : Scope) (items directories : List String)
    (nodes : List Node) (source clock : Nat) (hdistinct : (nodes.map Node.id).Nodup)
    (hclock : s.revision + 1 ≤ clock) :
    Effect.Applied ⟨scope, s.revision + 1, source, nodes, [], none, items, directories⟩ s
      (({ s.marking scope items directories with revision := clock }).writeNodes
        scope nodes source) := by
  let base : Store := { s.marking scope items directories with revision := clock }
  have hwritten := fun n (hn : n ∈ nodes) =>
    writeNodes_written base scope source nodes hdistinct hn
  have hkept := writeNodes_kept base scope source nodes
  obtain ⟨observed, absent, hframe⟩ := writeNodes_frame base scope source nodes
  rw [hframe] at hwritten hkept ⊢
  apply Effect.Applied.of_tables _ rfl hclock (fun _ => rfl) hwritten
  · intro id hid
    cases hid
  · intro sc id htouch
    exact hkept sc id (fun hmem => htouch ⟨hmem.1, .inl hmem.2⟩)
  · intro parent source h
    cases h
  · intro sc parent _
    exact ⟨rfl, fun _ => rfl, rfl⟩

/-- The snapshot rows both kinds of listing leave. -/
theorem snapshot_entries (entries : Table (Scope × String × String) Node) (scope : Scope)
    (parent : String) (nodes : List Node) (hdistinct : (nodes.map Node.id).Nodup) :
    let written := (entries.deleteWhere fun key _ => key.1 = scope ∧ key.2.1 = parent).setRows
      (nodes.map fun n => ((scope, parent, n.id), n))
    (∀ n ∈ nodes, written.get (scope, parent, n.id) = some n) ∧
    (∀ id, id ∉ nodes.map Node.id → written.get (scope, parent, id) = none) ∧
    (∀ sc p id, ¬ (sc = scope ∧ p = parent) →
      written.get (sc, p, id) = entries.get (sc, p, id)) := by
  intro written
  have hkeys : (nodes.map fun n => ((scope, parent, n.id), n)).map Prod.fst =
      (nodes.map Node.id).map (fun id => (scope, parent, id)) := by
    simp
  refine ⟨?_, ?_, ?_⟩
  · intro n hn
    apply Table.get_setRows_of_mem
    · rw [hkeys]
      exact hdistinct.map (fun a b h => (Prod.mk.inj (Prod.mk.inj h).2).2)
    · exact List.mem_map.mpr ⟨n, hn, rfl⟩
  · intro id hid
    have hfresh : (scope, parent, id) ∉
        (nodes.map fun n => ((scope, parent, n.id), n)).map Prod.fst := by
      rw [hkeys]
      simpa using hid
    rw [Table.get_setRows_of_not_mem _ hfresh]
    exact Table.get_deleteWhere_of_deleted _ (by simp)
  · intro sc p id hother
    have hfresh : (sc, p, id) ∉ (nodes.map fun n => ((scope, parent, n.id), n)).map Prod.fst := by
      rw [hkeys]
      intro hmem
      obtain ⟨id', _, heq⟩ := List.mem_map.mp hmem
      cases heq
      exact hother ⟨rfl, rfl⟩
    rw [Table.get_setRows_of_not_mem _ hfresh]
    exact Table.get_deleteWhere_of_kept _ (fun _ _ => by simpa using hother)

/-! ## The three kinds of publication -/

/-- Items reported one by one; `removed` is marked as well. -/
def nodesEffect (s : Store) (scope : Scope) (nodes removed : List Node) (source : Nat) :
    Effect where
  scope := scope
  marked := s.revision + 1
  source := source
  written := nodes
  hidden := []
  listing := none
  items := (nodes ++ removed).map Node.id
  directories := s.changedParents scope (nodes ++ removed) none

/-- A provider's NotFound. -/
def absenceEffect (s : Store) (scope : Scope) (id : String) (source : Nat) : Effect where
  scope := scope
  marked := s.revision + 1
  source := source
  written := []
  hidden := [id]
  listing := none
  items := [id]
  directories := id :: ((s.nodeOn scope id).bind Node.parentId).toList

/-- A complete listing: the updated members and the removed items are marked. -/
def listingEffect (s : Store) (scope : Scope) (parent : String) (nodes : List Node)
    (bound : Option Node) (updated removed : List String) (directories : List String)
    (source : Nat) : Effect where
  scope := scope
  marked := s.revision + 1
  source := source
  written := nodes
  hidden := removed.filter (s.hiddenBy scope parent)
  listing := some (parent, bound)
  items := updated ++ removed
  directories := directories

theorem mem_changedParents_of_parent {touched : List Node} {parent : Option String} {n : Node}
    (hn : n ∈ touched) {p : String} (hp : n.parentId = some p) :
    p ∈ s.changedParents scope touched parent := by
  unfold changedParents touchedParents
  rw [List.mem_append, List.mem_flatMap]
  exact .inr ⟨n, hn, List.mem_append_left _ (by simp [hp])⟩

theorem mem_changedParents_of_visible {touched : List Node} {parent : Option String} {n : Node}
    (hn : n ∈ touched) {m : Node} (hm : s.nodeOn scope n.id = some m) {p : String}
    (hp : m.parentId = some p) : p ∈ s.changedParents scope touched parent := by
  unfold changedParents touchedParents
  rw [List.mem_append, List.mem_flatMap]
  exact .inr ⟨n, hn, List.mem_append_right _ (by simp [hm, hp])⟩

theorem nodesEffect_covered (s : Store) (scope : Scope) (nodes removed : List Node)
    (source : Nat) : (s.nodesEffect scope nodes removed source).Covered s where
  written_parent := by
    intro n hn parent hparent
    exact mem_changedParents_of_parent (List.mem_append_left _ hn) hparent
  written_root := by
    intro n hn _
    exact List.mem_map.mpr ⟨n, List.mem_append_left _ hn, rfl⟩
  hidden_item := by
    intro id hid
    cases hid
  old_parent := by
    intro id hid m hm parent hparent
    obtain ⟨n, hn, rfl⟩ := List.mem_map.mp hid
    exact mem_changedParents_of_visible hn hm hparent
  listed_directory := by
    intro parent source h
    cases h
  listed_parent := by
    intro parent source h
    cases h
  hidden_listed := by
    intro parent source h
    cases h
  unmarked := by
    intro n hn hitem
    exact absurd (List.mem_map.mpr ⟨n, List.mem_append_left _ hn, rfl⟩) hitem

theorem absenceEffect_covered (s : Store) (scope : Scope) (id : String) (source : Nat) :
    (s.absenceEffect scope id source).Covered s where
  written_parent := by
    intro n hn
    cases hn
  written_root := by
    intro n hn
    cases hn
  hidden_item := by
    intro x hx
    exact hx
  old_parent := by
    intro x hx m hm parent hparent
    obtain rfl : x = id := by simpa [absenceEffect] using hx
    have hm' : s.nodeOn scope x = some m := hm
    simp [absenceEffect, hm', hparent]
  listed_directory := by
    intro parent source h
    cases h
  listed_parent := by
    intro parent source h
    cases h
  hidden_listed := by
    intro parent source h
    cases h
  unmarked := by
    intro n hn
    cases hn

/-- A listing is covered when its members are children, its directory is marked, what it
    removes named the directory, and an unmarked member was listed before. -/
theorem listingEffect_covered (s : Store) (scope : Scope) (parent : String) (nodes : List Node)
    (bound : Option Node) (updated removed directories : List String) (source : Nat)
    (hchildren : ∀ n ∈ nodes, n.parentId = some parent)
    (hdirectory : parent ∈ directories)
    (hparents : ∀ id ∈ updated ++ removed, ∀ m, s.nodeOn scope id = some m →
      ∀ p, m.parentId = some p → p ∈ directories)
    (hremoved : ∀ id ∈ removed, id ∉ nodes.map Node.id ∧ Names s scope parent id)
    (hunmarked : ∀ n ∈ nodes, n.id ∉ updated → Lists s scope parent n) :
    (s.listingEffect scope parent nodes bound updated removed directories source).Covered s where
  written_parent := by
    intro n hn p hp
    have hparent := hchildren n hn
    rw [hp] at hparent
    cases hparent
    exact hdirectory
  written_root := by
    intro n hn hroot
    rw [hchildren n hn] at hroot
    cases hroot
  hidden_item := by
    intro id hid
    exact List.mem_append_right _ (List.mem_filter.mp hid).1
  old_parent := hparents
  listed_directory := by
    intro p b h
    cases h
    exact hdirectory
  listed_parent := by
    intro p b h
    cases h
    exact hchildren
  hidden_listed := by
    intro p b h id hid
    cases h
    obtain ⟨hmem, hhidden⟩ := List.mem_filter.mp hid
    exact ⟨(hremoved id hmem).1, hhidden, (hremoved id hmem).2⟩
  unmarked := by
    intro n hn hitem
    exact ⟨parent, bound, rfl, hunmarked n hn (fun h => hitem (List.mem_append_left _ h))⟩

end Cirrove.Store
