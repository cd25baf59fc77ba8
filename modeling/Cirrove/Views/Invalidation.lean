import Cirrove.Library.Paging
import Cirrove.Store.State
import Cirrove.Views.Ceiling
import Mathlib.Data.Prod.Lex
import Mathlib.Data.String.Basic

/-!
# Invalidation sweeps

`cirrove-service/src/filesystem/residency/invalidation.rs`: the mount finds the resident views
that a metadata change is about through an index of their provider identities, and tells the
kernel about them page by page. The namespace is not locked between two pages, so views come,
go and move during a sweep.

A linked view has two keys: the item it shows, and the shortcut it was reached through.
-/

namespace Cirrove.Views

open Cirrove.Library Cirrove.Store

/-! ## The index -/

/-- A key of the projection index. -/
structure Key where
  scope : Scope
  item : String
  inode : Nat

/-- `Key::parts` -/
def Key.parts (k : Key) : String ×ₗ String ×ₗ String ×ₗ String ×ₗ ℕ :=
  toLex (k.scope.account, toLex (k.scope.provider, toLex (k.scope.collection,
    toLex (k.item, k.inode))))

theorem Key.parts_injective : Function.Injective Key.parts := by
  rintro ⟨⟨a, p, c⟩, item, inode⟩ ⟨⟨a', p', c'⟩, item', inode'⟩ h
  simp only [Key.parts, EmbeddingLike.apply_eq_iff_eq, Prod.mk.injEq] at h
  obtain ⟨rfl, rfl, rfl, rfl, rfl⟩ := h
  rfl

/-- Keys are ordered by their parts. -/
instance : LinearOrder Key := LinearOrder.lift' Key.parts Key.parts_injective

/-- What the index reads of a view. -/
structure Projected where
  scope : Scope
  id : String
  /-- The links on the way to the view, each with its collection (`alias`). -/
  aliasRoute : List (String × String)
  /-- The shortcut the view was reached through. -/
  entry : Option Node

/-- `keys`: the item of the view, and the shortcut in the collection it is in. -/
def keys (inode : Nat) (p : Projected) : Finset Key :=
  insert ⟨p.scope, p.id, inode⟩ ((p.entry.bind fun entry =>
    p.aliasRoute.getLast?.map fun link =>
      ({ scope := { p.scope with collection := link.1 }, item := entry.id, inode := inode } : Key)
    ).toFinset)

theorem inode_of_mem_keys {inode : Nat} {p : Projected} {k : Key} (h : k ∈ keys inode p) :
    k.inode = inode := by
  unfold keys at h
  rw [Finset.mem_insert] at h
  rcases h with rfl | h
  · rfl
  · simp only [Option.mem_toFinset, Option.mem_def, Option.bind_eq_some_iff,
      Option.map_eq_some_iff] at h
    obtain ⟨entry, _, link, _, rfl⟩ := h
    rfl

/-- The resident views with the index over them. -/
structure Mount where
  world : World
  projected : Nat → Projected
  identities : Finset Key

def Mount.get (x : Mount) (inode : Nat) : Option View := x.world.views.get inode

/-- The inodes of the index, `entries.keys()`. -/
def Mount.inodes (x : Mount) : Finset Nat := (x.world.views.entries.rows.map Prod.fst).toFinset

/-- The keys of a resident view. -/
def Mount.keysOf (x : Mount) (inode : Nat) : Finset Key :=
  if (x.get inode).isSome then keys inode (x.projected inode) else ∅

/-- A mount with nothing but its root. -/
def Mount.create (name : String) (ceiling : Nat) (root : Projected) : Mount where
  world := World.create name ceiling
  projected := fun _ => root
  identities := keys 1 root

/-- An event, and what is projected when it is an insertion. -/
structure ViewEvent where
  event : Event
  projected : Projected

/-- The index follows the views: an insertion takes the keys of the old view out and puts those
    of the new one in, and `forget` and `collect` take out the keys of every entry they retire. -/
def Mount.step (x : Mount) (e : ViewEvent) : Mount :=
  let world := Views.step x.world e.event
  match e.event with
  | .insert source inode parent kind name =>
    let memory := { x.world.memory with allocated := x.world.memory.allocated + 1 }
    match x.world.views.insert memory (x.world.input source inode parent kind name) with
    | .error _ => { x with world := world }
    | .ok _ => {
        world := world
        projected := fun i => if i = inode then e.projected else x.projected i
        identities := (x.identities \ x.keysOf inode) ∪ keys inode e.projected }
  | _ => { x with
      world := world
      identities := x.identities \
        (x.inodes.filter fun i => (world.views.get i).isNone).biUnion x.keysOf }

/-! ## A page -/

/-- `ENTRIES` -/
def invalidationEntries : Nat := 128

/-- `BYTES` -/
def invalidationBytes : Nat := 64 * 1024

structure InvalidationCursor where
  key : Option Key
  inode : Option Nat

/-- `InvalidationCursor::default()` -/
def InvalidationCursor.start : InvalidationCursor := ⟨none, none⟩

structure Invalidation where
  inode : Nat
  parent : Nat
  name : String
  directory : Bool
  entry : Bool

structure InvalidationBatch where
  entries : List Invalidation
  next : InvalidationCursor
  complete : Bool

/-- Is the change about the listing of a directory? -/
def ofDirectory (change : Option MarkKey) : Bool := change.any fun c => c.kind = .directory

/-- The closure `push` of `invalidation_batch`: what has been copied so far, and `none` where it
    answers that the page is full. -/
def Mount.push (x : Mount) (change : Option MarkKey) (copied : List Invalidation × Nat)
    (inode : Nat) : Option (List Invalidation × Nat) :=
  if inode = 1 then some copied
  else
    match x.get inode with
    | none => some copied
    | some view =>
      if ofDirectory change && view.kind ≠ .folder then some copied
      else if !copied.1.isEmpty && copied.2 + view.name.utf8ByteSize > invalidationBytes then none
      else some (copied.1 ++ [{
          inode := inode
          parent := view.parent
          name := view.name
          directory := view.kind = .folder
          entry := !ofDirectory change }], copied.2 + view.name.utf8ByteSize)

/-- How far a page has come: what it has copied and what it has examined. -/
structure Examination (α : Type*) where
  copied : List Invalidation × Nat
  examined : List α

/-- The loop of `invalidation_batch` over the ordered index, and whether it went through. The
    number of turns is what the source counts in `visited`. -/
def Mount.examine {α : Type*} (x : Mount) (change : Option MarkKey) (inside : α → Bool)
    (inodeOf : α → Nat) : List α → Examination α → Examination α × Bool
  | [], e => (e, true)
  | a :: rest, e =>
    if !inside a then (e, true)
    else if e.examined.length = invalidationEntries then (e, false)
    else
      match x.push change e.copied (inodeOf a) with
      | none => (e, false)
      | some copied => x.examine change inside inodeOf rest ⟨copied, e.examined ++ [a]⟩

/-- Does the change select the key? -/
def selects (c : MarkKey) (k : Key) : Bool :=
  k.scope = c.scope && (c.kind = .scope || k.item = c.identity)

/-- Where a sweep for a change begins. -/
def lowest (c : MarkKey) : Key := ⟨c.scope, if c.kind = .scope then "" else c.identity, 0⟩

/-- The keys from the cursor on, in order. -/
def Mount.keyRange (x : Mount) (c : MarkKey) (cursor : InvalidationCursor) : List Key :=
  (x.identities.filter fun k => (cursor.key.isNone → lowest c ≤ k) ∧ Past cursor.key k).sort

/-- The inodes from the cursor on, in order. -/
def Mount.inodeRange (x : Mount) (cursor : InvalidationCursor) : List Nat :=
  (x.inodes.filter fun i => Past cursor.inode i).sort

/-- The examination of the keys a change selects. -/
def Mount.examineKeys (x : Mount) (c : MarkKey) (cursor : InvalidationCursor) :
    Examination Key × Bool :=
  x.examine (some c) (selects c) Key.inode (x.keyRange c cursor) ⟨([], 0), []⟩

/-- The examination of all views. -/
def Mount.examineInodes (x : Mount) (cursor : InvalidationCursor) : Examination Nat × Bool :=
  x.examine none (fun _ => true) id (x.inodeRange cursor) ⟨([], 0), []⟩

/-- `NamespaceViews::invalidation_batch` -/
def Mount.invalidationBatch (x : Mount) (change : Option MarkKey) (cursor : InvalidationCursor) :
    InvalidationBatch :=
  match change with
  | some c =>
    let (e, complete) := x.examineKeys c cursor
    { entries := e.copied.1
      next := { cursor with key := cursorAfter cursor.key e.examined }
      complete := complete }
  | none =>
    let (e, complete) := x.examineInodes cursor
    { entries := e.copied.1
      next := { cursor with inode := cursorAfter cursor.inode e.examined }
      complete := complete }

/-! ## The index is exact -/

/-- The index holds the keys of the resident views, and no others. -/
def Mount.Exact (x : Mount) : Prop := ∀ k, k ∈ x.identities ↔ k ∈ x.keysOf k.inode

theorem Mount.mem_keysOf {x : Mount} {inode : Nat} {k : Key} :
    k ∈ x.keysOf inode ↔ (x.get inode).isSome ∧ k ∈ keys inode (x.projected inode) := by
  unfold keysOf
  split <;> simp_all

theorem Mount.mem_inodes {x : Mount} {inode : Nat} : inode ∈ x.inodes ↔ (x.get inode).isSome := by
  simp only [inodes, List.mem_toFinset, List.mem_map, get, NamespaceViews.get, Option.isSome_map]
  constructor
  · rintro ⟨⟨i, entry⟩, hrow, rfl⟩
    rw [(Table.mem_rows _ _ _).mp hrow]
    rfl
  · intro hsome
    obtain ⟨entry, hentry⟩ := Option.isSome_iff_exists.mp hsome
    exact ⟨(inode, entry), (Table.mem_rows _ _ _).mpr hentry, rfl⟩

theorem Mount.step_world (x : Mount) (e : ViewEvent) :
    (x.step e).world = Views.step x.world e.event := by
  unfold Mount.step
  dsimp only
  split
  · split <;> rfl
  · rfl

/-- Only an insertion makes a view resident. -/
theorem step_within {w : World} (hinv : Inv w) {e : Event}
    (hother : ∀ source inode parent kind name, e ≠ .insert source inode parent kind name) :
    Within w.views (Views.step w e).views := by
  have hrefl : Within w.views w.views := fun i e he => ⟨e, he, rfl, rfl⟩
  cases e with
  | insert source inode parent kind name => exact absurd rfl (hother _ _ _ _ _)
  | acquireLookup inode =>
    simp only [Views.step]
    split <;> exact hrefl
  | forget inode count =>
    have hcases := forget_cases w.views w.memory inode count
    simp only [Views.step]
    generalize w.views.forget w.memory inode count = outcome at hcases ⊢
    obtain ⟨answer, v', m'⟩ := outcome
    cases hcases with
    | ignored => exact hrefl
    | unknown => exact hrefl
    | excess => exact hrefl
    | kept => exact hrefl
    | retired =>
      intro i e he
      simp only [Table.get_erase] at he
      split at he
      · cases he
      · exact ⟨e, he, rfl, rfl⟩
    | listed => exact .of_shape (NamespaceViews.sameShape_queue _ _ _)
  | get inode =>
    simp only [Views.step]
    split <;> exact hrefl
  | clone view => exact hrefl
  | drop view => exact hrefl
  | collect limit => exact collectLoop_within limit _ 0 hinv.sound hinv.listed
  | setCeiling ceiling => exact hrefl
  | shedBatch budget => exact hrefl

theorem Within.isSome {v v' : NamespaceViews} (h : Within v v') {inode : Nat}
    (hsome : (v'.get inode).isSome) : (v.get inode).isSome := by
  simp only [NamespaceViews.get, Option.isSome_map] at hsome ⊢
  obtain ⟨entry, hentry⟩ := Option.isSome_iff_exists.mp hsome
  obtain ⟨entry', hentry', _⟩ := h inode entry hentry
  exact Option.isSome_iff_exists.mpr ⟨entry', hentry'⟩

/-- What leaves the views leaves the index. -/
theorem Mount.Exact.retire {x : Mount} (h : x.Exact) {world : World}
    (hwithin : Within x.world.views world.views) :
    Mount.Exact { x with
      world := world
      identities := x.identities \
        (x.inodes.filter fun i => (world.views.get i).isNone).biUnion x.keysOf } := by
  intro k
  rw [mem_keysOf, Finset.mem_sdiff, Finset.mem_biUnion]
  constructor
  · rintro ⟨hk, hkept⟩
    obtain ⟨hresident, hkey⟩ := mem_keysOf.mp ((h k).mp hk)
    refine ⟨?_, hkey⟩
    by_contra hgone
    apply hkept
    refine ⟨k.inode, ?_, mem_keysOf.mpr ⟨hresident, hkey⟩⟩
    rw [Finset.mem_filter]
    exact ⟨mem_inodes.mpr hresident, by simpa [Mount.get] using hgone⟩
  · rintro ⟨hresident, hkey⟩
    have hbefore : (x.get k.inode).isSome := hwithin.isSome hresident
    refine ⟨(h k).mpr (mem_keysOf.mpr ⟨hbefore, hkey⟩), ?_⟩
    rintro ⟨i, hi, hmem⟩
    -- The key is of the view that stayed.
    have hinode := inode_of_mem_keys (mem_keysOf.mp hmem).2
    obtain ⟨_, hgone⟩ := Finset.mem_filter.mp hi
    rw [← hinode] at hgone
    simp only [Mount.get] at hresident
    simp [Option.isNone_iff_eq_none.mp hgone] at hresident

/-- An insertion replaces the keys of its inode. -/
theorem Mount.Exact.place {x : Mount} (h : x.Exact) {world : World} {view : View}
    {generation : Nat} (hplaced : Placed x.world.views world.views view generation)
    (p : Projected) :
    Mount.Exact {
      world := world
      projected := fun i => if i = view.inode then p else x.projected i
      identities := (x.identities \ x.keysOf view.inode) ∪ keys view.inode p } := by
  have hget : ∀ i, (world.views.get i).isSome = true ↔
      i = view.inode ∨ (x.world.views.get i).isSome = true := by
    intro i
    have hi := hplaced i
    simp only [NamespaceViews.get, Option.isSome_map]
    rw [← Option.isSome_map (f := fun e : Entry => (e.view, e.generation)), hi]
    by_cases heq : i = view.inode
    · simp [heq]
    · simp [heq]
  intro k
  rw [mem_keysOf, Finset.mem_union, Finset.mem_sdiff, h k, mem_keysOf]
  simp only [Mount.get, hget]
  by_cases hk : k.inode = view.inode
  · simp only [hk, if_true, true_or, true_and]
    constructor
    · rintro (⟨hold, hnot⟩ | hnew)
      · exact absurd (mem_keysOf.mpr hold) hnot
      · exact hnew
    · exact .inr
  · have hnew : k ∉ keys view.inode p := fun hmem => hk (inode_of_mem_keys hmem)
    have hold : k ∉ x.keysOf view.inode :=
      fun hmem => hk (inode_of_mem_keys (mem_keysOf.mp hmem).2)
    simp only [hk, if_false, false_or, hnew, or_false, hold, not_false_eq_true, and_true]

/-- One event keeps the index exact. -/
theorem Mount.Exact.step {x : Mount} (h : x.Exact) (hinv : Inv x.world) (e : ViewEvent) :
    (x.step e).Exact := by
  obtain ⟨event, p⟩ := e
  cases event with
  | insert source inode parent kind name =>
    unfold Mount.step
    dsimp only
    cases hinsert : x.world.views.insert
        { x.world.memory with allocated := x.world.memory.allocated + 1 }
        (x.world.input source inode parent kind name) with
    | error error =>
      have hviews : (Views.step x.world (.insert source inode parent kind name)).views =
          x.world.views := by
        simp only [Views.step, hinsert]
      intro k
      rw [mem_keysOf]
      simp only [Mount.get, hviews]
      exact (h k).trans mem_keysOf
    | ok answer =>
      obtain ⟨view, views⟩ := answer
      obtain ⟨generation, hinserted⟩ := insert_spec hinsert
      have hinode : view.inode = inode := hinserted.inode
      have hviews : (Views.step x.world (.insert source inode parent kind name)).views = views := by
        simp only [Views.step, hinsert]
      subst hinode
      exact h.place (hviews ▸ hinserted.placed) p
  | acquireLookup inode => exact h.retire (step_within hinv (by simp))
  | forget inode count => exact h.retire (step_within hinv (by simp))
  | get inode => exact h.retire (step_within hinv (by simp))
  | clone view => exact h.retire (step_within hinv (by simp))
  | drop view => exact h.retire (step_within hinv (by simp))
  | collect limit => exact h.retire (step_within hinv (by simp))
  | setCeiling ceiling => exact h.retire (step_within hinv (by simp))
  | shedBatch budget => exact h.retire (step_within hinv (by simp))

theorem Mount.Exact.create (name : String) (ceiling : Nat) (root : Projected) :
    (Mount.create name ceiling root).Exact := by
  intro k
  rw [mem_keysOf]
  have hget : ((Mount.create name ceiling root).get k.inode).isSome = true ↔ k.inode = 1 := by
    simp only [Mount.create, Mount.get, World.create, NamespaceViews.get, NamespaceViews.setCeiling,
      NamespaceViews.new, Table.get_set, Option.isSome_map]
    split <;> simp_all
  rw [hget]
  constructor
  · intro hk
    have hinode := inode_of_mem_keys hk
    exact ⟨hinode, hinode.symm ▸ hk⟩
  · rintro ⟨hinode, hk⟩
    rw [hinode] at hk
    exact hk

/-- What every event of a mount keeps. -/
structure Mount.Good (x : Mount) : Prop where
  world : Inv x.world
  exact : x.Exact

theorem Mount.Good.step {x : Mount} (h : x.Good) {e : ViewEvent}
    (hpermitted : Permitted x.world e.event) : (x.step e).Good where
  world := by
    rw [step_world]
    exact h.world.step hpermitted
  exact := h.exact.step h.world e

/-- A mount after any events. -/
def Mount.Reachable (x : Mount) : Prop :=
  ∃ name ceiling root events, Run Mount.step (fun x e => Permitted x.world e.event)
    (Mount.create name ceiling root) events x

theorem Mount.Reachable.good {x : Mount} (h : x.Reachable) : x.Good := by
  obtain ⟨name, ceiling, root, events, hrun⟩ := h
  exact hrun.invariant Mount.Good ⟨Inv.create name ceiling, .create name ceiling root⟩
    fun _ _ hgood hpermitted => hgood.step hpermitted

/-! ## One page -/

/-- What the kernel is told about an inode. -/
def Mount.told (x : Mount) (change : Option MarkKey) (inode : Nat) : Option Invalidation :=
  if inode = 1 then none
  else
    (x.get inode).bind fun view =>
      if ofDirectory change && view.kind ≠ .folder then none
      else some {
        inode := inode
        parent := view.parent
        name := view.name
        directory := view.kind = .folder
        entry := !ofDirectory change }

theorem Mount.inode_of_told {x : Mount} {change : Option MarkKey} {inode : Nat} {i : Invalidation}
    (h : x.told change inode = some i) : i.inode = inode := by
  unfold told at h
  split at h
  · cases h
  · obtain ⟨view, _, h⟩ := Option.bind_eq_some_iff.mp h
    split at h
    · cases h
    · cases h
      rfl

/-- `push` copies what there is to tell, or finds the page full. -/
theorem Mount.push_eq_some {x : Mount} {change : Option MarkKey}
    {copied copied' : List Invalidation × Nat} {inode : Nat}
    (h : x.push change copied inode = some copied') :
    copied'.1 = copied.1 ++ (x.told change inode).toList := by
  unfold push at h
  unfold told
  split at h
  · next hroot =>
    cases h
    simp [hroot]
  · next hroot =>
    rw [if_neg hroot]
    cases hview : x.get inode with
    | none =>
      simp only [hview] at h
      cases h
      simp
    | some view =>
      simp only [hview] at h
      split at h
      · next hskipped =>
        cases h
        rw [Option.bind_some, if_pos hskipped]
        simp
      · next hshown =>
        split at h
        · cases h
        · cases h
          rw [Option.bind_some, if_neg hshown]
          rfl

/-- The page is full only when something was copied. -/
theorem Mount.copied_of_push_eq_none {x : Mount} {change : Option MarkKey}
    {copied : List Invalidation × Nat} {inode : Nat} (h : x.push change copied inode = none) :
    copied.1 ≠ [] := by
  unfold push at h
  split at h
  · cases h
  · split at h
    · cases h
    · split at h
      · cases h
      · split at h
        · next hfull =>
          simp only [Bool.and_eq_true, Bool.not_eq_true'] at hfull
          intro hempty
          simp [hempty] at hfull
        · cases h

section

variable {α : Type*} {x : Mount} {change : Option MarkKey} {inside : α → Bool} {inodeOf : α → Nat}

/-- What one examination does. -/
structure Examines (x : Mount) (change : Option MarkKey) (inside : α → Bool) (inodeOf : α → Nat)
    (l : List α) (e e' : Examination α) (complete : Bool) (page rest : List α) : Prop where
  split : l = page ++ rest
  examined : e'.examined = e.examined ++ page
  selected : ∀ a ∈ page, inside a = true
  stopped : complete = true → ∀ a ∈ rest.head?, inside a = false
  progress : complete = false → e'.examined ≠ []
  copied : e'.copied.1 = e.copied.1 ++ page.filterMap fun a => x.told change (inodeOf a)
  bounded : e'.examined.length ≤ invalidationEntries

theorem Mount.examine_spec (l : List α) (e : Examination α)
    (hcopied : e.copied.1 ≠ [] → e.examined ≠ [])
    (hbounded : e.examined.length ≤ invalidationEntries) :
    ∃ page rest, Examines x change inside inodeOf l e (x.examine change inside inodeOf l e).1
      (x.examine change inside inodeOf l e).2 page rest := by
  induction l generalizing e with
  | nil => exact ⟨[], [], rfl, by simp [examine], by simp, by simp, by simp [examine],
      by simp [examine], hbounded⟩
  | cons a l ih =>
    unfold examine
    split
    · next houtside =>
      refine ⟨[], a :: l, rfl, by simp, by simp, ?_, by simp, by simp, hbounded⟩
      intro _ b hb
      cases hb
      simpa using houtside
    · next hinside =>
      split
      · next hfull =>
        refine ⟨[], a :: l, rfl, by simp, by simp, by simp, ?_, by simp, hbounded⟩
        intro _ hempty
        rw [hempty] at hfull
        cases hfull
      · next hroom =>
        cases hpush : x.push change e.copied (inodeOf a) with
        | none =>
          exact ⟨[], a :: l, rfl, by simp, by simp, by simp,
            fun _ => hcopied (copied_of_push_eq_none hpush), by simp, hbounded⟩
        | some copied =>
          obtain ⟨page, rest, h⟩ := ih ⟨copied, e.examined ++ [a]⟩ (by simp)
            (by simp only [List.length_append, List.length_singleton]; omega)
          refine ⟨a :: page, rest, by rw [h.split]; rfl, ?_, ?_, h.stopped, h.progress, ?_,
            h.bounded⟩
          · rw [h.examined, List.append_assoc]
            rfl
          · intro b hb
            rcases List.mem_cons.mp hb with rfl | hb
            · simpa using hinside
            · exact h.selected b hb
          · rw [h.copied, push_eq_some hpush, List.append_assoc, List.filterMap_cons]
            cases x.told change (inodeOf a) <;> rfl

end

theorem Mount.examineKeys_spec (x : Mount) (c : MarkKey) (cursor : InvalidationCursor) :
    ∃ page rest, Examines x (some c) (selects c) Key.inode (x.keyRange c cursor) ⟨([], 0), []⟩
      (x.examineKeys c cursor).1 (x.examineKeys c cursor).2 page rest :=
  x.examine_spec (x.keyRange c cursor) ⟨([], 0), []⟩ (by simp) (by simp)

theorem Mount.examineInodes_spec (x : Mount) (cursor : InvalidationCursor) :
    ∃ page rest, Examines x none (fun _ => true) id (x.inodeRange cursor) ⟨([], 0), []⟩
      (x.examineInodes cursor).1 (x.examineInodes cursor).2 page rest :=
  x.examine_spec (x.inodeRange cursor) ⟨([], 0), []⟩ (by simp) (by simp)

/-! ## The order of the keys -/

/-- Two lexicographic bounds with one first component. -/
theorem lex_between {α β : Type*} [PartialOrder α] [Preorder β] {a a' : α} {b b' b'' : β}
    (hlow : toLex (a, b) ≤ toLex (a', b')) (hhigh : toLex (a', b') ≤ toLex (a, b'')) :
    a' = a ∧ b ≤ b' ∧ b' ≤ b'' := by
  rw [Prod.Lex.toLex_le_toLex] at hlow hhigh
  simp only at hlow hhigh
  rcases hlow with hlt | ⟨rfl, hlow⟩
  · rcases hhigh with hlt' | ⟨rfl, _⟩
    · exact absurd (hlt.trans hlt') (lt_irrefl _)
    · exact absurd hlt (lt_irrefl _)
  · rcases hhigh with hlt' | ⟨_, hhigh⟩
    · exact absurd hlt' (lt_irrefl _)
    · exact ⟨rfl, hlow, hhigh⟩

theorem Key.le_iff {k k' : Key} : k ≤ k' ↔ k.parts ≤ k'.parts := Iff.rfl

theorem selects_iff {c : MarkKey} {k : Key} :
    selects c k = true ↔ k.scope = c.scope ∧ (c.kind = .scope ∨ k.item = c.identity) := by
  simp [selects]

theorem empty_le (item : String) : "" ≤ item := by
  rw [← not_lt, String.lt_iff_toList_lt]
  simp

/-- The sweep begins before every key it selects. -/
theorem lowest_le {c : MarkKey} {k : Key} (h : selects c k = true) : lowest c ≤ k := by
  obtain ⟨hscope, hitem⟩ := selects_iff.mp h
  rw [Key.le_iff]
  simp only [Key.parts, lowest, hscope, Prod.Lex.toLex_le_toLex, lt_self_iff_false, true_and,
    false_or]
  rcases hitem with hkind | hitem
  · rw [if_pos hkind]
    rcases (empty_le k.item).lt_or_eq with hlt | heq
    · exact .inl hlt
    · exact .inr ⟨heq, Nat.zero_le _⟩
  · split
    · rcases (empty_le k.item).lt_or_eq with hlt | heq
      · exact .inl hlt
      · exact .inr ⟨heq, Nat.zero_le _⟩
    · exact .inr ⟨hitem.symm, Nat.zero_le _⟩

/-- The keys that are selected lie together. -/
theorem selects_of_between {c : MarkKey} {k k' : Key} (h : selects c k' = true)
    (hlow : lowest c ≤ k) (hhigh : k ≤ k') : selects c k = true := by
  obtain ⟨hscope, hitem⟩ := selects_iff.mp h
  rw [Key.le_iff] at hlow hhigh
  simp only [Key.parts, lowest] at hlow hhigh
  rw [hscope] at hhigh
  obtain ⟨haccount, hlow, hhigh⟩ := lex_between hlow hhigh
  obtain ⟨hprovider, hlow, hhigh⟩ := lex_between hlow hhigh
  obtain ⟨hcollection, hlow, hhigh⟩ := lex_between hlow hhigh
  have hsame : k.scope = c.scope := by
    cases hk : k.scope
    cases hc : c.scope
    simp_all
  rw [selects_iff]
  refine ⟨hsame, ?_⟩
  by_cases hkind : c.kind = .scope
  · exact .inl hkind
  · have hidentity := hitem.resolve_left hkind
    rw [if_neg hkind] at hlow
    rw [hidentity] at hhigh
    exact .inr (lex_between hlow hhigh).1

/-! ## Pages of a sweep -/

/-- The keys a change selects. -/
def Mount.selected (x : Mount) (c : MarkKey) : Set Key :=
  {k | k ∈ x.identities ∧ selects c k = true}

/-- A page of the selected keys, if the cursor is one of them. -/
theorem Mount.examineKeys_page (x : Mount) (c : MarkKey) (cursor : InvalidationCursor)
    (hcursor : ∀ k ∈ cursor.key, selects c k = true) :
    PageFrom (x.selected c) cursor.key (x.examineKeys c cursor).1.examined
      (x.examineKeys c cursor).2 := by
  obtain ⟨page, rest, h⟩ := x.examineKeys_spec c cursor
  have hexamined : (x.examineKeys c cursor).1.examined = page := h.examined
  have hrange : ∀ k, k ∈ page ++ rest ↔
      k ∈ x.identities ∧ (cursor.key.isNone → lowest c ≤ k) ∧ Past cursor.key k := by
    intro k
    rw [← h.split, keyRange, Finset.mem_sort, Finset.mem_filter]
  have hsorted : (page ++ rest).Pairwise (· < ·) := by
    rw [← h.split]
    exact (Finset.sortedLT_sort _).pairwise
  rw [hexamined]
  apply PageFrom.of_prefix hsorted
  · intro k hk
    obtain ⟨hmem, _, hpast⟩ := (hrange k).mp (List.mem_append_left _ hk)
    exact ⟨⟨hmem, h.selected k hk⟩, hpast⟩
  · rintro k ⟨hmem, hselects⟩ hpast
    exact (hrange k).mpr ⟨hmem, fun _ => lowest_le hselects, hpast⟩
  · rintro hcomplete k hk ⟨hmem, hselects⟩
    -- The first key that was left out is outside, and so it is not between two selected ones.
    cases rest with
    | nil => cases hk
    | cons first rest =>
      have houtside := h.stopped hcomplete first rfl
      obtain ⟨_, hlowest, hpast⟩ := (hrange first).mp (by simp)
      have hlow : lowest c ≤ first := by
        cases hkey : cursor.key with
        | none => exact hlowest (by simp [hkey])
        | some key => exact (lowest_le (hcursor key hkey)).trans (hpast key hkey).le
      have hhigh : first ≤ k := by
        rcases List.mem_cons.mp hk with rfl | hk
        · exact le_rfl
        · have htail := (List.pairwise_append.mp hsorted).2.1
          exact ((List.pairwise_cons.mp htail).1 k hk).le
      rw [selects_of_between hselects hlow hhigh] at houtside
      cases houtside
  · intro hcomplete
    rw [← hexamined]
    exact h.progress hcomplete

/-- A page of all views. -/
theorem Mount.examineInodes_page (x : Mount) (cursor : InvalidationCursor) :
    PageFrom (x.inodes : Set Nat) cursor.inode (x.examineInodes cursor).1.examined
      (x.examineInodes cursor).2 := by
  obtain ⟨page, rest, h⟩ := x.examineInodes_spec cursor
  have hexamined : (x.examineInodes cursor).1.examined = page := h.examined
  have hrange : ∀ i, i ∈ page ++ rest ↔ i ∈ x.inodes ∧ Past cursor.inode i := by
    intro i
    rw [← h.split, inodeRange, Finset.mem_sort, Finset.mem_filter]
  have hsorted : (page ++ rest).Pairwise (· < ·) := by
    rw [← h.split]
    exact (Finset.sortedLT_sort _).pairwise
  rw [hexamined]
  apply PageFrom.of_prefix hsorted
  · intro i hi
    exact (hrange i).mp (List.mem_append_left _ hi)
  · intro i hi hpast
    exact (hrange i).mpr ⟨hi, hpast⟩
  · intro hcomplete i hi
    cases rest with
    | nil => cases hi
    | cons first rest => exact absurd (h.stopped hcomplete first rfl) (by simp)
  · intro hcomplete
    rw [← hexamined]
    exact h.progress hcomplete

/-! ## Sweeps -/

/-- A sweep under way: the views as they are now, the cursor, and the pages so far, each with
    the views and the cursor it was taken from. -/
structure Sweeping where
  mount : Mount
  cursor : InvalidationCursor
  pages : List (Mount × InvalidationCursor)
  complete : Bool

/-- Between two pages anything can happen to the views. -/
inductive SweepEvent where
  | view (e : ViewEvent)
  | page

def Sweeping.start (x : Mount) : Sweeping := ⟨x, .start, [], false⟩

/-- The loop of `invalidate`, with what happens between its turns. -/
def Sweeping.step (change : Option MarkKey) (s : Sweeping) : SweepEvent → Sweeping
  | .view e => { s with mount := s.mount.step e }
  | .page =>
    if s.complete then s
    else
      let batch := s.mount.invalidationBatch change s.cursor
      { s with
        cursor := batch.next
        pages := s.pages ++ [(s.mount, s.cursor)]
        complete := batch.complete }

def Sweeping.Allowed (s : Sweeping) : SweepEvent → Prop
  | .view e => Permitted s.mount.world e.event
  | .page => True

/-- A sweep for a change, from a mount at any time. -/
def Sweeps (change : Option MarkKey) (x : Mount) (s : Sweeping) : Prop :=
  ∃ events, Run (Sweeping.step change) Sweeping.Allowed (Sweeping.start x) events s

theorem Sweeps.start {change : Option MarkKey} (x : Mount) : Sweeps change x (.start x) :=
  ⟨[], .start⟩

theorem Sweeps.page {change : Option MarkKey} {x : Mount} {s : Sweeping} (h : Sweeps change x s) :
    Sweeps change x (s.step change .page) := by
  obtain ⟨events, hrun⟩ := h
  exact ⟨_, hrun.next (show s.Allowed .page from trivial)⟩

theorem Sweeps.view {change : Option MarkKey} {x : Mount} {s : Sweeping} (h : Sweeps change x s)
    {e : ViewEvent} (hpermitted : Permitted s.mount.world e.event) :
    Sweeps change x { s with mount := s.mount.step e } := by
  obtain ⟨events, hrun⟩ := h
  exact ⟨_, hrun.next (show s.Allowed (.view e) from hpermitted)⟩

/-- All that the kernel was told. -/
def Sweeping.returned (change : Option MarkKey) (s : Sweeping) : List Invalidation :=
  s.pages.flatMap fun p => (p.1.invalidationBatch change p.2).entries

/-- The keys that were examined. -/
def Sweeping.keysMet (c : MarkKey) (s : Sweeping) : List Key :=
  s.pages.flatMap fun p => (p.1.examineKeys c p.2).1.examined

/-- The inodes that were examined. -/
def Sweeping.inodesMet (s : Sweeping) : List Nat :=
  s.pages.flatMap fun p => (p.1.examineInodes p.2).1.examined

/-- The cursor of a sweep stays inside. -/
structure KeySweep (c : MarkKey) (s : Sweeping) : Prop where
  sweep : Sweep s.cursor.key (s.pages.map fun p => p.1.selected c) (s.keysMet c) s.complete
  inside : ∀ k ∈ s.cursor.key, selects c k = true

theorem Sweeps.good {change : Option MarkKey} {x : Mount} {s : Sweeping} (hx : x.Good)
    (h : Sweeps change x s) : s.mount.Good ∧ ∀ p ∈ s.pages, p.1.Good := by
  obtain ⟨events, hrun⟩ := h
  apply hrun.invariant (fun s => s.mount.Good ∧ ∀ p ∈ s.pages, p.1.Good) ⟨hx, by simp [Sweeping.start]⟩
  rintro s (e | _) ⟨hgood, hpages⟩ hallowed
  · exact ⟨hgood.step hallowed, hpages⟩
  · unfold Sweeping.step
    dsimp only
    split
    · exact ⟨hgood, hpages⟩
    · refine ⟨hgood, ?_⟩
      intro p hp
      rcases List.mem_append.mp hp with hp | hp
      · exact hpages p hp
      · cases List.mem_singleton.mp hp
        exact hgood

/-- The keys of a sweep are paged through. -/
theorem Sweeps.keySweep {c : MarkKey} {x : Mount} {s : Sweeping} (h : Sweeps (some c) x s) :
    KeySweep c s := by
  obtain ⟨events, hrun⟩ := h
  apply hrun.invariant (KeySweep c) ⟨.start, by simp [Sweeping.start, InvalidationCursor.start]⟩
  rintro s (e | _) ⟨hsweep, hinside⟩ _
  · exact ⟨hsweep, hinside⟩
  · unfold Sweeping.step
    dsimp only
    split
    · exact ⟨hsweep, hinside⟩
    · next hrunning =>
      have hpage := s.mount.examineKeys_page c s.cursor hinside
      rw [Bool.not_eq_true] at hrunning
      rw [hrunning] at hsweep
      refine ⟨?_, ?_⟩
      · have hnext := Sweep.page hsweep hpage
        simpa [Sweeping.keysMet, Mount.invalidationBatch] using hnext
      · intro k hk
        have hk : k ∈ cursorAfter s.cursor.key (s.mount.examineKeys c s.cursor).1.examined := hk
        unfold cursorAfter at hk
        cases hlast : (s.mount.examineKeys c s.cursor).1.examined.getLast? with
        | none =>
          rw [hlast] at hk
          exact hinside k hk
        | some last =>
          rw [hlast] at hk
          cases hk
          exact (hpage.mem _ (List.mem_of_getLast? hlast)).1.2

/-- The inodes of a full sweep are paged through. -/
theorem Sweeps.inodeSweep {x : Mount} {s : Sweeping} (h : Sweeps none x s) :
    Sweep s.cursor.inode (s.pages.map fun p => (p.1.inodes : Set Nat)) s.inodesMet s.complete := by
  obtain ⟨events, hrun⟩ := h
  apply hrun.invariant (fun s => Sweep s.cursor.inode
    (s.pages.map fun p => (p.1.inodes : Set Nat)) s.inodesMet s.complete) .start
  rintro s (e | _) hsweep _
  · exact hsweep
  · unfold Sweeping.step
    dsimp only
    split
    · exact hsweep
    · next hrunning =>
      rw [Bool.not_eq_true] at hrunning
      rw [hrunning] at hsweep
      have hnext := Sweep.page hsweep (s.mount.examineInodes_page s.cursor)
      simpa [Sweeping.inodesMet, Mount.invalidationBatch] using hnext

/-! ## What a sweep returns -/

/-- How often an inode is returned: as often as one of its positions was examined, if there is
    something to tell about it whenever that is. -/
theorem count_told {α : Type*} {change : Option MarkKey} {inode : Nat} {inodeOf : α → Nat}
    {examined : Mount × InvalidationCursor → List α} (pages : List (Mount × InvalidationCursor))
    (htold : ∀ p ∈ pages, (p.1.told change inode).isSome) :
    ((pages.flatMap fun p => (examined p).filterMap fun a => p.1.told change (inodeOf a)).map
        Invalidation.inode).count inode =
      ((pages.flatMap examined).filter fun a => inodeOf a = inode).length := by
  induction pages with
  | nil => rfl
  | cons p pages ih =>
    have hpage : ∀ l : List α, ((l.filterMap fun a => p.1.told change (inodeOf a)).map
        Invalidation.inode).count inode = (l.filter fun a => inodeOf a = inode).length := by
      intro l
      induction l with
      | nil => rfl
      | cons a l ihl =>
        obtain ⟨i, hi⟩ := Option.isSome_iff_exists.mp (htold p List.mem_cons_self)
        by_cases ha : inodeOf a = inode
        · have hsame := Mount.inode_of_told hi
          simp [ha, hi, hsame, ihl]
        · rw [List.filter_cons_of_neg (by simpa using ha), ← ihl, List.filterMap_cons]
          cases hother : p.1.told change (inodeOf a) with
          | none => rfl
          | some j =>
            have hj := Mount.inode_of_told hother
            simp [hj, ha]
    simp only [List.flatMap_cons, List.map_append, List.count_append, List.filter_append,
      List.length_append, hpage, ih fun q hq => htold q (List.mem_cons_of_mem _ hq)]

/-- The view is resident, it is not the root, and the change is about it. -/
def Mount.Matches (x : Mount) (change : Option MarkKey) (inode : Nat) : Prop :=
  inode ≠ 1 ∧ ∃ view, x.get inode = some view ∧
    (ofDirectory change = true → view.kind = .folder) ∧
    ∀ c ∈ change, ∃ k ∈ keys inode (x.projected inode), selects c k = true

/-- The keys of a resident view that a change selects. -/
def Mount.selectedKeys (x : Mount) (c : MarkKey) (inode : Nat) : Finset Key :=
  (x.keysOf inode).filter fun k => selects c k = true

theorem Mount.told_eq_some {x : Mount} {change : Option MarkKey} {inode : Nat} {i : Invalidation} :
    x.told change inode = some i ↔ inode ≠ 1 ∧ ∃ view, x.get inode = some view ∧
      (ofDirectory change = true → view.kind = .folder) ∧
      i = ⟨inode, view.parent, view.name, view.kind = .folder, !ofDirectory change⟩ := by
  unfold told
  split
  · next hroot => simp [hroot]
  · next hroot =>
    simp only [Option.bind_eq_some_iff, Option.ite_none_left_eq_some, Option.some.injEq,
      Bool.and_eq_true, decide_eq_true_eq, not_and, not_not, ne_eq, hroot, not_false_eq_true,
      true_and]
    constructor
    · rintro ⟨view, hview, hfolder, rfl⟩
      exact ⟨view, hview, hfolder, rfl⟩
    · rintro ⟨view, hview, hfolder, rfl⟩
      exact ⟨view, hview, hfolder, rfl⟩

theorem Mount.Matches.told {x : Mount} {change : Option MarkKey} {inode : Nat}
    (h : x.Matches change inode) : (x.told change inode).isSome := by
  obtain ⟨hroot, view, hview, hfolder, _⟩ := h
  exact Option.isSome_iff_exists.mpr ⟨_, told_eq_some.mpr ⟨hroot, view, hview, hfolder, rfl⟩⟩

theorem Mount.Matches.selectedKeys_nonempty {x : Mount} {c : MarkKey} {inode : Nat}
    (h : x.Matches (some c) inode) : (x.selectedKeys c inode).Nonempty := by
  obtain ⟨_, view, hview, _, hkeys⟩ := h
  obtain ⟨k, hk, hselects⟩ := hkeys c rfl
  exact ⟨k, Finset.mem_filter.mpr ⟨mem_keysOf.mpr ⟨by simp [hview], hk⟩, hselects⟩⟩

/-- Outside a scope sweep a view is selected by one key only. -/
theorem Mount.Matches.selectedKeys_eq {x : Mount} {c : MarkKey} {inode : Nat}
    (h : x.Matches (some c) inode) (hkind : c.kind ≠ .scope) :
    x.selectedKeys c inode = {⟨c.scope, c.identity, inode⟩} := by
  have hsame : ∀ k ∈ x.selectedKeys c inode, k = ⟨c.scope, c.identity, inode⟩ := by
    intro k hk
    obtain ⟨hmem, hselects⟩ := Finset.mem_filter.mp hk
    have hinode := inode_of_mem_keys (mem_keysOf.mp hmem).2
    obtain ⟨hscope, hitem⟩ := selects_iff.mp hselects
    rw [← hinode, ← hscope, ← hitem.resolve_left hkind]
  exact Finset.eq_singleton_iff_nonempty_unique_mem.mpr ⟨h.selectedKeys_nonempty, hsame⟩

theorem Mount.Exact.mem_selected {x : Mount} (h : x.Exact) {c : MarkKey} {k : Key} :
    k ∈ x.selected c ↔ k ∈ x.selectedKeys c k.inode := by
  unfold selectedKeys
  rw [Finset.mem_filter, ← h k]
  rfl

namespace Sweeps

variable {change : Option MarkKey} {x : Mount} {s : Sweeping}

/-- A sweep for a change tells what its examinations have found. -/
theorem returned_keys {c : MarkKey} : s.returned (some c) =
    s.pages.flatMap fun p => (p.1.examineKeys c p.2).1.examined.filterMap
      fun k => p.1.told (some c) k.inode := by
  unfold Sweeping.returned
  congr 1
  funext p
  obtain ⟨page, rest, h⟩ := p.1.examineKeys_spec c p.2
  have hexamined : (p.1.examineKeys c p.2).1.examined = page := h.examined
  rw [hexamined]
  exact h.copied

theorem returned_inodes : s.returned none =
    s.pages.flatMap fun p => (p.1.examineInodes p.2).1.examined.filterMap
      fun i => p.1.told none (id i) := by
  unfold Sweeping.returned
  congr 1
  funext p
  obtain ⟨page, rest, h⟩ := p.1.examineInodes_spec p.2
  have hexamined : (p.1.examineInodes p.2).1.examined = page := h.examined
  rw [hexamined]
  exact h.copied

/-- A sweep for a change returns a view that keeps its selected keys once for each of them. -/
theorem count_keys {c : MarkKey} (hx : x.Good) (h : Sweeps (some c) x s)
    (hcomplete : s.complete = true) {inode : Nat} {selected : Finset Key}
    (hmatches : ∀ p ∈ s.pages, p.1.Matches (some c) inode)
    (hkeep : ∀ p ∈ s.pages, p.1.selectedKeys c inode = selected) :
    ((s.returned (some c)).map Invalidation.inode).count inode = selected.card := by
  have hsweep := h.keySweep.sweep
  rw [hcomplete] at hsweep
  have hgood := (h.good hx).2
  rw [returned_keys, count_told s.pages fun p hp => (hmatches p hp).told]
  -- What was met of the view is what stayed selected.
  have hmem : ∀ k, k ∈ (s.keysMet c).filter (fun k => k.inode = inode) ↔ k ∈ selected := by
    intro k
    rw [List.mem_filter, decide_eq_true_eq]
    constructor
    · rintro ⟨hmet, rfl⟩
      obtain ⟨set, hset, hk⟩ := hsweep.mem_sets hmet
      obtain ⟨p, hp, rfl⟩ := List.mem_map.mp hset
      rw [← hkeep p hp]
      exact (hgood p hp).exact.mem_selected.mp hk
    · intro hk
      have hpages : s.pages ≠ [] := by
        intro hempty
        exact hsweep.sets_ne_nil (by rw [hempty, List.map_nil])
      obtain ⟨p, hp⟩ := List.exists_mem_of_ne_nil _ hpages
      have hinode : k.inode = inode := by
        rw [← hkeep p hp] at hk
        exact inode_of_mem_keys (Mount.mem_keysOf.mp (Finset.mem_filter.mp hk).1).2
      refine ⟨?_, hinode⟩
      have hall : ∀ set ∈ s.pages.map (fun p => p.1.selected c), k ∈ set := by
        intro set hset
        obtain ⟨q, hq, rfl⟩ := List.mem_map.mp hset
        apply (hgood q hq).exact.mem_selected.mpr
        rw [hinode, hkeep q hq]
        exact hk
      exact List.count_pos_iff.mp (by rw [hsweep.count_eq_one hall]; exact Nat.one_pos)
  have hnodup : ((s.keysMet c).filter fun k => k.inode = inode).Nodup := hsweep.nodup.filter _
  rw [show (s.pages.flatMap fun p => (p.1.examineKeys c p.2).1.examined) = s.keysMet c from rfl,
    ← List.toFinset_card_of_nodup hnodup]
  congr 1
  ext k
  rw [List.mem_toFinset, hmem]

/-- A full sweep returns a view that stays once. -/
theorem count_inodes (h : Sweeps none x s) (hcomplete : s.complete = true) {inode : Nat}
    (hmatches : ∀ p ∈ s.pages, p.1.Matches none inode) :
    ((s.returned none).map Invalidation.inode).count inode = 1 := by
  have hsweep := h.inodeSweep
  rw [hcomplete] at hsweep
  rw [returned_inodes, count_told s.pages fun p hp => (hmatches p hp).told]
  have hall : ∀ set ∈ s.pages.map (fun p => (p.1.inodes : Set Nat)), inode ∈ set := by
    intro set hset
    obtain ⟨p, hp, rfl⟩ := List.mem_map.mp hset
    obtain ⟨_, view, hview, _⟩ := hmatches p hp
    exact Mount.mem_inodes.mpr (by simp [hview])
  rw [← hsweep.count_eq_one hall, List.count_eq_length_filter]
  rfl

/-- What is returned was resident and selected at one of the pages. -/
theorem matches_of_returned (hx : x.Good) (h : Sweeps change x s) {i : Invalidation}
    (hi : i ∈ s.returned change) : ∃ p ∈ s.pages, p.1.Matches change i.inode ∧
      ∃ view, p.1.get i.inode = some view ∧ i.parent = view.parent ∧ i.name = view.name := by
  -- A page copies what is told of an inode that it selects.
  have hselected : ∃ p ∈ s.pages, ∃ inode, p.1.told change inode = some i ∧
      ∀ c ∈ change, (p.1.selectedKeys c inode).Nonempty := by
    cases change with
    | none =>
      rw [returned_inodes] at hi
      obtain ⟨p, hp, hi⟩ := List.mem_flatMap.mp hi
      obtain ⟨inode, _, htold⟩ := List.mem_filterMap.mp hi
      exact ⟨p, hp, inode, htold, by simp⟩
    | some c =>
      have hgood := (h.good hx).2
      rw [returned_keys] at hi
      obtain ⟨p, hp, hi⟩ := List.mem_flatMap.mp hi
      obtain ⟨k, hk, htold⟩ := List.mem_filterMap.mp hi
      refine ⟨p, hp, k.inode, htold, ?_⟩
      intro c' hc'
      cases hc'
      obtain ⟨page, rest, hexamines⟩ := p.1.examineKeys_spec c p.2
      have hexamined : (p.1.examineKeys c p.2).1.examined = page := hexamines.examined
      rw [hexamined] at hk
      have hrange : k ∈ p.1.keyRange c p.2 := hexamines.split ▸ List.mem_append_left _ hk
      rw [Mount.keyRange, Finset.mem_sort, Finset.mem_filter] at hrange
      exact ⟨k, (hgood p hp).exact.mem_selected.mp ⟨hrange.1, hexamines.selected k hk⟩⟩
  obtain ⟨p, hp, inode, htold, hkeys⟩ := hselected
  obtain ⟨hroot, view, hview, hfolder, rfl⟩ := Mount.told_eq_some.mp htold
  refine ⟨p, hp, ⟨hroot, view, hview, hfolder, ?_⟩, view, hview, rfl, rfl⟩
  intro c hc
  obtain ⟨k, hk⟩ := hkeys c hc
  obtain ⟨hmem, hselects⟩ := Finset.mem_filter.mp hk
  exact ⟨k, (Mount.mem_keysOf.mp hmem).2, hselects⟩

/-- How many positions a sweep can find in an index. -/
def positions (change : Option MarkKey) (x : Mount) : Nat :=
  match change with
  | some _ => x.identities.card
  | none => x.inodes.card

/-- A sweep that finds nothing but what it began with is over after as many pages as there are
    positions, and one more. -/
theorem length_le (h : Sweeps change x s) (hpages : ∀ p ∈ s.pages,
    p.1.identities ⊆ x.identities ∧ p.1.inodes ⊆ x.inodes) :
    s.pages.length ≤ positions change x + 1 := by
  cases change with
  | none =>
    have hlength := h.inodeSweep.length_le (s := x.inodes) (by
      intro set hset
      obtain ⟨p, hp, rfl⟩ := List.mem_map.mp hset
      exact Finset.coe_subset.mpr (hpages p hp).2)
    rw [List.length_map] at hlength
    exact hlength
  | some c =>
    have hlength := h.keySweep.sweep.length_le (s := x.identities) (by
      intro set hset
      obtain ⟨p, hp, rfl⟩ := List.mem_map.mp hset
      exact fun k hk => (hpages p hp).1 hk.1)
    rw [List.length_map] at hlength
    exact hlength

/-- Pages one after the other, with nothing happening to the views, end the sweep. -/
theorem exists_complete (change : Option MarkKey) (x : Mount) :
    ∃ s, Sweeps change x s ∧ s.complete = true ∧ ∀ p ∈ s.pages, p.1 = x := by
  have hpages : ∀ n, ∃ s, Sweeps change x s ∧ s.mount = x ∧ (∀ p ∈ s.pages, p.1 = x) ∧
      (s.complete = true ∨ s.pages.length = n) := by
    intro n
    induction n with
    | zero => exact ⟨.start x, .start x, rfl, by simp [Sweeping.start], .inr rfl⟩
    | succ n ih =>
      obtain ⟨s, hs, hmount, hall, hprogress⟩ := ih
      rcases hprogress with hcomplete | hlength
      · exact ⟨s, hs, hmount, hall, .inl hcomplete⟩
      · refine ⟨_, hs.page, ?_⟩
        unfold Sweeping.step
        dsimp only
        split
        · next hcomplete => exact ⟨hmount, hall, .inl hcomplete⟩
        · refine ⟨hmount, ?_, .inr (by simp [hlength])⟩
          intro p hp
          rcases List.mem_append.mp hp with hp | hp
          · exact hall p hp
          · cases List.mem_singleton.mp hp
            exact hmount
  obtain ⟨s, hs, _, hall, hprogress⟩ := hpages (positions change x + 2)
  refine ⟨s, hs, ?_, hall⟩
  rcases hprogress with hcomplete | hlength
  · exact hcomplete
  · have hle := hs.length_le fun p hp => by rw [hall p hp]; exact ⟨subset_rfl, subset_rfl⟩
    omega

end Sweeps

/-! ### One page is bounded and goes on -/

/-- How many positions a page examines. -/
def Mount.visited (x : Mount) (change : Option MarkKey) (cursor : InvalidationCursor) : Nat :=
  match change with
  | some c => (x.examineKeys c cursor).1.examined.length
  | none => (x.examineInodes cursor).1.examined.length

/-- The cursor of a sweep has moved on. -/
def InvalidationCursor.MovesOn (change : Option MarkKey) (before after : InvalidationCursor) :
    Prop :=
  match change with
  | some _ => ∃ k, after.key = some k ∧ Past before.key k
  | none => ∃ i, after.inode = some i ∧ Past before.inode i

theorem Mount.visited_le (x : Mount) (change : Option MarkKey) (cursor : InvalidationCursor) :
    x.visited change cursor ≤ 128 := by
  cases change with
  | none =>
    obtain ⟨page, rest, h⟩ := x.examineInodes_spec cursor
    exact h.bounded
  | some c =>
    obtain ⟨page, rest, h⟩ := x.examineKeys_spec c cursor
    exact h.bounded

theorem cursorAfter_past {α : Type*} [LinearOrder α] {cursor : Option α} {page : List α}
    (hne : page ≠ []) (hpast : ∀ a ∈ page, Past cursor a) :
    ∃ a, cursorAfter cursor page = some a ∧ Past cursor a := by
  refine ⟨page.getLast hne, ?_, hpast _ (List.getLast_mem hne)⟩
  rw [cursorAfter, List.getLast?_eq_some_getLast hne]
  rfl

theorem Mount.movesOn (x : Mount) (change : Option MarkKey) (cursor : InvalidationCursor)
    (hcomplete : (x.invalidationBatch change cursor).complete = false) :
    cursor.MovesOn change (x.invalidationBatch change cursor).next := by
  cases change with
  | none =>
    obtain ⟨page, rest, h⟩ := x.examineInodes_spec cursor
    apply cursorAfter_past (h.progress hcomplete)
    intro i hi
    rw [h.examined, List.nil_append] at hi
    have hrange : i ∈ x.inodeRange cursor := by
      rw [h.split]
      exact List.mem_append_left _ hi
    rw [inodeRange, Finset.mem_sort, Finset.mem_filter] at hrange
    exact hrange.2
  | some c =>
    obtain ⟨page, rest, h⟩ := x.examineKeys_spec c cursor
    apply cursorAfter_past (h.progress hcomplete)
    intro k hk
    rw [h.examined, List.nil_append] at hk
    have hrange : k ∈ x.keyRange c cursor := by
      rw [h.split]
      exact List.mem_append_left _ hk
    rw [keyRange, Finset.mem_sort, Finset.mem_filter] at hrange
    exact hrange.2.2

/-! ### The sweep as a whole -/

/-- What holds of a sweep from a mount, whatever happens between its pages. -/
structure SweepCovers (change : Option MarkKey) (x : Mount) (s : Sweeping) : Prop where
  exact : s.mount.Exact ∧ ∀ p ∈ s.pages, p.1.Exact
  /-- Outside a scope sweep a view that matches at every page is returned exactly once. -/
  once : s.complete = true → (∀ c ∈ change, c.kind ≠ .scope) → ∀ inode,
    (∀ p ∈ s.pages, p.1.Matches change inode) →
    ((s.returned change).map Invalidation.inode).count inode = 1
  /-- A scope sweep returns a view that keeps its keys in the scope once for each of them. -/
  each : s.complete = true → ∀ c, change = some c → ∀ inode selected,
    (∀ p ∈ s.pages, p.1.Matches change inode ∧ p.1.selectedKeys c inode = selected) →
    ((s.returned change).map Invalidation.inode).count inode = selected.card ∧
      1 ≤ selected.card ∧ selected.card ≤ 2
  sound : ∀ i ∈ s.returned change, ∃ p ∈ s.pages, p.1.Matches change i.inode ∧
    ∃ view, p.1.get i.inode = some view ∧ i.parent = view.parent ∧ i.name = view.name
  bounded : ∀ p ∈ s.pages, p.1.visited change p.2 ≤ 128 ∧
    ((p.1.invalidationBatch change p.2).complete = false →
      p.2.MovesOn change (p.1.invalidationBatch change p.2).next)
  ends : (∀ p ∈ s.pages, p.1.identities ⊆ x.identities ∧ p.1.inodes ⊆ x.inodes) →
    s.pages.length ≤ Sweeps.positions change x + 1

theorem keys_card_le (inode : Nat) (p : Projected) : (keys inode p).card ≤ 2 := by
  unfold keys
  refine (Finset.card_insert_le _ _).trans ?_
  rw [Nat.add_le_add_iff_right, Option.card_toFinset]
  cases (p.entry.bind fun entry => p.aliasRoute.getLast?.map fun link =>
      ({ scope := { p.scope with collection := link.1 }, item := entry.id, inode := inode } : Key))
  · simp
  · simp

/-- Every sweep for a change, from every mount, covers what stays. -/
theorem invalidation_sweep_covers {x : Mount} (hx : x.Reachable) {change : Option MarkKey}
    {s : Sweeping} (h : Sweeps change x s) : SweepCovers change x s where
  exact := ⟨(h.good hx.good).1.exact, fun p hp => ((h.good hx.good).2 p hp).exact⟩
  once := by
    intro hcomplete hkind inode hmatches
    cases change with
    | none => exact h.count_inodes hcomplete hmatches
    | some c =>
      rw [h.count_keys hx.good hcomplete hmatches
        fun p hp => (hmatches p hp).selectedKeys_eq (hkind c rfl), Finset.card_singleton]
  each := by
    intro hcomplete c hc inode selected hpages
    subst hc
    refine ⟨h.count_keys hx.good hcomplete (fun p hp => (hpages p hp).1)
      (fun p hp => (hpages p hp).2), ?_⟩
    have hsweep := h.keySweep.sweep
    rw [hcomplete] at hsweep
    have hne : s.pages ≠ [] := by
      intro hempty
      exact hsweep.sets_ne_nil (by rw [hempty, List.map_nil])
    obtain ⟨p, hp⟩ := List.exists_mem_of_ne_nil _ hne
    obtain ⟨hmatches, rfl⟩ := hpages p hp
    refine ⟨Finset.card_pos.mpr hmatches.selectedKeys_nonempty, ?_⟩
    refine (Finset.card_filter_le _ _).trans ?_
    unfold Mount.keysOf
    split
    · exact keys_card_le _ _
    · simp
  sound := fun i hi => h.matches_of_returned hx.good hi
  bounded := fun p _ => ⟨p.1.visited_le change p.2, p.1.movesOn change p.2⟩
  ends := h.length_le

/-! ### A view that is returned twice, and one that is missed -/

/-- A collection, for runs on fixed inputs. -/
def sharedScope : Scope := ⟨"account", "provider", "drive"⟩

/-- The whole collection has changed. -/
def wholeScope : MarkKey := ⟨sharedScope, .scope, ""⟩

def emptyMount : Mount :=
  .create "root" 0 ⟨⟨"account", "provider", "root"⟩, "root", [], none⟩

def rootKey : Key := ⟨⟨"account", "provider", "root"⟩, "root", 1⟩

/-- A file resolved under the root. -/
def resolved (inode : Nat) (name : String) (p : Projected) : ViewEvent :=
  ⟨.insert .fresh inode 1 .file name, p⟩

/-- A link to an item of the collection the shortcut is in. -/
def linkedView : Projected where
  scope := sharedScope
  id := "target"
  aliasRoute := [("drive", "link")]
  entry := some ⟨"link", some "top", "link", .shortcut, 0, 0, none, none, none, false⟩

def linkedMount : Mount := emptyMount.step (resolved 2 "link" linkedView)

theorem linkedMount_reachable : linkedMount.Reachable :=
  ⟨_, _, _, _, Run.start.next trivial⟩

/-- Two files with names that do not fit into one page. -/
def twoFiles (name : String) : Mount :=
  (emptyMount.step (resolved 2 name ⟨sharedScope, "a", [], none⟩)).step
    (resolved 3 name ⟨sharedScope, "b", [], none⟩)

theorem twoFiles_reachable (name : String) : (twoFiles name).Reachable :=
  ⟨_, _, _, _, (Run.start.next trivial).next trivial⟩

/-- The second file is shown as another item, which comes before the first. -/
def reshown (name : String) : ViewEvent := resolved 3 name ⟨sharedScope, "0", [], none⟩

/-- The names are no part of the index. -/
theorem identities_twoFiles (name : String) : (twoFiles name).identities =
    {⟨sharedScope, "a", 2⟩, ⟨sharedScope, "b", 3⟩, rootKey} := by
  have hname : (twoFiles name).identities = (twoFiles "").identities := by rfl
  rw [hname]
  decide +kernel

theorem keysOf_twoFiles (name : String) :
    (twoFiles name).keysOf 3 = keys 3 ⟨sharedScope, "b", [], none⟩ := by
  have hresident : ((twoFiles name).get 3).isSome = true := by rfl
  unfold Mount.keysOf
  rw [if_pos hresident]
  rfl

/-- The second file leaves the index under its old item and enters it under the new one. -/
theorem identities_reshown (name : String) : ((twoFiles name).step (reshown name)).identities =
    ((twoFiles name).identities \ (twoFiles name).keysOf 3) ∪
      keys 3 ⟨sharedScope, "0", [], none⟩ := by
  rfl

theorem keyRange_twoFiles (name : String) : (twoFiles name).keyRange wholeScope .start =
    [⟨sharedScope, "a", 2⟩, ⟨sharedScope, "b", 3⟩, rootKey] := by
  have hkeys : ((twoFiles name).identities.filter fun k =>
      (InvalidationCursor.start.key.isNone → lowest wholeScope ≤ k) ∧
        Past InvalidationCursor.start.key k) =
      {⟨sharedScope, "a", 2⟩, ⟨sharedScope, "b", 3⟩, rootKey} := by
    rw [identities_twoFiles]
    decide +kernel
  unfold Mount.keyRange
  rw [hkeys, Finset.sort_insert, Finset.sort_insert, Finset.sort_singleton]
  · decide +kernel
  · decide +kernel
  · decide +kernel
  · decide +kernel

theorem keyRange_reshown (name : String) :
    ((twoFiles name).step (reshown name)).keyRange wholeScope
      ⟨some ⟨sharedScope, "a", 2⟩, none⟩ = [rootKey] := by
  have hkeys : (((twoFiles name).step (reshown name)).identities.filter fun k =>
      ((⟨some ⟨sharedScope, "a", 2⟩, none⟩ : InvalidationCursor).key.isNone →
        lowest wholeScope ≤ k) ∧ Past (some ⟨sharedScope, "a", 2⟩) k) = {rootKey} := by
    rw [identities_reshown, identities_twoFiles, keysOf_twoFiles]
    decide +kernel
  unfold Mount.keyRange
  rw [hkeys, Finset.sort_singleton]

/-- The first page has no room for the second file. -/
theorem firstPage_twoFiles {name : String} (hname : name.utf8ByteSize = 40000) :
    (twoFiles name).examineKeys wholeScope .start =
      (⟨([⟨2, 1, name, false, true⟩], 40000), [⟨sharedScope, "a", 2⟩]⟩, false) := by
  unfold Mount.examineKeys
  rw [keyRange_twoFiles]
  have hviews : ∃ a b, (twoFiles name).get 2 = some a ∧ a.name = name ∧ a.parent = 1 ∧
      a.kind = .file ∧ (twoFiles name).get 3 = some b ∧ b.name = name :=
    ⟨_, _, rfl, rfl, rfl, rfl, rfl, rfl⟩
  obtain ⟨a, b, ha, haname, haparent, hakind, hb, hbname⟩ := hviews
  have hdirectory : ofDirectory (some wholeScope) = false := rfl
  have hfirst : (twoFiles name).push (some wholeScope) ([], 0) 2 =
      some ([⟨2, 1, name, false, true⟩], 40000) := by
    simp [Mount.push, ha, haname, haparent, hakind, hdirectory, hname]
  have hsecond : (twoFiles name).push (some wholeScope) ([⟨2, 1, name, false, true⟩], 40000) 3 =
      none := by
    simp [Mount.push, hb, hbname, hdirectory, hname, invalidationBytes]
  have hselects : selects wholeScope ⟨sharedScope, "a", 2⟩ = true ∧
      selects wholeScope ⟨sharedScope, "b", 3⟩ = true := ⟨rfl, rfl⟩
  simp [Mount.examine, hselects.1, hselects.2, hfirst, hsecond, invalidationEntries]

theorem lastPage_reshown (name : String) :
    ((twoFiles name).step (reshown name)).examineKeys wholeScope
      ⟨some ⟨sharedScope, "a", 2⟩, none⟩ = (⟨([], 0), []⟩, true) := by
  unfold Mount.examineKeys
  rw [keyRange_reshown]
  rfl

/-- A full page of one name. -/
def longName : String := String.ofList (List.replicate 40000 'x')

theorem longName_size : longName.utf8ByteSize = 40000 := by
  have hsize : ∀ n, (String.ofList (List.replicate n 'x')).utf8ByteSize = n := by
    intro n
    induction n with
    | zero => rfl
    | succ n ih =>
      rw [List.replicate_succ', String.ofList_append, String.utf8ByteSize_append, ih]
      rfl
  exact hsize 40000

/-- Between the two pages of a sweep the second file moves behind the cursor. -/
theorem missed_sweep {name : String} (hname : name.utf8ByteSize = 40000) :
    Sweeps (some wholeScope) (twoFiles name) {
      mount := (twoFiles name).step (reshown name)
      cursor := ⟨some ⟨sharedScope, "a", 2⟩, none⟩
      pages := [(twoFiles name, .start),
        ((twoFiles name).step (reshown name), ⟨some ⟨sharedScope, "a", 2⟩, none⟩)]
      complete := true } := by
  have hfirst : (Sweeping.start (twoFiles name)).step (some wholeScope) .page =
      ⟨twoFiles name, ⟨some ⟨sharedScope, "a", 2⟩, none⟩, [(twoFiles name, .start)], false⟩ := by
    simp only [Sweeping.step, Sweeping.start, Mount.invalidationBatch, firstPage_twoFiles hname]
    rfl
  have hlast : (Sweeping.step (some wholeScope) ⟨(twoFiles name).step (reshown name),
      ⟨some ⟨sharedScope, "a", 2⟩, none⟩, [(twoFiles name, .start)], false⟩ .page) = {
        mount := (twoFiles name).step (reshown name)
        cursor := ⟨some ⟨sharedScope, "a", 2⟩, none⟩
        pages := [(twoFiles name, .start),
          ((twoFiles name).step (reshown name), ⟨some ⟨sharedScope, "a", 2⟩, none⟩)]
        complete := true } := by
    simp only [Sweeping.step, Mount.invalidationBatch, lastPage_reshown]
    rfl
  have hrun : Sweeps (some wholeScope) (twoFiles name) _ := (Sweeps.start (twoFiles name)).page
  rw [hfirst] at hrun
  have hmoved := hrun.view (e := reshown name) trivial
  have hend := hmoved.page
  exact hlast ▸ hend

/-- The sweep that misses the second file has done what is promised of the first. -/
theorem invalidation_sweep_covers_missed : SweepCovers (some wholeScope) (twoFiles longName) {
    mount := (twoFiles longName).step (reshown longName)
    cursor := ⟨some ⟨sharedScope, "a", 2⟩, none⟩
    pages := [(twoFiles longName, .start),
      ((twoFiles longName).step (reshown longName), ⟨some ⟨sharedScope, "a", 2⟩, none⟩)]
    complete := true } :=
  invalidation_sweep_covers (twoFiles_reachable longName) (missed_sweep longName_size)

/-- A scope sweep does not return every view at most once, nor every view at least once. -/
theorem sweep_neither_once :
    (¬ ∀ x : Mount, x.Reachable → ∀ change s, Sweeps change x s → s.complete = true → ∀ inode,
      (∀ p ∈ s.pages, p.1.Matches change inode) →
      ((s.returned change).map Invalidation.inode).count inode ≤ 1) ∧
    ¬ ∀ x : Mount, x.Reachable → ∀ change s, Sweeps change x s → s.complete = true → ∀ inode,
      (∀ p ∈ s.pages, p.1.Matches change inode) →
      1 ≤ ((s.returned change).map Invalidation.inode).count inode := by
  constructor
  · intro hclaim
    -- The link and its target are in one collection.
    obtain ⟨s, hs, hcomplete, hpages⟩ := Sweeps.exists_complete (some wholeScope) linkedMount
    have hmatches : linkedMount.Matches (some wholeScope) 2 := by
      refine ⟨by decide, _, rfl, by simp [ofDirectory, wholeScope], ?_⟩
      intro c hc
      cases hc
      exact ⟨⟨sharedScope, "target", 2⟩, by decide +kernel, rfl⟩
    have hselected : (linkedMount.selectedKeys wholeScope 2).card = 2 := rfl
    have hcount := hs.count_keys linkedMount_reachable.good hcomplete
      (fun p hp => by rw [hpages p hp]; exact hmatches) (fun p hp => by rw [hpages p hp])
    have hle := hclaim _ linkedMount_reachable _ s hs hcomplete 2
      fun p hp => by rw [hpages p hp]; exact hmatches
    omega
  · intro hclaim
    have hs := missed_sweep longName_size
    have hle := hclaim _ (twoFiles_reachable longName) _ _ hs rfl 3 ?_
    · have hnone : ((Sweeping.returned (some wholeScope) {
          mount := (twoFiles longName).step (reshown longName)
          cursor := ⟨some ⟨sharedScope, "a", 2⟩, none⟩
          pages := [(twoFiles longName, .start),
            ((twoFiles longName).step (reshown longName), ⟨some ⟨sharedScope, "a", 2⟩, none⟩)]
          complete := true }).map Invalidation.inode) = [2] := by
        simp only [Sweeping.returned, List.flatMap_cons, List.flatMap_nil, Mount.invalidationBatch,
          firstPage_twoFiles longName_size, lastPage_reshown]
        rfl
      rw [hnone] at hle
      exact absurd hle (by decide)
    · intro p hp
      simp only [List.mem_cons, List.not_mem_nil, or_false] at hp
      rcases hp with rfl | rfl
      · refine ⟨by decide, _, rfl, by simp [ofDirectory, wholeScope], ?_⟩
        intro c hc
        cases hc
        exact ⟨⟨sharedScope, "b", 3⟩, Finset.mem_insert_self _ _, rfl⟩
      · refine ⟨by decide, _, rfl, by simp [ofDirectory, wholeScope], ?_⟩
        intro c hc
        cases hc
        exact ⟨⟨sharedScope, "0", 3⟩, Finset.mem_insert_self _ _, rfl⟩

end Cirrove.Views
