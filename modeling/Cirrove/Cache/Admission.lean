import Cirrove.Library.Rows
import Cirrove.Cache.Pins

/-!
# Admitting pins

`Store::pin` asks what the other pins reserve, decides, and inserts: two statements, outside any
transaction. The machine of this module performs the statements of any number of concurrent calls
one by one. The reservations stay within the budget as long as no insert follows a check that
other pins have outgrown (`reservations_bounded`).

Against the budget `Engine::pinnable_budget` computes, pins that are admitted one after the other
leave room for reading exactly in very small and in large caches (`headroom_iff`).
-/

namespace Cirrove.Cache

open Cirrove.Library

namespace PinStore

variable {s : PinStore} {id : PinId}

/-! ## Totals -/

/-- What the other pins reserve. -/
def others (s : PinStore) (id : PinId) : Nat :=
  ((s.pins.rows.filter fun row => row.1 ≠ id).map (·.2.reserved.toNat)).sum

theorem others_le_total (s : PinStore) (id : PinId) : s.others id ≤ s.total := by
  have hperm := List.filter_append_perm (fun row : PinId × PinRow => decide (row.1 ≠ id)) s.pins.rows
  have hsum := (hperm.map fun row => row.2.reserved.toNat).sum_eq
  rw [List.map_append, List.sum_append] at hsum
  unfold others total
  omega

theorem total_insertPin (s : PinStore) (id : PinId) (recursive : Bool) (reserved : UInt64)
    (created : Int) :
    (s.insertPin id recursive reserved created).total = reserved.toNat + s.others id := by
  have hperm := (s.pins.rows_set_perm id
    { recursive, reserved, created := ((s.pins.get id).map (·.created)).getD created }).map
      fun row => row.2.reserved.toNat
  exact hperm.sum_eq

theorem total_deletePin (s : PinStore) (id : PinId) : (s.deletePin id).total = s.others id := by
  have hperm := (s.pins.rows_erase_perm id).map fun row => row.2.reserved.toNat
  exact hperm.sum_eq

@[simp]
theorem total_deleteBlocks (s : PinStore) (id : PinId) : (s.deleteBlocks id).total = s.total := rfl

theorem total_unpin_le (s : PinStore) (id : PinId) : (s.unpin id).1.total ≤ s.total := by
  show ((s.deleteBlocks id).deletePin id).total ≤ s.total
  rw [total_deletePin]
  exact others_le_total s id

theorem total_protectBlocks (s : PinStore) (id : PinId) (keys : List Key) :
    (s.protectBlocks id keys).1.total = s.total := by
  unfold protectBlocks
  split <;> rfl

/-- The signed sum stands for the unsigned one. -/
theorem sum_bmod_emod (l : List Nat) (m : Nat) :
    (l.map fun n : Nat => Int.bmod n m).sum % m = (l.sum : Int) % m := by
  induction l with
  | nil => simp
  | cons n l ih =>
    simp only [List.map_cons, List.sum_cons, Nat.cast_add]
    rw [Int.add_emod, Int.bmod_emod, ih, ← Int.add_emod]

theorem asU64_sum (l : List UInt64) (h : (l.map UInt64.toNat).sum < wordSize) :
    asU64 (l.map asI64).sum = (l.map UInt64.toNat).sum := by
  have hsum := sum_bmod_emod (l.map UInt64.toNat) wordSize
  have hmap : (fun n : Nat => Int.bmod n wordSize) ∘ UInt64.toNat = asI64 := by
    funext n
    rw [Function.comp_apply, asI64]
  rw [List.map_map, hmap] at hsum
  rw [asU64, hsum, ← Int.natCast_emod, Int.toNat_natCast, Nat.mod_eq_of_lt h]

/-- As long as the reservations are an unsigned number, the query finds them. -/
theorem existing_eq_others {existing : Nat} (h : s.existing id = some existing)
    (hbound : s.others id < wordSize) : existing = s.others id := by
  unfold PinStore.existing sumReserved at h
  dsimp only at h
  split at h
  · have hothers : (((s.pins.rows.filter fun row => row.1 ≠ id).map (·.2.reserved)).map
        UInt64.toNat).sum = s.others id := by
      rw [others, List.map_map]
      rfl
    rw [← Option.some.inj h, asU64_sum _ (hothers ▸ hbound), hothers]
  · cases h

/-- Without pins there is nothing to find. -/
theorem existing_empty (id : PinId) : PinStore.empty.existing id = some 0 := rfl

theorem admitPin_eq_ok {existing : Nat} {reserved : UInt64} {budget : Nat} {u : Unit} :
    admitPin existing reserved budget = .ok u ↔ reserved.toNat ≤ budget - existing := by
  unfold admitPin
  dsimp only
  split
  · next h => simpa using h
  · next h => simpa using h

end PinStore

/-! ## Interleaved statements -/

/-- What a pin call asks for. -/
structure PinAsk where
  id : PinId
  recursive : Bool
  reserved : UInt64
  now : Int
  deriving DecidableEq, Repr

/-- Where a call stands: not started, past its check with the insert outstanding, or inside the
    transaction of an unpin with what it has written there. -/
inductive CallPhase where
  | idle
  | admitted (ask : PinAsk) (existing : Nat)
  | begun (id : PinId) (working : PinStore)
  | blocksDeleted (id : PinId) (working : PinStore)
  | pinDeleted (id : PinId) (working : PinStore)

/-- The database, the calls in flight, and the one that holds the write lock. -/
structure PinMachine where
  store : PinStore
  calls : Nat → CallPhase
  writer : Option Nat

/-- One statement of one call. -/
inductive PinStatement where
  /-- The `SELECT` of a pin, with the decision that follows. -/
  | select (call : Nat) (ask : PinAsk)
  | insert (call : Nat)
  /-- The statements of an unpin. -/
  | beginImmediate (call : Nat) (id : PinId)
  | deleteBlocks (call : Nat)
  | deletePins (call : Nat)
  | commit (call : Nat)
  /-- A call ends without an answer. -/
  | fail (call : Nat)

namespace PinMachine

def setCall (m : PinMachine) (call : Nat) (phase : CallPhase) : PinMachine :=
  { m with calls := Function.update m.calls call phase }

/-- The check of a pin: it reads, and on success the insert is what is left to do. -/
def selected (budget : Nat) (m : PinMachine) (call : Nat) (ask : PinAsk) : PinMachine :=
  match m.store.existing ask.id with
  | none => m
  | some existing =>
    match PinStore.admitPin existing ask.reserved budget with
    | .error _ => m
    | .ok () => m.setCall call (.admitted ask existing)

/-- One statement. One that is not the call's next changes nothing. -/
def step (budget : Nat) (m : PinMachine) : PinStatement → PinMachine
  | .select call ask => m.selected budget call ask
  | .insert call =>
    match m.calls call with
    | .admitted ask _ =>
      { m.setCall call .idle with
        store := m.store.insertPin ask.id ask.recursive ask.reserved ask.now }
    | _ => m
  | .beginImmediate call id => { m.setCall call (.begun id m.store) with writer := some call }
  | .deleteBlocks call =>
    match m.calls call with
    | .begun id working => m.setCall call (.blocksDeleted id (working.deleteBlocks id))
    | _ => m
  | .deletePins call =>
    match m.calls call with
    | .blocksDeleted id working => m.setCall call (.pinDeleted id (working.deletePin id))
    | _ => m
  | .commit call =>
    match m.calls call with
    | .pinDeleted _ working => { m.setCall call .idle with store := working, writer := none }
    | _ => m
  | .fail call =>
    { m.setCall call .idle with writer := if m.writer = some call then none else m.writer }

/-- A call starts when it is idle, and writes only while nobody else holds the write lock. -/
def Allowed (m : PinMachine) : PinStatement → Prop
  | .select call _ => m.calls call = .idle
  | .insert _ => m.writer = none
  | .beginImmediate call _ => m.calls call = .idle ∧ m.writer = none
  | .deleteBlocks _ | .deletePins _ | .commit _ | .fail _ => True

/-- An insert follows a check that the other pins have not outgrown. -/
def Current (m : PinMachine) : PinStatement → Prop
  | .insert call => ∀ ask existing, m.calls call = .admitted ask existing →
      m.store.others ask.id ≤ existing
  | _ => True

/-- Nothing is in flight. -/
def atRest (store : PinStore) : PinMachine := { store, calls := fun _ => .idle, writer := none }

variable {budget : Nat} {m : PinMachine}

/-- What a phase promises: an outstanding insert has fitted beside what its check found, and what
    an unpin has written is within the budget. -/
def PhaseBounded (budget : Nat) : CallPhase → Prop
  | .idle => True
  | .admitted ask existing => ask.reserved.toNat ≤ budget - existing
  | .begun _ working | .blocksDeleted _ working | .pinDeleted _ working => working.total ≤ budget

/-- The reservations are within the budget, and every call in flight keeps its promise. -/
structure Bounded (budget : Nat) (m : PinMachine) : Prop where
  store : m.store.total ≤ budget
  calls : ∀ call, PhaseBounded budget (m.calls call)

theorem Bounded.setCall (h : m.Bounded budget) (call : Nat) {phase : CallPhase}
    (hphase : PhaseBounded budget phase) : (m.setCall call phase).Bounded budget := by
  refine ⟨h.store, fun call' => ?_⟩
  show PhaseBounded budget (Function.update m.calls call phase call')
  by_cases hcall : call' = call
  · rw [hcall, Function.update_self]
    exact hphase
  · rw [Function.update_of_ne hcall]
    exact h.calls call'

theorem Bounded.idle (h : m.Bounded budget) (call : Nat) :
    (m.setCall call .idle).Bounded budget := h.setCall call trivial

theorem Bounded.phase (h : m.Bounded budget) {call : Nat} {phase : CallPhase}
    (hcall : m.calls call = phase) : PhaseBounded budget phase := hcall ▸ h.calls call

/-- A check that fits leaves the insert to be done, and any other changes nothing. -/
theorem Bounded.selected (h : m.Bounded budget) (call : Nat) (ask : PinAsk) :
    (m.selected budget call ask).Bounded budget := by
  unfold PinMachine.selected
  split
  · exact h
  · split
    · exact h
    · next hadmit => exact h.setCall call (PinStore.admitPin_eq_ok.mp hadmit)

/-- One statement keeps the reservations within the budget, unless it is an insert after a check
    that other pins have outgrown. -/
theorem Bounded.step (h : m.Bounded budget) {statement : PinStatement}
    (hcurrent : m.Current statement) : (m.step budget statement).Bounded budget := by
  cases statement with
  | select call ask => exact h.selected call ask
  | insert call =>
    simp only [PinMachine.step]
    split
    · next ask existing hcall =>
      have hfits : ask.reserved.toNat ≤ budget - existing := h.phase hcall
      have hothers : m.store.others ask.id ≤ existing := hcurrent ask existing hcall
      have hle := m.store.others_le_total ask.id
      have hstore := h.store
      refine ⟨?_, (h.idle call).calls⟩
      show (m.store.insertPin ask.id ask.recursive ask.reserved ask.now).total ≤ budget
      rw [PinStore.total_insertPin]
      omega
    · exact h
  | beginImmediate call id =>
    have hset : (m.setCall call (.begun id m.store)).Bounded budget := h.setCall call h.store
    exact ⟨hset.store, hset.calls⟩
  | deleteBlocks call =>
    simp only [PinMachine.step]
    split
    · next id working hcall =>
      have hworking : working.total ≤ budget := h.phase hcall
      exact h.setCall call hworking
    · exact h
  | deletePins call =>
    simp only [PinMachine.step]
    split
    · next id working hcall =>
      refine h.setCall call ?_
      show (working.deletePin id).total ≤ budget
      rw [PinStore.total_deletePin]
      exact (working.others_le_total id).trans (h.phase hcall)
    · exact h
  | commit call =>
    simp only [PinMachine.step]
    split
    · next id working hcall => exact ⟨h.phase hcall, (h.idle call).calls⟩
    · exact h
  | fail call => exact ⟨h.store, (h.idle call).calls⟩

theorem atRest_bounded {store : PinStore} (h : store.total ≤ budget) :
    (atRest store).Bounded budget := ⟨h, fun _ => trivial⟩

/-- In every interleaving in which each insert follows a check that the other pins have not
    outgrown, the reservations stay within the budget; and a pin that is refused changes
    nothing. -/
theorem reservations_bounded {budget : UInt64} {store : PinStore}
    (hstore : store.total ≤ budget.toNat) :
    (∀ statements m, Run (step budget.toNat) (fun m e => m.Allowed e ∧ m.Current e)
      (atRest store) statements m → m.store.total ≤ budget.toNat) ∧
    ∀ (m : PinMachine) (call : Nat) (ask : PinAsk) (existing : Nat) (refusal : PinRefusal),
      m.store.existing ask.id = some existing →
      PinStore.admitPin existing ask.reserved budget.toNat = .error refusal →
      m.step budget.toNat (.select call ask) = m := by
  refine ⟨fun statements m hrun => ?_, fun m call ask existing refusal hexisting hrefused => ?_⟩
  · have hbounded := hrun.invariant (Bounded budget.toNat) (atRest_bounded hstore)
      fun m e hm he => hm.step he.2
    exact hbounded.store
  · simp only [step, selected, hexisting, hrefused]

/-! Two pins of a whole budget each, both checked before either is inserted. -/

def wholeAsk (item : String) : PinAsk :=
  { id := ("scope", item), recursive := false, reserved := 1024, now := 0 }

def wholeBudget : UInt64 := 1024

/-- One after the other, the first is kept and the second refused. -/
theorem reservations_bounded_refused :
    ([PinStatement.select 0 (wholeAsk "a"), .insert 0, .select 1 (wholeAsk "b")].foldl
      (step wholeBudget.toNat) (atRest .empty)).store.total ≤ wholeBudget.toNat := by
  have hempty : PinStore.empty.total ≤ wholeBudget.toNat := by decide
  refine (reservations_bounded hempty).1 _ _
    (Run.start.extend ⟨⟨rfl, trivial⟩, ⟨rfl, ?_⟩, ⟨rfl, trivial⟩, trivial⟩)
  rintro ask existing ⟨⟩
  decide

/-- Both are inserted, and reserve twice the budget. -/
theorem reservations_oversubscribed :
    ∃ statements m, Run (step wholeBudget.toNat) Allowed (atRest .empty) statements m ∧
      (atRest .empty).store.total ≤ wholeBudget.toNat ∧
      m.store.total = 2 * wholeBudget.toNat := by
  have hfollows : Run.Follows (step wholeBudget.toNat) Allowed (atRest .empty)
      [.select 0 (wholeAsk "a"), .select 1 (wholeAsk "b"), .insert 0, .insert 1] :=
    ⟨rfl, rfl, rfl, rfl, trivial⟩
  refine ⟨_, _, Run.start.extend hfollows, ?_, ?_⟩
  · decide
  · decide

end PinMachine

/-! ## Room for reading -/

namespace PinStore

variable {s : PinStore} {budget : Nat}

/-- A pin that is checked and inserted at once stays within the budget. -/
theorem total_pin_le (hbudget : budget < wordSize) (h : s.total ≤ budget) (id : PinId)
    (recursive : Bool) (reserved : UInt64) (now : Int) :
    (s.pin id recursive reserved budget now).1.total ≤ budget := by
  unfold pin
  split
  · exact h
  · next existing hexisting =>
    have hothers := s.others_le_total id
    have hexact := existing_eq_others hexisting (by omega)
    split
    · exact h
    · next hadmit =>
      have hfits := admitPin_eq_ok.mp hadmit
      show (s.insertPin id recursive reserved now).total ≤ budget
      rw [total_insertPin]
      omega

theorem total_call_le (hbudget : budget < wordSize) (h : s.total ≤ budget) (c : PinCall) :
    (s.call budget c).total ≤ budget := by
  cases c with
  | pin id recursive reserved now => exact total_pin_le hbudget h id recursive reserved now
  | unpin id => exact (s.total_unpin_le id).trans h
  | protectBlocks id keys =>
    show (s.protectBlocks id keys).1.total ≤ budget
    rw [total_protectBlocks]
    exact h

/-- Pins that are admitted one after the other stay within the budget. -/
theorem total_calls_le (hbudget : budget < wordSize) (h : s.total ≤ budget)
    (calls : List PinCall) : (calls.foldl (call budget) s).total ≤ budget := by
  induction calls generalizing s with
  | nil => exact h
  | cons c calls ih => exact ih (total_call_le hbudget h c)

/-- Without other pins, the whole budget can be pinned. -/
theorem total_pin_whole {reserved : UInt64} (h : reserved.toNat ≤ budget) (id : PinId) :
    (empty.call budget (.pin id false reserved 0)).total = reserved.toNat := by
  have hadmit : admitPin 0 reserved budget = .ok () := admitPin_eq_ok.mpr h
  simp only [call, pin, existing_empty, hadmit]
  rw [total_insertPin]
  rfl

end PinStore

/-- What a cache of some size enforces. -/
theorem quota_newReserving {temporary : String → Bool} {now : Int} {removal : Key → Removal}
    {quota : Nat} {reservations : Reservations} {d : Disk} {c : ContentCache}
    (h : newReserving temporary now removal quota reservations d = some c) :
    c.quota = quota - Staging.capacity quota := by
  unfold newReserving at h
  split at h
  · cases h
  · dsimp only at h
    split at h
    · rw [← Option.some.inj h]
    · cases h

/-- A cache over an empty directory can be built as soon as it holds a block. -/
theorem newReserving_empty {quota : Nat} (h : blockSize + blockDigest ≤ quota)
    (reservations : Reservations) :
    ∃ c, newReserving (fun _ => false) 0 (fun _ => .done) quota reservations
      { index := .empty, files := Table.empty } = some c := by
  have hfinished : ∀ quota, (reconcile (fun _ => false) 0 (fun _ => .done) quota reservations
      { index := .empty, files := Table.empty }).finished = true := fun _ => rfl
  unfold newReserving
  split
  · omega
  · simp only [hfinished, if_true]
    exact ⟨_, rfl⟩

/-- In a very small cache nothing can be pinned, and in a large one a tenth is enough. -/
theorem room_of_size {size reserved : Nat} (hsize : size ≤ 8 * blockSize ∨ 400 * blockSize ≤ size)
    (hreserved : reserved ≤ pinnableBudget size) :
    min (8 * blockSize) (size - Staging.capacity size) ≤
      size - Staging.capacity size - reserved := by
  unfold pinnableBudget at hreserved
  unfold Staging.capacity maxStaging
  unfold blockSize at *
  dsimp only
  split <;> omega

/-- Between the two, the staged windows take from what pins have to leave. -/
theorem no_room_of_size {size : Nat} (hsmall : 8 * blockSize < size)
    (hlarge : size < 400 * blockSize) :
    size - Staging.capacity size - pinnableBudget size <
      min (8 * blockSize) (size - Staging.capacity size) := by
  unfold pinnableBudget Staging.capacity maxStaging
  unfold blockSize at *
  dsimp only
  split <;> omega
/-- Pins that are admitted one after the other leave eight blocks for reading, or all of the quota
    where it is smaller, exactly when the cache has at most 32 MiB or at least 1600 MiB. -/
theorem headroom_iff (cacheBytes : UInt64)
    (hbuild : blockSize + blockDigest ≤ cacheBytes.toNat) :
    (∀ (calls : List PinCall) (temporary : String → Bool) (now : Int) (removal : Key → Removal)
      (reservations : Reservations) (d : Disk) (c : ContentCache),
      newReserving temporary now removal cacheBytes.toNat reservations d = some c →
      min (8 * blockSize) c.quota ≤ c.quota -
        (calls.foldl (PinStore.call (pinnableBudget cacheBytes.toNat)) .empty).total) ↔
      cacheBytes.toNat ≤ 8 * blockSize ∨ 400 * blockSize ≤ cacheBytes.toNat := by
  have hword : cacheBytes.toNat < 2 ^ 64 := cacheBytes.toNat_lt
  have hle : pinnableBudget cacheBytes.toNat ≤ cacheBytes.toNat := Nat.sub_le _ _
  constructor
  · intro hroom
    by_contra hmiddle
    obtain ⟨c, hc⟩ := newReserving_empty hbuild { protectedKeys := [], reserved := 0 }
    have hroom := hroom
      [.pin ("scope", "item") false (UInt64.ofNat (pinnableBudget cacheBytes.toNat)) 0] _ _ _ _ _
      c hc
    have hreserved : (UInt64.ofNat (pinnableBudget cacheBytes.toNat)).toNat =
        pinnableBudget cacheBytes.toNat := by
      exact UInt64.toNat_ofNat_of_lt' (lt_of_le_of_lt hle cacheBytes.toNat_lt)
    simp only [List.foldl_cons, List.foldl_nil] at hroom
    rw [PinStore.total_pin_whole hreserved.le, hreserved, quota_newReserving hc] at hroom
    rw [not_or, not_le, not_le] at hmiddle
    have hless := no_room_of_size hmiddle.1 hmiddle.2
    omega
  · intro hsize calls temporary now removal reservations d c hc
    have hbudget : pinnableBudget cacheBytes.toNat < PinStore.wordSize := lt_of_le_of_lt hle hword
    have hempty : PinStore.empty.total ≤ pinnableBudget cacheBytes.toNat := Nat.zero_le _
    rw [quota_newReserving hc]
    exact room_of_size hsize (PinStore.total_calls_le hbudget hempty calls)

/-- A cache of 2 GiB admits a pin of all that may be pinned, and still leaves eight blocks. -/
theorem headroom_large :
    ∃ c, newReserving (fun _ => false) 0 (fun _ => .done) (2147483648 : UInt64).toNat
        { protectedKeys := [], reserved := 0 } { index := .empty, files := Table.empty } = some c ∧
      ([.pin ("scope", "item") false 1932735284 0].foldl
        (PinStore.call (pinnableBudget (2147483648 : UInt64).toNat)) .empty).total = 1932735284 ∧
      min (8 * blockSize) c.quota ≤ c.quota - ([.pin ("scope", "item") false 1932735284 0].foldl
        (PinStore.call (pinnableBudget (2147483648 : UInt64).toNat)) .empty).total := by
  obtain ⟨c, hc⟩ := newReserving_empty
    (show blockSize + blockDigest ≤ (2147483648 : UInt64).toNat by decide)
    { protectedKeys := [], reserved := 0 }
  -- the whole pinnable budget of such a cache, so the pin is not refused
  have htotal : ([.pin ("scope", "item") false 1932735284 0].foldl
      (PinStore.call (pinnableBudget (2147483648 : UInt64).toNat)) .empty).total = 1932735284 :=
    PinStore.total_pin_whole (by decide) _
  exact ⟨c, hc, htotal,
    (headroom_iff 2147483648 (by decide)).mpr (.inr (by decide)) _ _ _ _ _ _ c hc⟩

/-- In a cache of 64 MiB a pin of 32 MiB is admitted, and leaves 16 MiB of the 48 MiB that are
    enforced. -/
theorem headroom_missing :
    ∃ c, newReserving (fun _ => false) 0 (fun _ => .done) (64 * 1024 * 1024)
        { protectedKeys := [], reserved := 0 } { index := .empty, files := Table.empty } = some c ∧
      c.quota = 48 * 1024 * 1024 ∧
      (PinStore.empty.call (pinnableBudget (64 * 1024 * 1024))
        (.pin ("scope", "item") false (32 * 1024 * 1024) 0)).total = 32 * 1024 * 1024 ∧
      c.quota - (PinStore.empty.call (pinnableBudget (64 * 1024 * 1024))
        (.pin ("scope", "item") false (32 * 1024 * 1024) 0)).total < min (8 * blockSize) c.quota := by
  have hbuild : blockSize + blockDigest ≤ 64 * 1024 * 1024 := by decide
  obtain ⟨c, hc⟩ := newReserving_empty hbuild { protectedKeys := [], reserved := 0 }
  have hquota : c.quota = 48 * 1024 * 1024 := (quota_newReserving hc).trans (by decide)
  have htotal : (PinStore.empty.call (pinnableBudget (64 * 1024 * 1024))
      (.pin ("scope", "item") false (32 * 1024 * 1024) 0)).total = 32 * 1024 * 1024 :=
    PinStore.total_pin_whole (by decide) _
  refine ⟨c, hc, hquota, htotal, ?_⟩
  rw [htotal, hquota]
  decide

end Cirrove.Cache
