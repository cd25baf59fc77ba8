import Cirrove.Cache.Pins

/-!
# Whose blocks are protected

What should be protected is what the pins keep: the union, over the pins there are, of the keys
each was last given. The table `pin_blocks` has one owner for a block, the pin that listed it
last. Protection follows the pins in every state of a run if and only if no call of it releases a
block of its pin that another pin keeps (`protection_follows_iff`).
-/

namespace Cirrove.Cache

open Cirrove.Library

/-- The store, and the keys each pin was last given while it was pinned. -/
structure KeptPins where
  store : PinStore
  kept : PinId → List Key

namespace KeptPins

def start : KeptPins := { store := .empty, kept := fun _ => [] }

def pinned (k : KeptPins) (id : PinId) : Prop := (k.store.pins.get id).isSome = true

instance (k : KeptPins) (id : PinId) : Decidable (k.pinned id) :=
  inferInstanceAs (Decidable (_ = true))

/-- What a call says about the keys of its pin. -/
def keptBy (k : KeptPins) : PinCall → PinId → List Key
  | .pin .. => k.kept
  | .unpin id => Function.update k.kept id []
  | .protectBlocks id keys => if k.pinned id then Function.update k.kept id keys else k.kept

def step (budget : Nat) (k : KeptPins) (call : PinCall) : KeptPins :=
  { store := k.store.call budget call, kept := k.keptBy call }

/-- Exactly the blocks that pins keep are protected. -/
def ProtectionFollows (k : KeptPins) : Prop :=
  ∀ key, key ∈ k.store.protectedBlocks ↔ ∃ id, k.pinned id ∧ key ∈ k.kept id

/-- A call releases none of the blocks its pin owns that another pin keeps. -/
def SparesOthers (k : KeptPins) : PinCall → Prop
  | .pin .. => True
  | .unpin id => ∀ key, k.store.pinBlocks.get key = some id →
      ∀ other, other ≠ id → k.pinned other → key ∉ k.kept other
  | .protectBlocks id keys => ∀ key, k.store.pinBlocks.get key = some id → key ∉ keys →
      ∀ other, other ≠ id → k.pinned other → key ∉ k.kept other

/-- The owner of a block is a pin that keeps it, every block a pin keeps has an owner, and only
    pins keep blocks. -/
structure Owned (k : KeptPins) : Prop where
  owner : ∀ key id, k.store.pinBlocks.get key = some id → k.pinned id ∧ key ∈ k.kept id
  owned : ∀ key id, key ∈ k.kept id → ∃ id', k.store.pinBlocks.get key = some id'
  pinned : ∀ key id, key ∈ k.kept id → k.pinned id

theorem start_owned : start.Owned where
  owner key id h := by cases h
  owned key id h := by cases h
  pinned key id h := by cases h

variable {k : KeptPins} {budget : Nat}

theorem Owned.follows (h : k.Owned) : k.ProtectionFollows := by
  intro key
  rw [PinStore.mem_protectedBlocks]
  constructor
  · rintro ⟨id, hid⟩
    exact ⟨id, h.owner key id hid⟩
  · rintro ⟨id, -, hkey⟩
    exact h.owned key id hkey

/-! ## One call -/

theorem pinned_insertPin {s : PinStore} {id id' : PinId} {recursive : Bool} {reserved : UInt64}
    {now : Int} :
    ((s.insertPin id recursive reserved now).pins.get id').isSome =
      (decide (id' = id) || (s.pins.get id').isSome) := by
  simp only [PinStore.insertPin, Table.get_set]
  by_cases h : id' = id <;> simp [h]

/-- A pin neither protects nor releases anything, and every pin stays one. -/
theorem call_pin (budget : Nat) (s : PinStore) (id : PinId) (recursive : Bool) (reserved : UInt64) (now : Int) :
    (s.call budget (.pin id recursive reserved now)).pinBlocks = s.pinBlocks ∧
      ∀ id', (s.pins.get id').isSome = true →
        ((s.call budget (.pin id recursive reserved now)).pins.get id').isSome = true := by
  simp only [PinStore.call, PinStore.pin]
  split
  · exact ⟨rfl, fun _ h => h⟩
  · split
    · exact ⟨rfl, fun _ h => h⟩
    · refine ⟨rfl, fun id' h => ?_⟩
      rw [pinned_insertPin, h, Bool.or_true]

theorem get_deleteBlocks (s : PinStore) (id : PinId) (key : Key) (owner : PinId) :
    (s.deleteBlocks id).pinBlocks.get key = some owner ↔
      s.pinBlocks.get key = some owner ∧ owner ≠ id := by
  simp [PinStore.deleteBlocks, Table.get_deleteWhere_eq_some_iff]

/-- What an unpin leaves. -/
theorem call_unpin (budget : Nat) (s : PinStore) (id : PinId) :
    (∀ key owner, (s.call budget (.unpin id)).pinBlocks.get key = some owner ↔
      s.pinBlocks.get key = some owner ∧ owner ≠ id) ∧
      ∀ id', (s.call budget (.unpin id)).pins.get id' = if id' = id then none else s.pins.get id' :=
  ⟨fun key owner => get_deleteBlocks s id key owner, fun _ => Table.get_erase _ _ _⟩

/-- What is protected after a pin was given its keys. -/
theorem call_protectBlocks (budget : Nat) {s : PinStore} {id : PinId} (keys : List Key)
    (h : (s.pins.get id).isSome = true) :
    (s.call budget (.protectBlocks id keys)).pins = s.pins ∧
      ∀ key owner, (s.call budget (.protectBlocks id keys)).pinBlocks.get key = some owner ↔
        if key ∈ keys then owner = id else s.pinBlocks.get key = some owner ∧ owner ≠ id := by
  simp only [PinStore.call, PinStore.protectBlocks, h, if_true]
  refine ⟨rfl, fun key owner => ?_⟩
  rw [Table.get_setAll]
  split
  · simp [eq_comm]
  · exact get_deleteBlocks s id key owner

theorem call_protectBlocks_unpinned {s : PinStore} {id : PinId} {keys : List Key}
    (h : ¬ (s.pins.get id).isSome = true) :
    s.call budget (.protectBlocks id keys) = s.deleteBlocks id := by
  simp only [PinStore.call, PinStore.protectBlocks, h]
  rfl

/-- A call that spares the blocks of other pins keeps the owners right. -/
theorem Owned.step (h : k.Owned) (budget : Nat) {call : PinCall} (hspares : k.SparesOthers call) :
    (k.step budget call).Owned := by
  cases call with
  | pin id recursive reserved now =>
    obtain ⟨hblocks, hpins⟩ := call_pin budget k.store id recursive reserved now
    refine ⟨?_, ?_, fun key id' hkey => hpins id' (h.pinned key id' hkey)⟩
    · intro key id' hkey
      rw [KeptPins.step, hblocks] at hkey
      obtain ⟨hpinned, hkept⟩ := h.owner key id' hkey
      exact ⟨hpins id' hpinned, hkept⟩
    · intro key id' hkey
      obtain ⟨owner, howner⟩ := h.owned key id' hkey
      exact ⟨owner, by rw [KeptPins.step, hblocks]; exact howner⟩
  | unpin id =>
    obtain ⟨hblocks, hpins⟩ := call_unpin budget k.store id
    have hpinned : ∀ id', id' ≠ id → k.pinned id' → (k.step budget (.unpin id)).pinned id' := by
      intro id' hne hid'
      show ((k.store.call budget (.unpin id)).pins.get id').isSome = true
      rw [hpins, if_neg hne]
      exact hid'
    have hkept : ∀ key id', key ∈ (k.step budget (.unpin id)).kept id' →
        id' ≠ id ∧ key ∈ k.kept id' := by
      intro key id' hkey
      by_cases hid : id' = id
      · simp [KeptPins.step, keptBy, hid] at hkey
      · simpa [KeptPins.step, keptBy, hid] using hkey
    refine ⟨?_, ?_, ?_⟩
    · intro key owner howner
      obtain ⟨hbefore, hne⟩ := (hblocks key owner).mp howner
      obtain ⟨hid, hkey⟩ := h.owner key owner hbefore
      refine ⟨hpinned owner hne hid, ?_⟩
      simpa [KeptPins.step, keptBy, hne] using hkey
    · intro key id' hafter
      obtain ⟨hne, hkey⟩ := hkept key id' hafter
      obtain ⟨owner, howner⟩ := h.owned key id' hkey
      -- the owner is not the pin that goes, as that one owns nothing another keeps
      have hother : owner ≠ id := by
        intro heq
        exact hspares key (heq ▸ howner) id' hne (h.pinned key id' hkey) hkey
      exact ⟨owner, (hblocks key owner).mpr ⟨howner, hother⟩⟩
    · intro key id' hkey
      obtain ⟨hne, hkey⟩ := hkept key id' hkey
      exact hpinned id' hne (h.pinned key id' hkey)
  | protectBlocks id keys =>
    by_cases hid : k.pinned id
    · obtain ⟨hpins, hblocks⟩ := call_protectBlocks budget keys hid
      have hpinned : ∀ id', (k.step budget (.protectBlocks id keys)).pinned id' ↔ k.pinned id' := by
        intro id'
        show ((k.store.call budget (.protectBlocks id keys)).pins.get id').isSome = true ↔ _
        rw [hpins]
        rfl
      have hkept : (k.step budget (.protectBlocks id keys)).kept =
          Function.update k.kept id keys := by
        simp only [KeptPins.step, keptBy, hid, if_true]
      refine ⟨?_, ?_, ?_⟩
      · intro key owner howner
        rw [hpinned, hkept]
        have howner := (hblocks key owner).mp howner
        split at howner
        · next hmem =>
          rw [howner, Function.update_self]
          exact ⟨hid, hmem⟩
        · rw [Function.update_of_ne howner.2]
          exact h.owner key owner howner.1
      · intro key id' hkey
        rw [hkept] at hkey
        by_cases hmem : key ∈ keys
        · exact ⟨id, (hblocks key id).mpr (by simp [hmem])⟩
        · have hne : id' ≠ id := by
            rintro rfl
            rw [Function.update_self] at hkey
            exact hmem hkey
          rw [Function.update_of_ne hne] at hkey
          obtain ⟨owner, howner⟩ := h.owned key id' hkey
          have hother : owner ≠ id := by
            rintro rfl
            exact hspares key howner hmem id' hne (h.pinned key id' hkey) hkey
          exact ⟨owner, (hblocks key owner).mpr (by simp [hmem, howner, hother])⟩
      · intro key id' hkey
        rw [hpinned]
        rw [hkept] at hkey
        by_cases hne : id' = id
        · rw [hne]
          exact hid
        · rw [Function.update_of_ne hne] at hkey
          exact h.pinned key id' hkey
    · -- nothing is protected, and the item owned nothing
      have hstep : k.step budget (.protectBlocks id keys) =
          { store := k.store.deleteBlocks id, kept := k.kept } := by
        rw [KeptPins.step, call_protectBlocks_unpinned hid]
        simp only [keptBy, hid, if_false]
      have hblocks : ∀ key owner, (k.store.deleteBlocks id).pinBlocks.get key = some owner ↔
          k.store.pinBlocks.get key = some owner := by
        intro key owner
        rw [get_deleteBlocks, and_iff_left_iff_imp]
        rintro howner rfl
        exact hid (h.owner key owner howner).1
      rw [hstep]
      refine ⟨fun key owner howner => h.owner key owner ((hblocks key owner).mp howner), ?_,
        h.pinned⟩
      intro key id' hkey
      obtain ⟨owner, howner⟩ := h.owned key id' hkey
      exact ⟨owner, (hblocks key owner).mpr howner⟩

/-! ## Runs -/

/-- A call that releases a block another pin keeps leaves it unprotected. -/
theorem Owned.not_follows (h : k.Owned) {call : PinCall} (hspares : ¬ k.SparesOthers call) :
    ¬ (k.step budget call).ProtectionFollows := by
  intro hfollows
  cases call with
  | pin id recursive reserved now => exact hspares trivial
  | unpin id =>
    simp only [SparesOthers, not_forall, not_not] at hspares
    obtain ⟨key, howner, other, hne, hother, hkey⟩ := hspares
    obtain ⟨hblocks, hpins⟩ := call_unpin budget k.store id
    have hkept : ∃ id', (k.step budget (.unpin id)).pinned id' ∧
        key ∈ (k.step budget (.unpin id)).kept id' := by
      refine ⟨other, ?_, ?_⟩
      · show ((k.store.call budget (.unpin id)).pins.get other).isSome = true
        rw [hpins, if_neg hne]
        exact hother
      · simpa [KeptPins.step, keptBy, hne] using hkey
    obtain ⟨owner, howner'⟩ := PinStore.mem_protectedBlocks.mp ((hfollows key).mpr hkept)
    obtain ⟨hbefore, hne'⟩ := (hblocks key owner).mp howner'
    exact hne' (Option.some.inj (hbefore.symm.trans howner))
  | protectBlocks id keys =>
    simp only [SparesOthers, not_forall, not_not] at hspares
    obtain ⟨key, howner, hmem, other, hne, hother, hkey⟩ := hspares
    have hid : k.pinned id := (h.owner key id howner).1
    obtain ⟨hpins, hblocks⟩ := call_protectBlocks budget keys hid
    have hkept : ∃ id', (k.step budget (.protectBlocks id keys)).pinned id' ∧
        key ∈ (k.step budget (.protectBlocks id keys)).kept id' := by
      refine ⟨other, ?_, ?_⟩
      · show ((k.store.call budget (.protectBlocks id keys)).pins.get other).isSome = true
        rw [hpins]
        exact hother
      · simpa [KeptPins.step, keptBy, hid, hne] using hkey
    obtain ⟨owner, howner'⟩ := PinStore.mem_protectedBlocks.mp ((hfollows key).mpr hkept)
    have hbefore := (hblocks key owner).mp howner'
    rw [if_neg hmem] at hbefore
    exact hbefore.2 (Option.some.inj (hbefore.1.symm.trans howner))

theorem follows_iff_of_owned (h : k.Owned) (calls : List PinCall) :
    (∀ before after, calls = before ++ after →
      (before.foldl (step budget) k).ProtectionFollows) ↔
      Run.Follows (step budget) SparesOthers k calls := by
  induction calls generalizing k with
  | nil =>
    refine iff_of_true (fun before after hsplit => ?_) trivial
    rw [(List.append_eq_nil_iff.mp hsplit.symm).1]
    exact h.follows
  | cons call calls ih =>
    by_cases hspares : k.SparesOthers call
    · have hih := ih (h.step budget hspares)
      constructor
      · intro hall
        refine ⟨hspares, hih.mp fun before after hsplit => ?_⟩
        exact hall (call :: before) after (by rw [hsplit]; rfl)
      · rintro ⟨-, hrest⟩ before after hsplit
        cases before with
        | nil => exact h.follows
        | cons c before =>
          obtain ⟨hcall, hcalls⟩ := List.cons.inj hsplit
          subst hcall
          exact hih.mpr hrest before after hcalls
    · refine iff_of_false (fun hall => ?_) fun hrest => hspares hrest.1
      exact h.not_follows hspares (hall [call] calls rfl)

/-- Protection follows the pins in every state of a run exactly when no call of it releases a
    block of its pin that another pin keeps. -/
theorem protection_follows_iff (budget : Nat) (calls : List PinCall) :
    (∀ before after, calls = before ++ after →
      (before.foldl (step budget) start).ProtectionFollows) ↔
      Run.Follows (step budget) SparesOthers start calls :=
  follows_iff_of_owned start_owned calls

/-! A folder and a file in it are pinned, and share a block. -/

def folderPin : PinId := ("scope", "folder")
def filePin : PinId := ("scope", "file")

/-- Releasing the file leaves the block of the folder unprotected. -/
theorem shared_block_released :
    ¬ (([PinCall.pin folderPin true 4194336 0, .protectBlocks folderPin ["block"],
      .pin filePin false 4194336 1, .protectBlocks filePin ["block"], .unpin filePin].foldl
        (step (64 * 1024 * 1024)) start).ProtectionFollows) := by
  intro hfollows
  have hkept := (hfollows "block").mpr ⟨folderPin, by decide, by decide⟩
  exact absurd hkept (by decide)

end KeptPins

end Cirrove.Cache
