import Mathlib.Data.Int.ModEq
import Mathlib.Algebra.BigOperators.Group.List.Basic
import Cirrove.Library.Runs
import Cirrove.Cache.Content

/-!
# What the user asked to keep

`cirrove-store/src/pins.rs`: a pin is a row with the bytes it reserves, and `pin_blocks` says
which pin protects a block. A block has one row there, so it has one owner, whichever pins list
it.

Reservations are unsigned in the program and signed in the database. A sum that leaves the signed
range fails the query, and any other is read back modulo `2 ^ 64`.
-/

namespace Cirrove.Cache

open Cirrove.Library

/-- A pinned item: its scope as text, and its identity. -/
abbrev PinId := String × String

/-- A row of `pins`, beside its key. -/
structure PinRow where
  recursive : Bool
  reserved : UInt64
  created : Int
  deriving DecidableEq, Repr

/-- What a caller learns of a pin. -/
structure Pin where
  scope : String
  item : String
  recursive : Bool
  reserved : UInt64
  created : Int
  deriving DecidableEq, Repr

inductive PinRefusal where
  | wouldExceedBudget (requested available : Nat)
  deriving DecidableEq, Repr

/-- The two tables. -/
structure PinStore where
  pins : Table PinId PinRow
  pinBlocks : Table Key PinId

namespace PinStore

def empty : PinStore := { pins := Table.empty, pinBlocks := Table.empty }

/-! ## Sums of a signed column -/

/-- How many numbers a word holds. -/
def wordSize : Nat := 2 ^ 64

/-- An unsigned number as the database stores it. -/
def asI64 (n : UInt64) : Int := Int.bmod n.toNat wordSize

/-- A number of the database as the program reads it. -/
def asU64 (i : Int) : Nat := (i % wordSize).toNat

/-- `COALESCE(SUM(..), 0)`, which fails when the sum is not a signed 64-bit number. -/
def sumReserved (reserved : List UInt64) : Option Nat :=
  let sum := (reserved.map asI64).sum
  if -2 ^ 63 ≤ sum ∧ sum < 2 ^ 63 then some (asU64 sum) else none

def reservedBytes (s : PinStore) : Option Nat := sumReserved (s.pins.rows.map (·.2.reserved))

/-- The reservations of all pins but one. -/
def existing (s : PinStore) (id : PinId) : Option Nat :=
  sumReserved ((s.pins.rows.filter fun row => row.1 ≠ id).map (·.2.reserved))

/-! ## The calls -/

/-- Whether a reservation fits beside what the others hold. -/
def admitPin (existing : Nat) (reserved : UInt64) (budget : Nat) : Except PinRefusal Unit :=
  let available := budget - existing
  if available < reserved.toNat then .error (.wouldExceedBudget reserved.toNat available)
  else .ok ()

/-- Insert a pin, or replace its mode and its reservation. -/
def insertPin (s : PinStore) (id : PinId) (recursive : Bool) (reserved : UInt64) (created : Int) :
    PinStore :=
  let row : PinRow :=
    { recursive, reserved, created := ((s.pins.get id).map (·.created)).getD created }
  { s with pins := s.pins.set id row }

/-- Record a pin, refusing one the budget cannot hold. There is no answer when the database
    fails. -/
def pin (s : PinStore) (id : PinId) (recursive : Bool) (reserved : UInt64) (budget : Nat)
    (now : Int) : PinStore × Option (Except PinRefusal Pin) :=
  match s.existing id with
  | none => (s, none)
  | some existing =>
    match admitPin existing reserved budget with
    | .error refusal => (s, some (.error refusal))
    | .ok () =>
      (s.insertPin id recursive reserved now,
        some (.ok { scope := id.1, item := id.2, recursive, reserved, created := now }))

/-- Release the blocks a pin protects. -/
def deleteBlocks (s : PinStore) (id : PinId) : PinStore :=
  { s with pinBlocks := s.pinBlocks.deleteWhere fun _ owner => owner = id }

def deletePin (s : PinStore) (id : PinId) : PinStore := { s with pins := s.pins.erase id }

/-- Remove a pin and release its blocks, in one transaction. Tells whether there was one. -/
def unpin (s : PinStore) (id : PinId) : PinStore × Bool :=
  ((s.deleteBlocks id).deletePin id, (s.pins.get id).isSome)

/-- Protect the blocks a pin keeps, in one transaction. Nothing is protected for an item that is
    not pinned. -/
def protectBlocks (s : PinStore) (id : PinId) (keys : List Key) : PinStore × Bool :=
  if (s.pins.get id).isSome then
    ({ s.deleteBlocks id with pinBlocks := (s.deleteBlocks id).pinBlocks.setAll keys id }, true)
  else (s.deleteBlocks id, false)

/-- Every block eviction must leave alone. -/
def protectedBlocks (s : PinStore) : List Key := s.pinBlocks.rows.map Prod.fst

/-- What pins reserve in all. -/
def total (s : PinStore) : Nat := (s.pins.rows.map (·.2.reserved.toNat)).sum

theorem mem_protectedBlocks {s : PinStore} {key : Key} :
    key ∈ s.protectedBlocks ↔ ∃ owner, s.pinBlocks.get key = some owner := by
  simp only [protectedBlocks, List.mem_map, Prod.exists, Table.mem_rows, exists_and_right,
    exists_eq_right]

end PinStore

/-! ## Calls one after the other -/

/-- A call of the store. -/
inductive PinCall where
  | pin (id : PinId) (recursive : Bool) (reserved : UInt64) (now : Int)
  | unpin (id : PinId)
  | protectBlocks (id : PinId) (keys : List Key)
  deriving DecidableEq, Repr

/-- One call, where every pin is measured against the same budget. -/
def PinStore.call (budget : Nat) (s : PinStore) : PinCall → PinStore
  | .pin id recursive reserved now => (s.pin id recursive reserved budget now).1
  | .unpin id => (s.unpin id).1
  | .protectBlocks id keys => (s.protectBlocks id keys).1

end Cirrove.Cache
