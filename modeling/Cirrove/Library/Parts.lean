import Mathlib.Algebra.Order.Floor.Div
import Mathlib.Data.List.Basic
import Mathlib.Tactic.Ring

/-!
# Transfers in parts

A transfer of `size` bytes goes out in parts of at most `limit` bytes. Parts begin at multiples of
`unit`, and only the one that reaches the end may be no whole number of units.
-/

namespace Cirrove.Library

/-- A part of a transfer. -/
structure IsPart (unit limit size offset length : Nat) : Prop where
  pos : 0 < length
  bound : length ≤ limit
  inside : offset + length ≤ size
  aligned : unit ∣ offset
  whole : offset + length = size ∨ unit ∣ length

/-- What is kept when whole parts arrive one after another. -/
inductive Kept (unit limit size : Nat) : Nat → Prop where
  | nothing : Kept unit limit size 0
  | part {offset length : Nat} (before : Kept unit limit size offset)
      (h : IsPart unit limit size offset length) : Kept unit limit size (offset + length)

/-- The length of the longest part at an offset. -/
def partLength (limit size offset : Nat) : Nat := min (size - offset) limit

/-- The number of parts from an offset on. -/
def partCount (limit size offset : Nat) : Nat := (size - offset) ⌈/⌉ limit

/-- That many parts from an offset on, each as long as it can be. -/
def partsFrom (limit size : Nat) : Nat → Nat → List (Nat × Nat)
  | 0, _ => []
  | n + 1, offset =>
    (offset, partLength limit size offset) ::
      partsFrom limit size n (offset + partLength limit size offset)

section

variable {unit limit size offset : Nat}

theorem isPart_partLength (hunit : unit ∣ limit) (hlimit : 0 < limit) (haligned : unit ∣ offset)
    (hoffset : offset < size) :
    IsPart unit limit size offset (partLength limit size offset) := by
  unfold partLength
  refine ⟨by omega, by omega, by omega, haligned, ?_⟩
  by_cases hlast : size - offset ≤ limit
  · left
    omega
  · right
    rw [Nat.min_eq_right (by omega)]
    exact hunit

/-- What is kept ends between two units, or at the end. -/
theorem Kept.aligned (h : Kept unit limit size offset) :
    offset ≤ size ∧ (offset = size ∨ unit ∣ offset) := by
  induction h with
  | nothing => exact ⟨Nat.zero_le _, .inr (Nat.dvd_zero _)⟩
  | part _ hpart _ =>
    refine ⟨hpart.inside, ?_⟩
    rcases hpart.whole with hend | hwhole
    · exact .inl hend
    · exact .inr (Nat.dvd_add hpart.aligned hwhole)

theorem partCount_eq_zero (h : size ≤ offset) :
    partCount limit size offset = 0 := by
  rw [partCount, Nat.sub_eq_zero_of_le h, zero_ceilDiv]

/-- One part less is left behind a part. -/
theorem partCount_succ (hlimit : 0 < limit) (hoffset : offset < size) :
    partCount limit size offset =
      partCount limit size (offset + partLength limit size offset) + 1 := by
  unfold partCount partLength
  rw [Nat.ceilDiv_eq_add_pred_div, Nat.ceilDiv_eq_add_pred_div]
  by_cases hlast : size - offset ≤ limit
  · rw [Nat.min_eq_left hlast]
    have hnone : (size - (offset + (size - offset)) + limit - 1) / limit = 0 :=
      Nat.div_eq_of_lt (by omega)
    have hone : (size - offset + limit - 1) / limit = 1 :=
      Nat.div_eq_of_lt_le (by omega) (by omega)
    rw [hnone, hone]
  · rw [Nat.min_eq_right (by omega)]
    have hsplit : size - offset + limit - 1 = size - (offset + limit) + limit - 1 + limit := by
      omega
    rw [hsplit, Nat.add_div_right _ hlimit]

/-- A part that is not the last is as long as parts can be. -/
theorem partLength_aligned (hunit : unit ∣ limit) (haligned : unit ∣ offset)
    (hnext : offset + partLength limit size offset < size) :
    unit ∣ offset + partLength limit size offset := by
  have hfull : partLength limit size offset = limit := by
    unfold partLength at hnext ⊢
    omega
  rw [hfull]
  exact Nat.dvd_add haligned hunit

theorem length_partsFrom (n : Nat) : (partsFrom limit size n offset).length = n := by
  induction n generalizing offset with
  | zero => rfl
  | succ n ih => simp [partsFrom, ih]

theorem partsFrom_pos (hlimit : 0 < limit) :
    ∀ part ∈ partsFrom limit size (partCount limit size offset) offset, 0 < part.2 := by
  generalize hn : partCount limit size offset = n
  induction n generalizing offset with
  | zero => simp [partsFrom]
  | succ n ih =>
    have hoffset : offset < size := by
      by_contra hge
      rw [partCount_eq_zero (by omega)] at hn
      omega
    rw [partCount_succ hlimit hoffset] at hn
    intro part hpart
    rcases List.mem_cons.mp hpart with rfl | hrest
    · show 0 < min (size - offset) limit
      omega
    · exact ih (Nat.succ.inj hn) part hrest

/-- The parts lie one behind the other and end where the transfer does. -/
theorem partsFrom_positions (hlimit : 0 < limit) :
    (partsFrom limit size (partCount limit size offset) offset).flatMap
        (fun part => List.range' part.1 part.2) = List.range' offset (size - offset) := by
  generalize hn : partCount limit size offset = n
  induction n generalizing offset with
  | zero =>
    have hend : size ≤ offset := by
      by_contra hlt
      rw [partCount_succ hlimit (by omega)] at hn
      omega
    simp [partsFrom, Nat.sub_eq_zero_of_le hend]
  | succ n ih =>
    have hoffset : offset < size := by
      by_contra hge
      rw [partCount_eq_zero (by omega)] at hn
      omega
    rw [partCount_succ hlimit hoffset] at hn
    rw [partsFrom, List.flatMap_cons, ih (Nat.succ.inj hn)]
    have hinside : partLength limit size offset ≤ size - offset := Nat.min_le_left ..
    have hsplit : size - offset =
        partLength limit size offset + (size - (offset + partLength limit size offset)) := by
      omega
    rw [hsplit, ← List.range'_append_1]

/-- Their bytes are all there is from the offset on. -/
theorem partsFrom_bytes {α : Type*} (hlimit : 0 < limit) (payload : List α)
    (hpayload : payload.length = size) :
    (partsFrom limit size (partCount limit size offset) offset).flatMap
        (fun part => (payload.drop part.1).take part.2) = payload.drop offset := by
  generalize hn : partCount limit size offset = n
  induction n generalizing offset with
  | zero =>
    have hend : size ≤ offset := by
      by_contra hlt
      rw [partCount_succ hlimit (by omega)] at hn
      omega
    simp [partsFrom, List.drop_eq_nil_of_le (hpayload.symm ▸ hend)]
  | succ n ih =>
    have hoffset : offset < size := by
      by_contra hge
      rw [partCount_eq_zero (by omega)] at hn
      omega
    rw [partCount_succ hlimit hoffset] at hn
    rw [partsFrom, List.flatMap_cons, ih (Nat.succ.inj hn), ← List.drop_drop]
    exact List.take_append_drop ..

end

end Cirrove.Library
