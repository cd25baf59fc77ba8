import Mathlib.Algebra.GroupWithZero.Nat
import Mathlib.Data.List.Basic
import Mathlib.Data.String.Basic

/-!
# The length of a text in bytes
-/

namespace Cirrove.Library

/-- The length of a text in bytes. -/
def utf8Length (text : List Char) : Nat := (text.map Char.utf8Size).sum

@[simp]
theorem utf8Length_nil : utf8Length [] = 0 := rfl

@[simp]
theorem utf8Length_cons (c : Char) (text : List Char) :
    utf8Length (c :: text) = c.utf8Size + utf8Length text := rfl

@[simp]
theorem utf8Length_append (first second : List Char) :
    utf8Length (first ++ second) = utf8Length first + utf8Length second := by
  simp [utf8Length]

theorem utf8Length_replicate (n : Nat) (c : Char) :
    utf8Length (List.replicate n c) = n * c.utf8Size := by
  induction n with
  | zero => simp
  | succ n ih =>
    rw [List.replicate_succ, utf8Length_cons, ih, Nat.succ_mul, Nat.add_comm]

theorem utf8ByteSize_ofList (text : List Char) :
    (String.ofList text).utf8ByteSize = utf8Length text := by
  induction text with
  | nil => rfl
  | cons c text ih =>
    have hcons : String.ofList (c :: text) = String.singleton c ++ String.ofList text := by
      apply String.toList_inj.mp
      simp
    rw [hcons, String.utf8ByteSize_append, ih, String.utf8ByteSize_singleton, utf8Length_cons]

theorem utf8ByteSize_eq (text : String) : text.utf8ByteSize = utf8Length text.toList := by
  rw [← utf8ByteSize_ofList, String.ofList_toList]

/-- A text is at least as long in bytes as in characters. -/
theorem length_le_utf8Length (text : List Char) : text.length ≤ utf8Length text := by
  induction text with
  | nil => exact Nat.le_refl 0
  | cons c text ih =>
    have hpos := c.utf8Size_pos
    rw [List.length_cons, utf8Length_cons]
    omega

end Cirrove.Library
