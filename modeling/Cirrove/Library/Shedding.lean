import Mathlib.Algebra.GroupWithZero.Nat
import Mathlib.Algebra.Order.Group.Nat
import Mathlib.Algebra.BigOperators.Group.List.Basic
import Mathlib.Data.List.Infix

/-!
# Shedding from the front of a list

A greedy pass drops elements from the front of a list, each worth something, until a running
total is within a bound. What it drops is a prefix (`shed_prefix`), an element is dropped if and
only if the total is still too large when it is its turn (`shed_split`, `shed_of_split`), and in
the end the total is within the bound or nothing is left to drop (`shed_end`). Which elements are
spared is therefore decided by what stands before the first of them (`shed_spares_iff`).
-/

namespace Cirrove.Library

variable {α : Type*} {worth : α → Nat} {bound total : Nat} {l : List α}

/-- What is dropped from the front of a list until the total is within the bound. -/
def shed (worth : α → Nat) (bound : Nat) : Nat → List α → List α
  | _, [] => []
  | total, a :: rest =>
    if total ≤ bound then [] else a :: shed worth bound (total - worth a) rest

theorem shed_prefix (worth : α → Nat) (bound total : Nat) (l : List α) :
    shed worth bound total l <+: l := by
  induction l generalizing total with
  | nil => exact List.prefix_refl []
  | cons a rest ih =>
    unfold shed
    split
    · exact List.nil_prefix
    · exact List.cons_prefix_cons.mpr ⟨rfl, ih _⟩

/-- Whatever is dropped was dropped while the total was too large. -/
theorem shed_split {before after : List α} {a : α}
    (h : shed worth bound total l = before ++ a :: after) :
    bound < total - (before.map worth).sum := by
  induction l generalizing total before with
  | nil => simp [shed] at h
  | cons b rest ih =>
    unfold shed at h
    split at h
    · simp at h
    · next hlarge =>
      cases before with
      | nil => simpa using hlarge
      | cons c before =>
        obtain ⟨rfl, hrest⟩ := List.cons.inj h
        have := ih hrest
        rw [List.map_cons, List.sum_cons]
        omega

/-- What is too large when it is its turn is dropped. -/
theorem shed_of_split {before after : List α} {a : α} (hl : l = before ++ a :: after)
    (h : bound < total - (before.map worth).sum) :
    ∃ after', shed worth bound total l = before ++ a :: after' := by
  induction before generalizing total l with
  | nil =>
    subst hl
    have hlarge : ¬ total ≤ bound := by simpa using h
    exact ⟨shed worth bound (total - worth a) after, by simp [shed, hlarge]⟩
  | cons c before ih =>
    subst hl
    rw [List.map_cons, List.sum_cons] at h
    have hlarge : ¬ total ≤ bound := by omega
    have hturn : bound < total - worth c - (before.map worth).sum := by omega
    obtain ⟨after', hafter⟩ := ih rfl hturn
    exact ⟨after', by simp [shed, hlarge, hafter]⟩

/-- In the end the total is within the bound, or everything was dropped. -/
theorem shed_end (worth : α → Nat) (bound total : Nat) (l : List α) :
    total - ((shed worth bound total l).map worth).sum ≤ bound ∨
      shed worth bound total l = l := by
  induction l generalizing total with
  | nil => exact .inr rfl
  | cons a rest ih =>
    unfold shed
    split
    · next hsmall =>
      left
      simpa using hsmall
    · rcases ih (total - worth a) with hend | hall
      · left
        rw [List.map_cons, List.sum_cons]
        omega
      · right
        rw [hall]

/-- The pass spares some elements exactly when it meets none of them, or can stop before the
    first. -/
theorem shed_spares_iff (worth : α → Nat) (bound total : Nat) (l : List α) (p : α → Bool) :
    (∀ a ∈ shed worth bound total l, p a = false) ↔
      (∀ a ∈ l, p a = false) ∨
        total - ((l.takeWhile fun a => !p a).map worth).sum ≤ bound := by
  induction l generalizing total with
  | nil => simp [shed]
  | cons a rest ih =>
    by_cases hsmall : total ≤ bound
    · simp only [shed, hsmall, if_true, List.not_mem_nil, false_implies, implies_true, true_iff]
      right
      omega
    · cases hp : p a with
      | true => simp [shed, hsmall, hp]
      | false =>
        have hsum : total - worth a - ((rest.takeWhile fun a => !p a).map worth).sum =
            total - (worth a + ((rest.takeWhile fun a => !p a).map worth).sum) := by
          omega
        simp only [shed, hsmall, if_false, List.forall_mem_cons, hp, true_and, ih,
          List.takeWhile_cons, Bool.not_false, if_true, List.map_cons, List.sum_cons, hsum]

end Cirrove.Library
