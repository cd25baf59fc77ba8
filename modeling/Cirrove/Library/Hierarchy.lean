import Mathlib

/-!
# Hierarchies of separated paths

A path is a list of symbols in which one symbol separates the components. `Above q p` says
that `q` is what stands before a separator of `p`. A listing gives some paths a value; its
closure also has the top and everything above a listed path, with the value of an interior
node.
-/

namespace Cirrove.Library

variable {α β : Type*} (sep : α)

/-- `q` is a proper ancestor of `p`. -/
def Above (q p : List α) : Prop := ∃ r, p = q ++ sep :: r

/-- Every proper ancestor of a path, the shortest first. -/
def ancestors [DecidableEq α] : List α → List (List α)
  | [] => []
  | a :: rest => (if a = sep then [[]] else []) ++ (ancestors rest).map (a :: ·)

variable {sep}

theorem mem_ancestors [DecidableEq α] {q p : List α} :
    q ∈ ancestors sep p ↔ Above sep q p := by
  induction p generalizing q with
  | nil => simp [ancestors, Above]
  | cons a rest ih =>
    simp only [ancestors, List.mem_append, List.mem_map, ih]
    constructor
    · rintro (hnil | ⟨q, ⟨r, rfl⟩, rfl⟩)
      · split at hnil
        · next ha =>
          obtain rfl : q = [] := by simpa using hnil
          exact ⟨rest, by simp [ha]⟩
        · simp at hnil
      · exact ⟨r, rfl⟩
    · rintro ⟨r, h⟩
      cases q with
      | nil => exact .inl (by simp_all)
      | cons b q =>
        obtain ⟨rfl, rfl⟩ := List.cons.inj h
        exact .inr ⟨q, ⟨r, rfl⟩, rfl⟩

theorem Above.length_lt {q p : List α} (h : Above sep q p) : q.length < p.length := by
  obtain ⟨r, rfl⟩ := h
  simp

/-- The listing, its top and everything above a listed path. -/
def pathClosure (sep : α) (interior : β) (listing : Set (List α × β)) : Set (List α × β) :=
  listing ∪ {x | x.2 = interior ∧ (x.1 = [] ∨ ∃ y ∈ listing, Above sep x.1 y.1)}

end Cirrove.Library
