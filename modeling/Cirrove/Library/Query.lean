import Mathlib.Data.List.Sort

/-!
# Ordered queries

`ORDER BY` over a list of selected rows, by one numeric column. `LIMIT` is `take`, and
`LIMIT 1` is `head?`.
-/

namespace Cirrove.Library

variable {α : Type*} (key : α → Nat)

/-- `ORDER BY key` -/
def orderBy (rows : List α) : List α := rows.insertionSort (fun a b => key a ≤ key b)

variable {key} {rows : List α} {a : α}

theorem orderBy_perm (key : α → Nat) (rows : List α) : (orderBy key rows).Perm rows :=
  List.perm_insertionSort _ rows

@[simp]
theorem mem_orderBy : a ∈ orderBy key rows ↔ a ∈ rows := List.mem_insertionSort _

theorem orderBy_pairwise (key : α → Nat) (rows : List α) :
    (orderBy key rows).Pairwise (fun a b => key a ≤ key b) := by
  have htotal : Std.Total (fun a b : α => key a ≤ key b) := ⟨fun a b => le_total _ _⟩
  have htrans : IsTrans α (fun a b => key a ≤ key b) := ⟨fun _ _ _ => le_trans⟩
  exact List.pairwise_insertionSort _ rows

/-- `LIMIT 1` gives a first row. -/
theorem head_orderBy (h : (orderBy key rows).head? = some a) :
    a ∈ rows ∧ ∀ b ∈ rows, key a ≤ key b := by
  obtain ⟨rest, heq⟩ := List.head?_eq_some_iff.mp h
  refine ⟨mem_orderBy.mp (heq ▸ List.mem_cons_self), ?_⟩
  intro b hb
  have hmem : b ∈ a :: rest := heq ▸ mem_orderBy.mpr hb
  have hsorted := orderBy_pairwise key rows
  rw [heq, List.pairwise_cons] at hsorted
  rcases List.mem_cons.mp hmem with rfl | hrest
  · exact le_rfl
  · exact hsorted.1 b hrest

end Cirrove.Library
