import Cirrove.Library.Table

/-!
# The rows of a changed table

What a scan of a table finds after one key was written or deleted, up to the order of the rows.
Aggregates over a table follow from these (`SUM`, `COUNT`), as they do not depend on the order.
-/

namespace Cirrove.Library

namespace Table

variable {K V : Type*} [DecidableEq K]

omit [DecidableEq K] in
theorem rows_nodup (t : Table K V) : t.rows.Nodup := List.Nodup.of_map _ t.rows_keys_nodup

/-- A write leaves the rows of the other keys and one of its own. -/
theorem rows_set_perm (t : Table K V) (k : K) (v : V) :
    (t.set k v).rows.Perm ((k, v) :: t.rows.filter fun row => row.1 ≠ k) := by
  have hnodup : ((k, v) :: t.rows.filter fun row => row.1 ≠ k).Nodup := by
    refine List.nodup_cons.mpr ⟨?_, t.rows_nodup.filter _⟩
    simp [List.mem_filter]
  rw [List.perm_ext_iff_of_nodup (rows_nodup _) hnodup]
  rintro ⟨k', v'⟩
  rw [mem_rows, get_set, List.mem_cons, List.mem_filter, mem_rows]
  by_cases h : k' = k
  · simp [h, eq_comm]
  · simp [h]

/-- A deletion leaves the rows of the other keys. -/
theorem rows_erase_perm (t : Table K V) (k : K) :
    (t.erase k).rows.Perm (t.rows.filter fun row => row.1 ≠ k) := by
  rw [List.perm_ext_iff_of_nodup (rows_nodup _) (t.rows_nodup.filter _)]
  rintro ⟨k', v'⟩
  rw [mem_rows, get_erase, List.mem_filter, mem_rows]
  by_cases h : k' = k <;> simp [h]

/-- A key has a row after rows were written if it had one or is among them. -/
theorem isSome_get_setRows (t : Table K V) (rows : List (K × V)) (k : K) :
    ((t.setRows rows).get k).isSome ↔ k ∈ rows.map Prod.fst ∨ (t.get k).isSome := by
  unfold setRows
  induction rows generalizing t with
  | nil => simp
  | cons row rest ih =>
    rw [List.foldl_cons, ih, get_set, List.map_cons, List.mem_cons]
    by_cases hrow : k = row.1
    · simp [hrow]
    · simp [hrow]

/-- A query that selects a column determined by the key gives every value once. -/
theorem select_map_nodup_of_get {β γ : Type*} (t : Table K V) {f : K → V → Option β} {g : β → γ}
    (h : ∀ k v b k' v' b', t.get k = some v → t.get k' = some v' → f k v = some b →
      f k' v' = some b' → g b = g b' → k = k') : ((t.select f).map g).Nodup := by
  have hkeys := t.rows_keys_nodup
  have hrows : ∀ row ∈ t.rows, t.get row.1 = some row.2 := fun row hrow => (mem_rows t _ _).mp hrow
  unfold List.Nodup at hkeys ⊢
  rw [List.pairwise_map] at hkeys ⊢
  unfold select
  rw [List.pairwise_filterMap]
  apply hkeys.imp_of_mem
  intro a a' ha ha' hne b hb b' hb' hsame
  exact hne (h _ _ b _ _ b' (hrows a ha) (hrows a' ha') hb hb' hsame)

end Table

end Cirrove.Library
