import Mathlib.Data.List.AList

/-!
# Keyed tables

A database table with a primary key, as the association lists of Mathlib: every
key carries at most one row, and this is a field of the structure and never a
side condition of a lemma.

## Operations

- `get`: the row of one key
- `set`: `INSERT ... ON CONFLICT DO UPDATE`
- `setRows`: the same for the rows of a list, in order
- `setAll`: one value for every key of a list
- `mapRows`: `UPDATE` of every row
- `erase`, `deleteWhere`: `DELETE` by key and by predicate
- `rows`, `select`: the table scan, and a query over it

Every operation is characterised by what `get` returns afterwards, and the scan
by `mem_rows`. Two tables are compared through `get`, never through the order of
their rows.
-/

namespace Cirrove.Library

universe u v

/-- A table with primary key `K` and rows `V`. -/
def Table (K : Type u) (V : Type v) := AList (fun _ : K => V)

namespace Table

variable {K : Type u} {V : Type v} [DecidableEq K]

/-- The table without rows. -/
def empty : Table K V := (∅ : AList (fun _ : K => V))

/-- The row stored under a key. -/
def get (t : Table K V) (k : K) : Option V := AList.lookup k t

/-- Insert a row, or replace the row of that key. -/
def set (t : Table K V) (k : K) (v : V) : Table K V := AList.insert k v t

/-- Insert or replace the rows of a list, in order. -/
def setRows (t : Table K V) (rows : List (K × V)) : Table K V :=
  rows.foldl (fun t row => t.set row.1 row.2) t

/-- Insert or replace one value under every key of a list. -/
def setAll (t : Table K V) (keys : List K) (v : V) : Table K V :=
  keys.foldl (fun t k => t.set k v) t

/-- Delete the row of a key. -/
def erase (t : Table K V) (k : K) : Table K V := AList.erase k t

/-- Delete every row that satisfies a predicate. -/
def deleteWhere (t : Table K V) (p : K → V → Bool) : Table K V where
  entries := t.entries.filter (fun row => !p row.1 row.2)
  nodupKeys := t.nodupKeys.sublist List.filter_sublist

/-- Change every row. -/
def mapRows (t : Table K V) (f : K → V → V) : Table K V where
  entries := t.entries.map (fun row => ⟨row.1, f row.1 row.2⟩)
  nodupKeys := by
    have hkeys : (t.entries.map (fun row => (⟨row.1, f row.1 row.2⟩ : Sigma (fun _ : K => V)))).keys =
        t.entries.keys := by simp [List.keys]
    unfold List.NodupKeys
    rw [hkeys]
    exact t.nodupKeys

/-- All rows with their keys. -/
def rows (t : Table K V) : List (K × V) := t.entries.map (fun row => (row.1, row.2))

/-- `SELECT` over the whole table: `f` is the condition and the selected columns. -/
def select {β : Type*} (t : Table K V) (f : K → V → Option β) : List β :=
  t.rows.filterMap (fun row => f row.1 row.2)

/-! ## What is stored afterwards -/

@[simp]
theorem get_empty (k : K) : (empty : Table K V).get k = none := rfl

theorem get_set (t : Table K V) (k k' : K) (v : V) :
    (t.set k v).get k' = if k' = k then some v else t.get k' := by
  unfold get set
  by_cases h : k' = k
  · subst h
    rw [if_pos rfl]
    exact AList.lookup_insert t
  · rw [if_neg h]
    exact AList.lookup_insert_ne h

@[simp]
theorem get_set_self (t : Table K V) (k : K) (v : V) : (t.set k v).get k = some v := by
  rw [get_set, if_pos rfl]

theorem get_set_of_ne (t : Table K V) {k k' : K} (v : V) (h : k' ≠ k) :
    (t.set k v).get k' = t.get k' := by
  rw [get_set, if_neg h]

theorem get_erase (t : Table K V) (k k' : K) :
    (t.erase k).get k' = if k' = k then none else t.get k' := by
  unfold get erase
  by_cases h : k' = k
  · subst h
    rw [if_pos rfl]
    exact AList.lookup_erase k' t
  · rw [if_neg h]
    exact AList.lookup_erase_ne h

theorem get_eq_some_iff (t : Table K V) (k : K) (v : V) :
    t.get k = some v ↔ (⟨k, v⟩ : Sigma (fun _ : K => V)) ∈ t.entries :=
  AList.mem_lookup_iff

theorem get_deleteWhere (t : Table K V) (p : K → V → Bool) (k : K) :
    (t.deleteWhere p).get k = (t.get k).filter (fun v => !p k v) := by
  apply Option.ext
  intro v
  rw [get_eq_some_iff, Option.filter_eq_some_iff, get_eq_some_iff]
  simp only [deleteWhere, List.mem_filter]

theorem get_deleteWhere_eq_some_iff (t : Table K V) (p : K → V → Bool) (k : K) (v : V) :
    (t.deleteWhere p).get k = some v ↔ t.get k = some v ∧ p k v = false := by
  rw [get_deleteWhere, Option.filter_eq_some_iff]
  simp

theorem get_deleteWhere_of_kept (t : Table K V) {p : K → V → Bool} {k : K}
    (h : ∀ v, t.get k = some v → p k v = false) : (t.deleteWhere p).get k = t.get k := by
  rw [get_deleteWhere]
  cases hget : t.get k with
  | none => rfl
  | some v => simp [h v hget]

theorem get_deleteWhere_of_deleted (t : Table K V) {p : K → V → Bool} {k : K}
    (h : ∀ v, t.get k = some v → p k v = true) : (t.deleteWhere p).get k = none := by
  rw [get_deleteWhere]
  cases hget : t.get k with
  | none => rfl
  | some v => simp [h v hget]

theorem get_mapRows (t : Table K V) (f : K → V → V) (k : K) :
    (t.mapRows f).get k = (t.get k).map (f k) := by
  apply Option.ext
  intro v
  rw [get_eq_some_iff, Option.map_eq_some_iff]
  simp only [mapRows, List.mem_map]
  constructor
  · rintro ⟨row, hrow, heq⟩
    cases heq
    exact ⟨row.2, (get_eq_some_iff t row.1 row.2).mpr hrow, rfl⟩
  · rintro ⟨old, hold, rfl⟩
    exact ⟨⟨k, old⟩, (get_eq_some_iff t k old).mp hold, rfl⟩

theorem get_setAll (t : Table K V) (keys : List K) (v : V) (k : K) :
    (t.setAll keys v).get k = if k ∈ keys then some v else t.get k := by
  unfold setAll
  induction keys generalizing t with
  | nil => simp
  | cons key rest ih =>
    rw [List.foldl_cons, ih]
    by_cases hrest : k ∈ rest
    · rw [if_pos hrest, if_pos (List.mem_cons_of_mem _ hrest)]
    · rw [if_neg hrest, get_set]
      simp only [List.mem_cons, hrest, or_false]

theorem get_setRows_of_not_mem (t : Table K V) {rows : List (K × V)} {k : K}
    (h : k ∉ rows.map Prod.fst) : (t.setRows rows).get k = t.get k := by
  unfold setRows
  induction rows generalizing t with
  | nil => rfl
  | cons row rest ih =>
    simp only [List.map_cons, List.mem_cons, not_or] at h
    rw [List.foldl_cons, ih _ h.2, get_set_of_ne _ _ h.1]

theorem get_setRows_of_unique (t : Table K V) {rows : List (K × V)} {k : K} {v : V}
    (hunique : ∀ v', (k, v') ∈ rows → v' = v) (h : (k, v) ∈ rows) :
    (t.setRows rows).get k = some v := by
  unfold setRows
  induction rows generalizing t with
  | nil => cases h
  | cons row rest ih =>
    rw [List.foldl_cons]
    by_cases hrest : k ∈ rest.map Prod.fst
    · obtain ⟨⟨k', v'⟩, hmem, rfl⟩ := List.mem_map.mp hrest
      obtain rfl := hunique v' (List.mem_cons_of_mem _ hmem)
      exact ih _ (fun v'' hv => hunique v'' (List.mem_cons_of_mem _ hv)) hmem
    · -- The last row of this key is the first one.
      have hrow : row = (k, v) := by
        rcases List.mem_cons.mp h with heq | hmem
        · exact heq.symm
        · exact absurd (List.mem_map.mpr ⟨_, hmem, rfl⟩) hrest
      subst hrow
      have hfresh := get_setRows_of_not_mem (t.set k v) hrest
      unfold setRows at hfresh
      rw [hfresh, get_set_self]

theorem get_setRows_of_mem (t : Table K V) {rows : List (K × V)} {k : K} {v : V}
    (hnodup : (rows.map Prod.fst).Nodup) (h : (k, v) ∈ rows) :
    (t.setRows rows).get k = some v := by
  apply get_setRows_of_unique t _ h
  intro v' hv'
  exact congrArg Prod.snd (List.inj_on_of_nodup_map hnodup hv' h rfl)

theorem get_setRows_cases (t : Table K V) {rows : List (K × V)} {k : K} {v : V}
    (h : (t.setRows rows).get k = some v) : (k, v) ∈ rows ∨ t.get k = some v := by
  unfold setRows at h
  induction rows generalizing t with
  | nil => exact .inr h
  | cons row rest ih =>
    rw [List.foldl_cons] at h
    rcases ih _ h with hrest | hset
    · exact .inl (List.mem_cons_of_mem _ hrest)
    · rw [get_set] at hset
      split at hset
      · next hkey =>
        cases hset
        exact .inl (hkey ▸ List.mem_cons_self)
      · exact .inr hset

/-! ## The table scan -/

theorem mem_rows (t : Table K V) (k : K) (v : V) : (k, v) ∈ t.rows ↔ t.get k = some v := by
  rw [get_eq_some_iff]
  unfold rows
  constructor
  · intro h
    obtain ⟨⟨k', v'⟩, hmem, heq⟩ := List.mem_map.mp h
    simp only [Prod.mk.injEq] at heq
    obtain ⟨rfl, rfl⟩ := heq
    exact hmem
  · intro h
    exact List.mem_map.mpr ⟨⟨k, v⟩, h, rfl⟩

theorem mem_select {β : Type*} (t : Table K V) (f : K → V → Option β) (b : β) :
    b ∈ t.select f ↔ ∃ k v, t.get k = some v ∧ f k v = some b := by
  unfold select
  rw [List.mem_filterMap]
  constructor
  · rintro ⟨⟨k, v⟩, hmem, hf⟩
    exact ⟨k, v, (mem_rows t k v).mp hmem, hf⟩
  · rintro ⟨k, v, hget, hf⟩
    exact ⟨(k, v), (mem_rows t k v).mpr hget, hf⟩

omit [DecidableEq K] in
theorem rows_keys_nodup (t : Table K V) : (t.rows.map Prod.fst).Nodup := by
  have h : t.rows.map Prod.fst = t.entries.keys := by
    simp [rows, List.keys]
  rw [h]
  exact t.nodupKeys

omit [DecidableEq K] in
/-- A query that selects the key gives every key once. -/
theorem select_map_nodup {β : Type*} (t : Table K V) {f : K → V → Option β} {g : β → K}
    (h : ∀ k v b, f k v = some b → g b = k) : ((t.select f).map g).Nodup := by
  have hkeys := t.rows_keys_nodup
  unfold List.Nodup at hkeys ⊢
  rw [List.pairwise_map] at hkeys ⊢
  unfold select
  rw [List.pairwise_filterMap]
  apply hkeys.imp
  intro a a' hne b hb b' hb'
  rw [h _ _ b hb, h _ _ b' hb']
  exact hne

/-- Tables with the same columns have the same rows, in some order. -/
theorem rows_map_perm {W : Type*} {t t' : Table K V} {f : V → W}
    (h : ∀ k, (t'.get k).map f = (t.get k).map f) :
    (t'.rows.map (fun row => (row.1, f row.2))).Perm (t.rows.map (fun row => (row.1, f row.2))) := by
  have hnodup : ∀ t : Table K V, (t.rows.map (fun row => (row.1, f row.2))).Nodup := by
    intro t
    apply List.Nodup.of_map Prod.fst
    rw [List.map_map]
    exact rows_keys_nodup t
  have hmem : ∀ (t : Table K V) (k : K) (b : W),
      (k, b) ∈ t.rows.map (fun row => (row.1, f row.2)) ↔ (t.get k).map f = some b := by
    intro t k b
    rw [List.mem_map, Option.map_eq_some_iff]
    constructor
    · rintro ⟨⟨k', v⟩, hrow, heq⟩
      cases heq
      exact ⟨v, (mem_rows t k' v).mp hrow, rfl⟩
    · rintro ⟨v, hv, rfl⟩
      exact ⟨(k, v), (mem_rows t k v).mpr hv, rfl⟩
  rw [List.perm_ext_iff_of_nodup (hnodup t') (hnodup t)]
  rintro ⟨k, b⟩
  rw [hmem, hmem, h]

end Table

end Cirrove.Library
