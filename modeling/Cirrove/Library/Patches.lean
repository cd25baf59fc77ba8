import Mathlib.Data.List.Basic

/-!
# Patches

Writing the same few values at several places of a list. Nothing else changes
(`getElem?_writeAll`), and lists that differ only at those places become the same
(`writeAll_congr`).
-/

namespace Cirrove.Library

variable {α : Type*}

/-- Write a patch over a list, at a place. -/
def writeAt (patch l : List α) (i : Nat) : List α := l.take i ++ patch ++ l.drop (i + patch.length)

/-- Write a patch at places, one after another. -/
def writeAll (patch l : List α) (places : List Nat) : List α := places.foldl (writeAt patch) l

/-- A place that a patch written at `i` covers. -/
def Covers (patch : List α) (i j : Nat) : Prop := i ≤ j ∧ j < i + patch.length

section

variable {patch l l' : List α} {i j : Nat} {places : List Nat}

theorem length_writeAt (h : i + patch.length ≤ l.length) :
    (writeAt patch l i).length = l.length := by
  simp only [writeAt, List.length_append, List.length_take, List.length_drop]
  omega

theorem getElem?_writeAt (h : i + patch.length ≤ l.length) (hout : ¬ Covers patch i j) :
    (writeAt patch l i)[j]? = l[j]? := by
  have hfront : (l.take i).length = i := by
    rw [List.length_take]
    omega
  rw [writeAt, List.append_assoc]
  rcases Nat.lt_or_ge j i with hlt | hge
  · rw [List.getElem?_append_left (by omega), List.getElem?_take_of_lt hlt]
  · have hge' : i + patch.length ≤ j := Nat.le_of_not_lt fun hlt => hout ⟨hge, hlt⟩
    rw [List.getElem?_append_right (by omega), List.getElem?_append_right (by omega), hfront,
      List.getElem?_drop]
    congr 1
    omega

theorem getElem?_writeAt_covered (h : i + patch.length ≤ l.length) (hin : Covers patch i j) :
    (writeAt patch l i)[j]? = patch[j - i]? := by
  obtain ⟨hge, hlt⟩ := hin
  have hfront : (l.take i).length = i := by
    rw [List.length_take]
    omega
  rw [writeAt, List.append_assoc, List.getElem?_append_right (by omega),
    List.getElem?_append_left (by omega), hfront]

/-- Lists that differ at most where the patch is written become the same there. -/
theorem writeAt_congr {j : Nat} (h : i + patch.length ≤ l.length) (hlength : l'.length = l.length)
    (hsame : ¬ Covers patch i j → l'[j]? = l[j]?) :
    (writeAt patch l' i)[j]? = (writeAt patch l i)[j]? := by
  by_cases hin : Covers patch i j
  · rw [getElem?_writeAt_covered h hin, getElem?_writeAt_covered (hlength ▸ h) hin]
  · rw [getElem?_writeAt h hin, getElem?_writeAt (hlength ▸ h) hin, hsame hin]

theorem length_writeAll (h : ∀ i ∈ places, i + patch.length ≤ l.length) :
    (writeAll patch l places).length = l.length := by
  induction places generalizing l with
  | nil => rfl
  | cons i places ih =>
    rw [List.forall_mem_cons] at h
    have hone := length_writeAt h.1
    rw [writeAll, List.foldl_cons]
    exact (ih (by rw [hone]; exact h.2)).trans hone

/-- Outside the places nothing is written. -/
theorem getElem?_writeAll (h : ∀ i ∈ places, i + patch.length ≤ l.length)
    (hout : ∀ i ∈ places, ¬ Covers patch i j) : (writeAll patch l places)[j]? = l[j]? := by
  induction places generalizing l with
  | nil => rfl
  | cons i places ih =>
    rw [List.forall_mem_cons] at h hout
    have hone := length_writeAt h.1
    rw [writeAll, List.foldl_cons]
    exact (ih (by rw [hone]; exact h.2) hout.2).trans (getElem?_writeAt h.1 hout.1)

/-- What the places held is forgotten. -/
theorem writeAll_congr (h : ∀ i ∈ places, i + patch.length ≤ l.length)
    (hlength : l'.length = l.length)
    (hsame : ∀ j, (∀ i ∈ places, ¬ Covers patch i j) → l'[j]? = l[j]?) :
    writeAll patch l' places = writeAll patch l places := by
  induction places generalizing l l' with
  | nil =>
    apply List.ext_getElem?
    exact fun j => hsame j (by simp)
  | cons i places ih =>
    rw [List.forall_mem_cons] at h
    have hone := length_writeAt h.1
    have hone' := length_writeAt (hlength ▸ h.1)
    rw [writeAll, writeAll, List.foldl_cons, List.foldl_cons]
    apply ih (by rw [hone]; exact h.2) (by rw [hone, hone', hlength])
    intro j hrest
    apply writeAt_congr h.1 hlength
    intro hfirst
    apply hsame j
    rw [List.forall_mem_cons]
    exact ⟨hfirst, hrest⟩

end

/-- Lists that agree at some places have the same values there. -/
theorem take_drop_congr {l l' : List α} {i n : Nat}
    (h : ∀ j, i ≤ j → j < i + n → l'[j]? = l[j]?) : (l'.drop i).take n = (l.drop i).take n := by
  apply List.ext_getElem?
  intro k
  by_cases hk : k < n
  · rw [List.getElem?_take_of_lt hk, List.getElem?_take_of_lt hk, List.getElem?_drop,
      List.getElem?_drop, h (i + k) (by omega) (by omega)]
  · rw [List.getElem?_take_eq_none (by omega), List.getElem?_take_eq_none (by omega)]

/-- The last number below a bound with a property stays so if the property does from there on. -/
theorem find_last_congr {p q : Nat → Bool} {n k : Nat}
    (h : (List.range n).reverse.find? p = some k) (hsame : ∀ i, k ≤ i → i < n → q i = p i) :
    (List.range n).reverse.find? q = some k := by
  induction n with
  | zero => exact absurd h (by simp)
  | succ n ih =>
    rw [List.range_succ, List.reverse_append, List.reverse_singleton, List.singleton_append,
      List.find?_cons] at h ⊢
    cases hp : p n with
    | true =>
      rw [hp] at h
      have hk : n = k := Option.some.inj h
      rw [hsame n (by omega) (by omega), hp]
      exact h
    | false =>
      rw [hp] at h
      have hk : k < n := by
        have hmem := List.mem_of_find?_eq_some h
        simpa using hmem
      rw [hsame n (by omega) (by omega), hp]
      exact ih h fun i hi hin => hsame i hi (by omega)

end Cirrove.Library
