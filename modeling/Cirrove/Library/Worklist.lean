import Mathlib.Data.List.Nodup
import Mathlib.Logic.Relation

/-!
# Worklists

A search that takes nodes from a stack, passes those it has seen, and puts the neighbours of the
others on the stack. It ends (`ends_worklist`), and with exactly the nodes reached from the stack
(`Ends.mem_iff`).
-/

namespace Cirrove.Library

variable {α κ : Type*} [DecidableEq κ]

/-- The nodes seen when the stack is empty, or the fuel is used up. -/
def worklist (key : α → κ) (next : α → List α) : Nat → List α → List α → List α
  | 0, _, seen => seen
  | _, [], seen => seen
  | fuel + 1, a :: pending, seen =>
    if seen.any (fun b => key b = key a) then worklist key next fuel pending seen
    else worklist key next fuel (next a ++ pending) (seen ++ [a])

/-- The search ends by itself, with the stack empty and some nodes seen. -/
inductive Ends (key : α → κ) (next : α → List α) : List α → List α → List α → Prop where
  | done {seen : List α} : Ends key next [] seen seen
  | skip {a : α} {pending seen result : List α} (hseen : seen.any (fun b => key b = key a) = true) :
      Ends key next pending seen result → Ends key next (a :: pending) seen result
  | take {a : α} {pending seen result : List α} (hnew : ¬ seen.any (fun b => key b = key a) = true) :
      Ends key next (next a ++ pending) (seen ++ [a]) result →
      Ends key next (a :: pending) seen result

/-- A node reached from one of a list. -/
def ReachedFrom (next : α → List α) (starts : List α) (b : α) : Prop :=
  ∃ a ∈ starts, Relation.ReflTransGen (fun x y => y ∈ next x) a b

section

variable {key : α → κ} {next : α → List α} {nodes pending seen : List α} {a b : α}

theorem ReachedFrom.of_mem (h : a ∈ pending) : ReachedFrom next pending a := ⟨a, h, .refl⟩

theorem ReachedFrom.mono {more : List α} (h : ReachedFrom next pending b) (hsub : pending ⊆ more) :
    ReachedFrom next more b := by
  obtain ⟨a, ha, hreach⟩ := h
  exact ⟨a, hsub ha, hreach⟩

/-- What is reached from a node is the node or reached from a neighbour. -/
theorem reachedFrom_cons :
    ReachedFrom next (a :: pending) b ↔ b = a ∨ ReachedFrom next (next a ++ pending) b := by
  constructor
  · rintro ⟨s, hs, hreach⟩
    rcases List.mem_cons.mp hs with rfl | hs
    · rcases Relation.ReflTransGen.cases_head hreach with rfl | ⟨c, hc, hreach⟩
      · exact .inl rfl
      · exact .inr ⟨c, List.mem_append_left _ hc, hreach⟩
    · exact .inr ⟨s, List.mem_append_right _ hs, hreach⟩
  · rintro (rfl | ⟨s, hs, hreach⟩)
    · exact .of_mem List.mem_cons_self
    · rcases List.mem_append.mp hs with hs | hs
      · exact ⟨a, List.mem_cons_self, .head hs hreach⟩
      · exact ⟨s, List.mem_cons_of_mem _ hs, hreach⟩

/-- The neighbours of seen nodes are seen or wait. -/
def Tracked (next : α → List α) (pending seen : List α) : Prop :=
  ∀ a ∈ seen, ∀ b ∈ next a, b ∈ seen ∨ b ∈ pending

theorem Tracked.reached (h : Tracked next pending seen) (ha : a ∈ seen)
    (hreach : Relation.ReflTransGen (fun x y => y ∈ next x) a b) :
    b ∈ seen ∨ ReachedFrom next pending b := by
  induction hreach with
  | refl => exact .inl ha
  | @tail b c _ hstep ih =>
    rcases ih with hseen | ⟨s, hs, hreach⟩
    · exact (h b hseen c hstep).imp_right .of_mem
    · exact .inr ⟨s, hs, hreach.tail hstep⟩

variable (hkey : ∀ a ∈ nodes, ∀ b ∈ nodes, key a = key b → a = b)
  (hnext : ∀ a ∈ nodes, next a ⊆ nodes)

include hkey in
theorem any_key (hseen : seen ⊆ nodes) (ha : a ∈ nodes) :
    seen.any (fun b => key b = key a) = true ↔ a ∈ seen := by
  rw [List.any_eq_true]
  constructor
  · rintro ⟨b, hb, hsame⟩
    rw [← hkey b (hseen hb) a ha (of_decide_eq_true hsame)]
    exact hb
  · intro h
    exact ⟨a, h, decide_eq_true rfl⟩

include hkey hnext in
/-- Every step takes one from the stack, and a new node puts at most `degree` on it. -/
theorem ends_worklist {degree : Nat} (hdegree : ∀ a ∈ nodes, (next a).length ≤ degree)
    [DecidableEq α] (fuel : Nat) (pending seen : List α)
    (hfuel : pending.length + (nodes.filter (· ∉ seen)).length * degree ≤ fuel)
    (hpending : pending ⊆ nodes) (hseen : seen ⊆ nodes) :
    Ends key next pending seen (worklist key next fuel pending seen) := by
  induction fuel generalizing pending seen with
  | zero =>
    have hnil : pending = [] := List.length_eq_zero_iff.mp (by omega)
    subst hnil
    exact .done
  | succ fuel ih =>
    cases pending with
    | nil => exact .done
    | cons a pending =>
      rw [List.cons_subset] at hpending
      rw [List.length_cons] at hfuel
      rw [worklist]
      by_cases hany : seen.any (fun b => key b = key a) = true
      · rw [if_pos hany]
        exact .skip hany (ih pending seen (by omega) hpending.2 hseen)
      · rw [if_neg hany]
        have ha : a ∉ seen := fun ha => hany ((any_key hkey hseen hpending.1).mpr ha)
        have hfewer : (nodes.filter (· ∉ seen ++ [a])).length <
            (nodes.filter (· ∉ seen)).length := by
          have hagain : nodes.filter (· ∉ seen ++ [a]) =
              (nodes.filter (· ∉ seen)).filter (· ≠ a) := by
            rw [List.filter_filter]
            apply List.filter_congr
            intro x _
            simp [not_or, and_comm]
          rw [hagain, List.length_filter_lt_length_iff_exists]
          exact ⟨a, by simp [hpending.1, ha], by simp⟩
        have hstack : (next a ++ pending).length +
            (nodes.filter (· ∉ seen ++ [a])).length * degree ≤ fuel := by
          have hmul := Nat.mul_le_mul_right degree (Nat.succ_le_of_lt hfewer)
          have hlength := hdegree a hpending.1
          rw [Nat.succ_mul] at hmul
          rw [List.length_append]
          omega
        exact .take hany (ih _ _ hstack
          (List.append_subset.mpr ⟨hnext a hpending.1, hpending.2⟩)
          (List.append_subset.mpr ⟨hseen, by simpa using hpending.1⟩))

include hkey hnext in
/-- A node is seen in the end exactly when it was seen before or is reached. -/
theorem Ends.mem_iff {result : List α} (h : Ends key next pending seen result)
    (hpending : pending ⊆ nodes) (hseen : seen ⊆ nodes) (htracked : Tracked next pending seen) :
    b ∈ result ↔ b ∈ seen ∨ ReachedFrom next pending b := by
  induction h with
  | done => simp [ReachedFrom]
  | @skip a pending seen result hany _ ih =>
    rw [List.cons_subset] at hpending
    have ha : a ∈ seen := (any_key hkey hseen hpending.1).mp hany
    have htracked' : Tracked next pending seen := by
      intro x hx y hy
      rcases htracked x hx y hy with hmem | hmem
      · exact .inl hmem
      · rcases List.mem_cons.mp hmem with rfl | hmem
        · exact .inl ha
        · exact .inr hmem
    rw [ih hpending.2 hseen htracked']
    constructor
    · exact Or.imp_right fun h => h.mono (List.subset_cons_self _ _)
    · rintro (h | ⟨s, hs, hreach⟩)
      · exact .inl h
      · rcases List.mem_cons.mp hs with rfl | hs
        · exact htracked'.reached ha hreach
        · exact .inr ⟨s, hs, hreach⟩
  | @take a pending seen result hany _ ih =>
    rw [List.cons_subset] at hpending
    have htracked' : Tracked next (next a ++ pending) (seen ++ [a]) := by
      intro x hx y hy
      rcases List.mem_append.mp hx with hx | hx
      · rcases htracked x hx y hy with hmem | hmem
        · exact .inl (List.mem_append_left _ hmem)
        · rcases List.mem_cons.mp hmem with rfl | hmem
          · exact .inl (by simp)
          · exact .inr (List.mem_append_right _ hmem)
      · rw [List.mem_singleton.mp hx] at hy
        exact .inr (List.mem_append_left _ hy)
    rw [ih (List.append_subset.mpr ⟨hnext a hpending.1, hpending.2⟩)
      (List.append_subset.mpr ⟨hseen, by simpa using hpending.1⟩) htracked', reachedFrom_cons,
      List.mem_append, List.mem_singleton, or_assoc]

end

end Cirrove.Library
