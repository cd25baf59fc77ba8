import Mathlib.Data.List.Basic
import Mathlib.Data.List.Nodup
import Mathlib.Logic.Relation

/-!
# Depth-first traversal with an explicit stack

A traversal of a tree whose state is the path from the root to the node it is at, each node with
the number of children it has entered. `visits` are the states it passes, with the node it enters
where it enters one: every node is entered once and left once (`opened_visits`, `length_visits`),
and no state is passed twice (`visits_nodup`).

Trees are given by the children of each node and a bound on their depth.
-/

namespace Cirrove.Library

variable {α : Type*}

/-- A node on the path and how many of its children were entered. -/
structure Place (α : Type*) where
  node : α
  entered : Nat
  deriving DecidableEq, Repr

/-- The visits to the children of a node from the `i`-th on. -/
def turns (visit : List (Place α) → α → List (List (Place α) × Option α)) (path : List (Place α))
    (a : α) : Nat → List α → List (List (Place α) × Option α)
  | _, [] => []
  | i, c :: rest =>
    let here := path ++ [⟨a, i + 1⟩]
    (here ++ [⟨c, 0⟩], some c) :: (visit here c ++ (here, none) :: turns visit path a (i + 1) rest)

/-- The states below a node that was just entered. -/
def visits (children : α → List α) : Nat → List (Place α) → α → List (List (Place α) × Option α)
  | 0, _, _ => []
  | depth + 1, path, a => turns (visits children depth) path a 0 (children a)

/-- The nodes below a node, in the order in which they are entered. -/
def below (children : α → List α) : Nat → α → List α
  | 0, _ => []
  | depth + 1, a => (children a).flatMap fun c => c :: below children depth c

/-- A node with at most so many levels below it. -/
def Shallow (children : α → List α) : Nat → α → Prop
  | 0, a => children a = []
  | depth + 1, a => ∀ c ∈ children a, Shallow children depth c

section

variable (children : α → List α)

/-! ### Leaves -/

section

variable {children} {a : α}

theorem visits_leaf (h : children a = []) (depth : Nat) (path : List (Place α)) :
    visits children depth path a = [] := by
  cases depth with
  | zero => rfl
  | succ depth => rw [visits, h, turns]

theorem below_leaf (h : children a = []) (depth : Nat) : below children depth a = [] := by
  cases depth with
  | zero => rfl
  | succ depth => rw [below, h, List.flatMap_nil]

theorem shallow_leaf (h : children a = []) (depth : Nat) : Shallow children depth a := by
  cases depth with
  | zero => exact h
  | succ depth =>
    rw [Shallow, h]
    exact fun c hc => absurd hc List.not_mem_nil

end

/-! ### States -/

theorem opened_turns {visit : List (Place α) → α → List (List (Place α) × Option α)}
    {next : α → List α} (hvisit : ∀ path c, (visit path c).filterMap Prod.snd = next c)
    (path : List (Place α)) (a : α) (i : Nat) (rest : List α) :
    (turns visit path a i rest).filterMap Prod.snd = rest.flatMap fun c => c :: next c := by
  induction rest generalizing i with
  | nil => rfl
  | cons c rest ih => simp [turns, hvisit, ih]

theorem opened_visits (depth : Nat) (path : List (Place α)) (a : α) :
    (visits children depth path a).filterMap Prod.snd = below children depth a := by
  induction depth generalizing path a with
  | zero => rfl
  | succ depth ih => exact opened_turns (fun path c => ih path c) path a 0 (children a)

theorem length_turns {visit : List (Place α) → α → List (List (Place α) × Option α)}
    {next : α → List α} (hvisit : ∀ path c, (visit path c).length = 2 * (next c).length)
    (path : List (Place α)) (a : α) (i : Nat) (rest : List α) :
    (turns visit path a i rest).length = 2 * (rest.flatMap fun c => c :: next c).length := by
  induction rest generalizing i with
  | nil => rfl
  | cons c rest ih =>
    simp only [turns, List.length_cons, List.length_append, hvisit, ih, List.flatMap_cons]
    omega

/-- Every node below is entered and left. -/
theorem length_visits (depth : Nat) (path : List (Place α)) (a : α) :
    (visits children depth path a).length = 2 * (below children depth a).length := by
  induction depth generalizing path a with
  | zero => rfl
  | succ depth ih => exact length_turns (fun path c => ih path c) path a 0 (children a)

theorem turns_under {visit : List (Place α) → α → List (List (Place α) × Option α)}
    (hvisit : ∀ path c, ∀ v ∈ visit path c, ∃ entered rest, v.1 = path ++ ⟨c, entered + 1⟩ :: rest)
    {path : List (Place α)} {a : α} {i : Nat} {rest : List α} :
    ∀ v ∈ turns visit path a i rest, ∃ entered below, i ≤ entered ∧
      v.1 = path ++ ⟨a, entered + 1⟩ :: below := by
  induction rest generalizing i with
  | nil => simp [turns]
  | cons c rest ih =>
    intro v hv
    simp only [turns, List.mem_cons, List.mem_append] at hv
    rcases hv with rfl | hv | rfl | hv
    · exact ⟨i, [⟨c, 0⟩], Nat.le_refl i, by simp⟩
    · obtain ⟨entered, rest, hv⟩ := hvisit _ _ v hv
      exact ⟨i, _, Nat.le_refl i, by rw [hv, List.append_assoc]; rfl⟩
    · exact ⟨i, [], Nat.le_refl i, rfl⟩
    · obtain ⟨entered, below, hle, hv⟩ := ih v hv
      exact ⟨entered, below, by omega, hv⟩

/-- Every state of a visit is on a path through a child of its node. -/
theorem visits_under (depth : Nat) (path : List (Place α)) (a : α) :
    ∀ v ∈ visits children depth path a, ∃ entered rest, v.1 = path ++ ⟨a, entered + 1⟩ :: rest := by
  induction depth generalizing path a with
  | zero => simp [visits]
  | succ depth ih =>
    intro v hv
    obtain ⟨entered, below, -, hv⟩ := turns_under (fun path c => ih path c) v hv
    exact ⟨entered, below, hv⟩

theorem turns_nodup {visit : List (Place α) → α → List (List (Place α) × Option α)}
    (hunder : ∀ path c, ∀ v ∈ visit path c, ∃ entered rest, v.1 = path ++ ⟨c, entered + 1⟩ :: rest)
    (hvisit : ∀ path c, ((visit path c).map Prod.fst).Nodup)
    (path : List (Place α)) (a : α) (i : Nat) (rest : List α) :
    ((turns visit path a i rest).map Prod.fst).Nodup := by
  induction rest generalizing i with
  | nil => exact List.nodup_nil
  | cons c rest ih =>
    have hinside : ∀ s ∈ (visit (path ++ [⟨a, i + 1⟩]) c).map Prod.fst, ∃ entered rest,
        s = path ++ [⟨a, i + 1⟩] ++ ⟨c, entered + 1⟩ :: rest := by
      intro s hs
      obtain ⟨v, hv, rfl⟩ := List.mem_map.mp hs
      exact hunder _ _ v hv
    -- the later children count further
    have hlater : ∀ s ∈ (turns visit path a (i + 1) rest).map Prod.fst, ∃ entered below,
        i + 1 ≤ entered ∧ s = path ++ ⟨a, entered + 1⟩ :: below := by
      intro s hs
      obtain ⟨v, hv, rfl⟩ := List.mem_map.mp hs
      exact turns_under hunder v hv
    have hother : ∀ s below, s ∈ (turns visit path a (i + 1) rest).map Prod.fst →
        s ≠ path ++ ⟨a, i + 1⟩ :: below := by
      rintro s below hs rfl
      obtain ⟨entered, below', hle, heq⟩ := hlater _ hs
      have hsame := List.append_cancel_left heq
      simp only [List.cons.injEq, Place.mk.injEq] at hsame
      omega
    simp only [turns, List.map_cons, List.map_append, List.nodup_cons, List.nodup_append,
      List.mem_append, List.mem_cons]
    refine ⟨?_, hvisit _ _, ⟨?_, ih (i + 1)⟩, ?_⟩
    · rintro (hs | hs | hs)
      · obtain ⟨entered, rest', heq⟩ := hinside _ hs
        simp at heq
      · simp at hs
      · exact hother _ [⟨c, 0⟩] hs (by simp)
    · intro hs
      exact hother _ [] hs rfl
    · rintro s hs s' (rfl | hs') rfl
      · obtain ⟨entered, rest', heq⟩ := hinside _ hs
        simp at heq
      · obtain ⟨entered, rest', heq⟩ := hinside _ hs
        exact hother _ (⟨c, entered + 1⟩ :: rest') hs' (by rw [heq, List.append_assoc]; rfl)

/-- No state is passed twice. -/
theorem visits_nodup (depth : Nat) (path : List (Place α)) (a : α) :
    ((visits children depth path a).map Prod.fst).Nodup := by
  induction depth generalizing path a with
  | zero => exact List.nodup_nil
  | succ depth ih =>
    exact turns_nodup (visits_under children depth) (fun path c => ih path c) path a 0 (children a)

theorem turns_sublist {visit : List (Place α) → α → List (List (Place α) × Option α)}
    {next : α → List α} (hvisit : ∀ path c, ∀ v ∈ visit path c,
      (v.1.map Place.node).Sublist (path.map Place.node ++ c :: next c))
    (path : List (Place α)) (a : α) (i : Nat) (rest : List α) :
    ∀ v ∈ turns visit path a i rest, (v.1.map Place.node).Sublist
      (path.map Place.node ++ a :: rest.flatMap fun c => c :: next c) := by
  induction rest generalizing i with
  | nil => simp [turns]
  | cons c rest ih =>
    intro v hv
    simp only [turns, List.mem_cons, List.mem_append] at hv
    rcases hv with rfl | hv | rfl | hv
    · simp
    · have hinside := hvisit _ _ v hv
      rw [List.map_append, List.append_assoc] at hinside
      refine hinside.trans ((List.Sublist.refl _).append (List.Sublist.cons_cons a ?_))
      exact List.sublist_append_left _ _
    · simp
    · refine (ih (i + 1) v hv).trans ((List.Sublist.refl _).append (List.Sublist.cons_cons a ?_))
      exact List.sublist_append_right _ _

/-- The path of a state has its nodes in the order in which they are entered. -/
theorem visits_sublist (depth : Nat) (path : List (Place α)) (a : α) :
    ∀ v ∈ visits children depth path a,
      (v.1.map Place.node).Sublist (path.map Place.node ++ a :: below children depth a) := by
  induction depth generalizing path a with
  | zero => simp [visits]
  | succ depth ih => exact turns_sublist (fun path c => ih path c) path a 0 (children a)

theorem turns_length_le {visit : List (Place α) → α → List (List (Place α) × Option α)}
    {depth : Nat} (hvisit : ∀ path c, ∀ v ∈ visit path c, v.1.length ≤ path.length + 1 + depth)
    (path : List (Place α)) (a : α) (i : Nat) (rest : List α) :
    ∀ v ∈ turns visit path a i rest, v.1.length ≤ path.length + 1 + (depth + 1) := by
  induction rest generalizing i with
  | nil => simp [turns]
  | cons c rest ih =>
    intro v hv
    simp only [turns, List.mem_cons, List.mem_append] at hv
    rcases hv with rfl | hv | rfl | hv
    · simp only [List.length_append, List.length_singleton]
      omega
    · have hinside := hvisit _ _ v hv
      rw [List.length_append, List.length_singleton] at hinside
      omega
    · rw [List.length_append, List.length_singleton]
      omega
    · exact ih (i + 1) v hv

/-- No path is longer than the tree is deep. -/
theorem visits_length_le (depth : Nat) (path : List (Place α)) (a : α) :
    ∀ v ∈ visits children depth path a, v.1.length ≤ path.length + 1 + depth := by
  induction depth generalizing path a with
  | zero => simp [visits]
  | succ depth ih => exact turns_length_le (fun path c => ih path c) path a 0 (children a)

/-- A node below another is reached from it. -/
theorem mem_below {depth : Nat} {a b : α} (h : b ∈ below children depth a) :
    Relation.TransGen (fun x y => y ∈ children x) a b := by
  induction depth generalizing a with
  | zero => exact absurd h List.not_mem_nil
  | succ depth ih =>
    obtain ⟨c, hc, hb⟩ := List.mem_flatMap.mp h
    rcases List.mem_cons.mp hb with rfl | hb
    · exact .single hc
    · exact .head hc (ih hb)

/-- What is reached from a node with a bound on the levels below it has one as well. -/
theorem shallow_of_reached {depth : Nat} {a b : α} (h : Shallow children depth a)
    (hreach : Relation.ReflTransGen (fun x y => y ∈ children x) a b) :
    ∃ depth', Shallow children depth' b := by
  induction hreach using Relation.ReflTransGen.head_induction_on generalizing depth with
  | refl => exact ⟨depth, h⟩
  | @head a c hc _ ih =>
    cases depth with
    | zero =>
      have hnone : children a = [] := h
      rw [hnone] at hc
      exact absurd hc List.not_mem_nil
    | succ depth => exact ih (h c hc)

/-- A node below itself has no bound on the levels below it. -/
theorem not_shallow_of_cycle {a : α} (h : Relation.TransGen (fun x y => y ∈ children x) a a)
    (depth : Nat) : ¬ Shallow children depth a := by
  -- each step down the tree leaves one level less and comes no closer to a leaf
  have hevery : ∀ b, Relation.TransGen (fun x y => y ∈ children x) b a →
      ¬ Shallow children depth b := by
    induction depth with
    | zero =>
      intro b hb hnone
      have hnone : children b = [] := hnone
      obtain ⟨c, hc, -⟩ := Relation.TransGen.head'_iff.mp hb
      rw [hnone] at hc
      exact absurd hc List.not_mem_nil
    | succ depth ih =>
      intro b hb hshallow
      obtain ⟨c, hc, hreach⟩ := Relation.TransGen.head'_iff.mp hb
      rcases Relation.reflTransGen_iff_eq_or_transGen.mp hreach with heq | hreach
      · exact ih c (heq ▸ h) (hshallow c hc)
      · exact ih c hreach (hshallow c hc)
  exact hevery a h

end

end Cirrove.Library
