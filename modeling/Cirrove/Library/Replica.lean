import Mathlib.Data.List.Induction

/-!
# Replicas fed by a listing and a log

A replica of a keyed collection that changes while it is read. The collection is a partial
function and a log of the keys that were changed; the replica is built from updates, each
of which says what one key held when it was read.

Two invariants carry a replica to the collection:

- `Scanned`: during the listing, what the replica says about a key that has not changed
  since position `p` of the log is right, and it says something about every key shown;
- `CaughtUp`: the replica is right about every key that has not changed since `p`.

Both survive changes of the collection, because a changed key is logged. A listing that has
shown every unchanged key ends in `CaughtUp`, updates that cover a stretch of the log move
it along, and at the end of the log the replica is the collection.
-/

namespace Cirrove.Library.Replica

variable {K V : Type*} [DecidableEq K]

/-! ## Updates -/

/-- What one key holds. -/
abbrev Update (K V : Type*) := K × Option V

/-- Apply updates in order; the last one of a key wins. -/
def fold (m : K → Option V) (updates : List (Update K V)) : K → Option V :=
  updates.foldl (fun m u => Function.update m u.1 u.2) m

@[simp]
theorem fold_nil (m : K → Option V) : fold m [] = m := rfl

theorem fold_append (m : K → Option V) (a b : List (Update K V)) :
    fold m (a ++ b) = fold (fold m a) b := List.foldl_append

/-- Updates of a column. -/
theorem fold_map {W : Type*} (f : V → W) (m : K → Option V) (updates : List (Update K V)) (k : K) :
    fold (fun k => (m k).map f) (updates.map fun u => (u.1, u.2.map f)) k =
      (fold m updates k).map f := by
  unfold fold
  induction updates generalizing m with
  | nil => rfl
  | cons u rest ih =>
    have hupdate : Function.update (fun k => (m k).map f) u.1 (u.2.map f) =
        fun k => (Function.update m u.1 u.2 k).map f := by
      funext k'
      by_cases hk : k' = u.1
      · rw [hk, Function.update_self, Function.update_self]
      · rw [Function.update_of_ne hk, Function.update_of_ne hk]
    rw [List.map_cons, List.foldl_cons, List.foldl_cons, ← ih]
    exact congrFun (congrArg (List.foldl _ · _) hupdate) k

theorem fold_of_not_mem (m : K → Option V) {updates : List (Update K V)} {k : K}
    (h : k ∉ updates.map Prod.fst) : fold m updates k = m k := by
  unfold fold
  induction updates generalizing m with
  | nil => rfl
  | cons u rest ih =>
    simp only [List.map_cons, List.mem_cons, not_or] at h
    rw [List.foldl_cons, ih _ h.2, Function.update_of_ne h.1]

/-- A key whose updates all say the same holds that afterwards. -/
theorem fold_of_mem (m : K → Option V) {updates : List (Update K V)} {k : K} {v : Option V}
    (hsame : ∀ u ∈ updates, u.1 = k → u.2 = v) (h : k ∈ updates.map Prod.fst) :
    fold m updates k = v := by
  unfold fold
  induction updates generalizing m with
  | nil => cases h
  | cons u rest ih =>
    rw [List.foldl_cons]
    by_cases hrest : k ∈ rest.map Prod.fst
    · exact ih _ (fun u hu => hsame u (List.mem_cons_of_mem _ hu)) hrest
    · -- The first update is the last one of the key.
      have hu : u.1 = k := by
        rcases List.mem_cons.mp h with heq | hmem
        · exact heq.symm
        · exact absurd hmem hrest
      have hkeep := fold_of_not_mem (Function.update m u.1 u.2) hrest
      unfold fold at hkeep
      rw [hkeep, hu, Function.update_self]
      exact hsame u List.mem_cons_self hu

/-- What a key holds afterwards is what it held, or one of its updates says it. -/
theorem fold_cases (m : K → Option V) (updates : List (Update K V)) (k : K) :
    (k ∉ updates.map Prod.fst ∧ fold m updates k = m k) ∨
      ∃ u ∈ updates, u.1 = k ∧ fold m updates k = u.2 := by
  induction updates using List.reverseRecOn with
  | nil => exact .inl ⟨by simp, rfl⟩
  | append_singleton rest u ih =>
    rw [fold_append]
    by_cases hu : u.1 = k
    · refine .inr ⟨u, by simp, hu, ?_⟩
      rw [← hu]
      exact Function.update_self _ _ _
    · have hkeep : fold (fold m rest) [u] k = fold m rest k :=
        Function.update_of_ne (Ne.symm hu) _ _
      rw [hkeep]
      rcases ih with ⟨hmem, heq⟩ | ⟨u', hu', hk, heq⟩
      · refine .inl ⟨?_, heq⟩
        rw [List.map_append, List.mem_append, not_or]
        exact ⟨hmem, by simpa using Ne.symm hu⟩
      · exact .inr ⟨u', List.mem_append_left _ hu', hk, heq⟩

/-- A key is right afterwards if it is updated with the right value or was right and all its
    updates are. -/
theorem fold_eq {m : K → Option V} {updates : List (Update K V)} {k : K} {v : Option V}
    (hsame : ∀ u ∈ updates, u.1 = k → u.2 = v)
    (h : k ∈ updates.map Prod.fst ∨ m k = v) : fold m updates k = v := by
  by_cases hmem : k ∈ updates.map Prod.fst
  · exact fold_of_mem m hsame hmem
  · rw [fold_of_not_mem m hmem]
    exact h.resolve_left hmem

/-! ## The collection -/

/-- The collection moved on: every key that holds something else was logged. -/
structure Moved (view : K → Option V) (log : List K) (view' : K → Option V) (log' : List K) :
    Prop where
  extended : ∃ more, log' = log ++ more
  logged : ∀ k, k ∉ log'.drop log.length → view' k = view k

variable {view view' : K → Option V} {log log' : List K} {m : K → Option V} {p q : Nat}

omit [DecidableEq K] in
/-- A key that was not changed since `p` was not changed before, nor by the move. -/
theorem Moved.unchanged (h : Moved view log view' log') (hp : p ≤ log.length) {k : K}
    (hk : k ∉ log'.drop p) : k ∉ log.drop p ∧ view' k = view k := by
  obtain ⟨more, rfl⟩ := h.extended
  rw [List.drop_append_of_le_length hp, List.mem_append, not_or] at hk
  exact ⟨hk.1, h.logged k (by rw [List.drop_left]; exact hk.2)⟩

omit [DecidableEq K] in
/-- A stretch of the log stays what it is. -/
theorem Moved.stretch (h : Moved view log view' log') (hpq : p ≤ q) (hq : q ≤ log.length) :
    (log'.drop p).take (q - p) = (log.drop p).take (q - p) := by
  obtain ⟨more, rfl⟩ := h.extended
  rw [List.drop_append_of_le_length (Nat.le_trans hpq hq),
    List.take_append_of_le_length (by rw [List.length_drop]; omega)]

omit [DecidableEq K] in
theorem Moved.length_le (h : Moved view log view' log') : log.length ≤ log'.length := by
  obtain ⟨more, rfl⟩ := h.extended
  simp

omit [DecidableEq K] in
theorem Moved.refl (view : K → Option V) (log : List K) : Moved view log view log :=
  ⟨⟨[], by simp⟩, fun _ _ => rfl⟩

omit [DecidableEq K] in
theorem Moved.trans {view'' : K → Option V} {log'' : List K} (h : Moved view log view' log')
    (h' : Moved view' log' view'' log'') : Moved view log view'' log'' := by
  refine ⟨?_, ?_⟩
  · obtain ⟨a, rfl⟩ := h.extended
    obtain ⟨b, rfl⟩ := h'.extended
    exact ⟨a ++ b, by simp⟩
  · intro k hk
    obtain ⟨hk', heq⟩ := h'.unchanged h.length_le hk
    exact heq.trans (h.logged k hk')

/-! ## Catching up -/

/-- The replica is right about every key that has not changed since `p`. -/
def CaughtUp (view : K → Option V) (log : List K) (p : Nat) (m : K → Option V) : Prop :=
  ∀ k, k ∉ log.drop p → m k = view k

omit [DecidableEq K] in
theorem CaughtUp.moved (h : CaughtUp view log p m) (hp : p ≤ log.length)
    (hmoved : Moved view log view' log') : CaughtUp view' log' p m := by
  intro k hk
  obtain ⟨hk', heq⟩ := hmoved.unchanged hp hk
  rw [heq]
  exact h k hk'

omit [DecidableEq K] in
theorem CaughtUp.mono (h : CaughtUp view log p m) (hq : q ≤ p) : CaughtUp view log q m := by
  intro k hk
  apply h k
  intro hmem
  obtain ⟨d, rfl⟩ := Nat.exists_eq_add_of_le hq
  rw [← List.drop_drop] at hmem
  exact hk (List.mem_of_mem_drop hmem)

/-- Updates that cover the log from `p` to `q` and are right where nothing changed since `q`
    move the replica along. -/
theorem CaughtUp.advance (h : CaughtUp view log p m) {updates : List (Update K V)}
    (hright : ∀ u ∈ updates, u.1 ∉ log.drop q → u.2 = view u.1)
    (hcovers : ∀ k ∈ (log.drop p).take (q - p), k ∈ updates.map Prod.fst ∨ m k = view k)
    (hpq : p ≤ q) : CaughtUp view log q (fold m updates) := by
  intro k hk
  apply fold_eq
  · intro u hu heq
    rw [hright u hu (heq ▸ hk), heq]
  · by_cases hp : k ∈ log.drop p
    · apply hcovers
      -- The rest of the log is what lies behind `q`.
      have hsplit := List.take_append_drop (q - p) (log.drop p)
      rw [← hsplit, List.drop_drop, Nat.add_sub_cancel' hpq, List.mem_append] at hp
      exact hp.resolve_right hk
    · exact .inr (h k hp)

omit [DecidableEq K] in
/-- At the end of the log the replica is the collection. -/
theorem CaughtUp.exact (h : CaughtUp view log log.length m) : m = view := by
  funext k
  exact h k (by simp)

/-! ## The listing -/

/-- During a listing: what is said about an unchanged key is right, and an unchanged key that
    was shown is there if the collection has it. -/
structure Scanned (view : K → Option V) (log : List K) (p : Nat) (shown : K → Prop)
    (m : K → Option V) : Prop where
  right : ∀ k, k ∉ log.drop p → ∀ v, m k = some v → view k = some v
  present : ∀ k, k ∉ log.drop p → shown k → ∀ v, view k = some v → m k = some v

variable {shown shown' : K → Prop}

omit [DecidableEq K] in
theorem Scanned.empty (view : K → Option V) (log : List K) (p : Nat) :
    Scanned view log p (fun _ => False) (fun _ => none) where
  right := by
    intro k _ v h
    cases h
  present := by
    intro k _ h
    cases h

omit [DecidableEq K] in
theorem Scanned.mono (h : Scanned view log p shown m) (hshown : ∀ k, shown' k → shown k) :
    Scanned view log p shown' m where
  right := h.right
  present := fun k hk hs => h.present k hk (hshown k hs)

omit [DecidableEq K] in
theorem Scanned.moved (h : Scanned view log p shown m) (hp : p ≤ log.length)
    (hmoved : Moved view log view' log') : Scanned view' log' p shown m where
  right := by
    intro k hk v hv
    obtain ⟨hk', heq⟩ := hmoved.unchanged hp hk
    rw [heq]
    exact h.right k hk' v hv
  present := by
    intro k hk hshown v hv
    obtain ⟨hk', heq⟩ := hmoved.unchanged hp hk
    rw [heq] at hv
    exact h.present k hk' hshown v hv

/-- A page shows more keys. Where nothing changed its updates are right, and what it shows
    without an update the collection does not have. -/
theorem Scanned.page (h : Scanned view log p shown m) {updates : List (Update K V)}
    (hright : ∀ u ∈ updates, u.1 ∉ log.drop p → u.2 = view u.1)
    (hshown : ∀ k, k ∉ log.drop p → shown' k →
      shown k ∨ k ∈ updates.map Prod.fst ∨ view k = none) :
    Scanned view log p shown' (fold m updates) where
  right := by
    intro k hk v hv
    by_cases hmem : k ∈ updates.map Prod.fst
    · rw [fold_of_mem m (fun u hu heq => by rw [hright u hu (heq ▸ hk), heq]) hmem] at hv
      exact hv
    · rw [fold_of_not_mem m hmem] at hv
      exact h.right k hk v hv
  present := by
    intro k hk hs v hv
    apply fold_eq
    · intro u hu heq
      rw [hright u hu (heq ▸ hk), heq, hv]
    · rcases hshown k hk hs with hold | hnew | hnone
      · exact .inr (h.present k hk hold v hv)
      · exact .inl hnew
      · rw [hnone] at hv
        cases hv

omit [DecidableEq K] in
/-- A listing that has shown every unchanged key is caught up with its start. -/
theorem Scanned.caughtUp (h : Scanned view log p shown m)
    (hall : ∀ k, k ∉ log.drop p → (view k).isSome → shown k) : CaughtUp view log p m := by
  intro k hk
  cases hview : view k with
  | some v => exact h.present k hk (hall k hk (by rw [hview]; rfl)) v hview
  | none =>
    cases hm : m k with
    | none => rfl
    | some v =>
      rw [h.right k hk v hm] at hview
      cases hview

end Cirrove.Library.Replica
