import Mathlib.Order.Basic

/-!
# Computations that commit

A transaction is a function in `Except`: when it fails nothing has happened. A computation
that performs several transactions one after the other keeps what it has committed when a
later one fails, or when its process dies. So it is a function to its answer and to the list of
states it has committed, in order.

`Triple P x I Q` is the rule of such computations: from a state with `P`, every state that `x`
commits satisfies `I`, and if `x` answers, the answer and the last state satisfy `Q`.
-/

namespace Cirrove.Library

universe u

/-- What a computation answers, and the states it commits. -/
structure Outcome (σ ε : Type*) (α : Type u) where
  result : Except ε α
  states : List σ

/-- A computation over states `σ` that answers or fails, and commits states on its way. -/
def Commits (σ ε : Type*) (α : Type u) := σ → Outcome σ ε α

/-- The state after a computation that began in `s`. -/
def Outcome.final {σ ε : Type*} {α : Type u} (o : Outcome σ ε α) (s : σ) : σ := o.states.getLastD s

namespace Commits

variable {σ ε : Type*} {α β : Type u}

instance : Monad (Commits σ ε) where
  pure a := fun _ => ⟨.ok a, []⟩
  bind x f := fun s =>
    let first := x s
    match first.result with
    | .error e => ⟨.error e, first.states⟩
    | .ok a =>
      let second := f a (first.final s)
      ⟨second.result, first.states ++ second.states⟩

/-- Perform a transaction; a failed one is rolled back. -/
def transaction (tx : σ → Except ε (α × σ)) : Commits σ ε α := fun s =>
  match tx s with
  | .ok (a, s') => ⟨.ok a, [s']⟩
  | .error e => ⟨.error e, []⟩

/-- A transaction without an answer. -/
def commit (tx : σ → Except ε σ) : Commits σ ε PUnit :=
  transaction (fun s => (tx s).map (fun s' => (⟨⟩, s')))

/-- Look at the state. -/
def read (f : σ → Except ε α) : Commits σ ε α := fun s => ⟨f s, []⟩

def fail (e : ε) : Commits σ ε α := fun _ => ⟨.error e, []⟩

/-- One computation for every element, until one fails. -/
def forEach {γ : Type*} (f : γ → Commits σ ε PUnit) : List γ → Commits σ ε PUnit
  | [] => pure ⟨⟩
  | a :: rest => do
    f a
    forEach f rest

/-! ## Pre- and postconditions -/

/-- From a state with `P` every committed state satisfies `I`, and an answer comes with `Q`. -/
def Triple (P : σ → Prop) (x : Commits σ ε α) (I : σ → Prop) (Q : α → σ → Prop) : Prop :=
  ∀ s, P s → (∀ m ∈ (x s).states, I m) ∧ ∀ a, (x s).result = .ok a → Q a ((x s).final s)

variable {P : σ → Prop} {I : σ → Prop} {Q : α → σ → Prop} {x : Commits σ ε α}

theorem triple_pure {a : α} (h : ∀ s, P s → Q a s) :
    Triple P (pure a : Commits σ ε α) I Q := by
  intro s hs
  refine ⟨fun m hm => absurd hm List.not_mem_nil, ?_⟩
  intro b hb
  cases hb
  exact h s hs

theorem triple_read {f : σ → Except ε α} (h : ∀ s, P s → ∀ a, f s = .ok a → Q a s) :
    Triple P (read f) I Q := by
  intro s hs
  exact ⟨fun m hm => absurd hm List.not_mem_nil, fun a ha => h s hs a ha⟩

theorem triple_fail (e : ε) : Triple P (fail e : Commits σ ε α) I Q := by
  intro s _
  refine ⟨fun m hm => absurd hm List.not_mem_nil, ?_⟩
  intro a ha
  cases ha

theorem triple_transaction {tx : σ → Except ε (α × σ)}
    (h : ∀ s, P s → ∀ a s', tx s = .ok (a, s') → I s' ∧ Q a s') :
    Triple P (transaction tx) I Q := by
  intro s hs
  unfold transaction
  cases htx : tx s with
  | error e =>
    refine ⟨fun m hm => absurd hm List.not_mem_nil, ?_⟩
    intro a ha
    cases ha
  | ok answer =>
    obtain ⟨hI, hQ⟩ := h s hs answer.1 answer.2 htx
    constructor
    · intro m hm
      rw [List.mem_singleton.mp hm]
      exact hI
    · intro a ha
      cases ha
      exact hQ

theorem triple_commit {tx : σ → Except ε σ} {Q : PUnit → σ → Prop}
    (h : ∀ s, P s → ∀ s', tx s = .ok s' → I s' ∧ Q ⟨⟩ s') : Triple P (commit tx) I Q := by
  apply triple_transaction
  intro s hs a s' htx
  cases hresult : tx s with
  | error e =>
    rw [hresult] at htx
    cases htx
  | ok s₁ =>
    rw [hresult] at htx
    cases htx
    exact h s hs _ hresult

/-- One after the other. -/
theorem triple_bind {f : α → Commits σ ε β} {R : β → σ → Prop} (hx : Triple P x I Q)
    (hf : ∀ a, Triple (Q a) (f a) I R) : Triple P (x >>= f) I R := by
  intro s hs
  obtain ⟨hstates, hanswer⟩ := hx s hs
  change (∀ m ∈ (match (x s).result with
    | .error e => (⟨.error e, (x s).states⟩ : Outcome σ ε β)
    | .ok a => ⟨(f a ((x s).final s)).result,
        (x s).states ++ (f a ((x s).final s)).states⟩).states, I m) ∧
    ∀ b, (match (x s).result with
    | .error e => (⟨.error e, (x s).states⟩ : Outcome σ ε β)
    | .ok a => ⟨(f a ((x s).final s)).result,
        (x s).states ++ (f a ((x s).final s)).states⟩).result = .ok b →
      R b (Outcome.final (match (x s).result with
    | .error e => (⟨.error e, (x s).states⟩ : Outcome σ ε β)
    | .ok a => ⟨(f a ((x s).final s)).result,
        (x s).states ++ (f a ((x s).final s)).states⟩) s)
  cases hresult : (x s).result with
  | error e =>
    refine ⟨hstates, ?_⟩
    intro b hb
    cases hb
  | ok a =>
    obtain ⟨hlater, hlast⟩ := hf a _ (hanswer a hresult)
    constructor
    · intro m hm
      rcases List.mem_append.mp hm with hfirst | hsecond
      · exact hstates m hfirst
      · exact hlater m hsecond
    · intro b hb
      have hfinal := hlast b hb
      simpa [Outcome.final, List.getLastD_eq_getLast?, List.getLast?_append,
        Option.getD_or] using hfinal

/-- A stronger start, and weaker answers. -/
theorem triple_consequence {P' : σ → Prop} {I' : σ → Prop} {Q' : α → σ → Prop}
    (h : Triple P x I Q) (hP : ∀ s, P' s → P s) (hI : ∀ s, I s → I' s)
    (hQ : ∀ a s, Q a s → Q' a s) : Triple P' x I' Q' := by
  intro s hs
  obtain ⟨hstates, hanswer⟩ := h s (hP s hs)
  exact ⟨fun m hm => hI m (hstates m hm), fun a ha => hQ a _ (hanswer a ha)⟩

/-- A loop whose invariant speaks of the elements that are left. -/
theorem triple_forEach_rest {γ : Type*} {f : γ → Commits σ ε PUnit} {J : List γ → σ → Prop}
    (h : ∀ a rest, Triple (J (a :: rest)) (f a) I (fun _ => J rest)) (rows : List γ) :
    Triple (J rows) (forEach f rows) I (fun _ => J []) := by
  induction rows with
  | nil => exact triple_pure (fun _ hs => hs)
  | cons a rest ih =>
    apply triple_bind (h a rest)
    intro _
    exact ih

/-- A loop keeps its invariant. -/
theorem triple_forEach {γ : Type*} {f : γ → Commits σ ε PUnit} {J : σ → Prop} (rows : List γ)
    (h : ∀ a ∈ rows, Triple J (f a) I (fun _ => J)) :
    Triple J (forEach f rows) I (fun _ => J) := by
  induction rows with
  | nil => exact triple_pure (fun _ hs => hs)
  | cons a rest ih =>
    apply triple_bind (h a List.mem_cons_self)
    intro _
    exact ih (fun b hb => h b (List.mem_cons_of_mem _ hb))

/-! ## Failures -/

/-- From a state with `P` a computation that fails ends in a state with `E`. -/
def Fails (P : σ → Prop) (x : Commits σ ε α) (E : σ → Prop) : Prop :=
  ∀ s, P s → ∀ e, (x s).result = .error e → E ((x s).final s)

/-- The state after a computation is the first one or one that was committed. -/
theorem final_of_states {s : σ} (hs : I s) (h : ∀ m ∈ (x s).states, I m) :
    I ((x s).final s) := by
  unfold Outcome.final
  rw [List.getLastD_eq_getLast?]
  cases hlast : (x s).states.getLast? with
  | none => exact hs
  | some m => exact h m (List.mem_of_getLast? hlast)

/-- A computation that fails ends the one it begins. -/
theorem bind_of_error {f : α → Commits σ ε β} {s : σ} {e : ε} (h : (x s).result = .error e) :
    (x >>= f) s = ⟨.error e, (x s).states⟩ := by
  show (match (x s).result with
    | .error e => (⟨.error e, (x s).states⟩ : Outcome σ ε β)
    | .ok a => ⟨(f a ((x s).final s)).result,
        (x s).states ++ (f a ((x s).final s)).states⟩) = _
  rw [h]

theorem bind_of_ok {f : α → Commits σ ε β} {s : σ} {a : α} (h : (x s).result = .ok a) :
    (x >>= f) s = ⟨(f a ((x s).final s)).result,
      (x s).states ++ (f a ((x s).final s)).states⟩ := by
  show (match (x s).result with
    | .error e => (⟨.error e, (x s).states⟩ : Outcome σ ε β)
    | .ok a => ⟨(f a ((x s).final s)).result,
        (x s).states ++ (f a ((x s).final s)).states⟩) = _
  rw [h]

theorem fails_bind {f : α → Commits σ ε β} {E : σ → Prop} (hx : Triple P x I Q)
    (hfirst : Fails P x E) (hrest : ∀ a, Fails (Q a) (f a) E) : Fails P (x >>= f) E := by
  intro s hs e he
  cases hresult : (x s).result with
  | error e' =>
    rw [bind_of_error hresult]
    exact hfirst s hs e' hresult
  | ok a =>
    rw [bind_of_ok hresult] at he ⊢
    have hfinal := hrest a _ ((hx s hs).2 a hresult) e he
    simpa [Outcome.final, List.getLastD_eq_getLast?, List.getLast?_append,
      Option.getD_or] using hfinal

/-! ## Both -/

/-- A triple, and what holds after a failure. -/
def Contract (P : σ → Prop) (x : Commits σ ε α) (I : σ → Prop) (Q : α → σ → Prop)
    (E : σ → Prop) : Prop := Triple P x I Q ∧ Fails P x E

variable {E : σ → Prop}

theorem contract_pure {a : α} (h : ∀ s, P s → Q a s) :
    Contract P (pure a : Commits σ ε α) I Q E := by
  refine ⟨triple_pure h, ?_⟩
  intro s _ e he
  cases he

theorem contract_read {f : σ → Except ε α} (h : ∀ s, P s → ∀ a, f s = .ok a → Q a s)
    (hE : ∀ s, P s → E s) : Contract P (read f) I Q E :=
  ⟨triple_read h, fun s hs _ _ => hE s hs⟩

theorem contract_fail {e : ε} (hE : ∀ s, P s → E s) :
    Contract P (fail e : Commits σ ε α) I Q E :=
  ⟨triple_fail e, fun s hs _ _ => hE s hs⟩

/-- A transaction that fails is rolled back. -/
theorem contract_transaction {tx : σ → Except ε (α × σ)}
    (h : ∀ s, P s → ∀ a s', tx s = .ok (a, s') → I s' ∧ Q a s') (hE : ∀ s, P s → E s) :
    Contract P (transaction tx) I Q E := by
  refine ⟨triple_transaction h, ?_⟩
  intro s hs e he
  unfold transaction at he ⊢
  cases htx : tx s with
  | error e' =>
    rw [htx] at he
    exact hE s hs
  | ok answer =>
    rw [htx] at he
    cases he

theorem contract_commit {tx : σ → Except ε σ} {Q : PUnit → σ → Prop}
    (h : ∀ s, P s → ∀ s', tx s = .ok s' → I s' ∧ Q ⟨⟩ s') (hE : ∀ s, P s → E s) :
    Contract P (commit tx) I Q E :=
  ⟨triple_commit h, (contract_transaction (Q := fun _ _ => True) (I := fun _ => True)
    (fun _ _ _ _ _ => ⟨trivial, trivial⟩) hE).2⟩

theorem contract_bind {f : α → Commits σ ε β} {R : β → σ → Prop} (hx : Contract P x I Q E)
    (hf : ∀ a, Contract (Q a) (f a) I R E) : Contract P (x >>= f) I R E :=
  ⟨triple_bind hx.1 (fun a => (hf a).1), fails_bind hx.1 hx.2 (fun a => (hf a).2)⟩

/-- A triple whose committed states say enough. -/
theorem Triple.contract (h : Triple P x I Q) (hstart : ∀ s, P s → E s) (hI : ∀ s, I s → E s) :
    Contract P x I Q E :=
  ⟨h, fun s hs _ _ => final_of_states (hstart s hs) (fun m hm => hI m ((h s hs).1 m hm))⟩

end Commits

end Cirrove.Library
