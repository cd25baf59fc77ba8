import Mathlib.Data.List.Forall2
import Mathlib.Order.Basic

/-!
# Runs of a deterministic machine

A machine is a step function, an event per step. `Run` is any finite sequence of
events in which every event is allowed in the state it happens in, so that one
step function serves unrestricted runs (`allowed` is what the callers promise)
and restricted ones (`allowed` also rules some steps out).

A step that may fail is a transaction in `Except`; `bind_eq_ok` takes one apart.

`Run.invariant` is the only induction over runs: an invariant is proved for the
start and for one allowed step.
-/

namespace Cirrove.Library

universe v

/-! ## Transactions -/

/-- A transaction that commits has run all of its parts. -/
theorem bind_eq_ok {ε : Type*} {α β : Type v} {x : Except ε α} {f : α → Except ε β} {b : β}
    (h : (x >>= f) = .ok b) : ∃ a, x = .ok a ∧ f a = .ok b := by
  cases x with
  | error e => cases h
  | ok a => exact ⟨a, rfl, h⟩

/-- A traversal that commits has one result for each element, in order. -/
theorem mapM_eq_ok {ε : Type*} {α β : Type v} {f : α → Except ε β} {as : List α} {bs : List β}
    (h : as.mapM f = .ok bs) : List.Forall₂ (fun a b => f a = .ok b) as bs := by
  induction as generalizing bs with
  | nil =>
    cases h
    exact .nil
  | cons a as ih =>
    rw [List.mapM_cons] at h
    obtain ⟨b, hb, h⟩ := bind_eq_ok h
    obtain ⟨rest, hrest, h⟩ := bind_eq_ok h
    cases h
    exact .cons hb (ih hrest)

/-- A traversal every part of which commits commits. -/
theorem mapM_total {ε : Type*} {α β : Type v} {f : α → Except ε β} {as : List α}
    (h : ∀ a ∈ as, ∃ b, f a = .ok b) : ∃ bs, as.mapM f = .ok bs := by
  induction as with
  | nil => exact ⟨[], rfl⟩
  | cons a as ih =>
    obtain ⟨b, hb⟩ := h a List.mem_cons_self
    obtain ⟨bs, hbs⟩ := ih fun x hx => h x (List.mem_cons_of_mem _ hx)
    refine ⟨b :: bs, ?_⟩
    rw [List.mapM_cons, hb, hbs]
    rfl

/-- The results are those of a function when each of them is. -/
theorem eq_map_of_mapM_eq_ok {ε : Type*} {α β : Type v} {f : α → Except ε β} {g : α → β}
    {as : List α} {bs : List β} (h : as.mapM f = .ok bs)
    (hg : ∀ a ∈ as, ∀ b, f a = .ok b → b = g a) : bs = as.map g := by
  have hall := mapM_eq_ok h
  clear h
  induction hall with
  | nil => rfl
  | cons hab _ ih =>
    rw [List.map_cons, ← hg _ List.mem_cons_self _ hab,
      ← ih fun a ha => hg a (List.mem_cons_of_mem _ ha)]

theorem mapM_eq_ok_map {ε : Type*} {α β : Type v} {f : α → Except ε β} {g : α → β} {as : List α}
    (h : ∀ a ∈ as, f a = .ok (g a)) : as.mapM f = .ok (as.map g) := by
  obtain ⟨bs, hbs⟩ := mapM_total fun a ha => ⟨_, h a ha⟩
  rw [hbs, eq_map_of_mapM_eq_ok hbs fun a ha b hb => Except.ok.inj (hb.symm.trans (h a ha))]

/-- Every result of a traversal comes from an element. -/
theorem mem_of_mapM_eq_ok {ε : Type*} {α β : Type v} {f : α → Except ε β} {as : List α}
    {bs : List β} (h : as.mapM f = .ok bs) {b : β} (hb : b ∈ bs) : ∃ a ∈ as, f a = .ok b := by
  have hall := mapM_eq_ok h
  clear h
  induction hall with
  | nil => cases hb
  | cons hab _ ih =>
    rcases List.mem_cons.mp hb with rfl | hb
    · exact ⟨_, List.mem_cons_self, hab⟩
    · obtain ⟨a, ha, heq⟩ := ih hb
      exact ⟨a, List.mem_cons_of_mem _ ha, heq⟩

/-- Every element of a traversal has a result. -/
theorem exists_of_mapM_eq_ok {ε : Type*} {α β : Type v} {f : α → Except ε β} {as : List α}
    {bs : List β} (h : as.mapM f = .ok bs) {a : α} (ha : a ∈ as) : ∃ b ∈ bs, f a = .ok b := by
  have hall := mapM_eq_ok h
  clear h
  induction hall with
  | nil => cases ha
  | cons hab _ ih =>
    rcases List.mem_cons.mp ha with rfl | ha
    · exact ⟨_, List.mem_cons_self, hab⟩
    · obtain ⟨b, hb, heq⟩ := ih ha
      exact ⟨b, List.mem_cons_of_mem _ hb, heq⟩

/-! ## Runs -/

variable {State Event : Type*}

/-- `Run step allowed start events s`: performing `events` from `start` ends in `s`,
    and each of them is allowed in the state it is performed in. -/
inductive Run (step : State → Event → State) (allowed : State → Event → Prop)
    (start : State) : List Event → State → Prop where
  /-- Nothing has happened yet. -/
  | start : Run step allowed start [] start
  /-- One more event. -/
  | next {events : List Event} {s : State} {e : Event} :
      Run step allowed start events s → allowed s e →
      Run step allowed start (events ++ [e]) (step s e)

namespace Run

variable {step : State → Event → State} {allowed : State → Event → Prop} {start s : State}
  {events : List Event}

/-- What holds at the start and is kept by every allowed step holds after every run. -/
theorem invariant (Inv : State → Prop) (h : Run step allowed start events s)
    (hstart : Inv start)
    (hstep : ∀ s e, Inv s → allowed s e → Inv (step s e)) : Inv s := by
  induction h with
  | start => exact hstart
  | next _ hallowed ih => exact hstep _ _ ih hallowed

/-- A run in which more was ruled out is a run. -/
theorem weaken {allowed' : State → Event → Prop} (h : Run step allowed start events s)
    (himp : ∀ s e, allowed s e → allowed' s e) : Run step allowed' start events s := by
  induction h with
  | start => exact .start
  | next _ hallowed ih => exact .next ih (himp _ _ hallowed)

/-- What does not hold at first and holds in the end begins to hold at some event. -/
theorem gained {P : State → Prop} (h : Run step allowed start events s) (hstart : ¬ P start)
    (hs : P s) : ∃ before e after v, events = before ++ e :: after ∧
      Run step allowed start before v ∧ allowed v e ∧ ¬ P v ∧ P (step v e) := by
  induction h with
  | start => exact absurd hs hstart
  | @next events v e hrun hallowed ih =>
    by_cases hv : P v
    · obtain ⟨before, e', after, u, rfl, hu⟩ := ih hv
      exact ⟨before, e', after ++ [e], u, by simp, hu⟩
    · exact ⟨events, e, [], v, rfl, hrun, hallowed, hv, hs⟩

/-- Every event of a list is allowed when it is its turn. -/
def Follows (step : State → Event → State) (allowed : State → Event → Prop) :
    State → List Event → Prop
  | _, [] => True
  | s, e :: rest => allowed s e ∧ Follows step allowed (step s e) rest

/-- Events that two promises allow one after the other. -/
theorem Follows.and {allowed' : State → Event → Prop} {more : List Event}
    (h : Follows step allowed s more) (h' : Follows step allowed' s more) :
    Follows step (fun s e => allowed s e ∧ allowed' s e) s more := by
  induction more generalizing s with
  | nil => trivial
  | cons e rest ih => exact ⟨⟨h.1, h'.1⟩, ih h.2 h'.2⟩

/-- Every event of a list passes a check when it is its turn. -/
def passes (step : State → Event → State) (check : State → Event → Bool) :
    State → List Event → Bool
  | _, [] => true
  | s, e :: rest => check s e && passes step check (step s e) rest

/-- Events that pass a check are allowed where the check stands for that. -/
theorem Follows.of_passes {check : State → Event → Bool} {more : List Event}
    (hcheck : ∀ s e, check s e = true → allowed s e) (h : passes step check s more = true) :
    Follows step allowed s more := by
  induction more generalizing s with
  | nil => trivial
  | cons e rest ih =>
    rw [passes, Bool.and_eq_true] at h
    exact ⟨hcheck s e h.1, ih h.2⟩

/-- A run goes on with any events that are allowed one after the other. -/
theorem extend {more : List Event} (h : Run step allowed start events s)
    (hfollows : Follows step allowed s more) :
    Run step allowed start (events ++ more) (more.foldl step s) := by
  induction more generalizing events s with
  | nil =>
    rw [List.append_nil]
    exact h
  | cons e rest ih =>
    have hnext := ih (h.next hfollows.1) hfollows.2
    rw [List.append_assoc] at hnext
    exact hnext

end Run

end Cirrove.Library
