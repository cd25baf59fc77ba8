import Mathlib.Order.Basic

/-!
# Interrupted computations

A computation over a state in steps, each of which may report an error, or end the whole process,
before or after it took effect. `Ends` is the weakest precondition: whatever the faults are, the
computation ends as the postcondition says. There is one rule for each way to compose, and the
rule for a step asks for what may be seen before it and after it.
-/

namespace Cirrove.Library

/-- What happens to a step. -/
inductive Fault where
  | fine
  | error (effect : Bool)
  | death (effect : Bool)
  deriving DecidableEq, Repr

/-- How a computation ends. -/
inductive Ended (ε α : Type) where
  | ok (a : α)
  | error (e : ε)
  | died

/-- A computation takes the faults of its steps in turn. Without any the steps are fine. -/
def Faulty (σ ε α : Type) : Type := List Fault → σ → Ended ε α × List Fault × σ

namespace Faulty

variable {σ ε α β : Type}

instance : Monad (Faulty σ ε) where
  pure a := fun faults s => (.ok a, faults, s)
  bind m f := fun faults s =>
    match m faults s with
    | (.ok a, faults, s) => f a faults s
    | (.error e, rest) => (.error e, rest)
    | (.died, rest) => (.died, rest)

def fail (e : ε) : Faulty σ ε α := fun faults s => (.error e, faults, s)

/-- A step, and the error it reports when it fails. -/
def step (e : ε) (f : σ → α × σ) : Faulty σ ε α := fun faults s =>
  match faults with
  | [] => (.ok (f s).1, [], (f s).2)
  | .fine :: faults => (.ok (f s).1, faults, (f s).2)
  | .error effect :: faults => (.error e, faults, if effect then (f s).2 else s)
  | .death effect :: faults => (.died, faults, if effect then (f s).2 else s)

/-- What the process knows without a step. -/
def look (f : σ → α) : Faulty σ ε α := fun faults s => (.ok (f s), faults, s)

def assign (f : σ → σ) : Faulty σ ε Unit := fun faults s => (.ok (), faults, f s)

/-- An error is a result; the end of the process is not. -/
def attempt (m : Faulty σ ε α) : Faulty σ ε (Except ε α) := fun faults s =>
  match m faults s with
  | (.ok a, rest) => (.ok (.ok a), rest)
  | (.error e, rest) => (.ok (.error e), rest)
  | (.died, rest) => (.died, rest)

def ofExcept : Except ε α → Faulty σ ε α
  | .ok a => pure a
  | .error e => fail e

/-- Whatever the faults: the computation ends as `post` says. -/
structure Ends (m : Faulty σ ε α) (s : σ) (post : Ended ε α → σ → Prop) : Prop where
  run : ∀ faults, post (m faults s).1 (m faults s).2.2

/-- A postcondition of a first part: it goes on as the second part does. -/
def andThen (f : α → Faulty σ ε β) (post : Ended ε β → σ → Prop) : Ended ε α → σ → Prop
  | .ok a, s => (f a).Ends s post
  | .error e, s => post (.error e) s
  | .died, s => post .died s

variable {s : σ} {post : Ended ε α → σ → Prop}

theorem ends_pure {a : α} (h : post (.ok a) s) :
    (pure a : Faulty σ ε α).Ends s post := ⟨fun _ => h⟩

theorem ends_fail {e : ε} (h : post (.error e) s) : (fail e : Faulty σ ε α).Ends s post :=
  ⟨fun _ => h⟩

theorem ends_look {f : σ → α} (h : post (.ok (f s)) s) :
    (look f : Faulty σ ε α).Ends s post := ⟨fun _ => h⟩

theorem ends_assign {f : σ → σ} {post : Ended ε Unit → σ → Prop} (h : post (.ok ()) (f s)) :
    (assign f : Faulty σ ε Unit).Ends s post := ⟨fun _ => h⟩

theorem ends_bind {m : Faulty σ ε α} {f : α → Faulty σ ε β} {post : Ended ε β → σ → Prop}
    (h : m.Ends s (andThen f post)) : (m >>= f).Ends s post := by
  refine ⟨fun faults => ?_⟩
  have hm := h.run faults
  show post (bind m f faults s).1 (bind m f faults s).2.2
  simp only [bind]
  match hrun : m faults s, hm with
  | (.ok a, rest, t), hm => exact hm.run rest
  | (.error e, rest, t), hm => exact hm
  | (.died, rest, t), hm => exact hm

/-- A step is seen before it and after it. -/
theorem ends_step {e : ε} {f : σ → α × σ} (hok : post (.ok (f s).1) (f s).2)
    (herror : ∀ t, t = s ∨ t = (f s).2 → post (.error e) t)
    (hdied : ∀ t, t = s ∨ t = (f s).2 → post .died t) : (step e f).Ends s post := by
  have hseen : ∀ effect : Bool, (if effect then (f s).2 else s) = s ∨
      (if effect then (f s).2 else s) = (f s).2 := by
    intro effect
    cases effect
    · exact .inl rfl
    · exact .inr rfl
  refine ⟨fun faults => ?_⟩
  match faults with
  | [] => exact hok
  | .fine :: _ => exact hok
  | .error effect :: _ => exact herror _ (hseen effect)
  | .death effect :: _ => exact hdied _ (hseen effect)

/-- A step that only reads. -/
theorem ends_read {e : ε} {f : σ → α} (hok : post (.ok (f s)) s) (herror : post (.error e) s)
    (hdied : post .died s) : (step e fun s => (f s, s)).Ends s post := by
  refine ends_step (f := fun s => (f s, s)) hok ?_ ?_
  · rintro t (rfl | rfl) <;> exact herror
  · rintro t (rfl | rfl) <;> exact hdied

theorem ends_attempt {m : Faulty σ ε α} {post : Ended ε (Except ε α) → σ → Prop}
    (h : m.Ends s fun r t =>
      match r with
      | .ok a => post (.ok (.ok a)) t
      | .error e => post (.ok (.error e)) t
      | .died => post .died t) :
    (attempt m).Ends s post := by
  refine ⟨fun faults => ?_⟩
  have hm := h.run faults
  simp only [attempt]
  match hrun : m faults s, hm with
  | (.ok a, rest, t), hm => exact hm
  | (.error e, rest, t), hm => exact hm
  | (.died, rest, t), hm => exact hm

theorem ends_ofExcept {x : Except ε α} (hok : ∀ a, x = .ok a → post (.ok a) s)
    (herror : ∀ e, x = .error e → post (.error e) s) :
    (ofExcept x : Faulty σ ε α).Ends s post := by
  cases x with
  | ok a => exact ends_pure (hok a rfl)
  | error e => exact ends_fail (herror e rfl)

theorem Ends.mono {m : Faulty σ ε α} {post' : Ended ε α → σ → Prop} (h : m.Ends s post)
    (himp : ∀ r t, post r t → post' r t) : m.Ends s post' :=
  ⟨fun faults => himp _ _ (h.run faults)⟩

end Faulty

end Cirrove.Library
