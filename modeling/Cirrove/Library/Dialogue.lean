import Mathlib.Logic.Relation

/-!
# Programs that ask

A program asks for one thing after another, waits for each answer and goes on from there
(`Dialogue`). A `Game` is the world it asks: what may be asked in which state, what is answered and
what becomes of the state then, and what others do to the state while a question is open or the
process dies.

`Game.Keeps` is the weakest precondition. It has one rule for each way to compose and is kept by
what others do, so that a program is proved question by question; `Game.Reaches.keeps` carries it
over every run in which the program is begun again and again.
-/

namespace Cirrove.Library

open Relation (ReflTransGen)

/-- A program over questions, each of which has answers of its own. -/
inductive Dialogue (R : Type) (A : R → Type) (α : Type) where
  | done (a : α)
  | ask (r : R) (next : A r → Dialogue R A α)

namespace Dialogue

variable {R R' : Type} {A : R → Type} {A' : R' → Type} {α β : Type}

def bind : Dialogue R A α → (α → Dialogue R A β) → Dialogue R A β
  | .done a, f => f a
  | .ask r next, f => .ask r fun x => (next x).bind f

instance : Monad (Dialogue R A) where
  pure := .done
  bind := bind

/-- One question. -/
def question (r : R) : Dialogue R A (A r) := .ask r .done

/-- A dialogue that is cut off where a question has no answer. -/
def cut (a : α) : Dialogue R A α → Dialogue R (fun r => Option (A r)) α
  | .done b => .done b
  | .ask r next => .ask r fun x => x.elim (.done a) fun x => (next x).cut a

/-- A dialogue as a part of one that also asks other things. -/
def within (f : R → R') (g : ∀ r, A' (f r) → A r) : Dialogue R A α → Dialogue R' A' α
  | .done a => .done a
  | .ask r next => .ask (f r) fun x => (next (g r x)).within f g

/-- Some answers lead to this end. -/
inductive Ends : Dialogue R A α → α → Prop where
  | done {a : α} : Ends (.done a) a
  | ask {r : R} {next : A r → Dialogue R A α} {a : α} (x : A r) (h : Ends (next x) a) :
      Ends (.ask r next) a

section Ends

variable {d : Dialogue R A α} {ε : Type}

theorem ends_done {a b : α} (h : (Dialogue.done a : Dialogue R A α).Ends b) : a = b := by
  cases h
  rfl

theorem ends_bind {f : α → Dialogue R A β} {b : β} (h : (d >>= f).Ends b) :
    ∃ a, d.Ends a ∧ (f a).Ends b := by
  induction d with
  | done a => exact ⟨a, .done, h⟩
  | ask r next ih =>
    cases h with
    | ask x h =>
      obtain ⟨a, ha, hb⟩ := ih x h
      exact ⟨a, .ask x ha, hb⟩

/-- A dialogue that ends well has ended well in all its parts. -/
theorem ends_ok {d : ExceptT ε (Dialogue R A) α} {f : α → ExceptT ε (Dialogue R A) β} {b : β}
    (h : (d >>= f).run.Ends (.ok b)) : ∃ a, d.run.Ends (.ok a) ∧ (f a).run.Ends (.ok b) := by
  obtain ⟨result, hresult, h⟩ := ends_bind (d := d.run) (f := ExceptT.bindCont f) h
  cases result with
  | ok a => exact ⟨a, hresult, h⟩
  | error e => cases ends_done h

theorem ends_cut {a₀ a : α} (h : (d.cut a₀).Ends a) : a = a₀ ∨ d.Ends a := by
  induction d with
  | done b =>
    cases ends_done h
    exact .inr .done
  | ask r next ih =>
    rw [cut] at h
    cases h with
    | ask x h =>
      cases x with
      | none => exact .inl (ends_done h).symm
      | some x => exact (ih x h).imp_right (.ask x)

end Ends

/-- Only such questions are asked. -/
def Only (P : R → Prop) : Dialogue R A α → Prop
  | .done _ => True
  | .ask r next => P r ∧ ∀ x, (next x).Only P

section Only

variable {P : R → Prop} {d : Dialogue R A α} {ε : Type}

theorem only_question {r : R} (h : P r) : (question r : Dialogue R A (A r)).Only P :=
  ⟨h, fun _ => trivial⟩

theorem only_true (d : Dialogue R A α) : d.Only fun _ => True := by
  induction d with
  | done a => trivial
  | ask r next ih => exact ⟨trivial, ih⟩

theorem only_bind {f : α → Dialogue R A β} (hd : d.Only P) (hf : ∀ a, (f a).Only P) :
    (d >>= f).Only P := by
  induction d with
  | done a => exact hf a
  | ask r next ih => exact ⟨hd.1, fun x => ih x (hd.2 x)⟩

theorem only_tries {d : ExceptT ε (Dialogue R A) α} {f : α → ExceptT ε (Dialogue R A) β}
    (hd : d.run.Only P) (hf : ∀ a, (f a).run.Only P) : (d >>= f).run.Only P := by
  apply only_bind (d := d.run) (f := ExceptT.bindCont f) hd
  intro result
  cases result with
  | ok a => exact hf a
  | error e => trivial

theorem only_mono {Q : R → Prop} (hd : d.Only P) (h : ∀ r, P r → Q r) : d.Only Q := by
  induction d with
  | done a => trivial
  | ask r next ih => exact ⟨h r hd.1, fun x => ih x (hd.2 x)⟩

theorem only_cut (a₀ : α) (hd : d.Only P) : (d.cut a₀).Only P := by
  induction d with
  | done a => trivial
  | ask r next ih =>
    refine ⟨hd.1, fun x => ?_⟩
    cases x with
    | none => trivial
    | some x => exact ih x (hd.2 x)

theorem only_lift {d : Dialogue R A α} (h : d.Only P) :
    (ExceptT.lift d : ExceptT ε (Dialogue R A) α).run.Only P := by
  show (d >>= fun a => .done (Except.ok a)).Only P
  exact only_bind h fun _ => trivial

end Only

end Dialogue

/-- The world a dialogue is with. -/
structure Game (R : Type) (A : R → Type) (S : Type) where
  inv : S → Prop
  /-- What others do. -/
  stirs : S → S → Prop
  /-- What becomes of the world when the process dies. -/
  dies : S → S → Prop
  /-- What may be asked. -/
  allowed : R → S → Prop
  answers : (r : R) → S → A r → S → Prop
  inv_stirs : ∀ {s t}, inv s → stirs s t → inv t
  inv_dies : ∀ {s t}, inv s → dies s t → inv t
  inv_answers : ∀ {r s a t}, inv s → allowed r s → answers r s a t → inv t

namespace Game

variable {R R' : Type} {A : R → Type} {A' : R' → Type} {S α β : Type} (G : Game R A S)

/-- Whatever is answered and whatever others do meanwhile: only what may be asked is asked, and the
    end is as `post` says. -/
def Keeps (post : α → S → Prop) : Dialogue R A α → S → Prop
  | .done a, s => post a s
  | .ask r next, s => ∀ t, ReflTransGen G.stirs s t → G.inv t →
    G.allowed r t ∧ ∀ a u, G.answers r t a u → G.inv u → Keeps post (next a) u

variable {G} {post : α → S → Prop} {d : Dialogue R A α} {s t : S}

theorem inv_stirred (hs : G.inv s) (h : ReflTransGen G.stirs s t) : G.inv t := by
  induction h with
  | refl => exact hs
  | tail _ hnext ih => exact G.inv_stirs ih hnext

theorem keeps_bind {mid : α → S → Prop} {post : β → S → Prop} {f : α → Dialogue R A β}
    (hs : G.inv s) (hd : G.Keeps mid d s) (hf : ∀ a t, G.inv t → mid a t → G.Keeps post (f a) t) :
    G.Keeps post (d >>= f) s := by
  induction d generalizing s with
  | done a => exact hf a s hs hd
  | ask r next ih =>
    intro t hst ht
    obtain ⟨hallowed, hnext⟩ := hd t hst ht
    exact ⟨hallowed, fun a u hanswer hu => ih a hu (hnext a u hanswer hu)⟩

theorem keeps_mono {post' : α → S → Prop} (h : G.Keeps post d s)
    (hpost : ∀ a s, post a s → post' a s) : G.Keeps post' d s := by
  induction d generalizing s with
  | done a => exact hpost a s h
  | ask r next ih =>
    intro t hst ht
    obtain ⟨hallowed, hnext⟩ := h t hst ht
    exact ⟨hallowed, fun a u hanswer hu => ih a (hnext a u hanswer hu)⟩

/-- What others do leaves it as it was, if it leaves the end as it was. -/
theorem keeps_stirred (h : G.Keeps post d s) (hst : ReflTransGen G.stirs s t) (_ : G.inv t)
    (hpost : ∀ a, post a s → post a t) : G.Keeps post d t := by
  cases d with
  | done a => exact hpost a h
  | ask r next => exact fun u htu hu => h u (hst.trans htu) hu

/-! ## Parts of a dialogue -/

/-- Others keep it. -/
def Stable (G : Game R A S) (K : S → Prop) : Prop :=
  ∀ s t, G.inv s → K s → G.stirs s t → K t

theorem Stable.stirred {K : S → Prop} (hK : G.Stable K) (hs : G.inv s) (h : K s)
    (hst : ReflTransGen G.stirs s t) : K t := by
  induction hst with
  | refl => exact h
  | tail hst hnext ih => exact hK _ _ (inv_stirred hs hst) ih hnext

/-- Others keep it, and so do the answers to some questions. -/
structure Framed (G : Game R A S) (P : R → Prop) (K : S → Prop) : Prop where
  stable : G.Stable K
  answers : ∀ {r s a t}, P r → G.inv s → K s → G.answers r s a t → K t

/-- A dialogue of questions that may be asked keeps what every answer keeps, to each of its ends. -/
theorem keeps_ends {P : R → Prop} {K : S → Prop} (hd : d.Only P) (hK : G.Framed P K)
    (hallowed : ∀ r s, P r → G.inv s → K s → G.allowed r s) (hs : G.inv s) (h : K s) :
    G.Keeps (fun a t => d.Ends a ∧ K t) d s := by
  induction d generalizing s with
  | done a => exact ⟨.done, h⟩
  | ask r next ih =>
    intro t hst ht
    have hKt := hK.stable.stirred hs h hst
    refine ⟨hallowed r t hd.1 ht hKt, fun a u hanswer hu => ?_⟩
    have hnext := ih a (hd.2 a) hu (hK.answers hd.1 ht hKt hanswer)
    exact keeps_mono hnext fun b v hb => ⟨.ask a hb.1, hb.2⟩

theorem keeps_only {P : R → Prop} {K : S → Prop} (hd : d.Only P) (hK : G.Framed P K)
    (hallowed : ∀ r s, P r → G.inv s → K s → G.allowed r s) (hs : G.inv s) (h : K s) :
    G.Keeps (fun _ => K) d s :=
  keeps_mono (keeps_ends hd hK hallowed hs h) fun _ _ hend => hend.2

/-- The game of a part of a dialogue. -/
def within (G : Game R' A' S) (f : R → R') (g : ∀ r, A' (f r) → A r) : Game R A S where
  inv := G.inv
  stirs := G.stirs
  dies := G.dies
  allowed r := G.allowed (f r)
  answers r s a t := ∃ x, g r x = a ∧ G.answers (f r) s x t
  inv_stirs := G.inv_stirs
  inv_dies := G.inv_dies
  inv_answers := by
    rintro r s a t hs hallowed ⟨x, -, hanswer⟩
    exact G.inv_answers hs hallowed hanswer

theorem keeps_within {G : Game R' A' S} {f : R → R'} {g : ∀ r, A' (f r) → A r}
    (h : (G.within f g).Keeps post d s) : G.Keeps post (d.within f g) s := by
  induction d generalizing s with
  | done a => exact h
  | ask r next ih =>
    intro t hst ht
    obtain ⟨hallowed, hnext⟩ := h t hst ht
    exact ⟨hallowed, fun x u hanswer hu => ih _ (hnext _ u ⟨x, rfl, hanswer⟩ hu)⟩

/-- The game of a dialogue that is cut off elsewhere. -/
def uncut (G : Game R (fun r => Option (A r)) S) : Game R A S where
  inv := G.inv
  stirs := G.stirs
  dies := G.dies
  allowed := G.allowed
  answers r s a t := G.answers r s (some a) t
  inv_stirs := G.inv_stirs
  inv_dies := G.inv_dies
  inv_answers := G.inv_answers

/-- A dialogue that may be cut off keeps what holds wherever it is. -/
theorem keeps_cut {G : Game R (fun r => Option (A r)) S} {P : R → Prop} {K : S → Prop} {a₀ : α}
    (hd : d.Only P) (hK : G.Framed P K) (hs : G.inv s) (hKs : K s)
    (h : G.uncut.Keeps post d s) (hcut : ∀ t, G.inv t → K t → post a₀ t) :
    G.Keeps post (d.cut a₀) s := by
  induction d generalizing s with
  | done a => exact h
  | ask r next ih =>
    rw [Dialogue.cut]
    intro t hst ht
    obtain ⟨hallowed, hnext⟩ := h t hst ht
    have hKt := hK.stable.stirred hs hKs hst
    refine ⟨hallowed, fun x u hanswer hu => ?_⟩
    have hKu := hK.answers hd.1 ht hKt hanswer
    cases x with
    | none => exact hcut u hu hKu
    | some a => exact ih a (hd.2 a) hu hKu (hnext a u hanswer hu)

/-! ## Dialogues that may fail -/

section Tries

variable {ε : Type} {ok : α → S → Prop} {fails : ε → S → Prop}

/-- A result is as `ok` says, an error as `fails` says. -/
def Outcome (ok : α → S → Prop) (fails : ε → S → Prop) : Except ε α → S → Prop
  | .ok a => ok a
  | .error e => fails e

def Tries (G : Game R A S) (ok : α → S → Prop) (fails : ε → S → Prop)
    (d : ExceptT ε (Dialogue R A) α) (s : S) : Prop :=
  G.Keeps (Outcome ok fails) d.run s

theorem tries_pure {a : α} (h : ok a s) :
    G.Tries ok fails (pure a : ExceptT ε (Dialogue R A) α) s := h

theorem tries_throw {e : ε} (h : fails e s) :
    G.Tries ok fails (throw e : ExceptT ε (Dialogue R A) α) s := h

theorem tries_ofExcept {x : Except ε α} (hfails : ∀ e, x = .error e → fails e s) :
    G.Tries (fun a t => x = .ok a ∧ t = s) fails (ExceptT.mk (pure x) : ExceptT ε (Dialogue R A) α)
      s := by
  cases x with
  | ok a => exact ⟨rfl, rfl⟩
  | error e => exact hfails e rfl

theorem Tries.bind {mid : α → S → Prop} {ok : β → S → Prop} {d : ExceptT ε (Dialogue R A) α}
    {f : α → ExceptT ε (Dialogue R A) β} (hd : G.Tries mid fails d s) (hs : G.inv s)
    (hf : ∀ a t, G.inv t → mid a t → G.Tries ok fails (f a) t) : G.Tries ok fails (d >>= f) s := by
  apply keeps_bind (d := d.run) (f := ExceptT.bindCont f) hs hd
  intro result t ht hresult
  cases result with
  | ok a => exact hf a t ht hresult
  | error e => exact hresult

theorem Tries.mono {ok' : α → S → Prop} {fails' : ε → S → Prop} {d : ExceptT ε (Dialogue R A) α}
    (h : G.Tries ok fails d s) (hok : ∀ a s, ok a s → ok' a s)
    (hfails : ∀ e s, fails e s → fails' e s) : G.Tries ok' fails' d s := by
  apply keeps_mono h
  intro result s hresult
  cases result with
  | ok a => exact hok a s hresult
  | error e => exact hfails e s hresult

theorem tries_lift {d : Dialogue R A α} (hs : G.inv s) (h : G.Keeps ok d s) :
    G.Tries ok fails (ExceptT.lift d : ExceptT ε (Dialogue R A) α) s := by
  show G.Keeps _ (d >>= fun a => .done (Except.ok a)) s
  exact keeps_bind hs h fun a t _ ha => ha

/-- An error is a result. -/
theorem Tries.attempt {fails' : ε → S → Prop} {d : ExceptT ε (Dialogue R A) α} (hs : G.inv s)
    (h : G.Tries ok fails' d s) :
    G.Tries (Outcome ok fails') fails
      (ExceptT.lift d.run : ExceptT ε (Dialogue R A) (Except ε α)) s :=
  tries_lift hs h

/-- One question, in whatever state others have left what is known. -/
theorem tries_question {r : R} {K : S → Prop} {ok : A r → S → Prop} (hK : G.Stable K) (hs : G.inv s)
    (h : K s) (hr : ∀ t, G.inv t → K t →
      G.allowed r t ∧ ∀ a u, G.answers r t a u → G.inv u → ok a u) :
    G.Tries ok fails (ExceptT.lift (Dialogue.question r) : ExceptT ε (Dialogue R A) (A r)) s :=
  tries_lift hs fun t hst ht => hr t ht (hK.stirred hs h hst)

/-- What may be asked and changes nothing of it. -/
theorem tries_ends {P : R → Prop} {K : S → Prop} {d : ExceptT ε (Dialogue R A) α}
    (hd : d.run.Only P) (hK : G.Framed P K) (hallowed : ∀ r s, P r → G.inv s → K s → G.allowed r s)
    (hs : G.inv s) (h : K s) :
    G.Tries (fun a t => d.run.Ends (.ok a) ∧ K t) (fun _ => K) d s := by
  apply keeps_mono (keeps_ends hd hK hallowed hs h)
  rintro result s ⟨hends, hKs⟩
  cases result with
  | ok a => exact ⟨hends, hKs⟩
  | error e => exact hKs

theorem tries_only {P : R → Prop} {K : S → Prop} {d : ExceptT ε (Dialogue R A) α}
    (hd : d.run.Only P) (hK : G.Framed P K) (hallowed : ∀ r s, P r → G.inv s → K s → G.allowed r s)
    (hs : G.inv s) (h : K s) : G.Tries (fun _ => K) (fun _ => K) d s :=
  (tries_ends hd hK hallowed hs h).mono (fun _ _ hend => hend.2) fun _ _ h => h

end Tries

/-! ## Runs -/

/-- What a world and the dialogue with it come to when the dialogue is begun again and again, and
    what was answered until then, the last answer first. -/
inductive Reaches (G : Game R A S) (d : Dialogue R A α) (start : S) :
    List ((r : R) × A r) → S → Option (Dialogue R A α) → Prop where
  | start : Reaches G d start [] start none
  | stirs {log : List ((r : R) × A r)} {s t : S} {x : Option (Dialogue R A α)}
      (h : Reaches G d start log s x) (hst : G.stirs s t) : Reaches G d start log t x
  | begins {log : List ((r : R) × A r)} {s : S} (h : Reaches G d start log s none) :
      Reaches G d start log s (some d)
  | answers {log : List ((r : R) × A r)} {s t : S} {r : R} {next : A r → Dialogue R A α} {a : A r}
      (h : Reaches G d start log s (some (.ask r next))) (ha : G.answers r s a t) :
      Reaches G d start (⟨r, a⟩ :: log) t (some (next a))
  | ends {log : List ((r : R) × A r)} {s : S} {a : α}
      (h : Reaches G d start log s (some (.done a))) : Reaches G d start log s none
  | dies {log : List ((r : R) × A r)} {s t : S} {x : Option (Dialogue R A α)}
      (h : Reaches G d start log s x) (hst : G.dies s t) : Reaches G d start log t none

variable {start : S} {log : List ((r : R) × A r)} {x : Option (Dialogue R A α)}

/-- A dialogue that keeps to the rules wherever it begins does so in every run. -/
theorem Reaches.keeps (h : G.Reaches d start log s x) (hstart : G.inv start)
    (hd : ∀ s, G.inv s → G.Keeps post d s)
    (hpost : ∀ a s t, G.stirs s t → G.inv t → post a s → post a t) :
    G.inv s ∧ ∀ y ∈ x, G.Keeps post y s := by
  induction h with
  | start => exact ⟨hstart, by rintro y ⟨⟩⟩
  | stirs _ hst ih =>
    obtain ⟨hs, hy⟩ := ih
    have ht := G.inv_stirs hs hst
    exact ⟨ht, fun y hyx => keeps_stirred (hy y hyx) (.single hst) ht
      fun a => hpost a _ _ hst ht⟩
  | begins _ ih =>
    refine ⟨ih.1, ?_⟩
    rintro y ⟨⟩
    exact hd _ ih.1
  | answers _ ha ih =>
    obtain ⟨hs, hy⟩ := ih
    obtain ⟨hallowed, hnext⟩ := hy _ rfl _ .refl hs
    have ht := G.inv_answers hs hallowed ha
    refine ⟨ht, ?_⟩
    rintro y ⟨⟩
    exact hnext _ _ ha ht
  | ends _ ih => exact ⟨ih.1, by rintro y ⟨⟩⟩
  | dies _ hst ih => exact ⟨G.inv_dies ih.1 hst, by rintro y ⟨⟩⟩

end Game

end Cirrove.Library
