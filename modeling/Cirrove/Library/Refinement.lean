import Cirrove.Library.Dialogue

/-!
# Questions answered by dialogues

Each question of a program may be answered by a dialogue of its own, with another world
(`Dialogue.fill`). What the program comes to there it also comes to with a world that answers its
questions at once (`Game.Refines.reaches`), when that world can answer as the dialogues end. A
dialogue that dies in the middle has been answered somehow, and the process died after that.
-/

namespace Cirrove.Library

open Relation (ReflTransGen)

namespace Dialogue

variable {R R' : Type} {A : R → Type} {A' : R' → Type} {α β γ ε : Type}

theorem bind_assoc (d : Dialogue R A α) (g : α → Dialogue R A β) (h : β → Dialogue R A γ) :
    (d.bind g).bind h = d.bind fun a => (g a).bind h := by
  induction d with
  | done a => rfl
  | ask r next ih => exact congrArg (Dialogue.ask r) (funext ih)

theorem bind_done (d : Dialogue R A α) : d.bind .done = d := by
  induction d with
  | done a => rfl
  | ask r next ih => exact congrArg (Dialogue.ask r) (funext ih)

/-- Every question is answered by a dialogue. -/
def fill (f : (r : R) → Dialogue R' A' (A r)) : Dialogue R A α → Dialogue R' A' α
  | .done a => .done a
  | .ask r next => (f r).bind fun x => (next x).fill f

variable {f : (r : R) → Dialogue R' A' (A r)}

theorem fill_bind (d : Dialogue R A α) (g : α → Dialogue R A β) :
    (d >>= g).fill f = d.fill f >>= fun a => (g a).fill f := by
  induction d with
  | done a => rfl
  | ask r next ih =>
    show (f r).bind (fun x => (next x >>= g).fill f) =
      ((f r).bind fun x => (next x).fill f).bind fun a => (g a).fill f
    rw [bind_assoc]
    exact congrArg (f r).bind (funext ih)

/-- A dialogue that may fail. -/
def fills (f : (r : R) → Dialogue R' A' (A r)) (d : ExceptT ε (Dialogue R A) α) :
    ExceptT ε (Dialogue R' A') α := ExceptT.mk (d.run.fill f)

theorem fills_bind (d : ExceptT ε (Dialogue R A) α) (g : α → ExceptT ε (Dialogue R A) β) :
    fills f (d >>= g) = fills f d >>= fun a => fills f (g a) := by
  show (d.run >>= ExceptT.bindCont g).fill f =
    d.run.fill f >>= ExceptT.bindCont fun a => fills f (g a)
  rw [fill_bind]
  refine congrArg (d.run.fill f >>= ·) (funext fun result => ?_)
  cases result with
  | ok a => rfl
  | error e => rfl

/-! ## Plays -/

/-- What was asked and answered, the last answer first, and what is left of the dialogue then. -/
inductive Plays (d : Dialogue R A α) : List ((r : R) × A r) → Dialogue R A α → Prop where
  | start : Plays d [] d
  | answers {play : List ((r : R) × A r)} {r : R} {next : A r → Dialogue R A α}
      (h : Plays d play (.ask r next)) (a : A r) : Plays d (⟨r, a⟩ :: play) (next a)

section Plays

variable {d rest : Dialogue R A α} {play : List ((r : R) × A r)}

theorem plays_only {P : R → Prop} (h : d.Plays play rest) (hd : d.Only P) :
    (∀ q ∈ play, P q.1) ∧ rest.Only P := by
  induction h with
  | start => exact ⟨by rintro q ⟨⟩, hd⟩
  | answers _ a ih =>
    obtain ⟨hplay, hask, hnext⟩ := ih
    refine ⟨?_, hnext a⟩
    intro q hq
    rcases List.mem_cons.mp hq with rfl | hq
    · exact hask
    · exact hplay q hq

theorem plays_ends {a : α} (h : d.Plays play rest) (hrest : rest.Ends a) : d.Ends a := by
  induction h with
  | start => exact hrest
  | answers _ x ih => exact ih (.ask x hrest)

theorem ends_within {t : R → R'} {g : ∀ r, A' (t r) → A r} {a : α} (h : (d.within t g).Ends a) :
    d.Ends a := by
  induction d with
  | done b =>
    cases ends_done h
    exact .done
  | ask r next ih =>
    rw [within] at h
    cases h with
    | ask x h => exact .ask (g r x) (ih _ h)

/-- The part of another dialogue is played as it would be alone. -/
theorem plays_within {t : R → R'} {g : ∀ r, A' (t r) → A r} {play : List ((r : R') × A' r)}
    {rest : Dialogue R' A' α} (h : (d.within t g).Plays play rest) :
    ∃ (answers : List ((r : R) × A' (t r))) (left : Dialogue R A α),
      play = answers.map (fun q => ⟨t q.1, q.2⟩) ∧
      d.Plays (answers.map fun q => ⟨q.1, g q.1 q.2⟩) left ∧ rest = left.within t g := by
  induction h with
  | start => exact ⟨[], d, rfl, .start, rfl⟩
  | @answers play r next _ a ih =>
    obtain ⟨answers, left, rfl, hplays, hleft⟩ := ih
    cases left with
    | done b => cases hleft
    | ask q k =>
      cases hleft
      exact ⟨⟨q, a⟩ :: answers, k (g q a), rfl, .answers hplays (g q a), rfl⟩

/-- At most so many answers are marked, and a question that is lost counts as one that is. -/
def AtMost (lost : R → Bool) (marked : (r : R) × A r → Bool) : Nat → Dialogue R A α → Prop
  | _, .done _ => True
  | n, .ask r next => (lost r = true → 1 ≤ n) ∧
    ∀ a, ∃ left, (if marked ⟨r, a⟩ then 1 else 0) + left ≤ n ∧ (next a).AtMost lost marked left

variable {lost : R → Bool} {marked : (r : R) × A r → Bool} {n m : Nat}

theorem atMost_mono (hd : d.AtMost lost marked n) (h : n ≤ m) : d.AtMost lost marked m := by
  cases d with
  | done a => trivial
  | ask r next =>
    refine ⟨fun hlost => Nat.le_trans (hd.1 hlost) h, fun a => ?_⟩
    obtain ⟨left, hleft, hnext⟩ := hd.2 a
    exact ⟨left, Nat.le_trans hleft h, hnext⟩

theorem atMost_of_only {P : R → Prop} (hd : d.Only P) (hlost : ∀ r, P r → lost r = false)
    (hmarked : ∀ r a, P r → marked ⟨r, a⟩ = false) : d.AtMost lost marked 0 := by
  induction d with
  | done a => trivial
  | ask r next ih =>
    refine ⟨?_, fun a => ⟨0, ?_, ih a (hd.2 a)⟩⟩
    · rw [hlost r hd.1]
      exact fun h => absurd h Bool.false_ne_true
    · rw [hmarked r a hd.1]
      exact Nat.le_refl 0

theorem atMost_bind {f : α → Dialogue R A β} (hd : d.AtMost lost marked n)
    (hf : ∀ a, (f a).AtMost lost marked m) : (d >>= f).AtMost lost marked (n + m) := by
  induction d generalizing n with
  | done a => exact atMost_mono (hf a) (Nat.le_add_left m n)
  | ask r next ih =>
    refine ⟨fun hlost => Nat.le_trans (hd.1 hlost) (Nat.le_add_right n m), fun a => ?_⟩
    obtain ⟨left, hleft, hnext⟩ := hd.2 a
    exact ⟨left + m, by omega, ih a hnext⟩

theorem atMost_tries {d : ExceptT ε (Dialogue R A) α} {f : α → ExceptT ε (Dialogue R A) β}
    (hd : d.run.AtMost lost marked n) (hf : ∀ a, (f a).run.AtMost lost marked m) :
    (d >>= f).run.AtMost lost marked (n + m) := by
  apply atMost_bind (d := d.run) (f := ExceptT.bindCont f) hd
  intro result
  cases result with
  | ok a => exact hf a
  | error e => trivial

/-- A dialogue that is cut off is cut off at a question that is lost. -/
theorem atMost_cut {marked : (r : R) × Option (A r) → Bool} (a₀ : α)
    (hd : d.AtMost lost (fun q => marked ⟨q.1, some q.2⟩) n)
    (hlost : ∀ r, lost r = false → marked ⟨r, none⟩ = false) :
    (d.cut a₀).AtMost (fun _ => false) marked n := by
  induction d generalizing n with
  | done a => trivial
  | ask r next ih =>
    refine ⟨fun h => absurd h Bool.false_ne_true, fun answer => ?_⟩
    cases answer with
    | none =>
      refine ⟨0, ?_, trivial⟩
      -- a question that is lost had one left to spend
      cases hr : lost r with
      | true =>
        have hn := hd.1 hr
        split
        · exact hn
        · exact Nat.zero_le n
      | false =>
        rw [hlost r hr]
        exact Nat.zero_le n
    | some a =>
      obtain ⟨left, hleft, hnext⟩ := hd.2 a
      exact ⟨left, hleft, ih a hnext⟩

theorem atMost_within {t : R → R'} {g : ∀ r, A' (t r) → A r} {marked' : (r : R') × A' r → Bool}
    (hd : d.AtMost (fun _ => false) marked n)
    (hmarked : ∀ r (x : A' (t r)), marked' ⟨t r, x⟩ = true → marked ⟨r, g r x⟩ = true) :
    (d.within t g).AtMost (fun _ => false) marked' n := by
  induction d generalizing n with
  | done a => trivial
  | ask r next ih =>
    refine ⟨fun h => absurd h Bool.false_ne_true, fun x => ?_⟩
    obtain ⟨left, hleft, hnext⟩ := hd.2 (g r x)
    refine ⟨left, Nat.le_trans (Nat.add_le_add_right ?_ left) hleft, ih _ hnext⟩
    split
    · next h =>
      simp only [if_pos (hmarked r x h), Nat.le_refl]
    · exact Nat.zero_le _

theorem plays_atMost (h : d.Plays play rest) (hd : d.AtMost lost marked n) :
    play.countP marked ≤ n := by
  suffices hleft : ∃ left, play.countP marked + left ≤ n ∧ rest.AtMost lost marked left by
    obtain ⟨left, hle, -⟩ := hleft
    exact Nat.le_trans (Nat.le_add_right _ left) hle
  induction h with
  | start => exact ⟨n, Nat.le_of_eq (Nat.zero_add n), hd⟩
  | answers _ a ih =>
    obtain ⟨left, hle, hask⟩ := ih
    obtain ⟨left', hle', hnext⟩ := hask.2 a
    refine ⟨left', ?_, hnext⟩
    rw [List.countP_cons]
    omega

end Plays

end Dialogue

/-! ## Worlds of questions and of dialogues -/

namespace Game

variable {R R' : Type} {A : R → Type} {A' : R' → Type} {S S' α : Type}

/-- Questions that are answered by dialogues in one world may be answered so at once in another.
    `during` says how the worlds compare when a part of such a dialogue is left. -/
structure Refines (G' : Game R' A' S') (G : Game R A S) (f : (r : R) → Dialogue R' A' (A r))
    (rel : S' → S → Prop) (during : (r : R) → Dialogue R' A' (A r) → S' → S → Prop) : Prop where
  stirs : ∀ {s' s t'}, rel s' s → G'.stirs s' t' → ∃ t, ReflTransGen G.stirs s t ∧ rel t' t
  dies : ∀ {s' s t'}, rel s' s → G'.dies s' t' → ∃ t, G.dies s t ∧ rel t' t
  begins : ∀ {r s' s}, rel s' s → during r (f r) s' s
  stirsDuring : ∀ {r q next s' s t'}, during r (.ask q next) s' s → G'.stirs s' t' →
    ∃ t, ReflTransGen G.stirs s t ∧ during r (.ask q next) t' t
  answers : ∀ {r q next s' s a t'}, during r (.ask q next) s' s → G'.answers q s' a t' →
    during r (next a) t' s
  ends : ∀ {r a s' s}, during r (.done a) s' s → ∃ t, G.answers r s a t ∧ rel s' t
  diesDuring : ∀ {r q next s' s t'}, during r (.ask q next) s' s → G'.dies s' t' →
    ∃ t u, (t = s ∨ ∃ a, G.answers r s a t) ∧ G.dies t u ∧ rel t' u

/-- How a program stands in both worlds. -/
inductive Stands (f : (r : R) → Dialogue R' A' (A r)) (rel : S' → S → Prop)
    (during : (r : R) → Dialogue R' A' (A r) → S' → S → Prop) (s' : S') (s : S) :
    Option (Dialogue R' A' α) → Option (Dialogue R A α) → Prop where
  | rests (h : rel s' s) : Stands f rel during s' s none none
  | done (a : α) (h : rel s' s) : Stands f rel during s' s (some (.done a)) (some (.done a))
  | asks {r : R} {next : A r → Dialogue R A α} {q : R'} {rest : A' q → Dialogue R' A' (A r)}
      (h : during r (.ask q rest) s' s) :
      Stands f rel during s' s (some (.ask q fun x => (rest x).bind fun a => (next a).fill f))
        (some (.ask r next))

section Refines

variable {G' : Game R' A' S'} {G : Game R A S} {f : (r : R) → Dialogue R' A' (A r)}
  {rel : S' → S → Prop} {during : (r : R) → Dialogue R' A' (A r) → S' → S → Prop}
  {d : Dialogue R A α} {start s : S} {start' s' : S'} {log : List ((r : R) × A r)}
  {log' : List ((r : R') × A' r)} {x' : Option (Dialogue R' A' α)}

theorem Reaches.stirred {x : Option (Dialogue R A α)} {t : S} (h : G.Reaches d start log s x)
    (hst : ReflTransGen G.stirs s t) : G.Reaches d start log t x := by
  induction hst with
  | refl => exact h
  | tail _ hnext ih => exact .stirs ih hnext

/-- What holds at first and after every step holds in every run. -/
theorem Reaches.preserves {x : Option (Dialogue R A α)} {I : S → Prop}
    (h : G.Reaches d start log s x) (hstart : I start) (hstirs : ∀ s t, I s → G.stirs s t → I t)
    (hdies : ∀ s t, I s → G.dies s t → I t)
    (hanswers : ∀ r s a t, I s → G.answers r s a t → I t) : I s := by
  induction h with
  | start => exact hstart
  | stirs _ hst ih => exact hstirs _ _ ih hst
  | begins _ ih => exact ih
  | answers _ ha ih => exact hanswers _ _ _ _ ih ha
  | ends _ ih => exact ih
  | dies _ hst ih => exact hdies _ _ ih hst

/-- A dialogue that is at its end is an answer. -/
theorem Refines.proceeds (hG : G'.Refines G f rel during) {r : R} {next : A r → Dialogue R A α}
    (hnext : ∀ a log s, G.Reaches d start log s (some (next a)) → rel s' s →
      ∃ log s x, G.Reaches d start log s x ∧ Stands f rel during s' s (some ((next a).fill f)) x)
    (left : Dialogue R' A' (A r)) (h : G.Reaches d start log s (some (.ask r next)))
    (hduring : during r left s' s) :
    ∃ log s x, G.Reaches d start log s x ∧
      Stands f rel during s' s (some (left.bind fun a => (next a).fill f)) x := by
  cases left with
  | ask q rest => exact ⟨log, s, _, h, .asks hduring⟩
  | done a =>
    obtain ⟨t, hanswer, ht⟩ := hG.ends hduring
    exact hnext a _ t (.answers h hanswer) ht

theorem Refines.settles (hG : G'.Refines G f rel during) (e : Dialogue R A α)
    (h : G.Reaches d start log s (some e)) (hrel : rel s' s) :
    ∃ log s x, G.Reaches d start log s x ∧ Stands f rel during s' s (some (e.fill f)) x := by
  induction e generalizing s log with
  | done a => exact ⟨log, s, _, h, .done a hrel⟩
  | ask r next ih =>
    exact hG.proceeds (fun a _ _ h hrel => ih a h hrel) (f r) h (hG.begins hrel)

/-- What a program of dialogues comes to, it comes to when its questions are answered at once. -/
theorem Refines.reaches (hG : G'.Refines G f rel during)
    (h : G'.Reaches (d.fill f) start' log' s' x') (hstart : rel start' start) :
    ∃ log s x, G.Reaches d start log s x ∧ Stands f rel during s' s x' x := by
  induction h with
  | start => exact ⟨[], start, none, .start, .rests hstart⟩
  | stirs _ hst ih =>
    obtain ⟨log, s, x, hreaches, hstands⟩ := ih
    cases hstands with
    | rests hrel =>
      obtain ⟨t, hst, hrel⟩ := hG.stirs hrel hst
      exact ⟨log, t, _, hreaches.stirred hst, .rests hrel⟩
    | done a hrel =>
      obtain ⟨t, hst, hrel⟩ := hG.stirs hrel hst
      exact ⟨log, t, _, hreaches.stirred hst, .done a hrel⟩
    | asks hduring =>
      obtain ⟨t, hst, hduring⟩ := hG.stirsDuring hduring hst
      exact ⟨log, t, _, hreaches.stirred hst, .asks hduring⟩
  | begins _ ih =>
    obtain ⟨log, s, x, hreaches, hstands⟩ := ih
    cases hstands with
    | rests hrel => exact hG.settles d (.begins hreaches) hrel
  | answers _ ha ih =>
    obtain ⟨log, s, x, hreaches, hstands⟩ := ih
    cases hstands with
    | asks hduring =>
      exact hG.proceeds (fun a _ _ h hrel => hG.settles _ h hrel) _ hreaches
        (hG.answers hduring ha)
  | ends _ ih =>
    obtain ⟨log, s, x, hreaches, hstands⟩ := ih
    cases hstands with
    | done a hrel => exact ⟨log, s, none, .ends hreaches, .rests hrel⟩
  | dies _ hst ih =>
    obtain ⟨log, s, x, hreaches, hstands⟩ := ih
    cases hstands with
    | rests hrel =>
      obtain ⟨t, hdies, hrel⟩ := hG.dies hrel hst
      exact ⟨log, t, none, .dies hreaches hdies, .rests hrel⟩
    | done a hrel =>
      obtain ⟨t, hdies, hrel⟩ := hG.dies hrel hst
      exact ⟨log, t, none, .dies hreaches hdies, .rests hrel⟩
    | asks hduring =>
      -- the question was never asked, or was answered before the process died
      obtain ⟨t, u, rfl | ⟨a, hanswer⟩, hdies, hrel⟩ := hG.diesDuring hduring hst
      · exact ⟨_, u, none, .dies hreaches hdies, .rests hrel⟩
      · exact ⟨_, u, none, .dies (.answers hreaches hanswer) hdies, .rests hrel⟩

end Refines

end Game

end Cirrove.Library
