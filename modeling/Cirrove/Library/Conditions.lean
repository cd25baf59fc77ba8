import Cirrove.Library.Dialogue
import Mathlib.Data.List.Pairwise
import Mathlib.Logic.Function.Basic

/-!
# Requests under a condition

A record is changed by requests that name the state they are meant for, and a request takes effect
only on a record in that state. Others change the records, and what was sent may take effect long
after its answer was lost.

Every change of a record leads to a state it was never in. So at most one of the requests that are
meant for one state of one record takes effect (`Sound.once`), however often and however late they
are sent. `Conditions.game` is the world of such requests, for dialogues that send them.
-/

namespace Cirrove.Library

open Relation (ReflTransGen)

/-- How requests are conditional. -/
structure Conditions (M K V : Type) where
  /-- The record a request changes. -/
  subject : M → Option K
  /-- What it wants the record to be like; there is none where it has no state yet. -/
  meets : M → Option V → Prop
  /-- Two states of one record. -/
  apart : V → V → Prop

/-- Records, and what was sent to change one of them. -/
structure Records (M K V : Type) where
  /-- The states each record has been in, the last one first. -/
  past : K → List V
  /-- What was sent. It may take effect at any time. -/
  sent : List M
  /-- What of it took effect, and on which state of its record. -/
  applied : List (M × Option V)

namespace Records

variable {M K V : Type} {s t : Records M K V}

/-- Nothing is forgotten. -/
def Grows (s t : Records M K V) : Prop := ∀ k, s.past k <:+ t.past k

theorem Grows.refl (s : Records M K V) : s.Grows s := fun _ => List.suffix_refl _

def send (s : Records M K V) (m : M) : Records M K V := { s with sent := m :: s.sent }

theorem send_grows {m : M} : s.Grows (s.send m) := fun _ => List.suffix_refl _

variable [DecidableEq K]

def become (s : Records M K V) (k : K) (v : V) : Records M K V :=
  { s with past := Function.update s.past k (v :: s.past k) }

theorem become_past {k : K} {v : V} : (s.become k v).past k = v :: s.past k :=
  Function.update_self _ _ _

theorem become_past_of_ne {k other : K} {v : V} (h : other ≠ k) :
    (s.become k v).past other = s.past other := Function.update_of_ne h _ _

theorem become_grows {k : K} {v : V} : s.Grows (s.become k v) := by
  intro other
  by_cases heq : other = k
  · rw [heq, become_past]
    exact List.suffix_cons _ _
  · simp only [become_past_of_ne heq, List.suffix_refl]

end Records

namespace Conditions

variable {M K V : Type} (C : Conditions M K V)

/-- What requests are sent for: that a record is changed once, which is in a certain state. -/
structure Purpose where
  target : Option K
  /-- The requests for it, as the records are known. -/
  wants : Records M K V → M → Prop
  /-- The state of the record. -/
  wanted : Option V → Prop
  grows : ∀ {s t m}, s.Grows t → wants s m → wants t m
  subject : ∀ {s m}, wants s m → C.subject m = target
  /-- They are meant for that state. -/
  meets : ∀ {s m k}, (s.past k).Pairwise C.apart → wants s m → C.subject m = some k →
    C.meets m (s.past k).head? → wanted (s.past k).head?
  /-- There is one such state. -/
  same : ∀ {v w}, wanted (some v) → wanted (some w) → ¬ C.apart v w
  absent : ∀ {v}, wanted none → ¬ wanted (some v)

variable {C} {P : C.Purpose} {s t : Records M K V} {m : M}

/-- The record is not in that state any more. -/
def Spent (C : Conditions M K V) (s : Records M K V) (c : M × Option V) : Prop :=
  ∀ k, C.subject c.1 = some k → s.past k ≠ [] ∧ ∀ v, c.2 = some v → v ∈ (s.past k).tail

theorem mem_tail_of_suffix {v : V} {l l' : List V} (h : l <:+ l') (hv : v ∈ l.tail) :
    v ∈ l'.tail := by
  obtain ⟨newer, rfl⟩ := h
  cases newer with
  | nil => exact hv
  | cons _ newer => exact List.mem_append_right newer (List.mem_of_mem_tail hv)

theorem Spent.grows {c : M × Option V} (h : C.Spent s c) (hst : s.Grows t) : C.Spent t c := by
  intro k hk
  obtain ⟨hany, hpast⟩ := h k hk
  refine ⟨?_, fun v hv => mem_tail_of_suffix (hst k) (hpast v hv)⟩
  intro hnone
  have hsuffix := hst k
  rw [hnone] at hsuffix
  exact hany (List.suffix_nil.mp hsuffix)

structure Sound (P : C.Purpose) (s : Records M K V) : Prop where
  distinct : ∀ k, (s.past k).Pairwise C.apart
  sent : ∀ m ∈ s.sent, P.wants s m
  applied : ∀ c ∈ s.applied, P.wants s c.1 ∧ P.wanted c.2 ∧ C.Spent s c
  once : s.applied.length ≤ 1

/-- A record that was changed does not come back to the state the requests are meant for. -/
theorem not_spent {k : K} {c : M × Option V} (hdistinct : (s.past k).Pairwise C.apart)
    (hk : C.subject c.1 = some k) (hspent : C.Spent s c) (hc : P.wanted c.2)
    (hhead : P.wanted (s.past k).head?) : False := by
  obtain ⟨hany, htail⟩ := hspent k hk
  obtain ⟨v, older, hpast⟩ := List.exists_cons_of_ne_nil hany
  rw [hpast] at hdistinct hhead htail
  cases hstate : c.2 with
  | none =>
    rw [hstate] at hc
    exact P.absent hc hhead
  | some w =>
    rw [hstate] at hc
    exact P.same hhead hc ((List.pairwise_cons.mp hdistinct).1 w (htail w hstate))

theorem Sound.send (hs : Sound P s) (hm : P.wants s m) : Sound P (s.send m) where
  distinct := hs.distinct
  sent other hother := by
    rcases List.mem_cons.mp hother with rfl | hother
    · exact P.grows Records.send_grows hm
    · exact P.grows Records.send_grows (hs.sent other hother)
  applied c hc := by
    obtain ⟨hwants, hwanted, hspent⟩ := hs.applied c hc
    exact ⟨P.grows Records.send_grows hwants, hwanted, hspent.grows Records.send_grows⟩
  once := hs.once

/-- Nothing was sent yet. -/
structure New (C : Conditions M K V) (s : Records M K V) : Prop where
  distinct : ∀ k, (s.past k).Pairwise C.apart
  sent : s.sent = []
  applied : s.applied = []

theorem New.sound (h : C.New s) : Sound P s where
  distinct := h.distinct
  sent m hm := by
    rw [h.sent] at hm
    cases hm
  applied c hc := by
    rw [h.applied] at hc
    cases hc
  once := by
    rw [h.applied]
    exact Nat.zero_le 1

/-- What holds of the states the records were in. -/
def Lasting (H : Records M K V → Prop) : Prop := ∀ s t, s.Grows t → H s → H t

theorem lasting_true : Lasting (fun _ : Records M K V => True) := fun _ _ _ _ => trivial

theorem lasting_wants : Lasting (P.wants · m) := fun _ _ hst h => P.grows hst h

/-- The same conditions for requests that say more. -/
def along {N : Type} (f : N → M) (C : Conditions M K V) : Conditions N K V where
  subject := C.subject ∘ f
  meets := C.meets ∘ f
  apart := C.apart

/-- What is known of the requests that took effect, whatever they were sent for. -/
structure Told (C : Conditions M K V) (s : Records M K V) : Prop where
  sent : ∀ c ∈ s.applied, c.1 ∈ s.sent
  meets : ∀ c ∈ s.applied, C.meets c.1 c.2
  there : ∀ c ∈ s.applied, ∃ k, C.subject c.1 = some k ∧ s.past k ≠ []
  /-- What took effect on nothing was the first for its record. -/
  first : s.applied.Pairwise fun c older => c.2 = none → C.subject c.1 ≠ C.subject older.1

theorem New.told (h : C.New s) : Told C s where
  sent := by simp [h.applied]
  meets := by simp [h.applied]
  there := by simp [h.applied]
  first := by simp [h.applied]

theorem Told.send (hs : Told C s) : Told C (s.send m) where
  sent c hc := List.mem_cons_of_mem m (hs.sent c hc)
  meets := hs.meets
  there := hs.there
  first := hs.first

theorem there_grows {c : M × Option V} (h : ∃ k, C.subject c.1 = some k ∧ s.past k ≠ [])
    (hst : s.Grows t) : ∃ k, C.subject c.1 = some k ∧ t.past k ≠ [] := by
  obtain ⟨k, hk, hany⟩ := h
  exact ⟨k, hk, fun hnone => hany (List.suffix_nil.mp (hnone ▸ hst k))⟩

/-- Requests that are all about one record, and take effect only where there is nothing, take
    effect once. -/
theorem Told.countP_le_one {p : M → Bool} (hs : Told C s)
    (habsent : ∀ m a, p m = true → C.meets m a → a = none)
    (hsame : ∀ m ∈ s.sent, ∀ m' ∈ s.sent, p m = true → p m' = true → C.subject m = C.subject m') :
    s.applied.countP (fun c => p c.1) ≤ 1 := by
  suffices h : ∀ l : List (M × Option V), (∀ c ∈ l, c ∈ s.applied) →
      (l.Pairwise fun c older => c.2 = none → C.subject c.1 ≠ C.subject older.1) →
      l.countP (fun c => p c.1) ≤ 1 from h _ (fun _ hc => hc) hs.first
  intro l hl hfirst
  induction l with
  | nil => exact Nat.zero_le 1
  | cons c older ih =>
    obtain ⟨hc, hfirst⟩ := List.pairwise_cons.mp hfirst
    have hrest := ih (fun c hc => hl c (List.mem_cons_of_mem _ hc)) hfirst
    rw [List.countP_cons]
    split
    · next hp =>
      have happlied := hl c List.mem_cons_self
      have hnone : older.countP (fun c => p c.1) = 0 := by
        refine List.countP_eq_zero.mpr fun c' hc' hp' => ?_
        refine hc c' hc' (habsent _ _ hp (hs.meets c happlied)) ?_
        exact hsame _ (hs.sent c happlied) _ (hs.sent c' (hl c' (List.mem_cons_of_mem _ hc'))) hp hp'
      omega
    · exact hrest

/-! ## At most one takes effect -/

variable [DecidableEq K]

/-- What happens to the records: others change one, or a request that was sent takes effect. -/
inductive Stirs (C : Conditions M K V) (s : Records M K V) : Records M K V → Prop where
  | others (k : K) (v : V) (hnew : ∀ w ∈ s.past k, C.apart v w) : Stirs C s (s.become k v)
  | lands (m : M) (k : K) (v : V) (hsent : m ∈ s.sent) (hk : C.subject m = some k)
      (hmeets : C.meets m (s.past k).head?) (hnew : ∀ w ∈ s.past k, C.apart v w) :
      Stirs C s { s.become k v with applied := (m, (s.past k).head?) :: s.applied }

theorem Stirs.grows (h : C.Stirs s t) : s.Grows t := by
  cases h with
  | others k v hnew => exact Records.become_grows
  | lands m k v hsent hk hmeets hnew => exact Records.become_grows (s := s)

theorem Sound.become {k : K} {v : V} (hs : Sound P s) (hnew : ∀ w ∈ s.past k, C.apart v w) :
    Sound P (s.become k v) where
  distinct other := by
    by_cases heq : other = k
    · rw [heq, Records.become_past]
      exact List.pairwise_cons.mpr ⟨hnew, hs.distinct k⟩
    · rw [Records.become_past_of_ne heq]
      exact hs.distinct other
  sent m hm := P.grows Records.become_grows (hs.sent m hm)
  applied c hc := by
    obtain ⟨hwants, hwanted, hspent⟩ := hs.applied c hc
    exact ⟨P.grows Records.become_grows hwants, hwanted, hspent.grows Records.become_grows⟩
  once := hs.once

theorem Sound.stirs (hs : Sound P s) (h : C.Stirs s t) : Sound P t := by
  cases h with
  | others k v hnew => exact hs.become hnew
  | lands m k v hsent hk hmeets hnew =>
    have hwants := hs.sent m hsent
    have hwanted := P.meets (hs.distinct k) hwants hk hmeets
    have hgrows : s.Grows { s.become k v with applied := (m, (s.past k).head?) :: s.applied } :=
      Records.become_grows (s := s)
    have hnone : s.applied = [] := by
      cases happlied : s.applied with
      | nil => rfl
      | cons c rest =>
        -- the record has left the state that this request was meant for as well
        obtain ⟨hc, hwanted', hspent⟩ := hs.applied c (happlied ▸ List.mem_cons_self)
        have hsame : C.subject c.1 = some k :=
          (P.subject hc).trans ((P.subject hwants).symm.trans hk)
        exact (not_spent (hs.distinct k) hsame hspent hwanted' hwanted).elim
    refine ⟨(hs.become hnew).distinct, fun other hother => P.grows hgrows (hs.sent other hother),
      ?_, ?_⟩
    · intro c hc
      rw [hnone] at hc
      obtain rfl := List.mem_singleton.mp hc
      refine ⟨P.grows hgrows hwants, hwanted, ?_⟩
      intro other hother
      obtain rfl : k = other := Option.some.inj (hk.symm.trans hother)
      have hpast : ({ s.become k v with
        applied := (m, (s.past k).head?) :: s.applied } : Records M K V).past k = v :: s.past k :=
        Records.become_past
      rw [hpast]
      exact ⟨List.cons_ne_nil _ _, fun w hw => List.mem_of_mem_head? hw⟩
    · rw [hnone]
      exact Nat.le_refl 1

/-! ## Dialogues that send them -/

section Game

variable {R : Type} {A : R → Type} {α ε : Type}

/-- The world of a dialogue: the requests it sends, and what its answers tell of the records. -/
def game (P : C.Purpose) (sends : R → Option M) (tells : (r : R) → Records M K V → A r → Prop) :
    Game R A (Records M K V) where
  inv := Sound P
  stirs := C.Stirs
  -- what was sent stays under way
  dies s t := t = s
  allowed r s := ∀ m, sends r = some m → P.wants s m
  answers r s a t := tells r s a ∧
    t = match sends r with
      | some m => s.send m
      | none => s
  inv_stirs := Sound.stirs
  inv_dies := by
    rintro s t hs rfl
    exact hs
  inv_answers := by
    rintro r s a t hs hallowed ⟨-, rfl⟩
    split
    · next m hm => exact hs.send (hallowed m hm)
    · exact hs

variable {sends : R → Option M} {tells : (r : R) → Records M K V → A r → Prop}

theorem uncut_game {tells : (r : R) → Records M K V → Option (A r) → Prop} :
    (game P sends tells).uncut = game P sends fun r s a => tells r s (some a) := rfl

theorem lasting_framed {Q : R → Prop} {H : Records M K V → Prop} (hH : Lasting H) :
    (game P sends tells).Framed Q H where
  stable _ _ _ h hst := hH _ _ hst.grows h
  answers := by
    rintro r s a t - - h ⟨-, rfl⟩
    split
    · exact hH _ _ Records.send_grows h
    · exact h

/-- It asks for nothing to be changed. -/
abbrev Silent (sends : R → Option M) (r : R) : Prop := sends r = none

/-- It asks for nothing to be changed, or is this request. -/
abbrev Sending (sends : R → Option M) (m : M) (r : R) : Prop := ∀ other, sends r = some other →
  other = m

theorem allowed_silent {r : R} (h : Silent sends r) : (game P sends tells).allowed r s := by
  intro m hm
  rw [show sends r = none from h] at hm
  cases hm

/-- A part of a dialogue that changes nothing, with what it comes to. -/
theorem tries_silent {H : Records M K V → Prop} {d : ExceptT ε (Dialogue R A) α}
    (hd : d.run.Only (Silent sends)) (hH : Lasting H) (hs : Sound P s) (h : H s) :
    (game P sends tells).Tries (fun a t => d.run.Ends (.ok a) ∧ H t) (fun _ _ => True) d s :=
  (Game.tries_ends hd (lasting_framed hH) (fun _ _ hr _ _ => allowed_silent hr) hs h).mono
    (fun _ _ h => h) fun _ _ _ => trivial

/-- A dialogue that sends one request, for what it is sent for. -/
theorem keeps_sending {d : Dialogue R A α} (hd : d.Only (Sending sends m)) (hs : Sound P s)
    (hm : P.wants s m) : (game P sends tells).Keeps (fun _ _ => True) d s := by
  refine Game.keeps_mono (Game.keeps_only hd (lasting_framed lasting_wants) ?_ hs hm)
    fun _ _ _ => trivial
  intro r t hr _ hwants other hother
  rw [hr other hother]
  exact hwants

theorem keeps_silent {d : Dialogue R A α} (hd : d.Only (Silent sends)) (hs : Sound P s) :
    (game P sends tells).Keeps (fun _ _ => True) d s :=
  Game.keeps_only hd (lasting_framed lasting_true) (fun _ _ hr _ _ => allowed_silent hr) hs trivial

end Game

/-! ## Every run -/

/-- In every run, at most one request takes effect, in the state it is meant for. -/
theorem applied_once {R : Type} {A : R → Type} {α : Type} {sends : R → Option M}
    {tells : (r : R) → Records M K V → A r → Prop} {d : Dialogue R A α} {start : Records M K V}
    {log : List ((r : R) × A r)} {x : Option (Dialogue R A α)}
    (h : (game P sends tells).Reaches d start log s x) (hstart : C.New start)
    (hd : ∀ s, Sound P s → (game P sends tells).Keeps (fun _ _ => True) d s) :
    s.applied.length ≤ 1 ∧ ∀ c ∈ s.applied, P.wants s c.1 ∧ P.wanted c.2 := by
  obtain ⟨hs, -⟩ := h.keeps hstart.sound hd fun _ _ _ _ _ _ => trivial
  refine ⟨hs.once, fun c hc => ?_⟩
  obtain ⟨hwants, hwanted, -⟩ := hs.applied c hc
  exact ⟨hwants, hwanted⟩

/-! ## What takes effect where there is nothing -/

theorem Told.stirs (hs : Told C s) (h : C.Stirs s t) : Told C t := by
  have hgrows := h.grows
  cases h with
  | others k v hnew => exact ⟨hs.sent, hs.meets, fun c hc => there_grows (hs.there c hc) hgrows,
      hs.first⟩
  | lands m k v hsent hk hmeets hnew =>
    refine ⟨?_, ?_, ?_, List.pairwise_cons.mpr ⟨?_, hs.first⟩⟩
    · intro c hc
      rcases List.mem_cons.mp hc with rfl | hc
      · exact hsent
      · exact hs.sent c hc
    · intro c hc
      rcases List.mem_cons.mp hc with rfl | hc
      · exact hmeets
      · exact hs.meets c hc
    · intro c hc
      rcases List.mem_cons.mp hc with rfl | hc
      · refine ⟨k, hk, ?_⟩
        show (s.become k v).past k ≠ []
        rw [Records.become_past]
        exact List.cons_ne_nil _ _
      · exact there_grows (hs.there c hc) hgrows
    · -- an older request has left a state behind
      intro older holder hnone hsame
      obtain ⟨other, hother, hany⟩ := hs.there older holder
      obtain rfl : k = other := Option.some.inj (hk.symm.trans (hsame.trans hother))
      exact hany (List.head?_eq_none_iff.mp hnone)

end Conditions

end Cirrove.Library
