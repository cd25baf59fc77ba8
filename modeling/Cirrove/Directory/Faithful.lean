import Cirrove.Directory.Machine

/-!
# Listings as their histories tell them

Whatever the calls of a mount, every listing is as its history tells it: what was published
is in its backing, its builder goes on from there or has failed (`Slot.Faithful`), and the
budget is what the listings that are there have reserved (`World.Inv`). A call of a builder
keeps that by its specification, a call of a reader since it only counts handles.
-/

namespace Cirrove.Directory

open Cirrove.Library
open Std.Do

/-! ## The invariant -/

/-- A listing is as its history tells it. -/
structure Slot.Faithful (slot : Slot) (t : Told) : Prop where
  published_le : t.published ≤ t.pushed.length
  publishes : slot.listing.Publishes (t.pushed.take t.published)
  complete : slot.listing.progress.complete = t.complete
  all : t.complete = true → t.published = t.pushed.length
  noError : t.complete = true → slot.listing.progress.error = none
  error : slot.listing.progress.error ≠ none → t.refused = true
  done : t.complete = true → slot.builder = none
  /-- A builder that has not failed goes on, whatever others reserve. -/
  running : ∀ b ∈ slot.builder, b.failed = false → ∀ usage : Usage,
    slot.listing.reserved ≤ usage.bytes → usage.bytes ≤ maxBytes →
    ({ usage := usage, listing := slot.listing, builder := b } : Building).Running t.pushed
      t.published
  /-- A builder that was refused once has failed, or nobody reads. -/
  refused : ∀ b ∈ slot.builder, t.refused = true → b.failed = true ∨
    (b.snapshot = false ∧ slot.listing.readers = 0)
  healthy : ∀ b ∈ slot.builder, b.failed = true → t.refused = true ∧
    slot.listing.progress.error ≠ none

/-- What a listing takes of the budget. -/
def reservedBy : Option Slot → Nat
  | some slot => slot.listing.reserved
  | none => 0

/-- Whether there is a listing. -/
def counted : Option Slot → Nat
  | some _ => 1
  | none => 0

structure World.Inv (w : World) (t : Nat → Told) : Prop where
  bytes : w.usage.bytes = (w.slots.map reservedBy).sum
  snapshots : w.usage.snapshots = (w.slots.map counted).sum
  budget : w.usage.bytes ≤ maxBytes
  faithful : ∀ key slot, w.slot key = some slot → slot.Faithful (t key)
  held : ∀ key slot, w.slot key = some slot → slot.released = false
  untold : ∀ key, w.slots.length ≤ key → t key = {}

theorem World.Inv.start : World.Inv {} fun _ => {} where
  bytes := rfl
  snapshots := rfl
  budget := Nat.zero_le _
  faithful := by
    intro key slot hslot
    cases hslot
  held := by
    intro key slot hslot
    cases hslot
  untold _ _ := rfl

/-! ## Sums over the listings -/

/-- Another listing in its place changes the sum by the difference. -/
theorem sum_map_set {α : Type*} (f : α → Nat) {l : List α} {i : Nat} {a : α} (h : l[i]? = some a)
    (b : α) : ((l.set i b).map f).sum + f a = (l.map f).sum + f b := by
  induction l generalizing i with
  | nil => cases h
  | cons x l ih =>
    cases i with
    | zero =>
      obtain rfl := Option.some.inj h
      simp
      omega
    | succ i =>
      have := ih h
      simp only [List.set_cons_succ, List.map_cons, List.sum_cons]
      omega

namespace World

variable {w : World} {key : Nat} {slot : Slot} {t : Nat → Told}

theorem slot_eq_some : w.slot key = some slot ↔ w.slots[key]? = some (some slot) := by
  unfold World.slot
  cases h : w.slots[key]? with
  | none => simp
  | some o => cases o <;> simp

theorem slot_set_of_ne {slots : List (Option Slot)} {usage : Usage} {other : Nat}
    {o : Option Slot} (h : other ≠ key) :
    World.slot { usage := usage, slots := slots.set key o } other =
      World.slot { usage := usage, slots := slots } other := by
  simp [World.slot, List.getElem?_set_ne h.symm]

theorem reserved_le (h : w.Inv t) (hslot : w.slot key = some slot) :
    slot.listing.reserved ≤ w.usage.bytes := by
  rw [h.bytes]
  have hmem : reservedBy (some slot) ∈ w.slots.map reservedBy :=
    List.mem_map_of_mem (List.mem_of_getElem? (slot_eq_some.mp hslot))
  exact List.single_le_sum (fun _ _ => Nat.zero_le _) _ hmem

end World

/-! ## One listing -/

section Faithful

variable {s : Building} {slot : Slot} {t : Told} {xs ys : List Entry} {n : Nat}

/-- A builder goes on whatever others reserve. -/
theorem Building.Running.elsewhere (h : s.Running xs n) {usage : Usage}
    (haccounted : s.listing.reserved ≤ usage.bytes) (hbudget : usage.bytes ≤ maxBytes) :
    ({ s with usage := usage } : Building).Running xs n :=
  { h with accounted := haccounted, budget := hbudget }

theorem Slot.Faithful.of_running (h : s.Running t.pushed t.published)
    (hcomplete : t.complete = false)
    (hrefused : t.refused = true → s.builder.snapshot = false ∧ s.listing.readers = 0) :
    Slot.Faithful { listing := s.listing, builder := some s.builder } t where
  published_le := h.published_le.trans h.holds.stored_le
  publishes := h.published
  complete := h.incomplete.trans hcomplete.symm
  all hall := by rw [hcomplete] at hall; cases hall
  noError _ := h.noError
  error herror := absurd h.noError herror
  done hdone := by rw [hcomplete] at hdone; cases hdone
  running := by
    intro b hb _ usage haccounted hbudget
    obtain rfl := Option.some.inj hb
    exact h.elsewhere haccounted hbudget
  refused := by
    intro b hb hrefused'
    obtain rfl := Option.some.inj hb
    exact .inr (hrefused hrefused')
  healthy := by
    intro b hb hfailed
    obtain rfl := Option.some.inj hb
    rw [h.healthy] at hfailed
    cases hfailed

theorem Slot.Faithful.of_stopped (h : s.Stopped (t.pushed.take t.published))
    (hle : t.published ≤ t.pushed.length) (hcomplete : t.complete = false)
    (hrefused : t.refused = true) :
    Slot.Faithful { listing := s.listing, builder := some s.builder } t where
  published_le := hle
  publishes := h.published
  complete := h.incomplete.trans hcomplete.symm
  all hall := by rw [hcomplete] at hall; cases hall
  noError hall := by rw [hcomplete] at hall; cases hall
  error _ := hrefused
  done hdone := by rw [hcomplete] at hdone; cases hdone
  running := by
    intro b hb hhealthy
    obtain rfl := Option.some.inj hb
    rw [h.failed] at hhealthy
    cases hhealthy
  refused := by
    intro b hb _
    obtain rfl := Option.some.inj hb
    exact .inl h.failed
  healthy _ _ _ := ⟨hrefused, h.error⟩

theorem Slot.Faithful.of_completed {l : Listing} (h : l.Completed t.pushed)
    (hall : t.published = t.pushed.length) (hcomplete : t.complete = true) :
    Slot.Faithful { listing := l, builder := none } t where
  published_le := hall.le
  publishes := by
    rw [hall, List.take_length]
    exact h.published
  complete := h.complete.trans hcomplete.symm
  all _ := hall
  noError _ := h.noError
  error herror := absurd h.noError herror
  done _ := rfl
  running _ hb := by cases hb
  refused _ hb := by cases hb
  healthy _ hb := by cases hb

/-- A listing stays what it is when its builder is dropped. -/
theorem Slot.Faithful.dropped (h : slot.Faithful t) :
    Slot.Faithful { slot with builder := none } t :=
  { h with
    done := fun _ => rfl
    running := fun _ hb => by cases hb
    refused := fun _ hb => by cases hb
    healthy := fun _ hb => by cases hb }

/-- A listing that is being built is not complete. -/
theorem Slot.Faithful.incomplete (h : slot.Faithful t) {b : Builder} (hb : slot.builder = some b) :
    t.complete = false := by
  cases hdone : t.complete with
  | false => rfl
  | true =>
    rw [h.done hdone] at hb
    cases hb

/-- Nobody reads what a healthy builder was refused. -/
theorem Slot.Faithful.cancelled (h : slot.Faithful t) {b : Builder} (hb : slot.builder = some b)
    (hhealthy : b.failed = false) (hrefused : t.refused = true) :
    b.snapshot = false ∧ slot.listing.readers = 0 := by
  rcases h.refused b hb hrefused with hfailed | hcancelled
  · rw [hhealthy] at hfailed
    cases hfailed
  · exact hcancelled

/-- A builder that was never refused has not failed. -/
theorem Slot.Faithful.unfailed (h : slot.Faithful t) {b : Builder} (hb : slot.builder = some b)
    (hrefused : t.refused = false) : b.failed = false := by
  cases hfailed : b.failed with
  | false => rfl
  | true =>
    have := (h.healthy b hb hfailed).1
    rw [hrefused] at this
    cases this

/-- A call that was refused by a builder that had failed, or that nobody reads from. -/
theorem Slot.Faithful.refuse (h : slot.Faithful t)
    (hrefused : ∀ b ∈ slot.builder, b.failed = true ∨
      (b.snapshot = false ∧ slot.listing.readers = 0)) :
    slot.Faithful { t with refused := true } :=
  { h with
    error := fun _ => rfl
    refused := fun b hb _ => hrefused b hb
    healthy := fun b hb hfailed => ⟨rfl, (h.healthy b hb hfailed).2⟩ }

/-- While a reader holds the listing, others may come and go. -/
theorem Slot.Faithful.setReaders (h : slot.Faithful t) (hreads : 0 < slot.listing.readers)
    (readers : Nat) :
    Slot.Faithful { slot with listing := { slot.listing with readers := readers } } t :=
  { h with
    publishes := { h.publishes with }
    running := fun b hb hhealthy usage haccounted hbudget =>
      let hrunning := h.running b hb hhealthy usage haccounted hbudget
      { hrunning with published := { hrunning.published with } }
    refused := fun b hb hrefused => (h.refused b hb hrefused).imp_right fun hnobody => by
      omega }

theorem Listing.publishes_nothing : Listing.Publishes {} [] where
  entries := rfl
  dataBytes := rfl
  backing := Backing.Stores.begins ⟨rfl, rfl⟩
  valid _ he := by cases he
  room := Nat.zero_le _

/-- A listing that was just started. -/
theorem Slot.Faithful.fresh : Slot.Faithful {} {} where
  published_le := le_rfl
  publishes := Listing.publishes_nothing
  complete := rfl
  all _ := rfl
  noError _ := rfl
  error herror := absurd rfl herror
  done hdone := by cases hdone
  running := by
    intro b hb _ usage haccounted hbudget
    obtain rfl := Option.some.inj hb
    exact {
      holds := ⟨le_rfl, ⟨rfl, rfl⟩, rfl, rfl, rfl, rfl, rfl, rfl⟩
      valid := by simp
      healthy := rfl
      published_le := le_rfl
      published := Listing.publishes_nothing
      incomplete := rfl
      noError := rfl
      reserved := le_rfl
      accounted := haccounted
      budget := hbudget }
  refused _ _ hrefused := by cases hrefused
  healthy b hb hfailed := by
    obtain rfl := Option.some.inj hb
    cases hfailed

end Faithful

/-! ## One step -/

/-- What a specification says of a call in a state it is made in. -/
theorem outcome_of_spec {s₀ : Building} {call : Build Unit} {Q E : Building → Prop}
    (h : ⦃fun s => ⌜s = s₀⌝⦄ call ⦃post⟨fun _ s => ⌜Q s⌝, fun _ s => ⌜E s⌝⟩⦄) :
    match call s₀ with
    | .ok _ s => Q s
    | .error _ s => E s := by
  have hout := h s₀ rfl
  cases hcall : call s₀ with
  | ok a s =>
    simpa [wp, EStateM.run, PredTrans.apply, hcall] using hout
  | error error s =>
    simpa [wp, EStateM.run, PredTrans.apply, hcall] using hout

section Outcomes

variable {usage : Usage} {l : Listing} {b : Builder} {t : Told} {device : Device} {key : Nat}
  {e : Entry}

/-- What a builder's call leaves, as it is told by the call and its answer. -/
def Tells (t : Told) (call : Call) (s₀ : Building) (last : Bool)
    (outcome : EStateM.Result Failure Building Unit) : Prop :=
  match outcome with
  | .ok _ s => s₀.Pays s ∧
    Slot.Faithful { listing := s.listing, builder := if last then none else some s.builder }
      (t.answered call (.ok ()))
  | .error error s => s₀.Pays s ∧
    Slot.Faithful { listing := s.listing, builder := if last then none else some s.builder }
      (t.answered call (.error error))

theorem Building.Pays.refl (s : Building) : s.Pays s := ⟨rfl, rfl, id⟩

/-- What a call that was refused leaves. -/
theorem refused_tells {s₀ s : Building} (h : Slot.Faithful ⟨s₀.listing, some s₀.builder⟩ t)
    {last : Bool} (hpays : s₀.Pays s)
    (hs : s.Stopped (t.pushed.take t.published) ∨ s = s₀ ∧
      (s₀.builder.failed = true ∨ Builder.cancelled s₀ = true)) :
    s₀.Pays s ∧ Slot.Faithful
      { listing := s.listing, builder := if last then none else some s.builder }
      { t with refused := true } := by
  have hcomplete := h.incomplete rfl
  have hkept : Slot.Faithful ⟨s.listing, some s.builder⟩ { t with refused := true } := by
    rcases hs with hstopped | ⟨rfl, hrefused⟩
    · exact .of_stopped hstopped h.published_le hcomplete rfl
    · apply h.refuse
      intro b hb
      obtain rfl := Option.some.inj hb
      simpa [Builder.cancelled] using hrefused
  refine ⟨hpays, ?_⟩
  cases last with
  | false => exact hkept
  | true => exact hkept.dropped

theorem bind_of_error {call : Build Unit} {next : Unit → Build Unit} {s₀ s : Building}
    {error : Failure} (h : call s₀ = .error error s) : (call >>= next) s₀ = .error error s := by
  simp [bind, EStateM.bind, h]

theorem push_of_failed {s₀ : Building} (h : s₀.builder.failed = true) :
    Builder.push device e s₀ = .error .invalid s₀ := by
  simp [Builder.push, bind, EStateM.bind, get, getThe, MonadStateOf.get, EStateM.get, h, throw,
    throwThe, MonadExceptOf.throw, EStateM.throw]

theorem flush_of_failed {s₀ : Building} {complete : Bool} (h : s₀.builder.failed = true) :
    Builder.flush device complete s₀ = .error .invalid s₀ := by
  simp [Builder.flush, bind, EStateM.bind, get, getThe, MonadStateOf.get, EStateM.get, h, throw,
    throwThe, MonadExceptOf.throw, EStateM.throw]

theorem push_tells {s₀ : Building} (h : Slot.Faithful ⟨s₀.listing, some s₀.builder⟩ t)
    (haccounted : s₀.listing.reserved ≤ s₀.usage.bytes) (hbudget : s₀.usage.bytes ≤ maxBytes) :
    Tells t (.push key e) s₀ false (Builder.push device e s₀) := by
  cases hfailed : s₀.builder.failed with
  | true =>
    rw [push_of_failed hfailed]
    exact refused_tells h (.refl _) (.inr ⟨rfl, .inl hfailed⟩)
  | false =>
    have hrunning := h.running _ rfl hfailed s₀.usage haccounted hbudget
    have hspec := outcome_of_spec (@Builder.push_spec s₀ device _ _ e hrunning)
    cases hcall : Builder.push device e s₀ with
    | ok a s =>
      rw [hcall] at hspec
      refine ⟨hspec.2.toPays, .of_running hspec.1 (h.incomplete rfl) ?_⟩
      intro hrefused
      have hcancelled := h.cancelled rfl hfailed hrefused
      exact ⟨hspec.2.snapshot.trans hcancelled.1, hspec.2.readers.trans hcancelled.2⟩
    | error error s =>
      rw [hcall] at hspec
      exact refused_tells h hspec.1.2.toPays (.inl hspec.1.1)

/-- What is refused by a healthy builder: it fails, or nobody reads. -/
theorem stopped_or_cancelled {s₀ s : Building} {works : Prop}
    (hs : (s.Stopped (t.pushed.take t.published) ∧ s₀.Spends s ∧ works) ∨
      (s = s₀ ∧ Builder.cancelled s₀ = true)) :
    s₀.Pays s ∧ (s.Stopped (t.pushed.take t.published) ∨ s = s₀ ∧
      (s₀.builder.failed = true ∨ Builder.cancelled s₀ = true)) := by
  rcases hs with ⟨hstopped, hspends, _⟩ | ⟨rfl, hcancelled⟩
  · exact ⟨hspends.toPays, .inl hstopped⟩
  · exact ⟨.refl _, .inr ⟨rfl, .inr hcancelled⟩⟩

theorem not_refused {s₀ : Building} (h : Slot.Faithful ⟨s₀.listing, some s₀.builder⟩ t)
    (hhealthy : s₀.builder.failed = false) (hopen : Builder.cancelled s₀ = false) :
    t.refused = false := by
  cases hrefused : t.refused with
  | false => rfl
  | true =>
    obtain ⟨hsnapshot, hreaders⟩ := h.cancelled rfl hhealthy hrefused
    simp only [Builder.cancelled, hsnapshot, Bool.not_false, Bool.true_and, beq_eq_false_iff_ne]
      at hopen
    exact absurd hreaders hopen

theorem publish_tells {s₀ : Building} (h : Slot.Faithful ⟨s₀.listing, some s₀.builder⟩ t)
    (haccounted : s₀.listing.reserved ≤ s₀.usage.bytes) (hbudget : s₀.usage.bytes ≤ maxBytes) :
    Tells t (.publish key) s₀ false (Builder.publish device s₀) := by
  cases hfailed : s₀.builder.failed with
  | true =>
    have hcall : Builder.publish device s₀ = .error .invalid s₀ := by
      rw [Builder.publish, bind_of_error (flush_of_failed hfailed)]
    rw [hcall]
    exact refused_tells h (.refl _) (.inr ⟨rfl, .inl hfailed⟩)
  | false =>
    have hrunning := h.running _ rfl hfailed s₀.usage haccounted hbudget
    have hspec := outcome_of_spec (@Builder.publish_spec s₀ device _ _ hrunning)
    cases hcall : Builder.publish device s₀ with
    | ok a s =>
      rw [hcall] at hspec
      refine ⟨hspec.1, .of_running hspec.2.1 (h.incomplete rfl) ?_⟩
      intro hrefused
      exact absurd ((not_refused h hfailed hspec.2.2).symm.trans hrefused) (by simp)
    | error error s =>
      rw [hcall] at hspec
      obtain ⟨hpays, hs⟩ := stopped_or_cancelled hspec
      exact refused_tells h hpays hs

theorem complete_tells {s₀ : Building} (h : Slot.Faithful ⟨s₀.listing, some s₀.builder⟩ t)
    (haccounted : s₀.listing.reserved ≤ s₀.usage.bytes) (hbudget : s₀.usage.bytes ≤ maxBytes) :
    Tells t (.complete key) s₀ true (Builder.complete device s₀) := by
  cases hfailed : s₀.builder.failed with
  | true =>
    have hcall : Builder.complete device s₀ = .error .invalid s₀ := by
      rw [Builder.complete, bind_of_error (flush_of_failed hfailed)]
    rw [hcall]
    exact refused_tells h (.refl _) (.inr ⟨rfl, .inl hfailed⟩)
  | false =>
    have hrunning := h.running _ rfl hfailed s₀.usage haccounted hbudget
    have hspec := outcome_of_spec (@Builder.complete_spec s₀ device _ _ hrunning)
    cases hcall : Builder.complete device s₀ with
    | ok a s =>
      rw [hcall] at hspec
      exact ⟨hspec.1, .of_completed hspec.2.1 rfl rfl⟩
    | error error s =>
      rw [hcall] at hspec
      obtain ⟨hpays, hs⟩ := stopped_or_cancelled hspec
      exact refused_tells h hpays hs

theorem fail_tells {s₀ : Building} {error : Int}
    (h : Slot.Faithful ⟨s₀.listing, some s₀.builder⟩ t) :
    Tells t (.fail key error) s₀ false (Builder.fail error s₀) := by
  have hstopped : (s₀.broken error).Stopped (t.pushed.take t.published) :=
    { published := { h.publishes with }
      failed := rfl
      incomplete := h.complete.trans (h.incomplete rfl)
      error := by simp [Building.broken] }
  exact refused_tells h ⟨rfl, rfl, id⟩ (.inl hstopped)

theorem drop_tells {s₀ : Building} (h : Slot.Faithful ⟨s₀.listing, some s₀.builder⟩ t) :
    Tells t (.dropBuilder key) s₀ true ((pure () : Build Unit) s₀) :=
  ⟨.refl _, h.dropped⟩

end Outcomes

namespace World

variable {w : World} {key : Nat} {slot slot' : Slot} {t t' : Nat → Told} {usage : Usage}
  {l : Listing}

/-- A call on one listing that pays for what it reserves keeps the invariant. -/
theorem Inv.settle (h : w.Inv t) (hslot : w.slot key = some slot)
    (hsnapshots : usage.snapshots = w.usage.snapshots)
    (hbytes : usage.bytes + slot.listing.reserved = w.usage.bytes + slot'.listing.reserved)
    (hbudget : usage.bytes ≤ maxBytes) (hfaithful : slot'.Faithful (t' key))
    (hother : ∀ k, k ≠ key → t' k = t k) :
    ({ w with usage := usage }.settle key slot').Inv t' := by
  have hget := slot_eq_some.mp hslot
  have hlt : key < w.slots.length := (List.getElem?_eq_some_iff.mp hget).1
  have huntold : ∀ k, w.slots.length ≤ k → t' k = {} := by
    intro k hk
    rw [hother k (by omega), h.untold k hk]
  have hbytesAt := fun o => sum_map_set reservedBy hget o
  have hcountAt := fun o => sum_map_set counted hget o
  -- The listings beside it are as they were.
  have hfaithfulAt : ∀ (o : Option Slot) (u : Usage) (k : Nat) (x : Slot), k ≠ key →
      World.slot { usage := u, slots := w.slots.set key o } k = some x →
      x.Faithful (t' k) ∧ x.released = false := by
    intro o u k x hk hx
    rw [slot_set_of_ne hk] at hx
    rw [hother k hk]
    exact ⟨h.faithful k x hx, h.held k x hx⟩
  have hself : ∀ (o : Option Slot) (u : Usage),
      World.slot { usage := u, slots := w.slots.set key o } key = o := by
    intro o u
    simp [World.slot, List.getElem?_set_self hlt]
  unfold World.settle
  by_cases hreleased : slot'.released = true
  · rw [if_pos hreleased]
    have hsum := hbytesAt none
    have hcount := hcountAt none
    have hbytes' := h.bytes
    have hsnapshots' := h.snapshots
    simp only [reservedBy, counted] at hsum hcount
    refine ⟨?_, ?_, ?_, ?_, ?_, ?_⟩
    · simp only
      omega
    · simp only
      omega
    · simp only
      omega
    · intro k x hx
      by_cases hk : k = key
      · subst hk
        rw [hself] at hx
        cases hx
      · exact (hfaithfulAt _ _ k x hk hx).1
    · intro k x hx
      by_cases hk : k = key
      · subst hk
        rw [hself] at hx
        cases hx
      · exact (hfaithfulAt _ _ k x hk hx).2
    · simpa using huntold
  · rw [if_neg hreleased]
    have hsum := hbytesAt (some slot')
    have hcount := hcountAt (some slot')
    have hbytes' := h.bytes
    have hsnapshots' := h.snapshots
    simp only [reservedBy, counted] at hsum hcount
    refine ⟨?_, ?_, hbudget, ?_, ?_, ?_⟩
    · simp only
      omega
    · simp only
      omega
    · intro k x hx
      by_cases hk : k = key
      · subst hk
        rw [hself] at hx
        obtain rfl := Option.some.inj hx
        exact hfaithful
      · exact (hfaithfulAt _ _ k x hk hx).1
    · intro k x hx
      by_cases hk : k = key
      · subst hk
        rw [hself] at hx
        obtain rfl := Option.some.inj hx
        simpa using hreleased
      · exact (hfaithfulAt _ _ k x hk hx).2
    · simpa using huntold

/-- A call of a builder is told. -/
theorem Inv.build (h : w.Inv t) {b : Builder} (hslot : w.slot key = some ⟨l, some b⟩)
    {call : Build Unit} {c : Call} {last : Bool} (hkey : c.key = some key)
    (htells : Tells (t key) c ⟨w.usage, l, b⟩ last (call ⟨w.usage, l, b⟩)) :
    (w.build key call last).1.Inv fun k =>
      if c.key = some k then (t k).answered c (w.build key call last).2 else t k := by
  have hother : ∀ (answer : Except Failure Unit) (k : Nat), k ≠ key →
      (if c.key = some k then (t k).answered c answer else t k) = t k := by
    intro answer k hk
    rw [hkey]
    exact if_neg fun heq => hk (Option.some.inj heq).symm
  have hself : ∀ answer : Except Failure Unit,
      (if c.key = some key then (t key).answered c answer else t key) =
        (t key).answered c answer := fun answer => if_pos hkey
  rw [World.build, hslot]
  cases hcall : call ⟨w.usage, l, b⟩ with
  | ok a s =>
    rw [hcall] at htells
    obtain ⟨hpays, hfaithful⟩ := htells
    simp only [hcall]
    apply h.settle hslot hpays.snapshots hpays.bytes (hpays.budget h.budget) _ (hother _)
    rw [hself]
    exact hfaithful
  | error error s =>
    rw [hcall] at htells
    obtain ⟨hpays, hfaithful⟩ := htells
    simp only [hcall]
    apply h.settle hslot hpays.snapshots hpays.bytes (hpays.budget h.budget) _ (hother _)
    rw [hself]
    exact hfaithful

/-- A reader more or less is not told. -/
theorem Inv.setReaders (h : w.Inv t) (hslot : w.slot key = some slot)
    (hreads : 0 < slot.listing.readers) (f : Nat → Nat) : (w.setReaders key f).Inv t := by
  rw [World.setReaders, hslot]
  have hfaithful := (h.faithful key slot hslot).setReaders hreads (f slot.listing.readers)
  exact h.settle hslot rfl rfl h.budget hfaithful fun _ _ => rfl

theorem Inv.startListing (h : w.Inv t) : w.start.1.Inv t := by
  unfold World.start
  by_cases hfull : maxSnapshots ≤ w.usage.snapshots
  · rw [if_pos hfull]
    exact h
  · rw [if_neg hfull]
    have hlast : ∀ (usage : Usage) (k : Nat) (x : Slot),
        World.slot { usage := usage, slots := w.slots ++ [some {}] } k = some x →
        w.slot k = some x ∨ (k = w.slots.length ∧ x = {}) := by
      intro usage k x hx
      rw [slot_eq_some, List.getElem?_append] at hx
      by_cases hk : k < w.slots.length
      · rw [if_pos hk] at hx
        exact .inl (slot_eq_some.mpr hx)
      · rw [if_neg hk, List.getElem?_singleton] at hx
        split at hx
        · exact .inr ⟨by omega, (Option.some.inj (Option.some.inj hx)).symm⟩
        · cases hx
    refine ⟨?_, ?_, h.budget, ?_, ?_, ?_⟩
    · simpa [reservedBy] using h.bytes
    · simpa [counted] using h.snapshots
    · intro k x hx
      rcases hlast _ k x hx with hold | ⟨rfl, rfl⟩
      · exact h.faithful k x hold
      · rw [h.untold _ le_rfl]
        exact .fresh
    · intro k x hx
      rcases hlast _ k x hx with hold | ⟨rfl, rfl⟩
      · exact h.held k x hold
      · rfl
    · intro k hk
      rw [List.length_append, List.length_singleton] at hk
      exact h.untold k (by omega)

/-- Every call keeps the invariant, with what is told by it. -/
theorem Inv.step (h : w.Inv t) {e : Event} (hallowed : w.Allowed e) :
    (w.step e).Inv fun key => (t key).after key e := by
  obtain ⟨hcallable, hanswer⟩ := hallowed
  unfold World.step Told.after
  rw [← hanswer]
  -- A call of a builder, whose listing is there.
  have hbuild : ∀ (c : Call) (key : Nat) (call : Build Unit) (last : Bool), c.key = some key →
      (∃ slot, w.slot key = some slot ∧ slot.builder.isSome = true) →
      (∀ s₀ : Building, Slot.Faithful ⟨s₀.listing, some s₀.builder⟩ (t key) →
        s₀.listing.reserved ≤ s₀.usage.bytes → s₀.usage.bytes ≤ maxBytes →
        Tells (t key) c s₀ last (call s₀)) →
      (w.build key call last).1.Inv fun k =>
        if c.key = some k then (t k).answered c (w.build key call last).2 else t k := by
    intro c key call last hkey hthere htells
    obtain ⟨⟨l, builder⟩, hslot, hbuilder⟩ := hthere
    obtain ⟨b, rfl⟩ := Option.isSome_iff_exists.mp hbuilder
    exact h.build hslot hkey (htells _ (h.faithful key _ hslot) (reserved_le h hslot) h.budget)
  cases hcall : e.call with
  | start => simpa [Call.key, World.perform] using h.startListing
  | push key entry =>
    rw [hcall] at hcallable
    exact hbuild _ key _ _ rfl hcallable fun s₀ hs => push_tells hs
  | publish key =>
    rw [hcall] at hcallable
    exact hbuild _ key _ _ rfl hcallable fun s₀ hs => publish_tells hs
  | complete key =>
    rw [hcall] at hcallable
    exact hbuild _ key _ _ rfl hcallable fun s₀ hs => complete_tells hs
  | fail key error =>
    rw [hcall] at hcallable
    exact hbuild _ key _ _ rfl hcallable fun s₀ hs _ _ => fail_tells hs
  | dropBuilder key =>
    rw [hcall] at hcallable
    exact hbuild _ key _ _ rfl hcallable fun s₀ hs _ _ => drop_tells hs
  | openReader key =>
    rw [hcall] at hcallable
    obtain ⟨slot, hslot, hreads⟩ := hcallable
    simpa [Told.answered, World.perform] using h.setReaders hslot hreads (· + 1)
  | closeReader key =>
    rw [hcall] at hcallable
    obtain ⟨slot, hslot, hreads⟩ := hcallable
    simpa [Told.answered, World.perform] using h.setReaders hslot hreads (· - 1)

/-- After every run the listings are as their histories tell them. -/
theorem Reaches.inv {events : List Event} (h : Reaches events w) :
    w.Inv fun key => told key events := by
  induction h with
  | start => exact .start
  | next _ hallowed ih =>
    have hstep := ih.step hallowed
    simpa [told, List.foldl_append] using hstep

end World

end Cirrove.Directory
