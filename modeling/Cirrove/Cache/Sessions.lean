import Cirrove.Cache.Windows
import Cirrove.Library.Runs

/-!
# Read sessions

`cirrove-service/src/content/sessions.rs`: the reads of one version of a file share an entry. A read
that goes on where the last one ended starts a window, and the reads that a window contains are
answered from it. Steps are what happens under one lock, so that reads interleave.

* `State.Sound`: every window holds the bytes of its range, every answer is exact.
* `step_sound`: a step keeps it.
* `sessions_exact`: over every run.

Time is what the steps are told: whether a failed window is old enough to be dropped, and how long
a transfer took.
-/

namespace Cirrove.Cache.Sessions

open Cirrove.Library
open Cirrove.Google (ProviderError)

variable {Digest : Type}

/-! ## State -/

structure Slot (Digest : Type) where
  start : Nat
  length : Nat
  value : Option (Except ProviderError (Window Digest)) := none
  reservation : Option Nat

namespace Slot

def contains (slot : Slot Digest) (offset length : Nat) : Prop :=
  slot.start ≤ offset ∧ offset - slot.start + length ≤ slot.length

instance (slot : Slot Digest) (offset length : Nat) : Decidable (slot.contains offset length) :=
  inferInstanceAs (Decidable (_ ∧ _))

def ready (slot : Slot Digest) : Bool :=
  match slot.value with
  | some (.ok _) => true
  | _ => false

def failed (slot : Slot Digest) : Bool :=
  match slot.value with
  | some (.error _) => true
  | _ => false

end Slot

/-- `Progress`; a slot is its number. -/
structure Progress where
  ending : Option Nat := none
  growth : Nat := 0
  slot : Option Nat := none
  speedLimit : Option Nat := none

/-- Where a read stands. -/
inductive Phase where
  /-- It has a slot. -/
  | windowed (slot : Nat)
  /-- `session.read_range` is under way. -/
  | ranged
  /-- `provider.read_range` is under way, for want of an entry or of a session. -/
  | direct
  /-- A range has arrived, `progressed` is still to be called. -/
  | answered (bytes : Bytes)
  | finished (result : Except ProviderError Bytes)

structure Call where
  offset : Nat
  length : Nat
  phase : Phase

structure State (Digest : Type) where
  slots : List (Slot Digest) := []
  calls : List Call := []
  progress : Progress := {}

/-! ## Entry -/

def maxSpeculative : Nat := 64 * 1024 * 1024
def maxU32 : Nat := 2 ^ 32 - 1

namespace Progress

/-- `Entry::transferred`, which takes nanoseconds. -/
def transferred (p : Progress) (bytes elapsed : Nat) : Progress :=
  let bound := min (bytes * 5000000000 / max elapsed 1) maxSpeculative / blockSize * blockSize
  { p with speedLimit := some bound }

/-- The length `Entry::window` asks for. -/
def wanted (p : Progress) (limit remaining : Nat) : Nat :=
  min (min (min (min (max p.growth blockSize * 2) maxU32) limit)
    (p.speedLimit.getD maxSpeculative)) (min remaining maxU32)

/-- Forget the slot and start to grow again. -/
def reset (p : Progress) : Progress :=
  { p with slot := none, ending := none, growth := blockSize }

end Progress

namespace State

/-- The slot of the progress, with its number. -/
def current (s : State Digest) (p : Progress) : Option (Nat × Slot Digest) :=
  p.slot.bind fun id => s.slots[id]?.map (id, ·)

/-- Whether a read holds a slot. -/
def held (s : State Digest) (id : Nat) : Bool :=
  s.calls.any fun call =>
    match call.phase with
    | .windowed slot => slot = id
    | _ => false

/-- `Entry::progressed` -/
def progressed (s : State Digest) (offset length : Nat) : State Digest :=
  let p := s.progress
  let p := if p.ending ≠ some offset then { p with growth := blockSize } else p
  let p := { p with ending := some (offset + length) }
  let consumed := (s.current p).any fun (_, slot) =>
    slot.ready && p.ending == some (slot.start + slot.length)
  { s with progress := if consumed then { p with slot := none } else p }

/-- What `Entry::window` does first: a slot that nobody fills, or that failed a while ago, is
    forgotten. -/
def fresh (s : State Digest) (late : Bool) : Progress :=
  let dropped := (s.current s.progress).any fun (id, slot) =>
    let abandoned := slot.value.isNone && !s.held id
    let failed := slot.failed && late
    abandoned || failed
  if dropped then s.progress.reset else s.progress

/-- What `Entry::window` does last. -/
def grow (s : State Digest) (capacity available : Nat) (p : Progress)
    (offset remaining limit : Nat) : State Digest × Option Nat :=
  if p.ending ≠ some offset ∨ limit ≤ blockSize ∨ offset % blockSize ≠ 0 then
    ({ s with progress := p }, none)
  else
    match Staging.reserve capacity available (p.wanted limit remaining) with
    | none => ({ s with progress := { p with slot := none } }, none)
    | some length =>
      let id := s.slots.length
      ({ s with
          slots := s.slots ++ [{ start := offset, length, reservation := some length }]
          progress := { p with growth := length, slot := some id } }, some id)

/-- `Entry::window` -/
def window (s : State Digest) (capacity available : Nat) (offset length remaining limit : Nat)
    (late : Bool) : State Digest × Option Nat :=
  let p := s.fresh late
  match s.current p with
  | some (id, slot) =>
    if slot.contains offset length then ({ s with progress := p }, some id)
    -- A different range remains independent of a pending window.
    else if !slot.ready then ({ s with progress := p }, none)
    else s.grow capacity available p offset remaining limit
  | none => s.grow capacity available p offset remaining limit

def setPhase (s : State Digest) (i : Nat) (phase : Phase) : State Digest :=
  { s with calls := s.calls.modify i fun call => { call with phase } }

def setSlot (s : State Digest) (id : Nat) (f : Slot Digest → Slot Digest) : State Digest :=
  { s with slots := s.slots.modify id f }

end State

/-! ## Steps -/

inductive Event where
  /-- A read begins with the session of its identity. -/
  | read (offset length limit available : Nat) (late : Bool)
  /-- A read begins without one. -/
  | direct (offset length : Nat)
  /-- A read fails before it has a session. -/
  | refused (offset length : Nat) (error : ProviderError)
  /-- The window of a read's slot has been streamed, or its file or its transfer failed. -/
  | filled (call available : Nat) (outcome : Except ProviderError (List Bytes)) (elapsed : Nat)
  /-- A read takes its block from the window of its slot. -/
  | readBack (call : Nat)
  /-- The answer to an exact range. -/
  | replied (call : Nat) (reply : Except ProviderError Bytes) (elapsed : Nat)
  /-- A read whose range has arrived tells the entry. -/
  | progressed (call : Nat)
  /-- A read is dropped, perhaps while it was filling its slot. -/
  | dropped (call : Nat) (filling : Bool)
  /-- The entry was idle and another one takes its place. -/
  | evicted

section

variable [DecidableEq Digest] (digest : Bytes → Digest) (size : Nat) (staging : Option Nat)

/-- The bytes there are to read from an offset. -/
def available (size offset length : Nat) : Nat := min (size - offset) length

/-- The window of a read, if there is staging at all. -/
def State.offer (s : State Digest) (offset length limit available : Nat) (late : Bool) :
    State Digest × Option Nat :=
  let count := Sessions.available size offset length
  match staging with
  | some capacity => s.window capacity available offset count (size - offset) limit late
  | none => (s, none)

/-- How `Sessions::read` goes on. -/
def Phase.after : Option Nat → Phase
  | some id => .windowed id
  | none => .ranged

/-- `Sessions::read` as far as the window. -/
def State.begin (s : State Digest) (offset length limit available : Nat) (late : Bool) :
    State Digest :=
  let offered := s.offer size staging offset length limit available late
  { offered.1 with calls := offered.1.calls ++ [⟨offset, length, Phase.after offered.2⟩] }

/-- The value a slot is initialised with. -/
def Slot.fill (slot : Slot Digest) (capacity available : Nat)
    (outcome : Except ProviderError (List Bytes)) : Except ProviderError (Window Digest) :=
  match (slot.reservation.or (Staging.reserve capacity available slot.length)).filter
      (· = slot.length) with
  | none => .error .unavailable
  | some length => outcome.bind fun chunks => Writer.stream digest length slot.start chunks

/-- The slot a read holds. -/
def State.slotOf (s : State Digest) (call : Call) : Option (Nat × Slot Digest) :=
  match call.phase with
  | .windowed id => s.slots[id]?.map (id, ·)
  | _ => none

def State.fill (s : State Digest) (capacity : Nat) (call : Call) (available : Nat)
    (outcome : Except ProviderError (List Bytes)) (elapsed : Nat) : State Digest :=
  match s.slotOf call with
  | some (id, slot) =>
    if slot.value.isNone then
      let value := slot.fill digest capacity available outcome
      let s := s.setSlot id fun slot => { slot with value := some value, reservation := none }
      match value with
      | .ok _ => { s with progress := s.progress.transferred slot.length elapsed }
      | .error _ => s
    else s
  | none => s

def State.readBack (s : State Digest) (i : Nat) (call : Call) : State Digest :=
  match s.slotOf call with
  | some (id, slot) =>
    let count := Sessions.available size call.offset call.length
    match slot.value with
    | none => s
    | some (.error error) => s.setPhase i (.finished (.error error))
    | some (.ok window) =>
      let result := window.read digest call.offset count
      let s := s.setPhase i (.finished result)
      match result with
      | .ok _ => s.progressed call.offset count
      | .error _ =>
        if s.progress.slot = some id then { s with progress := s.progress.reset } else s
  | none => s

def State.reply (s : State Digest) (i : Nat) (call : Call) (reply : Except ProviderError Bytes)
    (elapsed : Nat) : State Digest :=
  match call.phase, reply with
  | .direct, reply => s.setPhase i (.finished reply)
  | .ranged, .error error => s.setPhase i (.finished (.error error))
  | .ranged, .ok bytes =>
    let count := Sessions.available size call.offset call.length
    { s.setPhase i (.answered bytes) with progress := s.progress.transferred count elapsed }
  | _, _ => s

/-- Whether a read still refers to the entry. -/
def Phase.settled : Phase → Bool
  | .direct | .finished _ => true
  | _ => false

def step (s : State Digest) : Event → State Digest
  | .read offset length limit available late =>
    s.begin size staging offset length limit available late
  | .direct offset length => { s with calls := s.calls ++ [⟨offset, length, .direct⟩] }
  | .refused offset length error =>
    { s with calls := s.calls ++ [⟨offset, length, .finished (.error error)⟩] }
  | .filled i available outcome elapsed =>
    match s.calls[i]?, staging with
    | some call, some capacity => s.fill digest capacity call available outcome elapsed
    | _, _ => s
  | .readBack i =>
    match s.calls[i]? with
    | some call => s.readBack digest size i call
    | none => s
  | .replied i reply elapsed =>
    match s.calls[i]? with
    | some call => s.reply size i call reply elapsed
    | none => s
  | .progressed i =>
    match s.calls[i]? with
    | some ⟨offset, length, .answered bytes⟩ =>
      (s.setPhase i (.finished (.ok bytes))).progressed offset
        (Sessions.available size offset length)
    | _ => s
  | .dropped i filling =>
    match s.calls[i]? with
    | some call =>
      let s :=
        match s.slotOf call with
        | some (id, _) =>
          if filling then s.setSlot id fun slot => { slot with reservation := none } else s
        | none => s
      s.setPhase i (.finished (.error .cancelled))
    | none => s
  | .evicted => if s.calls.all (·.phase.settled) then { s with progress := {} } else s

end

/-- What the readers and the provider promise. Reads are of blocks; the session writes the range of
    a window in chunks of any size up to the limit; an exact range is the range. -/
def Allowed (file : Bytes) (s : State Digest) : Event → Prop
  | .read offset length _ _ _ | .direct offset length | .refused offset length _ =>
    offset % blockSize = 0 ∧ length = blockSize
  | .filled i _ (.ok chunks) _ =>
    ∀ call ∈ s.calls[i]?, ∀ slot ∈ s.slotOf call,
      (∀ c ∈ chunks, c.length ≤ chunkLimit) ∧
        chunks.flatten = (file.drop slot.2.start).take slot.2.length
  | .replied i (.ok bytes) _ =>
    ∀ call ∈ s.calls[i]?, bytes = (file.drop call.offset).take call.length
  | _ => True

/-! ## What is kept -/

/-- A window lies inside the file, begins with a block, and holds the bytes of its range. -/
structure Slot.Sound (digest : Bytes → Digest) (file : Bytes) (slot : Slot Digest) : Prop where
  aligned : slot.start % blockSize = 0
  inside : slot.start + slot.length ≤ file.length
  staged : ∀ w, slot.value = some (.ok w) →
    w = Window.of digest slot.start ((file.drop slot.start).take slot.length)

/-- A read that has a slot is contained in it, and what a read answers is exact. -/
def Phase.Sound (file : Bytes) (slots : List (Slot Digest)) (offset : Nat) : Phase → Prop
  | .windowed id =>
    ∃ slot, slots[id]? = some slot ∧ slot.contains offset (available file.length offset blockSize)
  | .answered bytes | .finished (.ok bytes) => bytes = (file.drop offset).take blockSize
  | _ => True

structure Call.Sound (file : Bytes) (slots : List (Slot Digest)) (call : Call) : Prop where
  aligned : call.offset % blockSize = 0
  length : call.length = blockSize
  phase : call.phase.Sound file slots call.offset

structure State.Sound (digest : Bytes → Digest) (file : Bytes) (s : State Digest) : Prop where
  slots : ∀ slot ∈ s.slots, slot.Sound digest file
  calls : ∀ call ∈ s.calls, call.Sound file s.slots

/-- Every slot is still there and has its range. -/
def Extends (slots slots' : List (Slot Digest)) : Prop :=
  ∀ (id : Nat) (slot : Slot Digest), slots[id]? = some slot →
    ∃ slot', slots'[id]? = some slot' ∧ slot'.start = slot.start ∧ slot'.length = slot.length

section

variable {digest : Bytes → Digest} {file : Bytes} {s s' : State Digest}
  {slots slots' : List (Slot Digest)}

theorem Extends.refl : Extends slots slots := fun _ slot h => ⟨slot, h, rfl, rfl⟩

theorem Extends.append (more : List (Slot Digest)) : Extends slots (slots ++ more) := by
  intro id slot h
  obtain ⟨hlt, -⟩ := List.getElem?_eq_some_iff.mp h
  exact ⟨slot, by rw [List.getElem?_append_left hlt, h], rfl, rfl⟩

theorem Extends.modify (id : Nat) {f : Slot Digest → Slot Digest}
    (h : ∀ slot, (f slot).start = slot.start ∧ (f slot).length = slot.length) :
    Extends slots (slots.modify id f) := by
  intro j slot hj
  rw [List.getElem?_modify, hj]
  split
  · exact ⟨f slot, rfl, h slot⟩
  · exact ⟨slot, rfl, rfl, rfl⟩

theorem Phase.Sound.extend {phase : Phase} {offset : Nat} (h : phase.Sound file slots offset)
    (hslots : Extends slots slots') : phase.Sound file slots' offset := by
  cases phase with
  | windowed id =>
    obtain ⟨slot, hslot, hcontains⟩ := h
    obtain ⟨slot', hslot', hstart, hlength⟩ := hslots id slot hslot
    refine ⟨slot', hslot', ?_⟩
    rw [Slot.contains, hstart, hlength]
    exact hcontains
  | finished result => cases result <;> exact h
  | ranged | direct | answered => exact h

theorem Call.Sound.extend {call : Call} (h : call.Sound file slots)
    (hslots : Extends slots slots') : call.Sound file slots' :=
  { h with phase := h.phase.extend hslots }

/-- Nothing depends on the progress. -/
theorem State.Sound.progress (h : s.Sound digest file) (p : Progress) :
    ({ s with progress := p } : State Digest).Sound digest file := ⟨h.slots, h.calls⟩

theorem State.Sound.progressed (h : s.Sound digest file) (offset length : Nat) :
    (s.progressed offset length).Sound digest file := h.progress _

theorem State.Sound.addCall {call : Call} (h : s.Sound digest file)
    (hcall : call.Sound file s.slots) :
    ({ s with calls := s.calls ++ [call] } : State Digest).Sound digest file := by
  refine ⟨h.slots, fun c hc => ?_⟩
  rcases List.mem_append.mp hc with hc | hc
  · exact h.calls c hc
  · obtain rfl := List.mem_singleton.mp hc
    exact hcall

theorem State.Sound.setPhase {i : Nat} {phase : Phase} (h : s.Sound digest file)
    (hphase : ∀ call ∈ s.calls[i]?, phase.Sound file s.slots call.offset) :
    (s.setPhase i phase).Sound digest file := by
  refine ⟨h.slots, fun c hc => ?_⟩
  obtain ⟨j, hj⟩ := List.mem_iff_getElem?.mp hc
  rw [State.setPhase, List.getElem?_modify] at hj
  split at hj
  · next hij =>
    subst hij
    obtain ⟨call, hcall, rfl⟩ := Option.map_eq_some_iff.mp hj
    have hsound := h.calls call (List.mem_of_getElem? hcall)
    exact { hsound with phase := hphase call hcall }
  · rw [id_map'] at hj
    exact h.calls c (List.mem_of_getElem? hj)

theorem State.Sound.setSlot {id : Nat} {f : Slot Digest → Slot Digest} (h : s.Sound digest file)
    (hrange : ∀ slot, (f slot).start = slot.start ∧ (f slot).length = slot.length)
    (hslot : ∀ slot ∈ s.slots[id]?, (f slot).Sound digest file) :
    (s.setSlot id f).Sound digest file := by
  refine ⟨fun slot hmem => ?_, fun c hc => (h.calls c hc).extend (Extends.modify id hrange)⟩
  obtain ⟨j, hj⟩ := List.mem_iff_getElem?.mp hmem
  rw [State.setSlot, List.getElem?_modify] at hj
  split at hj
  · next hij =>
    subst hij
    obtain ⟨slot, hold, rfl⟩ := Option.map_eq_some_iff.mp hj
    exact hslot slot hold
  · rw [id_map'] at hj
    exact h.slots slot (List.mem_of_getElem? hj)

/-! ## A new window -/

/-- What a reservation leaves room for. -/
theorem reserve_bounds {capacity available wanted length : Nat}
    (h : Staging.reserve capacity available wanted = some length) :
    blockSize < length ∧ length ≤ wanted := by
  rw [Staging.reserve] at h
  split at h
  · cases h
  · next hroom =>
    obtain rfl := Option.some.inj h
    omega

theorem wanted_le (p : Progress) (limit remaining : Nat) : p.wanted limit remaining ≤ remaining := by
  rw [Progress.wanted]
  omega

/-- The state beside a window that a read was given: the reads are the same, the slots go on, and
    the window contains the read. -/
structure Given (digest : Bytes → Digest) (file : Bytes) (s : State Digest) (offset : Nat)
    (result : State Digest × Option Nat) : Prop where
  calls : result.1.calls = s.calls
  grown : Extends s.slots result.1.slots
  slots : ∀ slot ∈ result.1.slots, slot.Sound digest file
  contains : ∀ id, result.2 = some id → (Phase.windowed id).Sound file result.1.slots offset

theorem Given.none (h : s.Sound digest file) (p : Progress) (offset : Nat) :
    Given digest file s offset ({ s with progress := p }, none) :=
  ⟨rfl, Extends.refl, h.slots, fun _ h => by cases h⟩

theorem grow_given (h : s.Sound digest file) (capacity free : Nat) (p : Progress)
    {offset : Nat} (limit : Nat) :
    Given digest file s offset
      (s.grow capacity free p offset (file.length - offset) limit) := by
  rw [State.grow]
  split
  · exact Given.none h p offset
  · next hstart =>
    split
    · exact Given.none h _ offset
    · next length hreserve =>
      obtain ⟨hlong, hwanted⟩ := reserve_bounds hreserve
      have hremaining := hwanted.trans (wanted_le _ _ _)
      refine ⟨rfl, Extends.append _, fun slot hmem => ?_, fun id hid => ?_⟩
      · rcases List.mem_append.mp hmem with hmem | hmem
        · exact h.slots slot hmem
        · obtain rfl := List.mem_singleton.mp hmem
          refine ⟨?_, ?_, fun w hw => by cases hw⟩
          · show offset % blockSize = 0
            by_contra hne
            exact hstart (.inr (.inr hne))
          · show offset + length ≤ file.length
            omega
      · obtain rfl := Option.some.inj hid
        refine ⟨_, List.getElem?_concat_length, le_rfl, ?_⟩
        show offset - offset + available file.length offset blockSize ≤ length
        rw [available]
        omega

theorem window_given (h : s.Sound digest file) (capacity free : Nat) {offset : Nat}
    (limit : Nat) (late : Bool) :
    Given digest file s offset
      (s.window capacity free offset (available file.length offset blockSize)
        (file.length - offset) limit late) := by
  rw [State.window]
  split
  · next id slot hcurrent =>
    split
    · next hcontains =>
      refine ⟨rfl, Extends.refl, h.slots, fun id' hid => ?_⟩
      obtain rfl := Option.some.inj hid
      obtain ⟨id', -, hslot⟩ := Option.bind_eq_some_iff.mp hcurrent
      obtain ⟨slot', hslot', heq⟩ := Option.map_eq_some_iff.mp hslot
      cases heq
      exact ⟨slot, hslot', hcontains⟩
    · split
      · exact Given.none h _ offset
      · exact grow_given h _ _ _ _
  · exact grow_given h _ _ _ _

/-! ## One step -/

theorem offer_given (offset limit free : Nat) (late : Bool) (staging : Option Nat)
    (h : s.Sound digest file) :
    Given digest file s offset
      (s.offer file.length staging offset blockSize limit free late) := by
  cases staging with
  | none => exact Given.none h s.progress offset
  | some capacity => exact window_given h capacity free limit late

theorem begin_sound {offset limit free : Nat} {late : Bool} {staging : Option Nat}
    (h : s.Sound digest file) (hoffset : offset % blockSize = 0) :
    (s.begin file.length staging offset blockSize limit free late).Sound digest file := by
  have hgiven := offer_given offset limit free late staging h
  unfold State.begin
  generalize s.offer file.length staging offset blockSize limit free late = offered at hgiven ⊢
  have hold : offered.1.Sound digest file := by
    refine ⟨hgiven.slots, fun call hcall => ?_⟩
    rw [hgiven.calls] at hcall
    exact (h.calls call hcall).extend hgiven.grown
  refine hold.addCall ⟨hoffset, rfl, ?_⟩
  show (Phase.after offered.2).Sound file offered.1.slots offset
  cases hslot : offered.2 with
  | none => trivial
  | some id => exact hgiven.contains id hslot

/-- What a filled slot holds when the transfer brought what it was asked for. -/
theorem fill_staged {slot : Slot Digest} {capacity free : Nat}
    {outcome : Except ProviderError (List Bytes)} {w : Window Digest}
    (hslot : slot.Sound digest file)
    (houtcome : ∀ chunks, outcome = .ok chunks → (∀ c ∈ chunks, c.length ≤ chunkLimit) ∧
      chunks.flatten = (file.drop slot.start).take slot.length)
    (h : slot.fill digest capacity free outcome = .ok w) :
    w = Window.of digest slot.start ((file.drop slot.start).take slot.length) := by
  rw [Slot.fill] at h
  split at h
  · cases h
  · next length hlength =>
    obtain rfl := of_decide_eq_true (Option.mem_filter_iff.mp hlength).2
    obtain ⟨chunks, houtcome', h⟩ := bind_eq_ok h
    obtain ⟨hlimit, hflatten⟩ := houtcome chunks houtcome'
    have hinside := hslot.inside
    have hlength : chunks.flatten.length = slot.length := by
      rw [hflatten, List.length_take, List.length_drop]
      omega
    rw [stream_ready hlimit hlength, hflatten] at h
    exact (Except.ok.inj h).symm

theorem slotOf_eq_some {call : Call} {id : Nat} {slot : Slot Digest}
    (h : s.slotOf call = some (id, slot)) :
    call.phase = .windowed id ∧ s.slots[id]? = some slot := by
  rw [State.slotOf] at h
  split at h
  · next id' hphase =>
    obtain ⟨slot', hslot, heq⟩ := Option.map_eq_some_iff.mp h
    cases heq
    exact ⟨hphase, hslot⟩
  · cases h

theorem fill_sound {call : Call} {capacity free elapsed : Nat}
    {outcome : Except ProviderError (List Bytes)} (h : s.Sound digest file)
    (houtcome : ∀ chunks, outcome = .ok chunks → ∀ slot ∈ s.slotOf call,
      (∀ c ∈ chunks, c.length ≤ chunkLimit) ∧
        chunks.flatten = (file.drop slot.2.start).take slot.2.length) :
    (s.fill digest capacity call free outcome elapsed).Sound digest file := by
  rw [State.fill]
  split
  · next id slot hslotOf =>
    obtain ⟨-, hslot⟩ := slotOf_eq_some hslotOf
    split
    · have hfilled : (s.setSlot id fun old => { old with
          value := some (slot.fill digest capacity free outcome)
          reservation := none }).Sound digest file := by
        apply h.setSlot
        · intro _
          exact ⟨rfl, rfl⟩
        · intro old hold
          obtain rfl : slot = old := Option.some.inj (hslot.symm.trans hold)
          have hsound := h.slots slot (List.mem_of_getElem? hslot)
          refine ⟨hsound.aligned, hsound.inside, fun w hw => ?_⟩
          have hfill : slot.fill digest capacity free outcome = .ok w := Option.some.inj hw
          have hstaged := fill_staged hsound
            (fun chunks hchunks => houtcome chunks hchunks _ hslotOf) hfill
          exact hstaged
      dsimp only
      split
      · exact hfilled.progress _
      · exact hfilled
    · exact h
  · exact h

/-- What a window gives a read that it contains. -/
theorem read_exact [DecidableEq Digest] {slot : Slot Digest} {w : Window Digest} {offset : Nat}
    (hslot : slot.Sound digest file) (hw : slot.value = some (.ok w))
    (hoffset : offset % blockSize = 0) (hinside : offset < file.length)
    (hcontains : slot.contains offset (available file.length offset blockSize)) :
    w.read digest offset (available file.length offset blockSize) =
      .ok ((file.drop offset).take blockSize) := by
  obtain ⟨hstart, hend⟩ := hcontains
  have hrange := hslot.inside
  have hlength : ((file.drop slot.start).take slot.length).length = slot.length := by
    rw [List.length_take, List.length_drop]
    omega
  have hpos : 0 < available file.length offset blockSize := by
    rw [available, blockSize_eq]
    omega
  -- the window ends with the file or goes on for a whole block
  have hcount : available file.length offset blockSize =
      min (slot.start + slot.length - offset) blockSize := by
    rw [available, blockSize_eq] at *
    omega
  obtain rfl := hslot.staged w hw
  rw [Window.read_block hslot.aligned hoffset hstart (by rw [hlength]; exact hcount) hpos]
  congr 1
  rw [List.drop_take, List.drop_drop, Nat.add_sub_cancel' hstart, List.take_take,
    Nat.min_eq_left (by omega), available, List.take_eq_take_iff, List.length_drop]
  omega

/-- A window never answers anything else. -/
theorem read_sound [DecidableEq Digest] {slot : Slot Digest} {w : Window Digest} {offset : Nat}
    {bytes : Bytes} (hslot : slot.Sound digest file) (hw : slot.value = some (.ok w))
    (hoffset : offset % blockSize = 0)
    (hcontains : slot.contains offset (available file.length offset blockSize))
    (h : w.read digest offset (available file.length offset blockSize) = .ok bytes) :
    bytes = (file.drop offset).take blockSize := by
  by_cases hinside : offset < file.length
  · rw [read_exact hslot hw hoffset hinside hcontains] at h
    exact (Except.ok.inj h).symm
  · -- a window has nothing to read at its end
    have hzero : available file.length offset blockSize = 0 := by
      rw [available]
      omega
    have hend : offset = w.start + w.length := by
      obtain ⟨hstart, hend⟩ := hcontains
      have hrange := hslot.inside
      obtain rfl := hslot.staged w hw
      show offset = slot.start + ((file.drop slot.start).take slot.length).length
      rw [List.length_take, List.length_drop]
      omega
    rw [hzero, hend, Window.read_end] at h
    cases h

theorem readBack_sound [DecidableEq Digest] {i : Nat} {call : Call} (h : s.Sound digest file)
    (hcall : s.calls[i]? = some call) : (s.readBack digest file.length i call).Sound digest file := by
  have hsound := h.calls call (List.mem_of_getElem? hcall)
  have hat : ∀ c ∈ s.calls[i]?, c.offset = call.offset := by
    intro c hc
    rw [Option.some.inj (hc.symm.trans hcall)]
  rw [State.readBack]
  split
  · next id slot hslotOf =>
    obtain ⟨hphase, hslot⟩ := slotOf_eq_some hslotOf
    dsimp only
    split
    · exact h
    · exact h.setPhase fun _ _ => trivial
    · next w hw =>
      have hcontains := hsound.phase
      rw [hphase] at hcontains
      obtain ⟨slot', hslot', hcontains⟩ := hcontains
      obtain rfl : slot = slot' := Option.some.inj (hslot.symm.trans hslot')
      have hslotSound := h.slots slot (List.mem_of_getElem? hslot)
      rw [hsound.length]
      split
      · next bytes hread =>
        apply State.Sound.progressed
        apply h.setPhase
        intro c hc
        rw [hread, hat c hc]
        exact read_sound hslotSound hw hsound.aligned hcontains hread
      · next error hread =>
        have hset : (s.setPhase i (.finished (w.read digest call.offset
            (available file.length call.offset blockSize)))).Sound digest file := by
          apply h.setPhase
          intro _ _
          rw [hread]
          trivial
        split
        · exact hset.progress _
        · exact hset
  · exact h

theorem reply_sound {i : Nat} {call : Call} {reply : Except ProviderError Bytes} {elapsed : Nat}
    (h : s.Sound digest file) (hcall : s.calls[i]? = some call)
    (hreply : ∀ bytes, reply = .ok bytes → bytes = (file.drop call.offset).take call.length) :
    (s.reply file.length i call reply elapsed).Sound digest file := by
  have hsound := h.calls call (List.mem_of_getElem? hcall)
  have hexact : ∀ bytes, reply = .ok bytes → ∀ c ∈ s.calls[i]?,
      bytes = (file.drop c.offset).take blockSize := by
    intro bytes hbytes c hc
    rw [Option.some.inj (hc.symm.trans hcall), ← hsound.length]
    exact hreply bytes hbytes
  unfold State.reply
  cases reply with
  | error e =>
    split
    · exact h.setPhase fun _ _ => trivial
    · exact h.setPhase fun _ _ => trivial
    · next hok => cases hok
    · exact h
  | ok bytes =>
    split
    · exact h.setPhase fun c hc => hexact bytes rfl c hc
    · exact h.setPhase fun _ _ => trivial
    · next hok =>
      cases hok
      apply State.Sound.progress
      exact h.setPhase fun c hc => hexact bytes rfl c hc
    · exact h

/-- A step keeps every window to its range and every answer exact. -/
theorem step_sound [DecidableEq Digest] {staging : Option Nat} (e : Event)
    (h : s.Sound digest file) (hallowed : Allowed file s e) :
    (step digest file.length staging s e).Sound digest file := by
  cases e with
  | read offset length limit free late =>
    obtain ⟨hoffset, rfl⟩ := hallowed
    exact begin_sound h hoffset
  | direct offset length => exact h.addCall ⟨hallowed.1, hallowed.2, trivial⟩
  | refused offset length error => exact h.addCall ⟨hallowed.1, hallowed.2, trivial⟩
  | filled i free outcome elapsed =>
    unfold step
    dsimp only
    split
    · next call capacity hcall =>
      apply fill_sound h
      rintro chunks rfl slot hslot
      exact hallowed call hcall slot hslot
    · exact h
  | readBack i =>
    unfold step
    dsimp only
    split
    · next call hcall => exact readBack_sound h hcall
    · exact h
  | replied i reply elapsed =>
    unfold step
    dsimp only
    split
    · next call hcall =>
      apply reply_sound h hcall
      rintro bytes rfl
      exact hallowed call hcall
    · exact h
  | progressed i =>
    unfold step
    dsimp only
    split
    · next offset length bytes hcall =>
      have hsound := h.calls _ (List.mem_of_getElem? hcall)
      apply State.Sound.progressed
      apply h.setPhase
      intro c hc
      rw [Option.some.inj (hc.symm.trans hcall)]
      exact hsound.phase
    · exact h
  | dropped i filling =>
    unfold step
    dsimp only
    split
    · apply State.Sound.setPhase
      · split
        · next id slot hslotOf =>
          split
          · apply h.setSlot
            · intro _
              exact ⟨rfl, rfl⟩
            · intro old hold
              have hsound := h.slots old (List.mem_of_getElem? hold)
              exact ⟨hsound.aligned, hsound.inside, hsound.staged⟩
          · exact h
        · exact h
      · intro _ _
        trivial
    · exact h
  | evicted =>
    unfold step
    dsimp only
    split
    · exact h.progress _
    · exact h

/-! ## Over a run -/

/-- The chunks of a window do not show: the writer has one digest for each block. -/
theorem stream_digests (digest : Bytes → Digest) (start : Nat) {chunks : List Bytes}
    (h : ∀ c ∈ chunks, c.length ≤ chunkLimit) :
    ∃ w, Writer.stream digest chunks.flatten.length start chunks = .ok w ∧
      w.file = chunks.flatten ∧
      w.hashes = digests digest chunks.flatten (blockCount chunks.flatten.length) :=
  ⟨_, stream_ready h rfl, rfl, rfl⟩

theorem run_sound [DecidableEq Digest] {staging : Option Nat} {events : List Event}
    (h : Run (step digest file.length staging) (Allowed file) {} events s) :
    s.Sound digest file := by
  apply h.invariant (State.Sound digest file)
  · constructor
    · intro slot hslot
      cases hslot
    · intro call hcall
      cases hcall
  · intro s e hs hallowed
    exact step_sound e hs hallowed

/-- Whatever the limits, the rates and the order of the steps: a read that succeeds has the bytes
    of its block, a completed window gives every block inside the file that it contains, and its
    digests are those of the blocks however it was streamed. -/
theorem sessions_exact [DecidableEq Digest] {staging : Option Nat} {events : List Event}
    (h : Run (step digest file.length staging) (Allowed file) {} events s) :
    (∀ call ∈ s.calls, ∀ bytes, call.phase = .finished (.ok bytes) →
      bytes = (file.drop call.offset).take blockSize) ∧
    (∀ slot ∈ s.slots, ∀ w, slot.value = some (.ok w) → ∀ offset, offset % blockSize = 0 →
      offset < file.length → slot.contains offset (available file.length offset blockSize) →
      w.read digest offset (available file.length offset blockSize) =
        .ok ((file.drop offset).take blockSize)) ∧
    (∀ (start : Nat) (chunks : List Bytes), (∀ c ∈ chunks, c.length ≤ chunkLimit) →
      ∃ w, Writer.stream digest chunks.flatten.length start chunks = .ok w ∧
        w.file = chunks.flatten ∧
        w.hashes = digests digest chunks.flatten (blockCount chunks.flatten.length)) := by
  have hsound := run_sound h
  refine ⟨fun call hcall bytes hphase => ?_, fun slot hslot w hw offset hoffset hinside hcontains =>
    ?_, fun start chunks hchunks => stream_digests digest start hchunks⟩
  · have hexact := (hsound.calls call hcall).phase
    rw [hphase] at hexact
    exact hexact
  · exact read_exact (hsound.slots slot hslot) hw hoffset hinside hcontains

end

/-! ## A read at the end of a file -/

section Ending

variable (file : Bytes) (chunks : List Bytes) (w : Window Bytes)

/-- The first block of three is read, and a read of the second begins. -/
def beginning : List Event :=
  [.read 0 blockSize maxWindow maxStaging false, .replied 0 (.ok (file.take blockSize)) 1,
    .progressed 0, .read blockSize blockSize maxWindow maxStaging false]

/-- The window of the others is streamed, and there is a read at the end of the file. -/
def ending : List Event :=
  [.filled 1 maxStaging (.ok chunks) 1,
    .read (3 * blockSize) blockSize maxWindow maxStaging false, .readBack 2]

def begun : State Bytes where
  slots := [⟨blockSize, 2 * blockSize, none, some (2 * blockSize)⟩]
  calls := [⟨0, blockSize, .finished (.ok (file.take blockSize))⟩,
    ⟨blockSize, blockSize, .windowed 0⟩]
  progress := ⟨some blockSize, 2 * blockSize, some 0, some maxWindow⟩

def filled : State Bytes :=
  { begun file with slots := [⟨blockSize, 2 * blockSize, some (.ok w), none⟩] }

def ended : State Bytes :=
  { filled file w with
    calls := (begun file).calls ++ [⟨3 * blockSize, blockSize, .finished (.error .unavailable)⟩]
    progress := ⟨none, blockSize, none, some maxWindow⟩ }

/-- The steps over a file of three blocks, with the bytes themselves as digests. -/
def threeBlocks : State Bytes → Event → State Bytes := step id (3 * blockSize) (some maxStaging)

variable {file chunks w}

theorem begun_eq : (beginning file).foldl threeBlocks {} = begun file := by
  simp [beginning, begun, threeBlocks, step, State.begin, State.offer, State.window,
    State.fresh, State.current, State.grow, Staging.reserve, Progress.wanted, blockSize, maxWindow,
    maxStaging, maxSpeculative, maxU32, available, State.reply, State.setPhase,
    Progress.transferred, State.progressed, Phase.after]

theorem beginning_follows : Run.Follows threeBlocks (Allowed file) {} (beginning file) := by
  simp [Run.Follows, Allowed, beginning, threeBlocks, step, State.begin, State.offer, State.window,
    State.fresh, State.current, State.grow, blockSize, Phase.after]

theorem fill_eq (h : Writer.stream id (2 * blockSize) blockSize chunks = .ok w) :
    Slot.fill id ⟨blockSize, 2 * blockSize, none, some (2 * blockSize)⟩ maxStaging
      maxStaging (.ok chunks) = .ok w := by
  simp only [Slot.fill, Option.some_or, Option.filter_some, decide_true, if_true]
  exact h

theorem transferred_eq (p : Progress) :
    p.transferred (2 * blockSize) 1 = { p with speedLimit := some maxWindow } := by
  have hbound : maxSpeculative ≤ 2 * blockSize * 5000000000 := by
    rw [blockSize, maxSpeculative]
    norm_num
  rw [Progress.transferred, Nat.max_self, Nat.div_one, Nat.min_eq_right hbound]
  norm_num [blockSize, maxSpeculative, maxWindow]

theorem filled_eq (h : Writer.stream id (2 * blockSize) blockSize chunks = .ok w) :
    threeBlocks (begun file) (.filled 1 maxStaging (.ok chunks) 1) = filled file w := by
  simp only [threeBlocks, step, State.fill, State.slotOf, begun, filled, State.setSlot,
    List.getElem?_cons_succ, List.getElem?_cons_zero, Option.map_some, Option.isNone_none, if_true,
    fill_eq h, List.modify_zero_cons, transferred_eq]

/-- Nothing is left to read at the end. -/
theorem available_end : available (3 * blockSize) (3 * blockSize) blockSize = 0 := by
  rw [available, Nat.sub_self, Nat.zero_min]

theorem contains_end (value : Option (Except ProviderError (Window Bytes)))
    (reservation : Option Nat) :
    (⟨blockSize, 2 * blockSize, value, reservation⟩ : Slot Bytes).contains (3 * blockSize) 0 := by
  show blockSize ≤ 3 * blockSize ∧ 3 * blockSize - blockSize + 0 ≤ 2 * blockSize
  omega

theorem ended_eq (h : Writer.stream id (2 * blockSize) blockSize chunks = .ok w)
    (hread : w.read id (3 * blockSize) 0 = .error .unavailable) :
    (ending chunks).foldl threeBlocks (begun file) = ended file w := by
  rw [ending, List.foldl_cons, filled_eq h]
  simp [threeBlocks, step, State.begin, State.offer, State.window, State.fresh, State.current,
    filled, begun, ended, Slot.failed, available_end, contains_end, Phase.after, State.readBack,
    State.slotOf, hread, State.setPhase, Progress.reset]

theorem ending_follows (hlimit : ∀ c ∈ chunks, c.length ≤ chunkLimit)
    (hflatten : chunks.flatten = (file.drop blockSize).take (2 * blockSize)) :
    Run.Follows threeBlocks (Allowed file) (begun file) (ending chunks) := by
  refine ⟨?_, ⟨Nat.mul_mod_left _ _, rfl⟩, trivial, trivial⟩
  intro call hcall slot hslot
  obtain rfl : call = ⟨blockSize, blockSize, .windowed 0⟩ := (Option.some.inj hcall).symm
  obtain rfl := Option.some.inj hslot
  exact ⟨hlimit, hflatten⟩

theorem read_end {bytes : Bytes} (h : bytes.length = 2 * blockSize) :
    (Window.of id blockSize bytes).read id (3 * blockSize) 0 = .error .unavailable := by
  have hend : 3 * blockSize = blockSize + bytes.length := by omega
  rw [hend]
  exact Window.read_end

/-- All of it, with a session that streams the window in chunks. -/
theorem ending_run (hlength : file.length = 3 * blockSize)
    (hlimit : ∀ c ∈ chunks, c.length ≤ chunkLimit)
    (hflatten : chunks.flatten = (file.drop blockSize).take (2 * blockSize)) :
    Run (step id file.length (some maxStaging)) (Allowed file) {}
      (beginning file ++ ending chunks) (ended file (Window.of id blockSize chunks.flatten)) := by
  have hstaged : chunks.flatten.length = 2 * blockSize := by
    rw [hflatten, List.length_take, List.length_drop]
    omega
  rw [hlength]
  have hbegun := Run.start.extend (@beginning_follows file)
  rw [begun_eq] at hbegun
  have hended := hbegun.extend (ending_follows hlimit hflatten)
  rw [ended_eq (stream_ready hlimit hstaged) (read_end hstaged)] at hended
  exact hended

end Ending

/-- A file of three blocks. -/
def sampleFile : Bytes := List.replicate (3 * blockSize) 0

/-- The second and the third of them. -/
def sampleChunks : List Bytes := List.replicate 128 (List.replicate chunkLimit 0)

theorem length_sampleFile : sampleFile.length = 3 * blockSize := List.length_replicate

theorem length_of_mem_sampleChunks : ∀ c ∈ sampleChunks, c.length ≤ chunkLimit := by
  intro c hc
  rw [List.eq_of_mem_replicate hc, List.length_replicate]

theorem flatten_sampleChunks :
    sampleChunks.flatten = (sampleFile.drop blockSize).take (2 * blockSize) := by
  rw [sampleChunks, List.flatten_replicate_replicate, sampleFile, List.drop_replicate,
    List.take_replicate]
  congr 1

theorem sample_run :
    Run (step id sampleFile.length (some maxStaging)) (Allowed sampleFile) {}
      (beginning sampleFile ++ ending sampleChunks)
      (ended sampleFile (Window.of id blockSize sampleChunks.flatten)) :=
  ending_run length_sampleFile length_of_mem_sampleChunks flatten_sampleChunks

/-- In that run the first block is answered, and it is the block. -/
theorem sample_answered :
    ∃ call ∈ (ended sampleFile (Window.of id blockSize sampleChunks.flatten)).calls,
      ∃ bytes, call.phase = .finished (.ok bytes) ∧
        bytes = (sampleFile.drop call.offset).take blockSize := by
  obtain ⟨hexact, -, -⟩ := sessions_exact sample_run
  refine ⟨_, List.mem_cons_self, sampleFile.take blockSize, rfl, ?_⟩
  exact hexact _ List.mem_cons_self _ rfl

/-- A window contains the empty range at its end, and does not answer it. -/
theorem window_end_refused :
    ∃ (file : Bytes) (events : List Event) (s : State Bytes),
      Run (step id file.length (some maxStaging)) (Allowed file) {} events s ∧
        ∃ slot ∈ s.slots, ∃ w, slot.value = some (.ok w) ∧ ∃ offset, offset % blockSize = 0 ∧
          slot.contains offset (available file.length offset blockSize) ∧
          w.read id offset (available file.length offset blockSize) = .error .unavailable := by
  have hstaged : sampleChunks.flatten.length = 2 * blockSize := by
    rw [flatten_sampleChunks, List.length_take, List.length_drop, length_sampleFile]
    omega
  refine ⟨sampleFile, _, _, sample_run, _, List.mem_cons_self, _, rfl, 3 * blockSize,
    Nat.mul_mod_left _ _, ?_⟩
  rw [length_sampleFile, available_end]
  exact ⟨contains_end _ _, read_end hstaged⟩

end Cirrove.Cache.Sessions
