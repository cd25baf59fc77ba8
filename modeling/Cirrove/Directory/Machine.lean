import Cirrove.Library.Runs
import Cirrove.Directory.Building

/-!
# Listings of a mount

The listings of a mount draw on one budget. A listing is there while its builder or a reader
holds it, and gives its reservation back when the last of them is dropped. Calls of the
builders, of the readers and of the kernel come in any order; what was answered to each is
recorded with it, so that a listing can be told from its history (`told`).
-/

namespace Cirrove.Directory

open Cirrove.Library

/-- A listing, and its builder until that is done. -/
structure Slot where
  listing : Listing := {}
  builder : Option Builder := some {}
  deriving DecidableEq

/-- The listings in the order in which they were started, nothing where one is gone. -/
structure World where
  usage : Usage := {}
  slots : List (Option Slot) := []
  deriving DecidableEq

inductive Call where
  | start
  | push (key : Nat) (entry : Entry)
  | publish (key : Nat)
  | complete (key : Nat)
  | fail (key : Nat) (error : Int)
  | dropBuilder (key : Nat)
  /-- Another handle on a snapshot that was handed over. -/
  | openReader (key : Nat)
  | closeReader (key : Nat)
  deriving DecidableEq

/-- The listing a call is about. -/
def Call.key : Call → Option Nat
  | start => none
  | push key _ | publish key | complete key | fail key _ | dropBuilder key | openReader key
  | closeReader key => some key

/-- A call, what the disk did with it, and what it was answered. -/
structure Event where
  call : Call
  device : Device := {}
  answer : Except Failure Unit := .ok ()
  deriving DecidableEq

namespace Slot

/-- Nobody holds the listing any more. -/
def released (slot : Slot) : Bool := slot.builder.isNone && slot.listing.readers == 0

/-- What a reader is answered. -/
def page (slot : Slot) (offset : Nat) : Except Failure (List Entry) :=
  Listing.page slot.listing.progress slot.builder.isNone slot.listing.backing offset

end Slot

namespace World

def slot (w : World) (key : Nat) : Option Slot := w.slots[key]?.join

/-- `Budget::start`. -/
def start (w : World) : World × Except Failure Unit :=
  if maxSnapshots ≤ w.usage.snapshots then (w, .error (.os emfile))
  else
    ({ usage := { w.usage with snapshots := w.usage.snapshots + 1 }
       slots := w.slots ++ [some {}] }, .ok ())

/-- A listing after a call; with its last handle goes its reservation. -/
def settle (w : World) (key : Nat) (slot : Slot) : World :=
  if slot.released then
    { usage := {
        bytes := w.usage.bytes - slot.listing.reserved
        snapshots := w.usage.snapshots - 1 }
      slots := w.slots.set key none }
  else { w with slots := w.slots.set key (some slot) }

/-- A call of a builder, which may be the last one. -/
def build (w : World) (key : Nat) (call : Build Unit) (last : Bool) :
    World × Except Failure Unit :=
  match w.slot key with
  | some { listing, builder := some builder } =>
    let after (s : Building) : World :=
      { w with usage := s.usage }.settle key
        { listing := s.listing, builder := if last then none else some s.builder }
    match call { usage := w.usage, listing := listing, builder := builder } with
    | .ok _ s => (after s, .ok ())
    | .error error s => (after s, .error error)
  | _ => (w, .ok ())

def setReaders (w : World) (key : Nat) (f : Nat → Nat) : World :=
  match w.slot key with
  | some slot =>
    w.settle key { slot with
      listing := { slot.listing with readers := f slot.listing.readers } }
  | none => w

def perform (w : World) (device : Device) : Call → World × Except Failure Unit
  | .start => w.start
  | .push key entry => w.build key (Builder.push device entry) false
  | .publish key => w.build key (Builder.publish device) false
  | .complete key => w.build key (Builder.complete device) true
  | .fail key error => w.build key (Builder.fail error) false
  | .dropBuilder key => w.build key (pure ()) true
  | .openReader key => (w.setReaders key (· + 1), .ok ())
  | .closeReader key => (w.setReaders key (· - 1), .ok ())

/-- Who makes a call has what it is made on. -/
def Callable (w : World) : Call → Prop
  | .start => True
  | .push key _ | .publish key | .complete key | .fail key _ | .dropBuilder key =>
    ∃ slot, w.slot key = some slot ∧ slot.builder.isSome = true
  | .openReader key | .closeReader key => ∃ slot, w.slot key = some slot ∧ 0 < slot.listing.readers

def step (w : World) (e : Event) : World := (w.perform e.device e.call).1

def Allowed (w : World) (e : Event) : Prop :=
  w.Callable e.call ∧ (w.perform e.device e.call).2 = e.answer

/-- What has happened to a mount that started without listings. -/
abbrev Reaches (events : List Event) (w : World) : Prop :=
  Run step Allowed {} events w

end World

/-! ## What was told of a listing -/

/-- A listing as its calls and their answers tell it. -/
structure Told where
  /-- The entries that were accepted. -/
  pushed : List Entry := []
  /-- How many of them there were at the last successful `publish` or `complete`. -/
  published : Nat := 0
  complete : Bool := false
  /-- A call of the builder failed. -/
  refused : Bool := false

/-- What is told by one more call. -/
def Told.answered (t : Told) : Call → Except Failure Unit → Told
  | .push _ entry, .ok _ => { t with pushed := t.pushed ++ [entry] }
  | .publish _, .ok _ => { t with published := t.pushed.length }
  | .complete _, .ok _ => { t with published := t.pushed.length, complete := true }
  | .push _ _, .error _ | .publish _, .error _ | .complete _, .error _ | .fail _ _, _ =>
    { t with refused := true }
  | .start, _ | .dropBuilder _, _ | .openReader _, _ | .closeReader _, _ => t

def Told.after (key : Nat) (t : Told) (e : Event) : Told :=
  if e.call.key = some key then t.answered e.call e.answer else t

/-- The history of a listing. -/
def told (key : Nat) (events : List Event) : Told := events.foldl (Told.after key) {}

end Cirrove.Directory
