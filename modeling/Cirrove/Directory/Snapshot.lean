import Mathlib
import Cirrove.Library.Framing

/-!
# Directory listings

A listing is written by one builder and read by any number of readers, while it grows. The
builder lays the entries out as records, with the position of each in an index beside them,
and publishes a frontier; readers page through what lies before the frontier. The bytes are
held in memory until they outgrow it, then in two files.

What happens on the disk is the environment's: `Device` says, for one call of the builder,
whether the files can be made and whether a write is cut off.
-/

namespace Cirrove.Directory

open Cirrove.Library

def pageBytes : Nat := 64 * 1024

def pageEntries : Nat := 1024

def headerBytes : Nat := 13

def indexBytes : Nat := 8

def maxSnapshots : Nat := 256

def maxBytes : Nat := 256 * 1024 * 1024

/-- What a listing may keep in memory. -/
def spillBytes : Nat := 64 * 1024

/-! ## Errors -/

/-- An error: one of the operating system, or one of another kind. -/
inductive Failure where
  | os (errno : Int)
  | invalid
  | unexpectedEof
  | wouldBlock
  deriving DecidableEq, Repr

def eio : Int := 5

def emfile : Int := 24

def enospc : Int := 28

def enametoolong : Int := 36

def ecanceled : Int := 125

def Failure.rawOsError : Failure → Option Int
  | os errno => some errno
  | _ => none

/-! ## Entries -/

structure Entry where
  inode : UInt64
  directory : Bool
  name : String
  deriving DecidableEq

/-- The bytes of a text. -/
def textBytes (text : String) : Bytes := text.toByteArray.data.toList

/-- `str::from_utf8`. -/
def fromUtf8 (bytes : Bytes) : Option String := String.fromUTF8? ⟨bytes.toArray⟩

@[simp]
theorem length_textBytes (text : String) : (textBytes text).length = text.utf8ByteSize := rfl

@[simp]
theorem fromUtf8_textBytes (text : String) : fromUtf8 (textBytes text) = some text := by
  have hvalid : (⟨(textBytes text).toArray⟩ : ByteArray).IsValidUTF8 := text.isValidUTF8
  exact dif_pos hvalid

/-- What no name has: nothing in it, a separator, a NUL. -/
def Unnamed (name : String) : Prop :=
  name = "" ∨ '/' ∈ name.toList ∨ Char.ofNat 0 ∈ name.toList

instance (name : String) : Decidable (Unnamed name) := by
  unfold Unnamed
  infer_instance

/-- An entry as `append` lays it out: the inode, the kind, the length of the name, the name. -/
def Entry.record (e : Entry) : Bytes :=
  littleEndian 8 e.inode.toNat ++
    (UInt8.ofNat e.directory.toNat ::
      (littleEndian 4 e.name.utf8ByteSize ++ textBytes e.name))

/-- What an entry takes of the budget. -/
def Entry.cost (e : Entry) : Nat := headerBytes + e.name.utf8ByteSize + indexBytes

/-- An entry that is taken. -/
structure Entry.Valid (e : Entry) : Prop where
  inode : e.inode ≠ 0
  named : ¬ Unnamed e.name
  fits : e.name.utf8ByteSize ≤ pageBytes - headerBytes

theorem Entry.length_record (e : Entry) :
    e.record.length = headerBytes + e.name.utf8ByteSize := by
  simp [record, headerBytes]
  omega

/-! ## Where the bytes are -/

/-- What the environment does with the disk operations of one call. -/
structure Device where
  /-- The files cannot be made. -/
  spill : Option Failure := none
  /-- The records' write is cut off after so many bytes. -/
  data : Option (Nat × Failure) := none
  /-- The positions' write is cut off after so many bytes. -/
  index : Option (Nat × Failure) := none
  deriving DecidableEq, Repr

/-- A device on which everything works. -/
def Device.Works (device : Device) : Prop :=
  device.spill = none ∧ device.data = none ∧ device.index = none

inductive Backing where
  | resident (data index : Bytes)
  | files (data index : Bytes)
  deriving DecidableEq, Repr

inductive Part where
  | data
  | index
  deriving DecidableEq, Repr

namespace Backing

def part : Backing → Part → Bytes
  | resident data _, .data => data
  | resident _ index, .index => index
  | files data _, .data => data
  | files _ index, .index => index

def residentBytes : Backing → Nat
  | resident data index => data.length + index.length
  | files _ _ => 0

def spill (device : Device) : Backing → Except Failure Backing
  | resident data index =>
    match device.spill with
    | some error => .error error
    | none => .ok (files data index)
  | files _ _ => .error .invalid

def append (dataAt : Nat) (data : Bytes) (indexAt : Nat) (index : Bytes) :
    Backing → Except Failure Backing
  | resident residentData residentIndex =>
    if dataAt ≠ residentData.length ∨ indexAt ≠ residentIndex.length then .error .invalid
    else .ok (resident (residentData ++ data) (residentIndex ++ index))
  | files _ _ => .error .invalid

/-- `read_at` and `read_exact_at`: all the bytes asked for, or none. -/
def readAt (backing : Backing) (part : Part) (len offset : Nat) : Except Failure Bytes :=
  if offset + len ≤ (backing.part part).length then .ok (slice (backing.part part) offset len)
  else .error .unexpectedEof

end Backing

/-- Bytes written into a file; a gap before them is filled with zeros. -/
def writeAt (file bytes : Bytes) (offset : Nat) : Bytes :=
  (file.take offset ++ List.replicate (offset - file.length) 0) ++ bytes ++
    file.drop (offset + bytes.length)

/-- Bytes written through one of the writer handles. -/
def Backing.write (part : Part) (bytes : Bytes) (offset : Nat) : Backing → Backing
  | resident data index => resident data index
  | files data index =>
    match part with
    | .data => files (writeAt data bytes offset) index
    | .index => files data (writeAt index bytes offset)

/-! ## The builder -/

structure Usage where
  bytes : Nat := 0
  snapshots : Nat := 0
  deriving DecidableEq, Repr

structure Progress where
  entries : Nat := 0
  dataBytes : Nat := 0
  complete : Bool := false
  error : Option Int := none
  deriving DecidableEq, Repr

/-- What the builder of a listing shares with its readers. -/
structure Listing where
  backing : Backing := .resident [] []
  progress : Progress := {}
  /-- The bytes of its reservation. -/
  reserved : Nat := 0
  /-- The handles on the snapshot that was handed over. -/
  readers : Nat := 0
  deriving DecidableEq, Repr

structure Builder where
  pendingData : Bytes := []
  pendingIndex : Bytes := []
  storedData : Nat := 0
  storedEntries : Nat := 0
  writers : Bool := false
  /-- The snapshot was not handed over yet. -/
  snapshot : Bool := true
  entries : Nat := 0
  dataBytes : Nat := 0
  failed : Bool := false
  deriving DecidableEq, Repr

/-- What a call of the builder works on. -/
structure Building where
  usage : Usage
  listing : Listing
  builder : Builder
  deriving DecidableEq, Repr

/-- The builder has failed, and readers are told why. -/
def Building.broken (s : Building) (error : Int) : Building :=
  { s with
    listing := { s.listing with progress := { s.listing.progress with error := some error } }
    builder := { s.builder with failed := true } }

/-- The frontier moves to what was accepted. -/
def Building.announced (s : Building) (complete : Bool) : Building :=
  { s with
    listing := { s.listing with
      progress := {
        entries := s.builder.entries
        dataBytes := s.builder.dataBytes
        complete := complete
        error := none } } }

/-- The snapshot is handed over, the first time. -/
def Building.taken (s : Building) : Building :=
  { s with
    listing := { s.listing with
      readers := if s.builder.snapshot then 1 else s.listing.readers }
    builder := { s.builder with snapshot := false } }

/-- A call of the builder. What it did before it failed stays done. -/
abbrev Build := EStateM Failure Building

namespace Builder

/-- `Reservation::grow`. -/
def grow (bytes : Nat) : Build Unit := do
  let s ← get
  if s.usage.bytes + bytes ≤ maxBytes then
    set { s with
      usage := { s.usage with bytes := s.usage.bytes + bytes }
      listing := { s.listing with reserved := s.listing.reserved + bytes } }
  else throw (.os enospc)

/-- Before the pending bytes are stored: the listing is moved to files when they would outgrow
    the memory, else they are kept there. -/
def place (device : Device) : Build Unit := do
  let s ← get
  let b := s.builder
  if b.writers then pure ()
  else if spillBytes < s.listing.backing.residentBytes +
      (b.pendingData.length + b.pendingIndex.length) then
    match s.listing.backing.spill device with
    | .error error => throw error
    | .ok backing =>
      set { s with
        listing := { s.listing with backing := backing }
        builder := { b with writers := true } }
  else
    match s.listing.backing.append b.storedData b.pendingData (b.storedEntries * indexBytes)
        b.pendingIndex with
    | .error error => throw error
    | .ok backing => set { s with listing := { s.listing with backing := backing } }

/-- `write_all_at` through a writer handle. -/
def writeAll (part : Part) (bytes : Bytes) (offset : Nat) (cut : Option (Nat × Failure)) :
    Build Unit := do
  let s ← get
  match cut with
  | none =>
    set { s with
      listing := { s.listing with backing := s.listing.backing.write part bytes offset } }
  | some (written, error) =>
    set { s with
      listing := { s.listing with
        backing := s.listing.backing.write part (bytes.take written) offset } }
    throw error

/-- The pending bytes go to the files, if the listing is there. -/
def writeFiles (device : Device) : Build Unit := do
  let s ← get
  if s.builder.writers then
    writeAll .data s.builder.pendingData s.builder.storedData device.data
    writeAll .index s.builder.pendingIndex (s.builder.storedEntries * indexBytes) device.index
  else pure ()

/-- The pending bytes are stored. -/
def advanced (b : Builder) : Builder :=
  { b with
    storedData := b.storedData + b.pendingData.length
    storedEntries := b.storedEntries + b.pendingIndex.length / indexBytes
    pendingData := []
    pendingIndex := [] }

def store (device : Device) : Build Unit := do
  let s ← get
  if s.builder.pendingData = [] ∧ s.builder.pendingIndex = [] then pure ()
  else
    place device
    writeFiles device
    modify fun s => { s with builder := s.builder.advanced }

/-- An entry is accepted: it becomes pending. -/
def accepted (b : Builder) (e : Entry) : Builder :=
  { b with
    pendingIndex := b.pendingIndex ++ littleEndian 8 b.dataBytes
    pendingData := b.pendingData ++ e.record
    entries := b.entries + 1
    dataBytes := b.dataBytes + (headerBytes + e.name.utf8ByteSize) }

/-- A batch that has grown to a page is stored. -/
def storeBatch (device : Device) : Build Unit := do
  let s ← get
  if pageBytes ≤ s.builder.pendingData.length then store device else pure ()

def append (device : Device) (e : Entry) : Build Unit := do
  if pageBytes - headerBytes < e.name.utf8ByteSize then throw (.os enametoolong)
  else if e.inode = 0 ∨ Unnamed e.name then throw .invalid
  else
    grow e.cost
    modify fun s => { s with builder := s.builder.accepted e }
    storeBatch device

def fail (error : Int) : Build Unit := modify fun s => s.broken error

/-- An error that leaves the builder failed. -/
def orFail (call : Build Unit) : Build Unit :=
  tryCatch call fun error => do
    fail (error.rawOsError.getD eio)
    throw error

def push (device : Device) (e : Entry) : Build Unit := do
  let s ← get
  if s.builder.failed then throw .invalid
  else orFail (append device e)

/-- No receiver is left: the snapshot was handed over, and dropped. -/
def cancelled (s : Building) : Bool := !s.builder.snapshot && s.listing.readers == 0

def flush (device : Device) (complete : Bool) : Build Unit := do
  let s ← get
  if s.builder.failed then throw .invalid
  else if cancelled s then throw (.os ecanceled)
  else
    orFail (store device)
    modify fun s => s.announced complete

def publish (device : Device) : Build Unit := do
  flush device false
  modify Building.taken

/-- The builder is gone afterwards, whether this succeeds or not. -/
def complete (device : Device) : Build Unit := do
  flush device true
  modify Building.taken

end Builder

/-! ## Reading -/

namespace Listing

/-- What a reader that waits for an entry is told; nothing while it has to wait. -/
def ready (state : Progress) (closed : Bool) (offset : Nat) : Option (Except Failure Unit) :=
  if offset < state.entries then some (.ok ())
  else match state.error with
    | some error => some (.error (.os error))
    | none =>
      if state.complete then some (.ok ())
      else if closed then some (.error (.os eio))
      else none

/-- How many of the records fit a page. -/
def measure (dataBytes start : Nat) : List (Nat × Nat) → Nat → Except Failure Nat
  | [], taken => .ok taken
  | (a, b) :: rest, taken =>
    if b < a then .error .invalid
    else if b - a < headerBytes ∨ pageBytes < b - a ∨ dataBytes < b then .error .invalid
    else if b < start then .error .invalid
    else if pageBytes < b - start then .ok taken
    else measure dataBytes start rest (taken + 1)

/-- The pairs of neighbours. -/
def windows (positions : List Nat) : List (Nat × Nat) := positions.zip positions.tail

def readRecord (record : Bytes) : Except Failure Entry := do
  let inode := UInt64.ofNat (fromLittleEndian (slice record 0 8))
  let directory ← match record.getD 8 0 with
    | 0 => pure false
    | 1 => pure true
    | _ => throw .invalid
  let size := fromLittleEndian (slice record 9 4)
  match fromUtf8 (record.drop headerBytes) with
  | none => throw .invalid
  | some name =>
    if size ≠ name.utf8ByteSize ∨ inode = 0 ∨ Unnamed name then throw .invalid
    else pure { inode := inode, directory := directory, name := name }

/-- The positions a page is measured by: those of its entries, and where the last one ends. -/
def readPositions (state : Progress) (backing : Backing) (offset : Nat) :
    Except Failure (List Nat) := do
  let count := min (state.entries - offset) pageEntries
  let extra := if offset + count < state.entries then 1 else 0
  let index ← backing.readAt .index ((count + extra) * 8) (offset * indexBytes)
  let positions := (chunks 8 index).map fromLittleEndian
  pure (if extra = 0 then positions ++ [state.dataBytes] else positions)

/-- A page, with the frontier as it was found and the bytes as they are. -/
def page (state : Progress) (closed : Bool) (backing : Backing) (offset : Nat) :
    Except Failure (List Entry) :=
  if state.entries ≤ offset then
    match state.error with
    | some error => throw (.os error)
    | none =>
      if state.complete then pure []
      else if closed then throw (.os eio)
      else throw .wouldBlock
  else do
    let positions ← readPositions state backing offset
    let start := positions.headD 0
    let take ← measure state.dataBytes start (windows positions) 0
    if take = 0 then throw .invalid
    else
      let bytes ← backing.readAt .data (positions.getD take 0 - start) start
      (windows (positions.take (take + 1))).mapM fun pair =>
        readRecord (slice bytes (pair.1 - start) (pair.2 - pair.1))

end Listing

end Cirrove.Directory
