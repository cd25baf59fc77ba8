import Cirrove.Journal.Records
import Cirrove.Library.Table

/-!
# State of the journal

The tables of one account's `uploads.db`, in two groups. `Queue` holds the operations and
everything that orders them: `uploads`, `mutations`, `write_queue`, `write_resources`,
`write_successors`, `write_prerequisites` and `write_destinations`. `Namespace` holds the
local objects and their names: `namespace_scopes`, `namespace_objects`,
`namespace_entries`, `namespace_remote` and `namespace_operations`. A function that takes
one group cannot change the other.

A key column that the source fills with the JSON text of a tuple is the tuple.
-/

namespace Cirrove.Journal

open Cirrove.Library

/-- What two operations exclude each other by: an item, or a name in a folder.
    `mutations::item_key` and `slot_key` -/
inductive Resource where
  | item (scope : Scope) (item : String)
  | name (scope : Scope) (parent folded : String)
  deriving DecidableEq, Repr

structure UploadRow where
  sequence : Nat
  state : UploadState
  body : UploadRecord
  deriving DecidableEq, Repr

structure MutationRow where
  sequence : Nat
  state : MutationState
  body : MutationRecord
  deriving DecidableEq, Repr

structure QueueRow where
  sequence : Nat
  complete : Bool
  deriving DecidableEq, Repr

/-- A destination folder of an operation, and the operation that last changed the folder. -/
structure DestinationRow where
  parent : Uuid
  predecessor : Option Uuid
  resolved : Bool
  deriving DecidableEq, Repr

structure Queue where
  uploads : Table Uuid UploadRow
  mutations : Table Uuid MutationRow
  writeQueue : Table Uuid QueueRow
  /-- The last number given by `AUTOINCREMENT`. -/
  lastSequence : Nat
  writeResources : Table (Uuid × Resource) Unit
  writeSuccessors : Table Uuid Uuid
  writePrerequisites : Table (Uuid × Uuid) Unit
  writeDestinations : Table Uuid DestinationRow

/-- A name in a folder, as its scope compares names. -/
abbrev Slot := Scope × String × String

structure ObjectRow where
  identity : Scope × String
  body : NamespaceObject
  deriving DecidableEq, Repr

structure Namespace where
  scopes : Table Scope NamespaceNames
  objects : Table Uuid ObjectRow
  entries : Table Slot Uuid
  remote : Table (Scope × String) Uuid
  operations : Table Uuid Uuid

structure WorkingRow where
  identity : Scope × String
  slot : Option Slot
  body : WorkingFile
  deriving DecidableEq, Repr

/-- What a journal is opened with. `lowercase` is the standard library's `to_lowercase`. -/
structure Settings where
  account : String
  lowercase : String → String

structure UploadJournal where
  settings : Settings
  queue : Queue
  names : Namespace
  workingFiles : Table Uuid WorkingRow
  fileReplacements : Table Uuid ReplacementRecord

/-- A journal that was just created. -/
def UploadJournal.create (settings : Settings) : UploadJournal where
  settings := settings
  queue := ⟨.empty, .empty, .empty, 0, .empty, .empty, .empty, .empty⟩
  names := ⟨.empty, .empty, .empty, .empty, .empty⟩
  workingFiles := .empty
  fileReplacements := .empty

/-- What a call gets from outside the database: fresh identities, the clock, and the
    spool. -/
structure Env where
  /-- The results of `Uuid::new_v4`, one for each of its calls. -/
  uuid : Nat → Uuid
  /-- `now_seconds` -/
  now : Nat
  /-- Sealing the bytes of a new upload: their number and digest, or why there is no room. -/
  snapshot : Uuid → Except JournalError (Nat × String)
  /-- `payload`: opening and verifying a sealed snapshot. -/
  payload : Uuid → Except JournalError Unit
  /-- A digest is the hexadecimal text of 32 bytes. -/
  snapshot_digest : ∀ id size sha256, snapshot id = .ok (size, sha256) → sha256.utf8ByteSize = 64

/-- The time after a delay. -/
def Env.after (env : Env) (delay : Nat) : Nat := min (env.now + delay) (2 ^ 63 - 1)

/-! ## Queries over the queue -/

namespace Queue

/-- `UploadJournal::get` -/
def upload (q : Queue) (id : Uuid) : Except JournalError UploadRecord :=
  match q.uploads.get id with
  | some row => .ok row.body
  | none => .error .missing

/-- `UploadJournal::mutation` -/
def mutation (q : Queue) (id : Uuid) : Except JournalError MutationRecord :=
  match q.mutations.get id with
  | some row => .ok row.body
  | none => .error .missing

/-- The operation with an identity, of either kind. -/
def find (q : Queue) (id : Uuid) : Option Operation :=
  match q.uploads.get id with
  | some row => some (.upload row.body)
  | none => (q.mutations.get id).map (fun row => .mutation row.body)

/-- `UploadJournal::operation` -/
def operation (q : Queue) (id : Uuid) : Except JournalError Operation :=
  match q.find id with
  | some op => .ok op
  | none => .error .missing

/-- `coalesce(p.complete,0)=1` -/
def completed (q : Queue) (id : Uuid) : Bool := (q.writeQueue.get id).any QueueRow.complete

/-- `barriers::satisfied` -/
def satisfied (q : Queue) (id : Uuid) : Bool :=
  q.writePrerequisites.rows.all (fun row => row.1.1 ≠ id || q.completed row.1.2)

/-- `directories::ready` -/
def destinationReady (q : Queue) (id : Uuid) : Bool :=
  !(q.writeDestinations.get id).any (fun row => !row.resolved)

/-- The resources an operation holds. -/
def resources (q : Queue) (id : Uuid) : List Resource :=
  q.writeResources.select (fun key _ => if key.1 = id then some key.2 else none)

/-- An operation with a smaller sequence that is not complete holds a resource of `id`. -/
def blocked (q : Queue) (id : Uuid) (sequence : Nat) : Bool :=
  q.writeQueue.rows.any (fun previous => previous.2.sequence < sequence && !previous.2.complete &&
    (q.resources previous.1).any (q.resources id).contains)

end Queue

end Cirrove.Journal
