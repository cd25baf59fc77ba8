import Cirrove.Library.Faults

/-!
# Sealed credentials

`cirrove-icloud/src/sealed_session.rs`: a large credential is sealed in a file of a private
directory, with a short key that the desktop keyring keeps. `SealedSessionVault` loads, saves and
removes it; `OwnedSealedSession` writes new values of a session it has loaded, by revision. Every
step may fail or be the last one of the process.

Encryption is what it promises: a file opens under the key and the authenticated data it was sealed
with. Base64 is a parameter with its inverse.
-/

namespace Cirrove.ICloud.Sealed

open Cirrove.Library
open Cirrove.Library.Faulty

def keyPrefix : String := "icloud-seal-v1:"
def maxSealedBytes : Nat := 128 * 1024 + 64

/-- What is written before the ciphertext, and its tag. -/
def sealOverhead : Nat := 6 + 12 + 16

inductive SealError where
  /-- A step failed. -/
  | io
  | invalidKey
  | missing
  | notPrivate
  | authentication
  | tooLarge
  | occupied
  | notSaved
  | notRestored
  | keyMissing
  | bindingChanged
  | changed
  | directoryChanged
  deriving DecidableEq, Repr

variable {Key : Type} [DecidableEq Key]

/-- The text of a key. -/
structure KeyText (Key : Type) where
  encode : Key → String
  decode : String → Option Key
  decode_encode : ∀ key, decode (encode key) = some key

/-- `SealedSessionVault` for one credential. -/
structure Vault (Key : Type) where
  text : KeyText Key
  aad : String
  /-- The directory that is created where there is none. -/
  directory : Nat

/-- A sealed file. -/
structure SealedFile (Key : Type) where
  key : Key
  aad : String
  value : String

def SealedFile.size (file : SealedFile Key) : Nat := file.value.utf8ByteSize + sealOverhead

/-- `ExistingSession` -/
structure ExistingSession (Key : Type) where
  directory : Nat
  key : Key
  expected : String
  attempted : Option String
  acknowledged : Nat

structure World (Key : Type) where
  keyring : Option String := none
  directory : Option Nat := none
  file : Option (SealedFile Key) := none
  /-- The slot of an unpublished file is occupied. -/
  pending : Bool := false
  bound : Option (ExistingSession Key) := none

abbrev Op (Key α : Type) := Faulty (World Key) SealError α

/-- A step that changes nothing here. -/
def touch : Op Key Unit := step .io fun w => ((), w)

/-- `strip_prefix` -/
def stripPrefix (start s : String) : Option String :=
  if start.toList <+: s.toList then some (String.ofList (s.toList.drop start.toList.length))
  else none

def keyringLoad : Op Key (Option String) := step .io fun w => (w.keyring, w)
def keyringSave (saved : String) : Op Key Unit :=
  step .io fun w => ((), { w with keyring := some saved })
def keyringRemove : Op Key Unit := step .io fun w => ((), { w with keyring := none })

namespace Vault

variable (v : Vault Key)

def sealedKey (key : Key) : String := keyPrefix ++ v.text.encode key

/-- `key`: a text without the prefix is a credential itself. -/
def key (saved : String) : Except SealError (Option Key) :=
  match stripPrefix keyPrefix saved with
  | none => .ok none
  | some encoded =>
    match v.text.decode encoded with
    | none => .error .invalidKey
    | some key => .ok (some key)

def privateAccountDir : Op Key Unit :=
  step .io fun w => ((), { w with directory := some (w.directory.getD v.directory) })

def existingDirectory : Op Key Nat := do
  match ← step .io fun w => (w.directory, w) with
  | none => fail .io
  | some directory => pure directory

def readSealed (key : Key) : Op Key String := do
  match ← step .io fun w => (w.file, w) with
  | none => fail .missing
  | some file =>
    if maxSealedBytes < file.size then fail .notPrivate
    else if file.key = key ∧ file.aad = v.aad then pure file.value
    else fail .authentication

/-- `create_new` of the slot. -/
def createPending : Op Key Unit := do
  let created ← step .io fun w => (!w.pending, { w with pending := true })
  if created then pure () else fail .occupied

/-- Write the slot, and give it the file's name. -/
def publish (file : SealedFile Key) : Op Key Unit := do
  touch
  touch
  touch
  touch
  step .io fun w => ((), { w with file := some file, pending := false })

def writeExisting (key : Key) (value : String) : Op Key Unit := do
  let _ ← existingDirectory
  touch
  let file : SealedFile Key := ⟨key, v.aad, value⟩
  if maxSealedBytes < file.size then fail .tooLarge
  else
    createPending
    match ← attempt (publish file) with
    | .error e =>
      let _ ← attempt (step .io fun w => ((), { w with pending := false }))
      fail e
    -- Rename releases the slot: a failure from here on leaves it alone.
    | .ok () => touch

def writeSealed (key : Key) (value : String) : Op Key Unit := do
  v.privateAccountDir
  v.writeExisting key value

def loadWith : Op Key (Option String) := do
  match ← keyringLoad with
  | none => pure none
  | some saved =>
    match ← ofExcept (v.key saved) with
    | some key => some <$> v.readSealed key
    | none => pure (some saved)

def existingKey : Option String → Op Key (Option Key)
  | some saved => ofExcept (v.key saved)
  | none => pure none

/-- Write the file, under the key there is or under a new one. The file comes before the new key, so
    that a legacy credential stays usable if the key cannot be saved. -/
def writeWith (value : String) (fresh : Key) : Option Key → Op Key Unit
  | some key => v.writeSealed key value
  | none => do
    touch
    v.writeSealed fresh value
    keyringSave (v.sealedKey fresh)

def readback (value : String) : Op Key Unit := do
  match ← v.loadWith with
  | none => fail .notSaved
  | some restored => if restored ≠ value then fail .notRestored else pure ()

/-- `save_with`, with the key that is made when there is none. -/
def saveWith (value : String) (fresh : Key) : Op Key Unit := do
  let existing ← keyringLoad
  let existingKey ← v.existingKey existing
  v.writeWith value fresh existingKey
  v.readback value

def removeWith : Op Key Unit := do
  keyringRemove
  step .io fun w => ((), { w with file := none })

/-! ## The owner of a session -/

def setBound (f : ExistingSession Key → ExistingSession Key) : Op Key Unit :=
  assign fun w => { w with bound := w.bound.map f }

/-- `OwnedSealedSession::load` -/
def load : Op Key (Option String) := do
  let directory ← existingDirectory
  match ← keyringLoad with
  | none => pure none
  | some saved =>
    if directory ≠ (← existingDirectory) then fail .directoryChanged
    else
      match ← ofExcept (v.key saved) with
      | none => pure (some saved)
      | some key =>
        let value ← v.readSealed key
        assign fun w => { w with bound := some ⟨directory, key, value, none, 0⟩ }
        pure (some value)

/-- The session is still the one that was loaded. -/
def checkBinding (bound : ExistingSession Key) : Op Key Unit := do
  match ← keyringLoad with
  | none => fail .keyMissing
  | some saved =>
    let key ← ofExcept (v.key saved)
    if key ≠ some bound.key then fail .bindingChanged
    else if (← existingDirectory) ≠ bound.directory then fail .bindingChanged
    else pure ()

/-- A file that is not the expected one is the one this session tried to write last. -/
def reconcile (bound : ExistingSession Key) (current : String) : Op Key Unit := do
  if current ≠ bound.expected then
    if bound.attempted ≠ some current then fail .changed
    else
      touch
      setBound fun b => { b with expected := current, attempted := none }
  else pure ()

/-- A value that is not the expected one is written, and read back. -/
def storeValue (key : Key) (value : String) : Op Key Unit := do
  if (← look (·.bound)).map (·.expected) = some value then pure ()
  else
    setBound fun b => { b with attempted := some value }
    v.writeExisting key value
    let readback ← v.readSealed key
    if readback ≠ value then fail .notRestored
    else setBound fun b => { b with expected := readback, attempted := none }

/-- `OwnedSealedSession::store` -/
def store (value : String) (revision : Nat) : Op Key Unit := do
  match ← look (·.bound) with
  | none => pure ()
  | some bound =>
    if revision ≤ bound.acknowledged then pure ()
    else
      v.checkBinding bound
      let current ← v.readSealed bound.key
      reconcile bound current
      v.storeValue bound.key value
      setBound fun b => { b with acknowledged := revision }

end Vault

/-! ## Runs -/

/-- A process with the credential. What may be loaded, and what the session it owns has
    acknowledged, are kept beside it. -/
structure State (Key : Type) where
  world : World Key
  /-- What a load may return. -/
  possible : List (Option String)
  /-- The highest revision acknowledged since the session was loaded, and its value. The value
      that was loaded is revision zero. -/
  acknowledged : Option (Nat × String) := none
  /-- The highest revision that was passed since then. -/
  passed : Nat := 0

inductive Call (Key : Type) where
  | loadWith
  | saveWith (value : String) (fresh : Key)
  | removeWith
  | load
  | store (value : String) (revision : Nat)

/-- What may be loaded after a call that should leave `value`. -/
def possibleAfter {α : Type} (possible : List (Option String)) (value : Option String) :
    Ended SealError α → List (Option String)
  | .ok _ => [value]
  | _ => value :: possible

namespace State

/-- A process that ends loses what it owns in memory. -/
def after {α : Type} (s : State Key) (ended : Ended SealError α) (world : World Key) : State Key :=
  match ended with
  | .died => { s with world := { world with bound := none }, acknowledged := none, passed := 0 }
  | _ => { s with world }

def loaded (s : State Key) (ended : Ended SealError (Option String)) : State Key :=
  match ended, s.world.bound with
  | .ok (some value), some _ => { s with acknowledged := some (0, value), passed := 0 }
  | _, _ => s

/-- A session that is bound acknowledges a revision it did not have yet. -/
def stored (s : State Key) (value : String) (revision : Nat) (ended : Ended SealError Unit) :
    State Key :=
  match s.acknowledged with
  | none => s
  | some (top, _) =>
    if revision ≤ top then s
    else
      { s with
        possible := possibleAfter s.possible (some value) ended
        acknowledged :=
          match ended with
          | .ok _ => some (revision, value)
          | _ => s.acknowledged
        passed := max s.passed revision }

end State

/-- A call, with what happens to its steps. -/
structure Event (Key : Type) where
  call : Call Key
  faults : List Fault

def State.step (v : Vault Key) (s : State Key) (e : Event Key) : State Key :=
  match e.call with
  | .loadWith =>
    let r := v.loadWith e.faults s.world
    s.after r.1 r.2.2
  | .saveWith value fresh =>
    let r := v.saveWith value fresh e.faults s.world
    ({ s with possible := possibleAfter s.possible (some value) r.1 } : State Key).after r.1 r.2.2
  | .removeWith =>
    let r := Vault.removeWith e.faults s.world
    ({ s with possible := possibleAfter s.possible none r.1 } : State Key).after r.1 r.2.2
  | .load =>
    let r := v.load e.faults s.world
    (s.after r.1 r.2.2).loaded r.1
  | .store value revision =>
    let r := v.store value revision e.faults s.world
    (s.stored value revision r.1).after r.1 r.2.2

/-- The account's lease keeps other writers out while a session is owned, and revisions do not
    decrease. -/
def Allowed (s : State Key) (e : Event Key) : Prop :=
  match e.call with
  | .saveWith _ _ | .removeWith => s.world.bound.isNone
  | .store _ revision => s.passed ≤ revision
  | _ => True

end Cirrove.ICloud.Sealed
