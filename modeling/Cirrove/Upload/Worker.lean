import Cirrove.Library.Bytes
import Cirrove.Library.Dialogue
import Cirrove.Upload.Contract

/-!
# The transfer worker

`cirrove-service/src/transfers.rs`: one run of the worker takes an upload from the journal, verifies
or begins it, and goes from step to step. Every checkpoint is saved in the vault and its reference
recorded in the journal before the provider is asked again.

The worker is a dialogue with the journal, the vault, the payload and the provider. The steps are
those of providers of ordinary files (`UploadStep`); the journal's part is what it does to the
record of the operation.
-/

namespace Cirrove.Upload

open Cirrove.Library
open Cirrove.Google (ProviderError)
open Cirrove.Journal (JournalError Uuid UploadRecord UploadState)

inductive TransferError where
  | journal (e : JournalError)
  | provider (e : UploadError)
  | vault
  | worker
  deriving DecidableEq, Repr

/-- What a provider does with uploads, over the questions it asks its service. A question without
    an answer is one its call was cut off at. -/
structure UploadProvider (R : Type) (A : R → Type) where
  beginUpload : UploadRequest →
    Dialogue R (fun r => Option (A r)) (Except UploadError UploadStep)
  inspectUpload : UploadRequest → String →
    Dialogue R (fun r => Option (A r)) (Except UploadError UploadStep)
  uploadPart : UploadRequest → String → Nat → Bytes →
    Dialogue R (fun r => Option (A r)) (Except UploadError UploadStep)
  commitUpload : UploadRequest → String →
    Dialogue R (fun r => Option (A r)) (Except UploadError UploadStep)
  reconcileUpload : UploadRequest → Option String →
    Dialogue R (fun r => Option (A r)) (Except UploadError Reconciliation)

/-- What the worker asks for. -/
inductive WorkerAsk (R : Type) where
  /-- `claim_next_verification`, and `claim_next` where there is none. -/
  | claim
  | cancelled
  | load
  | save (checkpoint : String)
  | remove
  | recordSession (attempt : Uuid) (transferred : Nat)
  /-- `stop_attempt` and `retry_verified_uncommitted`, under one lock. -/
  | retryUncommitted (attempt : Uuid)
  | acknowledge (attempt : Uuid) (node : Node)
  | defer (attempt : Uuid) (state : UploadState) (delay : Nat)
  /-- Bytes of the payload. -/
  | payload (offset length : Nat)
  | remote (r : R)

/-- A use of the vault fails when the vault does, or with an uncertain result when it is cut off. -/
def WorkerAnswer {R : Type} (A : R → Type) : WorkerAsk R → Type
  | .claim => Except JournalError (Option UploadRecord)
  | .cancelled => Bool
  | .load => Except TransferError (Option String)
  | .save _ => Except TransferError Unit
  | .remove => Except TransferError Unit
  | .recordSession _ _ => Except JournalError Unit
  | .retryUncommitted _ => Except JournalError Unit
  | .acknowledge _ _ => Except JournalError Unit
  | .defer _ _ _ => Except JournalError Unit
  | .payload _ _ => Except TransferError Bytes
  | .remote r => Option (A r)

namespace Worker

variable {R : Type} {A : R → Type} {α : Type}

abbrev Work (R : Type) (A : R → Type) (α : Type) :=
  ExceptT TransferError (Dialogue (WorkerAsk R) (WorkerAnswer A)) α

def ask (r : WorkerAsk R) : Work R A (WorkerAnswer A r) := ExceptT.lift (Dialogue.question r)

def ofExcept (x : Except TransferError α) : Work R A α := ExceptT.mk (pure x)

def refuseIf (condition : Prop) [Decidable condition] (e : TransferError) : Work R A Unit :=
  if condition then throw e else pure ()

/-- `TransferWorker::local` -/
def ofJournal (x : Except JournalError α) : Work R A α := ofExcept (x.mapError .journal)

/-- The request of an operation. -/
def requestOf (record : UploadRecord) : UploadRequest :=
  ⟨record.scope, record.intent, record.size, record.sha256⟩

/-- `TransferWorker::remote`: a call that is not begun any more when the worker was cancelled. -/
def remote (call : Dialogue R (fun r => Option (A r)) (Except UploadError α)) : Work R A α := do
  let cancelled : Bool ← ask .cancelled
  refuseIf cancelled (.provider .uncertain)
  let result ← ExceptT.lift (call.within .remote fun _ x => x)
  ofExcept (result.mapError .provider)

/-- `TransferWorker::checkpoint` -/
def checkpoint (attempt : Uuid) (value : String) (offset : Nat) : Work R A Unit := do
  ofExcept (← ask (.save value))
  ofJournal (← ask (.recordSession attempt offset))

/-- `TransferWorker::clean_checkpoint`; a failure is only reported. -/
def cleanCheckpoint : Work R A Unit := do
  let cancelled : Bool ← ask .cancelled
  if cancelled then return ()
  else
    let _ ← ask .remove
    return ()

variable (p : UploadProvider R A) (record : UploadRecord) (attempt : Uuid)

/-- The operation goes back to the queue. -/
def retryUncommitted : Work R A UploadState := do
  cleanCheckpoint
  ofJournal (← ask (.retryUncommitted attempt))
  return .pending

/-- The step a run begins with: of a fresh operation what `begin_upload` gives, of one that is
    verified what inspecting the saved checkpoint gives, if anything; and that checkpoint. -/
def firstStep : Work R A (Option UploadStep × Option String) := do
  if record.state = .verifying then
    let saved ← ofExcept (← ask .load)
    match saved with
    | none => return (none, none)
    | some saved =>
      let inspected ← ExceptT.lift (remote (p.inspectUpload (requestOf record) saved)).run
      match inspected with
      | .ok step => return (some step, some saved)
      -- a saved session may report an old result, so that the file decides
      | .error (.provider .sessionGone) | .error (.provider .checkpointInvalid)
      | .error (.provider .uncertain) => return (none, some saved)
      | .error e => throw e
  else
    let step ← remote (p.beginUpload (requestOf record))
    return (some step, none)

/-- Where a run goes on without a step: the step that completes what the provider has found, or
    none when the operation has not been committed. -/
def reconciled (saved : Option String) : Work R A (Option UploadStep) := do
  match ← remote (p.reconcileUpload (requestOf record) saved) with
  | .committed node => return some (.complete node)
  | .conflict => throw (.provider .conflict)
  | .uncommitted => return none

/-- A part that is asked for and not one of the file. -/
def partInvalid (size offset length : Nat) : Bool :=
  length = 0 || 16 * 1024 * 1024 < length || size ≤ offset || size - offset < length

/-- A part that was asked for again. -/
def behind (finish : Nat) : UploadStep → Bool
  | .continue _ offset _ => offset < finish
  | _ => false

/-- What may follow on a commit. -/
def committing : UploadStep → Bool
  | .commit _ | .complete _ => true
  | _ => false

/-- The loop over the steps, of which so many are left; `prepared` is whether a session may be
    begun, `commits` how often the upload was committed. -/
def steps : Nat → Bool → Nat → UploadStep → Work R A UploadState
  | 0, _, _, _ => throw .worker
  | left + 1, prepared, commits, step => do
    let cancelled : Bool ← ask .cancelled
    refuseIf cancelled (.provider .uncertain)
    match step with
    | .prepared checkpoint =>
      refuseIf (!prepared) (.provider .invalid)
      Worker.checkpoint attempt checkpoint 0
      let next ← remote (p.inspectUpload (requestOf record) checkpoint)
      steps left false commits next
    | .continue checkpoint offset length =>
      refuseIf (partInvalid record.size offset length) (.provider .invalid)
      Worker.checkpoint attempt checkpoint offset
      let bytes ← ofExcept (← ask (.payload offset length))
      let next ← remote (p.uploadPart (requestOf record) checkpoint offset bytes)
      refuseIf (behind (offset + length) next) (.provider .uncertain)
      steps left false commits next
    | .commit checkpoint =>
      refuseIf (4 < commits + 1) (.provider .invalid)
      Worker.checkpoint attempt checkpoint record.size
      let next ← remote (p.commitUpload (requestOf record) checkpoint)
      refuseIf (!committing next) (.provider .uncertain)
      steps left false (commits + 1) next
    | .complete node =>
      ofJournal (← ask (.acknowledge attempt node))
      cleanCheckpoint
      return .uploaded

/-- `TransferWorker::execute`. Every part brings the transfer on, so that there are at most as many
    steps as bytes and a few. -/
def execute : Work R A UploadState := do
  let (step, saved) ← firstStep p record
  let step ← match step with
    | some step => pure (some step)
    | none => reconciled p record saved
  match step with
  | some step => steps p record attempt (record.size + 8) true 0 step
  | none => retryUncommitted attempt

/-- The state an operation is left in by an error. -/
def failedState : TransferError → UploadState
  | .provider .conflict => .conflict
  | .provider .invalid | .provider (.unsupported _) | .provider .quota => .failed
  | .provider (.provider .permission) | .provider (.provider .notFound) => .failed
  | .provider (.provider .authentication) => .failed
  | .journal .corrupt => .failed
  | _ => .verifyRequired

/-- The seconds until an operation is tried again. -/
def retryDelay (failedAttempts : Nat) : TransferError → Nat
  | .provider (.provider (.throttled seconds)) => min (seconds + 1) (2 ^ 64 - 1)
  | _ => 2 ^ (min failedAttempts 6 + 1)

/-- `TransferWorker::run_once` -/
def runOnce : Work R A (Option UploadState) := do
  let cancelled : Bool ← ask .cancelled
  if cancelled then return none
  else
    match ← ofJournal (← ask .claim) with
    | none => return none
    | some record =>
      match record.attempt with
      | none => throw .worker
      | some attempt =>
        match ← ExceptT.lift (execute p record attempt).run with
        | .ok state => return some state
        | .error e =>
          let state := failedState e
          ofJournal (← ask (.defer attempt state (retryDelay record.failedAttempts e)))
          return some state

end Worker

end Cirrove.Upload
