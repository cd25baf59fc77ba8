import Cirrove.Google.Files
import Cirrove.Journal.Machine
import Cirrove.Library.Dialogue

/-!
# The mutation worker

`cirrove-service/src/mutations.rs`: one run of the worker takes a change of the namespace from the
journal. A change that is to be sent at once may have an identity reserved for it, which is recorded
before it is sent; one whose result is not known is looked for instead. What comes of it is reported
to the journal, and only what was looked for and not found goes back to be sent again.

The worker is a dialogue with the journal, whose calls are those of its machine, and with the
provider (`cirrove-core/src/mutation.rs`).
-/

namespace Cirrove.Mutation

open Cirrove.Library
open Cirrove.Google (ProviderError)
open Cirrove.Journal (JournalError Uuid MutationRequest MutationReceipt MutationRecord
  MutationState VerifiedMutationContent Op Reply UploadJournal)

inductive MutationError where
  | provider (e : ProviderError)
  | conflict
  | invalid
  | locked
  | quota
  | insufficientStorage
  | uncertain
  | unsupported (what : String)
  deriving DecidableEq, Repr

inductive MutationReconciliation where
  | applied (receipt : MutationReceipt)
  | appliedWithVerifiedContent (receipt : MutationReceipt) (proof : VerifiedMutationContent)
  | uncommitted
  | conflict
  | indeterminate
  deriving DecidableEq, Repr

/-- What a provider does with changes, over the questions it asks its service. A question without
    an answer is one its call was cut off at. -/
structure MutationProvider (R : Type) (A : R → Type) where
  /-- `prepare_mutation_for_operation` -/
  prepareMutation : Uuid → MutationRequest →
    Dialogue R (fun r => Option (A r)) (Except MutationError (Option String))
  /-- `mutate_operation` -/
  mutate : Uuid → MutationRequest → Option String →
    Dialogue R (fun r => Option (A r)) (Except MutationError MutationReceipt)
  /-- `reconcile_operation` -/
  reconcile : Uuid → MutationRequest → Option String →
    Dialogue R (fun r => Option (A r)) (Except MutationError MutationReconciliation)

/-- What the worker asks for. -/
inductive WorkerAsk (R : Type) where
  | cancelled
  /-- A call of the journal, under its lock. -/
  | journal (op : Op)
  | remote (r : R)

def WorkerAnswer {R : Type} (A : R → Type) : WorkerAsk R → Type
  | .cancelled => Bool
  | .journal _ => Except JournalError Reply
  | .remote r => Option (A r)

namespace Worker

variable {R : Type} {A : R → Type} {α : Type}

abbrev Work (R : Type) (A : R → Type) (α : Type) :=
  ExceptT JournalError (Dialogue (WorkerAsk R) (WorkerAnswer A)) α

def ask (r : WorkerAsk R) : Work R A (WorkerAnswer A r) := ExceptT.lift (Dialogue.question r)

/-- `MutationWorker::local` -/
def onJournal (op : Op) : Work R A Reply := do
  let answer : Except JournalError Reply ← ask (.journal op)
  ExceptT.mk (pure answer)

/-- `MutationWorker::remote`: a call that is not begun any more when the worker was cancelled. -/
def remote (call : Dialogue R (fun r => Option (A r)) (Except MutationError α)) :
    Work R A (Except MutationError α) := do
  let cancelled : Bool ← ask .cancelled
  if cancelled then return .error .uncertain
  else ExceptT.lift (call.within .remote fun _ x => x)

/-- The change a claim hands out. -/
def claimed : Reply → Option MutationRecord
  | .claimed (some (.mutation record)) => some record
  | _ => none

/-- The state a change is in that was acknowledged. -/
def acknowledged : Reply → Work R A MutationState
  | .outcome state => return state
  | _ => throw .stale

/-- It is of no use to send the change again. -/
def refused : MutationError → Bool
  | .invalid | .unsupported _ | .quota | .insufficientStorage => true
  | .provider .permission | .provider .authentication | .provider .notFound => true
  | _ => false

/-- The seconds until a change is tried again. -/
def retryDelay (failedAttempts : Nat) : MutationError → Nat
  | .provider (.throttled seconds) => min (seconds + 1) (2 ^ 64 - 1)
  | _ => 2 ^ (min failedAttempts 6 + 1)

/-- The state a change is left in by an error, which may have come after it took effect. -/
def failedState (e : MutationError) : MutationState :=
  if e = .conflict then .conflict
  else if refused e then .failed
  else .verifyRequired

variable (p : MutationProvider R A) (record : MutationRecord) (attempt : Uuid)

/-- The part of `run_once` that reserves an identity: the record with it, or the state of a change
    for which none could be reserved. Nothing was sent then. -/
def prepared : Work R A (Except MutationState MutationRecord) := do
  if record.state = .applying ∧ record.preparedItem.isNone then
    match ← remote (p.prepareMutation record.id record.request) with
    | .ok (some item) =>
      let _ ← onJournal (.recordPreparedMutation record.id attempt item)
      return .ok { record with preparedItem := some item }
    | .ok none => return .ok record
    | .error e =>
      let delay := retryDelay record.failedAttempts e
      if refused e then
        let _ ← onJournal (.deferMutation record.id attempt .failed delay)
        return .error .failed
      else
        let _ ← onJournal (.deferMutationPreparation record.id attempt delay)
        return .error .pending
  else return .ok record

/-- The part of `run_once` that sends the change, or looks for what became of it. -/
def sent : Work R A (Except MutationError MutationReconciliation) := do
  if record.state = .verifying then
    remote (p.reconcile record.id record.request record.preparedItem)
  else
    let result ← remote (p.mutate record.id record.request record.preparedItem)
    return result.map .applied

/-- The part of `run_once` that reports what came of a change. -/
def reported : Except MutationError MutationReconciliation → Work R A MutationState
  | .ok (.appliedWithVerifiedContent receipt proof) => do
    acknowledged (← onJournal (.acknowledgeMutation record.id attempt receipt (some proof)))
  | .ok (.applied receipt) => do
    acknowledged (← onJournal (.acknowledgeMutation record.id attempt receipt none))
  | .ok .uncommitted => do
    let _ ← onJournal (.retryUncommittedMutation record.id attempt)
    return .pending
  | .ok .conflict => do
    let _ ← onJournal (.deferMutation record.id attempt .conflict 0)
    return .conflict
  | .ok .indeterminate => do
    let _ ← onJournal (.deferMutation record.id attempt .needsReview 0)
    return .needsReview
  | .error e => do
    let _ ← onJournal (.deferMutation record.id attempt (failedState e)
      (retryDelay record.failedAttempts e))
    return failedState e

/-- What `run_once` does with a change. -/
def carried : Work R A MutationState := do
  match ← prepared p record attempt with
  | .error state => return state
  | .ok record =>
    let result ← sent p record
    reported record attempt result

/-- `MutationWorker::run_once` -/
def runOnce : Work R A (Option (Uuid × MutationState)) := do
  let cancelled : Bool ← ask .cancelled
  if cancelled then return none
  else
    match claimed (← onJournal .claimMutation) with
    | none => return none
    | some record =>
      match record.attempt with
      | none => throw .stale
      | some attempt => return some (record.id, ← carried p record attempt)

end Worker

/-! ## Receipts -/

theorem mapError_eq_ok {ε ε' α : Type} {x : Except ε α} {f : ε → ε'} {a : α}
    (h : x.mapError f = .ok a) : x = .ok a := by
  cases x with
  | ok b => exact congrArg Except.ok (Except.ok.inj h)
  | error e => cases h

/-- The receipt is of the change, and of the folder whose identity was reserved. -/
def Acceptable (request : MutationRequest) (item : Option String) (receipt : MutationReceipt) :
    Prop :=
  request.accepts receipt = true ∧ item.all (· = UploadJournal.receiptItem receipt) = true

end Cirrove.Mutation
