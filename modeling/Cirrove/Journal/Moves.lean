import Cirrove.Journal.Binding
import Mathlib.Logic.Relation

/-!
# What one commit can do

Every commit of a call is one of four moves: it changes nothing that orders the operations
(`quiet`), binds one operation to a receipt (`bind`), hands one operation out (`claim`), or takes a
removal back (`discard`). An invariant of the queue is kept by every call when it is kept by every
move.
-/

namespace Cirrove.Journal

open Cirrove.Library

/-- The calls that bind operations to receipts first. -/
def Op.resolves : Op → Bool
  | .claimNext => true
  | .claimNextVerification => true
  | .claimMutation => true
  | .keepBoth _ _ _ => true
  | _ => false

/-- The calls that hand an operation out. -/
def Op.claims : Op → Bool
  | .claimNext => true
  | .claimVerification _ => true
  | .claimNextVerification => true
  | .claimMutation => true
  | _ => false

/-- Nothing an operation was declared to wait for is open. -/
structure Claimable (q : Queue) (op : Operation) : Prop where
  stored : q.find op.id = some op
  incomplete : op.isComplete = false
  bound : baseBound op.base = true
  destination : q.destinationReady op.id = true
  prerequisites : q.satisfied op.id = true

/-- The queue after a removal was taken back. -/
structure Queue.Discarded (q q' : Queue) (id : Uuid) : Prop where
  tidy : q'.Tidy
  removal : ∃ op, q.find id = some op ∧ op.kind = none ∧ op.isComplete = false ∧
    op.inFlight = false
  find : ∀ x, q'.find x = if x = id then none else q.find x
  resources : ∀ x k, k ∈ q'.resources x ↔ x ≠ id ∧ k ∈ q.resources x
  lastSequence : q'.lastSequence = q.lastSequence
  prerequisites : q'.writePrerequisites = q.writePrerequisites
  successors : q'.writeSuccessors = q.writeSuccessors
  destinations : q'.writeDestinations = q.writeDestinations

/-- The object of a removal that was taken back has its name again. Its working file stays as it
    was. -/
structure Relinked (j j' : UploadJournal) (id : Uuid) : Prop where
  object : ∃ row revision n', j.names.objects.get row.body.id = some row ∧
    row.body.unlinked = true ∧ row.body.latest = some id ∧
    Stored j.settings.lowercase j.names n'
      { row.body with unlinked := false, latest := none, revision := revision } ∧
    (j.names.scopes.get row.body.scope).isSome = true ∧
    j'.names = { n' with operations := n'.operations.erase id }
  files : j'.workingFiles = j.workingFiles
  replacements : j'.fileReplacements = j.fileReplacements

/-- One operation was bound to what the receipts reveal. -/
def BindsOne (ok : String → Prop) (j j' : UploadJournal) (id : Uuid) : Prop :=
  Inv ok [] j ∧ Binds ok (fun x k => x = id ∧ Reveals j x k) j j' id

/-- Operations were bound, and nothing else has happened. -/
def Bound (ok : String → Prop) (start j : UploadJournal) : Prop :=
  Relation.ReflTransGen (fun a b => ∃ id, BindsOne ok a b id) start j

/-- One commit of the call `op` that began in `start`. -/
inductive Move (ok : String → Prop) (start : UploadJournal) (env : Env) (op : Op) :
    UploadJournal → UploadJournal → Prop where
  | quiet {j j' : UploadJournal} (hinv : Inv ok [] j)
      (h : Leads ok (fun _ _ => False) (fun _ _ => False) [] j j') : Move ok start env op j j'
  | bind {j j' : UploadJournal} {id : Uuid} (hop : op.resolves = true) (hbound : Bound ok start j)
      (h : BindsOne ok j j' id) : Move ok start env op j j'
  | claim {j j' : UploadJournal} {old : Operation} (hinv : Inv ok [] j) (hop : op.claims = true)
      (hold : Claimable j.queue old)
      (hfree : (op = .claimVerification old.id ∧ j = start ∧ old.isUpload = true) ∨
        j.queue.blocked old.id old.sequence = false)
      (h : Leads ok (fun x token => x = old.id ∧ token = env.uuid 0) (fun _ _ => False) [] j j') :
      Move ok start env op j j'
  | discard {j' : UploadJournal} {id : Uuid} (hinv : Inv ok [] start)
      (hop : op = .discardStuckRemoval id) (hinv' : Inv ok [] j')
      (h : start.queue.Discarded j'.queue id) (hsettings : j'.settings = start.settings)
      (hrelinked : Relinked start j' id) :
      Move ok start env op start j'

/-- Some commits of the call `op` that began in `start`. -/
def Path (ok : String → Prop) (start : UploadJournal) (env : Env) (op : Op) (j : UploadJournal) :
    Prop := Relation.ReflTransGen (Move ok start env op) start j

variable {ok : String → Prop} {start j j' : UploadJournal} {env : Env} {op : Op}

theorem Move.inv (h : Move ok start env op j j') : Inv ok [] j' := by
  cases h with
  | quiet _ h => exact h.inv
  | bind _ _ h => exact (@Binds.reaches _ _ _ _ _ h.2 (fun _ _ => False)).inv
  | claim _ _ _ _ h => exact h.inv
  | discard _ _ h _ _ _ => exact h

theorem Path.inv (h : Path ok start env op j) (hstart : Inv ok [] start) : Inv ok [] j := by
  cases h with
  | refl => exact hstart
  | tail _ hmove => exact hmove.inv

/-- Binding is a part of the calls that bind. -/
theorem Bound.path (h : Bound ok start j) (hop : op.resolves = true) : Path ok start env op j := by
  induction h with
  | refl => exact .refl
  | tail hbound hnext ih =>
    obtain ⟨_, hbinds⟩ := hnext
    exact ih.tail (.bind hop hbound hbinds)

/-- What every move keeps holds after the commits of a call. -/
theorem Path.invariant (h : Path ok start env op j) (K : UploadJournal → Prop) (hstart : K start)
    (hmove : ∀ j j', Move ok start env op j j' → K j → K j') : K j := by
  induction h with
  | refl => exact hstart
  | tail _ hnext ih => exact hmove _ _ hnext ih

theorem Path.quiet (h : Path ok start env op j) (hinv : Inv ok [] j)
    (hleads : Leads ok (fun _ _ => False) (fun _ _ => False) [] j j') :
    Path ok start env op j' := h.tail (.quiet hinv hleads)

end Cirrove.Journal
