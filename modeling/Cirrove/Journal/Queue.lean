import Cirrove.Journal.Namespace

/-!
# Admission to the queue

How an operation enters the queue: `queue_insert` and the resource keys of `mutations.rs`,
`insert_dependency` of `generations.rs`, `validate` and `insert` of `barriers.rs` and `bind`
of `directories.rs`. `admitOperation` is the order in which every new operation goes through them.
-/

namespace Cirrove.Journal

open Cirrove.Library

/-- `mutations::slot_key` -/
def slotKey (lowercase : String → String) (scope : Scope) (parent name : String) : Resource :=
  .name scope parent (lowercase name)

/-- `mutations::upload_resources` -/
def uploadResources (lowercase : String → String) (scope : Scope) : UploadIntent → List Resource
  | .create parent name => [slotKey lowercase scope parent name]
  | .replace item _ => [.item scope item]

/-- `mutations::mutation_resources` -/
def mutationResources (lowercase : String → String) (request : MutationRequest) :
    Except JournalError (List Resource) := do
  let source ← match request.intent.before with
    | none => pure []
    | some before =>
      match before.parentId with
      | none => .error .intent
      | some parent =>
        pure [.item request.scope before.id, slotKey lowercase request.scope parent before.name]
  let destination := match request.intent with
    | .createFolder parent name => [slotKey lowercase request.scope parent name]
    | .relocate _ parent name => [slotKey lowercase request.scope parent name]
    | _ => []
  return (source ++ destination).dedup

/-- A base version and the operations to wait for. -/
structure WriteOrder where
  base : Option WriteBase
  prerequisites : List Uuid
  deriving DecidableEq, Repr

/-- The columns and the body of a new operation, or of one that is stored again. -/
def Queue.put (q : Queue) : Operation → Queue
  | .upload r => { q with uploads := q.uploads.set r.id ⟨r.sequence, r.state, r⟩ }
  | .mutation r => { q with mutations := q.mutations.set r.id ⟨r.sequence, r.state, r⟩ }

namespace Queue

/-- The number the next operation gets. -/
def nextSequence (q : Queue) : Nat := q.lastSequence + 1

/-- `mutations::queue_insert` -/
def queueInsert (q : Queue) (id : Uuid) (keys : List Resource) : Queue :=
  { q with
    writeQueue := q.writeQueue.set id ⟨q.nextSequence, false⟩
    lastSequence := q.nextSequence
    writeResources := q.writeResources.setAll (keys.map (id, ·)) () }

/-- `INSERT OR IGNORE INTO write_resources` -/
def addResources (q : Queue) (id : Uuid) (keys : List Resource) : Queue :=
  { q with writeResources := q.writeResources.setAll (keys.map (id, ·)) () }

/-- `mutations::queue_complete` -/
def queueComplete (q : Queue) (id : Uuid) (complete : Bool) : Except JournalError Queue :=
  match q.writeQueue.get id with
  | none => .error .corrupt
  | some row => .ok { q with writeQueue := q.writeQueue.set id { row with complete := complete } }

/-- Is this an earlier operation of the queue? -/
def precedes (q : Queue) (id : Uuid) (sequence : Nat) : Bool :=
  (q.writeQueue.get id).any (fun row => 0 < row.sequence && row.sequence < sequence)

/-- `generations::insert_dependency` -/
def insertDependency (q : Queue) (id : Uuid) (sequence : Nat) :
    Option WriteBase → Except JournalError Queue
  | none => .ok q
  | some base => do
    check (!base.resolved && q.precedes base.predecessor sequence) .stale
    check ((q.writeSuccessors.get base.predecessor).isNone &&
      q.writeSuccessors.rows.all (fun row => row.2 ≠ id)) .stale
    return { q with writeSuccessors := q.writeSuccessors.set base.predecessor id }

/-- `UploadJournal::ensure_successor_free` -/
def ensureSuccessorFree (q : Queue) (predecessor : Uuid) : Except JournalError Unit := do
  let _ ← q.operation predecessor
  check (q.writeSuccessors.get predecessor).isNone .stale

/-- The loop of `barriers::validate`. -/
def validateEach (q : Queue) (scope : Scope) : List Uuid → List Uuid → Except JournalError Unit
  | _, [] => .ok ()
  | seen, id :: rest => do
    check (!seen.contains id) .intent
    let op ← q.operation id
    check (op.scope = scope) .account
    q.validateEach scope (id :: seen) rest

/-- `barriers::validate` -/
def validateBarriers (q : Queue) (scope : Scope) (prerequisites : List Uuid) :
    Except JournalError Unit := do
  check (prerequisites.length ≤ 16) .quota
  q.validateEach scope [] prerequisites

/-- The loop of `barriers::insert`: every edge points backward. -/
def insertEach (q : Queue) (operation : Uuid) (sequence : Nat) :
    List Uuid → Except JournalError Queue
  | [] => .ok q
  | predecessor :: rest => do
    check (q.precedes predecessor sequence) .stale
    { q with writePrerequisites := q.writePrerequisites.set (operation, predecessor) () }.insertEach
      operation sequence rest

/-- `barriers::insert` -/
def insertBarriers (q : Queue) (operation : Uuid) (sequence : Nat) (scope : Scope)
    (prerequisites : List Uuid) : Except JournalError Queue := do
  q.validateBarriers scope prerequisites
  q.insertEach operation sequence prerequisites

/-- `directories::bind`: a destination that is a local folder is bound to it, and to the
    operation that last changed it. -/
def bind (q : Queue) (names : Namespace) (operation : Uuid) (sequence : Nat) (scope : Scope)
    (parent : String) : Except JournalError Queue :=
  match names.byLocal scope parent with
  | none => .ok q
  | some folder => do
    check (folder.node.kind = .folder && !folder.unlinked && folder.remoteOwned) .intent
    match folder.latest with
    | some predecessor => check (q.precedes predecessor sequence) .stale
    | none => check folder.remote.isSome .corrupt
    return { q with writeDestinations :=
      q.writeDestinations.set operation ⟨folder.id, folder.latest, false⟩ }

/-- A new operation enters the queue. -/
def admitOperation (q : Queue) (names : Namespace) (op : Operation) (keys : List Resource)
    (destination : Option String) (prerequisites : List Uuid) : Except JournalError Queue := do
  let q := q.queueInsert op.id keys
  let q ← match destination with
    | none => pure q
    | some parent => q.bind names op.id op.sequence op.scope parent
  let q ← q.insertDependency op.id op.sequence op.base
  let q ← q.insertBarriers op.id op.sequence op.scope prerequisites
  return q.put op

end Queue

/-! ## New operations -/

/-- An upload that was just sealed. -/
def UploadRecord.new (env : Env) (id : Uuid) (sequence : Nat) (scope : Scope)
    (intent : UploadIntent) (base : Option WriteBase) (workingFile : Option Uuid) (size : Nat)
    (sha256 : String) : UploadRecord where
  id := id
  sequence := sequence
  scope := scope
  intent := intent
  state := .pending
  size := size
  sha256 := sha256
  attempt := none
  remote := none
  base := base
  workingFile := workingFile
  sessionKey := none
  transferredBytes := 0
  retryAt := 0
  failedAttempts := 0
  savedAt := env.now

/-- A namespace change nobody has tried. -/
def MutationRecord.new (id : Uuid) (sequence : Nat) (request : MutationRequest)
    (base : Option WriteBase) (workingFile : Option Uuid) (localReady : Bool) :
    MutationRecord where
  id := id
  sequence := sequence
  request := request
  state := .pending
  attempt := none
  receipt := none
  verifiedContent := none
  retryAt := 0
  failedAttempts := 0
  base := base
  workingFile := workingFile
  preparedItem := none
  localReady := localReady

/-- The folder a change puts something into. -/
def MutationIntent.destination : MutationIntent → Option String
  | .createFolder parent _ => some parent
  | .relocate _ parent _ => some parent
  | _ => none

/-- The folder an operation puts something into. -/
def Operation.destination : Operation → Option String
  | .upload r =>
    match r.base, r.intent with
    | none, .create parent _ => some parent
    | _, _ => none
  | .mutation r => r.request.intent.destination

/-- The ETag of a plan that waits for its receipt. -/
def pendingReceipt : String := "cirrove-pending-receipt"

/-- The intent with the placeholder for an ETag that is not known yet. Only a relocation
    and the removal of a file can follow a receipt. -/
def MutationIntent.preview : MutationIntent → Option MutationIntent
  | .relocate before parent name =>
    some (.relocate { before with etag := some pendingReceipt } parent name)
  | .removeFile before => some (.removeFile { before with etag := some pendingReceipt })
  | _ => none

namespace UploadJournal

/-- What a caller commits together with its new upload (`GenerationCommit`). -/
abbrev UploadCommit := UploadJournal → UploadRecord → Except JournalError UploadJournal

/-- What a caller commits together with its new namespace change. -/
abbrev MutationCommit := UploadJournal → MutationRecord → Except JournalError UploadJournal

/-- `UploadJournal::enqueue_generation` -/
def enqueueGeneration (j : UploadJournal) (env : Env) (id : Uuid) (scope : Scope)
    (intent : UploadIntent) (order : WriteOrder) (workingFile : Option Uuid)
    (commit : UploadCommit) : Except JournalError (UploadRecord × UploadJournal) := do
  check (scope.account = j.settings.account) .account
  check (scope.provider ≠ "" && scope.collection ≠ "") .intent
  check intent.validate .intent
  match order.base with
  | some base => j.queue.ensureSuccessorFree base.predecessor
  | none => pure ()
  j.queue.validateBarriers scope order.prerequisites
  let (size, sha256) ← env.snapshot id
  let record := UploadRecord.new env id j.queue.nextSequence scope intent order.base workingFile
    size sha256
  let queue ← j.queue.admitOperation j.names (.upload record)
    (uploadResources j.settings.lowercase scope intent) (Operation.upload record).destination
    order.prerequisites
  let j ← commit { j with queue := queue } record
  return (record, j)

/-- `UploadJournal::enqueue` -/
def enqueue (j : UploadJournal) (env : Env) (scope : Scope) (intent : UploadIntent) :
    Except JournalError (UploadRecord × UploadJournal) :=
  j.enqueueGeneration env (env.uuid 0) scope intent ⟨none, []⟩ none (fun j _ => .ok j)

/-- `UploadJournal::upload_intent_after` -/
def uploadIntentAfter (j : UploadJournal) (predecessor : Uuid) :
    Except JournalError (Scope × UploadIntent) := do
  match ← j.queue.operation predecessor with
  | .upload r => return (r.scope, r.intent)
  | .mutation r =>
    match r.request.intent with
    | .relocate before _ _ =>
      if before.kind = .file then
        return (r.request.scope, .replace before.id (before.etag.getD pendingReceipt))
      else .error .intent
    | _ => .error .intent

/-- `UploadJournal::enqueue_after_all` -/
def enqueueAfterAll (j : UploadJournal) (env : Env) (predecessor : Uuid)
    (prerequisites : List Uuid) : Except JournalError (UploadRecord × UploadJournal) := do
  let (scope, intent) ← j.uploadIntentAfter predecessor
  j.queue.ensureSuccessorFree predecessor
  j.enqueueGeneration env (env.uuid 0) scope intent ⟨some ⟨predecessor, false⟩, prerequisites⟩ none
    (fun j _ => .ok j)

/-- `UploadJournal::enqueue_after` -/
def enqueueAfter (j : UploadJournal) (env : Env) (predecessor : Uuid) :
    Except JournalError (UploadRecord × UploadJournal) :=
  j.enqueueAfterAll env predecessor []

/-- `UploadJournal::enqueue_mutation_transaction` -/
def enqueueMutationTransaction (j : UploadJournal) (id : Uuid) (request : MutationRequest)
    (order : WriteOrder) (workingFile : Option Uuid) (attached : Bool) (commit : MutationCommit) :
    Except JournalError (MutationRecord × UploadJournal) := do
  check (request.scope.account = j.settings.account) .account
  match request.intent with
  | .trashNativeDocument _ =>
    check (request.validate && order.base.isNone && order.prerequisites.isEmpty && !attached) .intent
  | _ => pure ()
  j.queue.validateBarriers request.scope order.prerequisites
  let record := MutationRecord.new id j.queue.nextSequence request order.base workingFile true
  let keys ← mutationResources j.settings.lowercase request
  let queue ← j.queue.admitOperation j.names (.mutation record) keys request.intent.destination
    order.prerequisites
  let j ← commit { j with queue := queue } record
  return (record, j)

/-- `UploadJournal::enqueue_mutation` -/
def enqueueMutation (j : UploadJournal) (env : Env) (request : MutationRequest) :
    Except JournalError (MutationRecord × UploadJournal) := do
  check request.validate .intent
  j.enqueueMutationTransaction (env.uuid 0) request ⟨none, []⟩ none false (fun j _ => .ok j)

/-- `UploadJournal::validate_mutation_base` -/
def validateMutationBase (j : UploadJournal) (predecessor : Uuid) (request : MutationRequest) :
    Except JournalError Unit := do
  let previous ← j.queue.operation predecessor
  check (previous.scope = request.scope && request.scope.account = j.settings.account) .account
  let some before := request.intent.before | .error .intent
  check (previous.kind = some before.kind && before.target.isNone) .intent
  let some preview := request.intent.preview | .error .intent
  check ({ request with intent := preview } : MutationRequest).validate .intent

/-- `UploadJournal::enqueue_mutation_after_all` -/
def enqueueMutationAfterAll (j : UploadJournal) (env : Env) (predecessor : Uuid)
    (prerequisites : List Uuid) (request : MutationRequest) :
    Except JournalError (MutationRecord × UploadJournal) := do
  j.validateMutationBase predecessor request
  j.queue.ensureSuccessorFree predecessor
  j.enqueueMutationTransaction (env.uuid 0) request ⟨some ⟨predecessor, false⟩, prerequisites⟩ none
    false (fun j _ => .ok j)

/-- `UploadJournal::enqueue_mutation_after` -/
def enqueueMutationAfter (j : UploadJournal) (env : Env) (predecessor : Uuid)
    (request : MutationRequest) : Except JournalError (MutationRecord × UploadJournal) :=
  j.enqueueMutationAfterAll env predecessor [] request

/-- The base of an operation on something whose last operation is `latest`. -/
def followLatest (j : UploadJournal) (latest : Option Uuid) (request : MutationRequest) :
    Except JournalError (Option WriteBase) :=
  match latest with
  | some predecessor => do
    j.validateMutationBase predecessor request
    j.queue.ensureSuccessorFree predecessor
    return some ⟨predecessor, false⟩
  | none => do
    check request.validate .intent
    return none

end UploadJournal

end Cirrove.Journal
