import Cirrove.Journal.Generations

/-!
# Claims and results

A worker claims an operation and gets a fresh attempt token with it; the result it reports
is accepted only with that token (`journal.rs` and `mutations.rs`). Retries and the
release of local readers change an operation nobody holds.
-/

namespace Cirrove.Journal

open Cirrove.Library

/-- `base` is absent or resolved. -/
def baseBound (base : Option WriteBase) : Bool := base.all WriteBase.resolved

/-- The states an attempt can be stopped in. -/
def UploadState.stopped : UploadState → Bool
  | .verifyRequired => true
  | .conflict => true
  | .failed => true
  | _ => false

/-- The states a change can be put off in. -/
def MutationState.stopped : MutationState → Bool
  | .verifyRequired => true
  | .failed => true
  | .conflict => true
  | .needsReview => true
  | _ => false

/-- The states in which a change is given up. -/
def MutationState.stuck : MutationState → Bool
  | .conflict => true
  | .failed => true
  | .needsReview => true
  | _ => false

/-- The rows of an operation that is taken back. Its prerequisites and its place in the
    lineage stay. -/
def Queue.discard (q : Queue) (id : Uuid) : Queue :=
  { q with
    mutations := q.mutations.erase id
    writeResources := q.writeResources.deleteWhere (fun key _ => key.1 = id)
    writeQueue := q.writeQueue.erase id }

namespace UploadJournal

/-! ## Claims -/

/-- `replacements::locally_ready` -/
def locallyReady (j : UploadJournal) (id : Uuid) : Bool :=
  (j.fileReplacements.get id).all ReplacementRecord.localReady

/-- `UploadJournal::payload` -/
def payload (j : UploadJournal) (env : Env) (id : Uuid) : Except JournalError Unit := do
  let r ← j.queue.upload id
  check (r.state ≠ .preparing && r.sha256.utf8ByteSize = 64) .stale
  env.payload id

/-- The conditions under which an upload of a state can be claimed. -/
def uploadEligible (j : UploadJournal) (state : UploadState) (now : Nat) (id : Uuid)
    (row : UploadRow) : Bool :=
  row.state = state && j.queue.destinationReady id && baseBound row.body.base &&
    j.locallyReady id && j.queue.satisfied id && row.body.retryAt ≤ now &&
    !j.queue.blocked id row.sequence

/-- The queries of `claim_next` and `claim_next_verification`. -/
def nextUpload (j : UploadJournal) (state : UploadState) (now : Nat) : Option (Uuid × UploadRow) :=
  (orderBy (fun row => row.2.sequence) (j.queue.uploads.select (fun id row =>
    if j.uploadEligible state now id row then some (id, row) else none))).head?

/-- `UploadJournal::claim_next` -/
def claimNext (env : Env) : Commits UploadJournal JournalError (Option UploadRecord) := do
  if !(← resolveReadyGenerations) then return none
  match ← Commits.read (fun j : UploadJournal => .ok (j.nextUpload .pending env.now)) with
  | none => return none
  | some (_, row) =>
    let r := row.body
    match ← Commits.read (fun j : UploadJournal => .ok (j.payload env r.id)) with
    | .error error =>
      Commits.commit (fun j => j.save { r with state := .failed })
      Commits.fail error
    | .ok () =>
      let r := { r with state := .uploading, attempt := some (env.uuid 0) }
      Commits.commit (fun j => j.save r)
      return some r

/-- `UploadJournal::claim_verification` -/
def claimVerification (j : UploadJournal) (env : Env) (id : Uuid) :
    Except JournalError (UploadRecord × UploadJournal) := do
  let r ← j.queue.upload id
  check (r.state = .verifyRequired && baseBound r.base && j.queue.satisfied id &&
    j.locallyReady id && j.queue.destinationReady id) .stale
  let r := { r with state := .verifying, attempt := some (env.uuid 0) }
  let j ← j.save r
  return (r, j)

/-- `UploadJournal::claim_next_verification` -/
def claimNextVerification (env : Env) : Commits UploadJournal JournalError (Option UploadRecord) := do
  if !(← resolveReadyGenerations) then return none
  match ← Commits.read (fun j : UploadJournal => .ok (j.nextUpload .verifyRequired env.now)) with
  | none => return none
  | some (id, _) =>
    let r ← Commits.transaction (fun j => j.claimVerification env id)
    return some r

/-- The conditions under which a change can be claimed. -/
def mutationEligible (j : UploadJournal) (now : Nat) (id : Uuid) (row : MutationRow) : Bool :=
  (row.state = .pending || row.state = .verifyRequired) && j.queue.destinationReady id &&
    row.body.localReady && baseBound row.body.base && j.queue.satisfied id &&
    row.body.retryAt ≤ now && !j.queue.blocked id row.sequence

/-- The query of `claim_mutation`. -/
def nextMutation (j : UploadJournal) (now : Nat) : Option MutationRow :=
  (orderBy MutationRow.sequence (j.queue.mutations.select (fun id row =>
    if j.mutationEligible now id row then some row else none))).head?

/-- `UploadJournal::claim_mutation` -/
def claimMutation (env : Env) : Commits UploadJournal JournalError (Option MutationRecord) := do
  if !(← resolveReadyGenerations) then return none
  match ← Commits.read (fun j : UploadJournal => .ok (j.nextMutation env.now)) with
  | none => return none
  | some row =>
    let r := { row.body with
      state := if row.body.state = .pending then .applying else .verifying
      attempt := some (env.uuid 0) }
    Commits.commit (fun j => j.saveMutation r)
    return some r

/-! ## Results of uploads -/

/-- `UploadJournal::active_attempt` -/
def activeAttempt (j : UploadJournal) (id attempt : Uuid) : Except JournalError UploadRecord := do
  let r ← j.queue.upload id
  check (r.state.inFlight && r.attempt = some attempt) .stale
  return r

/-- `UploadJournal::record_session` -/
def recordSession (j : UploadJournal) (id attempt key : Uuid) (transferred : Nat) :
    Except JournalError UploadJournal := do
  let r ← j.activeAttempt id attempt
  check (transferred ≤ r.size) .stale
  j.save { r with sessionKey := some key, transferredBytes := transferred, state := .uploading }

/-- `UploadJournal::defer_attempt`; `stop_attempt` has no delay. -/
def deferAttempt (j : UploadJournal) (env : Env) (id attempt : Uuid) (state : UploadState)
    (delay : Nat) : Except JournalError UploadJournal := do
  check state.stopped .stale
  let r ← j.activeAttempt id attempt
  j.save { r with
    state := state
    attempt := none
    retryAt := env.after delay
    failedAttempts := min (r.failedAttempts + 1) (2 ^ 32 - 1) }

/-- The name of the item a replacement keeps. -/
def receiptName (j : UploadJournal) (id : Uuid) : Except JournalError (Option String) :=
  match j.fileReplacements.get id with
  | some record => do
    let source ← j.names.byId record.source
    return some source.node.name
  | none => .ok ((j.names.forOperation id).bind (fun o => o.remote.map Node.name))

/-- Is this the file the upload was to make? -/
def acceptsReceipt (r : UploadRecord) (remote : Node) : Bool :=
  (match r.intent with
    | .create parent name => remote.name = name && remote.parentId = some parent
    | .replace item _ => remote.id = item) &&
  remote.id ≠ "" && remote.kind = .file && !remote.package && remote.target.isNone &&
    remote.size = r.size && remote.contentRevision.isSome

/-- `UploadJournal::acknowledge` -/
def acknowledge (j : UploadJournal) (id attempt : Uuid) (remote : Node) :
    Except JournalError UploadJournal := do
  let r ← j.activeAttempt id attempt
  check (acceptsReceipt r remote) .corrupt
  let name ← match r.intent with
    | .replace _ _ => j.receiptName id
    | .create _ _ => pure none
  j.save { r with
    remote := some { remote with name := name.getD remote.name }
    state := .uploaded
    transferredBytes := r.size
    attempt := none }

/-- `UploadJournal::retry_verified_uncommitted` -/
def retryVerifiedUncommitted (j : UploadJournal) (env : Env) (id : Uuid) :
    Except JournalError UploadJournal := do
  let r ← j.queue.upload id
  check (r.state = .verifyRequired || r.state = .failed) .stale
  j.payload env id
  j.save { r with
    state := .pending
    attempt := none
    retryAt := 0
    sessionKey := none
    transferredBytes := 0 }

/-- `UploadJournal::request_retry` -/
def requestRetry (j : UploadJournal) (id : Uuid) : Except JournalError UploadJournal := do
  let r ← j.queue.upload id
  check (baseBound r.base) .stale
  check (r.state = .failed || r.state = .verifyRequired) .stale
  j.save { r with state := .verifyRequired, retryAt := 0 }

/-- `UploadJournal::release_replacement_readers` -/
def releaseReplacementReaders (j : UploadJournal) (id : Uuid) : Except JournalError UploadJournal :=
  match j.fileReplacements.get id with
  | none => .error .missing
  | some record => do
    if record.localReady then return j
    let r ← j.queue.upload id
    let source ← j.names.byId record.source
    check (!(r.state = .preparing && source.workingFile.isNone)) .stale
    let victim ← j.names.byId record.victim
    check (victim.unlinked && [UploadState.preparing, .pending, .verifyRequired, .conflict,
      .failed].contains r.state) .corrupt
    return { j with
      fileReplacements := j.fileReplacements.set id { record with localReady := true } }

/-! ## Results of namespace changes -/

/-- `UploadJournal::mutation_attempt` -/
def mutationAttempt (j : UploadJournal) (id attempt : Uuid) : Except JournalError MutationRecord := do
  let r ← j.queue.mutation id
  check (r.state.inFlight && r.attempt = some attempt) .stale
  return r

/-- An identity a provider may reserve. -/
def validPrepared (item : String) : Bool :=
  item ≠ "" && item.utf8ByteSize ≤ 4096 &&
    !item.toList.any (fun c => c = '\x00' || c = '\r' || c = '\n') &&
    !item.toList.tails.any (fun rest => "://".toList.isPrefixOf rest)

/-- `UploadJournal::record_prepared_mutation` -/
def recordPreparedMutation (j : UploadJournal) (id attempt : Uuid) (item : String) :
    Except JournalError UploadJournal := do
  check (validPrepared item) .intent
  let r ← j.mutationAttempt id attempt
  check (r.state = .applying && r.preparedItem.isNone) .stale
  j.saveMutation { r with preparedItem := some item }

/-- `mutations::reconciled_state`: a later lookup can include somebody else's edit. -/
def reconciledState (r : MutationRecord) (receipt : MutationReceipt) : MutationState :=
  match r.request.intent, receipt with
  | .relocate before _ _, .upsert after =>
    if r.state ≠ .verifying || before.kind ≠ .file then .applied
    else if before.size ≠ after.size then .conflict
    else if before.etag = after.etag then .applied
    else
      match before.contentVersion.filter (· ≠ ""), after.contentVersion.filter (· ≠ "") with
      | some old, some new => if old = new then .applied else .conflict
      | _, _ => .needsReview
  | _, _ => .applied

/-- The item a receipt is about. -/
def receiptItem : MutationReceipt → String
  | .upsert node => node.id
  | .removed item => item

/-- `UploadJournal::acknowledge_mutation_evidence` -/
def acknowledgeMutation (j : UploadJournal) (id attempt : Uuid) (receipt : MutationReceipt)
    (proof : Option VerifiedMutationContent) :
    Except JournalError (MutationState × UploadJournal) := do
  let r ← j.mutationAttempt id attempt
  check (proof.all (fun p => r.state = .verifying && p.validFor r.request receipt)) .corrupt
  check (r.request.accepts receipt) .corrupt
  check (r.preparedItem.all (· = receiptItem receipt)) .corrupt
  let state := if proof.isSome then .applied else reconciledState r receipt
  let j ← j.saveMutation { r with
    state := state
    verifiedContent := proof
    receipt := some receipt
    attempt := none }
  return (state, j)

/-- A failed try is counted, and the next one is put off. -/
def deferred (env : Env) (r : MutationRecord) (state : MutationState) (delay : Nat) :
    MutationRecord :=
  { r with
    state := state
    attempt := none
    retryAt := env.after delay
    failedAttempts := min (r.failedAttempts + 1) (2 ^ 32 - 1) }

/-- `UploadJournal::defer_mutation` -/
def deferMutation (j : UploadJournal) (env : Env) (id attempt : Uuid) (state : MutationState)
    (delay : Nat) : Except JournalError UploadJournal := do
  check state.stopped .stale
  let r ← j.mutationAttempt id attempt
  j.saveMutation (deferred env r state delay)

/-- `UploadJournal::defer_mutation_preparation` -/
def deferMutationPreparation (j : UploadJournal) (env : Env) (id attempt : Uuid) (delay : Nat) :
    Except JournalError UploadJournal := do
  let r ← j.mutationAttempt id attempt
  check (r.state = .applying && r.preparedItem.isNone) .stale
  j.saveMutation (deferred env r .pending delay)

/-- `UploadJournal::retry_uncommitted_mutation` -/
def retryUncommittedMutation (j : UploadJournal) (id attempt : Uuid) :
    Except JournalError UploadJournal := do
  let r ← j.mutationAttempt id attempt
  check (r.state = .verifying) .stale
  j.saveMutation { r with state := .pending, attempt := none, retryAt := 0 }

/-- `UploadJournal::request_mutation_retry` -/
def requestMutationRetry (j : UploadJournal) (id : Uuid) : Except JournalError UploadJournal := do
  let r ← j.queue.mutation id
  check (baseBound r.base) .stale
  check (r.state = .failed || r.state = .verifyRequired || r.state = .needsReview) .stale
  j.saveMutation { r with state := .verifyRequired, retryAt := 0 }

/-- `UploadJournal::release_unlinked_readers` -/
def releaseUnlinkedReaders (j : UploadJournal) (id : Uuid) : Except JournalError UploadJournal := do
  let r ← j.queue.mutation id
  if r.localReady then return j
  let some o := j.names.forOperation id | .error .corrupt
  let removesFile := match r.request.intent with
    | .removeFile _ => true
    | _ => false
  check (o.unlinked && o.latest = some id && (r.state = .pending || r.state = .verifyRequired) &&
    removesFile) .corrupt
  j.saveMutation { r with localReady := true }

/-- `UploadJournal::discard_stuck_removal` -/
def discardStuckRemoval (j : UploadJournal) (id : Uuid) : Except JournalError UploadJournal := do
  let r ← j.queue.mutation id
  check r.state.stuck .stale
  check r.request.intent.isRemoval .intent
  let some o := j.names.forOperation id | .error .missing
  check (o.unlinked && o.latest = some id) .stale
  let revision ← increment o.revision
  let j ← j.saveObject { o with unlinked := false, latest := none, revision := revision }
  return { j with
    names := { j.names with operations := j.names.operations.erase id }
    queue := j.queue.discard id }

end UploadJournal

end Cirrove.Journal
