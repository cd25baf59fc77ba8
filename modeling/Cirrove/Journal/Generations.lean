import Cirrove.Journal.Paths
import Cirrove.Library.Query

/-!
# Receipts become bases

A finished operation is stored together with the local names it confirms (`save` and
`save_mutation`). Before any worker may claim, `resolve_ready_generations` rewrites the
operations that waited for a finished one: their source from its receipt
(`generations.rs`) and their destination folder from the confirmed folder
(`directories.rs`).
-/

namespace Cirrove.Journal

open Cirrove.Library

/-! ## Storing an outcome -/

namespace Queue

/-- `UPDATE uploads SET state=?2,body=?3` -/
def updateUpload (q : Queue) (r : UploadRecord) : Except JournalError Queue :=
  match q.uploads.get r.id with
  | none => .error .missing
  | some row =>
    .ok { q with uploads := q.uploads.set r.id { row with state := r.state, body := r } }

/-- `UPDATE mutations SET state=?2,body=?3` -/
def updateMutation (q : Queue) (r : MutationRecord) : Except JournalError Queue :=
  match q.mutations.get r.id with
  | none => .error .missing
  | some row =>
    .ok { q with mutations := q.mutations.set r.id { row with state := r.state, body := r } }

end Queue

namespace UploadJournal

/-- `replacements::confirm`: the source takes the victim's cloud identity, and the cleanup
    object the source's old one. -/
def confirmReplacement (j : UploadJournal) (operation : Uuid) (sequence : Nat) (remote : Node) :
    Except JournalError (Bool × UploadJournal) :=
  match j.fileReplacements.get operation with
  | none => .ok (false, j)
  | some record => do
    if record.remoteApplied then return (true, j)
    check record.localReady .stale
    let source ← j.names.byId record.source
    let victim ← j.names.byId record.victim
    let cleanup ← j.names.byId record.cleanupObject
    let some oldSource := source.remote | .error .corrupt
    check (source.remoteOwned && victim.remoteOwned && victim.unlinked &&
      victim.remote.any (fun n => n.id = remote.id) && oldSource.id ≠ remote.id &&
      source.scope = victim.scope && source.remoteSequence < sequence && !cleanup.remoteOwned &&
      cleanup.unlinked) .corrupt
    let victimRevision ← increment victim.revision
    let j ← j.saveObject { victim with remoteOwned := false, revision := victimRevision }
    let sourceRevision ← increment source.revision
    let j ← j.saveObject { source with
      remote := some remote
      remoteSequence := sequence
      revision := sourceRevision }
    let cleanupRevision ← increment cleanup.revision
    let j ← j.saveObject { cleanup with
      node := { oldSource with id := cleanup.node.id }
      remote := some oldSource
      remoteSequence := source.remoteSequence
      remoteOwned := true
      revision := cleanupRevision }
    return (true, { j with
      fileReplacements := j.fileReplacements.set operation { record with remoteApplied := true } })

/-- `namespace::confirm` inside a transaction of the whole journal. -/
def confirmObject (j : UploadJournal) (operation : Uuid) (sequence : Nat) (remote : Node) :
    Except JournalError UploadJournal := do
  let names ← j.names.confirm j.settings.lowercase operation sequence remote
  return { j with names := names }

/-- `UploadJournal::save` -/
def save (j : UploadJournal) (r : UploadRecord) : Except JournalError UploadJournal := do
  let queue ← j.queue.updateUpload r
  let queue ← queue.queueComplete r.id (r.state = .uploaded)
  let j := { j with queue := queue }
  match r.state, r.remote with
  | .uploaded, some remote =>
    let (replaced, j) ← j.confirmReplacement r.id r.sequence remote
    if replaced then return j
    j.confirmObject r.id r.sequence remote
  | _, _ => return j

/-- `UploadJournal::save_mutation` -/
def saveMutation (j : UploadJournal) (r : MutationRecord) : Except JournalError UploadJournal := do
  let queue ← j.queue.updateMutation r
  let queue ← queue.queueComplete r.id (r.state = .applied)
  let j := { j with queue := queue }
  match r.state, r.receipt with
  | .applied, some (.upsert remote) => j.confirmObject r.id r.sequence remote
  | _, _ => return j

end UploadJournal

/-! ## Sources -/

namespace Queue

/-- `UploadJournal::base_node` -/
def baseNode (q : Queue) (base : WriteBase) (scope : Scope) (sequence : Nat) :
    Except JournalError (Option Node) := do
  let previous ← q.operation base.predecessor
  if previous.scope ≠ scope || sequence ≤ previous.sequence then return none
  return previous.confirmedNode.filter (fun n => n.target.isNone)

/-- The intent of an upload that follows a confirmed file. -/
def intentFrom (node : Node) : Option UploadIntent :=
  if node.kind ≠ .file then none else node.etag.map (.replace node.id ·)

/-- A row of the query of `resolve_ready_generations`. -/
structure Waiting where
  sequence : Nat
  id : Uuid
  isUpload : Bool
  deriving DecidableEq, Repr

/-- Is this the base of an operation that waits, and is its predecessor complete? -/
def baseReady (q : Queue) (base : Option WriteBase) : Bool :=
  base.any (fun b => !b.resolved && q.completed b.predecessor)

/-- The operations whose base can be resolved now, oldest first. -/
def readyGenerations (q : Queue) : List Waiting :=
  orderBy Waiting.sequence (
    q.uploads.select (fun id row =>
      if (row.state = .pending || row.state = .preparing) && q.baseReady row.body.base then
        some ⟨row.sequence, id, true⟩
      else none) ++
    q.mutations.select (fun id row =>
      if row.state = .pending && q.baseReady row.body.base then
        some ⟨row.sequence, id, false⟩
      else none))

/-- The operations whose destination folder can be resolved now, oldest first. -/
def readyDestinations (q : Queue) : List Waiting :=
  orderBy Waiting.sequence (q.writeDestinations.select (fun id row =>
    match q.writeQueue.get id with
    | some queued =>
      if !row.resolved && !queued.complete && row.predecessor.all q.completed then
        some ⟨queued.sequence, id, (q.uploads.get id).isSome⟩
      else none
    | none => none))

/-- `UPDATE uploads SET body=?3` -/
def updateUploadBody (q : Queue) (r : UploadRecord) : Queue :=
  match q.uploads.get r.id with
  | none => q
  | some row => { q with uploads := q.uploads.set r.id { row with body := r } }

/-- `UPDATE mutations SET body=?2` -/
def updateMutationBody (q : Queue) (r : MutationRecord) : Queue :=
  match q.mutations.get r.id with
  | none => q
  | some row => { q with mutations := q.mutations.set r.id { row with body := r } }

end Queue

/-- The intent of a change that follows a confirmed node. -/
def MutationIntent.follow (intent : MutationIntent) (node : Node) : Option MutationIntent :=
  match intent with
  | .relocate _ parent name => some (.relocate node parent name)
  | .removeFile _ => some (.removeFile node)
  | _ => none

namespace UploadJournal

/-- `UploadJournal::resolve_upload` -/
def resolveUpload (j : UploadJournal) (id : Uuid) : Except JournalError UploadJournal := do
  let r ← j.queue.upload id
  let some base := r.base | .error .corrupt
  let node ← j.queue.baseNode base r.scope r.sequence
  match (node.bind Queue.intentFrom).filter UploadIntent.validate with
  | none => j.save { r with state := .failed }
  | some intent =>
    let r := { r with intent := intent, base := some { base with resolved := true } }
    let queue := j.queue.addResources id (uploadResources j.settings.lowercase r.scope intent)
    return { j with queue := queue.updateUploadBody r }

/-- `UploadJournal::resolve_mutation` -/
def resolveMutation (j : UploadJournal) (id : Uuid) : Except JournalError UploadJournal := do
  let r ← j.queue.mutation id
  let some base := r.base | .error .corrupt
  let node ← j.queue.baseNode base r.request.scope r.sequence
  match node.filter (fun n => r.request.intent.before.any (fun before => before.kind = n.kind)) with
  | none => j.saveMutation { r with state := .failed }
  | some node =>
    let some intent := r.request.intent.follow node | .error .corrupt
    let r := { r with request := { r.request with intent := intent } }
    -- A receipt without a usable ETag does not become a precondition.
    if !r.request.validate then
      return ← j.saveMutation { r with state := .failed }
    let r := { r with base := some { base with resolved := true } }
    let keys ← mutationResources j.settings.lowercase r.request
    return { j with queue := (j.queue.addResources id keys).updateMutationBody r }

/-! ## Destinations -/

/-- The confirmed folder of a destination. -/
def destinationNode (j : UploadJournal) (op : Operation) (row : DestinationRow)
    (folder : NamespaceObject) : Except JournalError (Option Node) := do
  let remote ← match row.predecessor with
    | some previous => do
      let bound := j.names.operations.get previous = some row.parent
      let previous ← j.queue.operation previous
      pure (if bound && previous.scope = op.scope && previous.sequence < op.sequence then
        previous.confirmedNode
      else none)
    | none => pure folder.remote
  return remote.filter (fun n => n.kind = .folder && n.target.isNone && n.id ≠ "")

/-- The upload of a resolved destination; without a folder it has failed. -/
def boundUpload (r : UploadRecord) (remote : Option Node) : Except JournalError UploadRecord :=
  match r.intent, remote with
  | .create _ name, some remote => .ok { r with intent := .create remote.id name }
  | .create _ _, none => .ok { r with state := .failed }
  | .replace _ _, _ => .error .corrupt

/-- The change of a resolved destination; without a folder it has failed. -/
def boundMutation (r : MutationRecord) (remote : Option Node) : Except JournalError MutationRecord :=
  match r.request.intent, remote with
  | .createFolder _ name, some remote =>
    .ok { r with request := { r.request with intent := .createFolder remote.id name } }
  | .relocate before _ name, some remote =>
    .ok { r with request := { r.request with intent := .relocate before remote.id name } }
  | .createFolder _ _, none => .ok { r with state := .failed }
  | .relocate _ _ _, none => .ok { r with state := .failed }
  | _, _ => .error .corrupt

/-- `UPDATE write_destinations SET resolved=1` -/
def resolvedDestination (q : Queue) (id : Uuid) (row : DestinationRow) : Queue :=
  { q with writeDestinations := q.writeDestinations.set id { row with resolved := true } }

/-- `UploadJournal::resolve_destination` -/
def resolveDestination (j : UploadJournal) (id : Uuid) : Except JournalError UploadJournal := do
  let some row := (j.queue.writeDestinations.get id).filter (fun row => !row.resolved)
    | .error .storage
  let folder ← j.names.byId row.parent
  let op ← j.queue.operation id
  let remote ← j.destinationNode op row folder
  check (folder.scope = op.scope && folder.node.kind = .folder) .corrupt
  let queue ← match op with
    | .upload r => do
      let r ← boundUpload r remote
      (j.queue.addResources id (uploadResources j.settings.lowercase r.scope r.intent)).updateUpload r
    | .mutation r => do
      let r ← boundMutation r remote
      let keys ← mutationResources j.settings.lowercase r.request
      (j.queue.addResources id keys).updateMutation r
  return { j with queue := resolvedDestination queue id row }

/-! ## Both -/

/-- The number of operations one call resolves of each kind. -/
def resolveLimit : Nat := 256

/-- `UploadJournal::resolve_ready_destinations` -/
def resolveReadyDestinations : Commits UploadJournal JournalError Bool := do
  let rows ← Commits.read (fun j : UploadJournal => .ok (j.queue.readyDestinations.take resolveLimit))
  Commits.forEach (fun row => Commits.commit (fun j => j.resolveDestination row.id)) rows
  Commits.read (fun j : UploadJournal => .ok j.queue.readyDestinations.isEmpty)

/-- `resolve_upload` or `resolve_mutation` -/
def resolveGeneration (row : Queue.Waiting) : Commits UploadJournal JournalError PUnit :=
  Commits.commit (fun j =>
    if row.isUpload then j.resolveUpload row.id else j.resolveMutation row.id)

/-- `UploadJournal::resolve_ready_generations`: is nothing left that waits for a receipt? -/
def resolveReadyGenerations : Commits UploadJournal JournalError Bool := do
  let destinations ← resolveReadyDestinations
  let rows ← Commits.read (fun j : UploadJournal => .ok (j.queue.readyGenerations.take resolveLimit))
  Commits.forEach resolveGeneration rows
  let settled ← Commits.read (fun j : UploadJournal => .ok j.queue.readyGenerations.isEmpty)
  return destinations && settled

end UploadJournal

end Cirrove.Journal
