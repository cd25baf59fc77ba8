import Cirrove.Journal.Rescue
import Cirrove.Library.Runs

/-!
# The journal as a machine

One process owns the journal at a time. It opens the journal, performs calls, and may die
between any two commits of a call or of the opening; the next process opens what was
committed. `World` is the database together with what the workers outside know: the attempt
tokens they were handed.
-/

namespace Cirrove.Journal

open Cirrove.Library

/-! ## Opening -/

namespace UploadJournal

/-- `mutations::migrate_queue`: nobody knows what became of the changes in flight. -/
def recoverMutations (j : UploadJournal) : UploadJournal :=
  { j with queue := { j.queue with mutations := j.queue.mutations.mapRows (fun _ row =>
      if row.state.inFlight then
        { row with
          state := .verifyRequired
          body := { row.body with state := .verifyRequired, attempt := none } }
      else row) } }

/-- `preparation::migrate`: downloads belong to the old process. -/
def recoverPreparations (j : UploadJournal) : UploadJournal :=
  { j with queue := { j.queue with uploads := j.queue.uploads.mapRows (fun _ row =>
      if row.state = .preparing then { row with body := { row.body with attempt := none } }
      else row) } }

/-- `preparation::migrate`: readers of a source without local bytes need a new gate. -/
def closeReaders (j : UploadJournal) : UploadJournal :=
  { j with fileReplacements := j.fileReplacements.mapRows (fun id record =>
      let unprepared := (j.queue.uploads.get id).any (fun row => row.body.sha256 = "")
      let unread := (j.names.objects.get record.source).any (fun row => row.body.workingFile.isNone)
      if unprepared && unread then { record with localReady := false } else record) }

/-- The recovery of `UploadJournal::open`: a transfer did not fail because its process died. -/
def recoverUploads (j : UploadJournal) : UploadJournal :=
  { j with queue := { j.queue with uploads := j.queue.uploads.mapRows (fun _ row =>
      if row.state.inFlight then
        { row with
          state := .verifyRequired
          body := { row.body with state := .verifyRequired, attempt := none } }
      else row) } }

/-- One file of `recover_working`; `size` is the length of its bytes. -/
def recoverFile (j : UploadJournal) (id : Uuid) (size : Nat) : Except JournalError UploadJournal := do
  let w ← j.workingFile id
  if size = w.node.size then return j
  check w.dirty .corrupt
  j.saveWorking { w with node := { w.node with size := size } }

/-- One replacement of `recover_replacement_readers`. -/
def recoverReader (j : UploadJournal) (id : Uuid) : Except JournalError UploadJournal :=
  match j.fileReplacements.get id with
  | none => .error .missing
  | some record => do
    let r ← j.queue.upload id
    let source ← j.names.byId record.source
    if r.sha256.utf8ByteSize ≠ 64 && source.workingFile.isNone then return j
    j.releaseReplacementReaders id

/-- The query of `unlinked_readers`. -/
def unlinkedReaders (j : UploadJournal) : List Uuid :=
  (orderBy MutationRow.sequence (j.queue.mutations.select (fun _ row =>
    if row.body.localReady then none else some row))).map (fun row => row.body.id)

/-- The query of `replacement_readers`. -/
def replacementReaders (j : UploadJournal) : List Uuid :=
  (orderBy UploadRow.sequence (j.fileReplacements.select (fun id record =>
    if record.localReady then none else j.queue.uploads.get id))).map (fun row => row.body.id)

/-- `UploadJournal::open` -/
def reopen (size : Uuid → Nat) : Commits UploadJournal JournalError PUnit := do
  Commits.commit (fun j => .ok j.recoverMutations)
  Commits.commit (fun j => .ok j.recoverPreparations)
  Commits.commit (fun j => .ok j.closeReaders)
  Commits.commit (fun j => .ok j.recoverUploads)
  let files ← Commits.read (fun j : UploadJournal => .ok (j.workingFiles.select (fun id _ => some id)))
  Commits.forEach (fun id => Commits.commit (fun j => j.recoverFile id (size id))) files
  let unlinked ← Commits.read (fun j : UploadJournal => .ok j.unlinkedReaders)
  Commits.forEach (fun id => Commits.commit (fun j => j.releaseUnlinkedReaders id)) unlinked
  let replaced ← Commits.read (fun j : UploadJournal => .ok j.replacementReaders)
  Commits.forEach (fun id => Commits.commit (fun j => j.recoverReader id)) replaced

end UploadJournal

/-! ## Calls -/

/-- A call of the journal's interface. -/
inductive Op where
  | configureNamespace (scope : Scope) (names : NamespaceNames)
  | observeNamespaceFile (scope : Scope) (node : Node)
  | captureNamespaceAncestors (entries : List (Scope × Node))
  | enqueue (scope : Scope) (intent : UploadIntent)
  | enqueueAfterAll (predecessor : Uuid) (prerequisites : List Uuid)
  | enqueueMutation (request : MutationRequest)
  | enqueueMutationAfterAll (predecessor : Uuid) (prerequisites : List Uuid)
      (request : MutationRequest)
  | publishWorking (scope : Scope) (node : Node) (new truncate : Bool)
  | writeWorking (id : Uuid) (written : Except JournalError Nat)
  | sealWorking (id : Uuid)
  | relocateWorking (id : Uuid) (parent name : String)
  | createNamespaceDirectory (scope : Scope) (parent name : String)
  | removeNamespaceDirectory (id : Uuid) (revision : Nat)
  | relocateNamespaceItem (id : Uuid) (revision : Nat) (parent name : String)
  | unlinkNamespaceFile (id : Uuid) (revision : Nat) (preserveReaders : Bool)
  | replaceNamespaceFile (source : Uuid) (sourceRevision : Nat) (victim : Uuid)
      (victimRevision : Nat) (preserveReaders : Bool)
  | handoffNamespace (id : Uuid) (revision : Nat) (remote : Node)
  | claimNext
  | claimVerification (id : Uuid)
  | claimNextVerification
  | claimMutation
  | recordSession (id attempt key : Uuid) (transferred : Nat)
  | deferAttempt (id attempt : Uuid) (state : UploadState) (delay : Nat)
  | acknowledge (id attempt : Uuid) (remote : Node)
  | retryVerifiedUncommitted (id : Uuid)
  | requestRetry (id : Uuid)
  | releaseReplacementReaders (id : Uuid)
  | recordPreparedMutation (id attempt : Uuid) (item : String)
  | acknowledgeMutation (id attempt : Uuid) (receipt : MutationReceipt)
      (proof : Option VerifiedMutationContent)
  | deferMutation (id attempt : Uuid) (state : MutationState) (delay : Nat)
  | deferMutationPreparation (id attempt : Uuid) (delay : Nat)
  | retryUncommittedMutation (id attempt : Uuid)
  | requestMutationRetry (id : Uuid)
  | releaseUnlinkedReaders (id : Uuid)
  | discardStuckRemoval (id : Uuid)
  | keepBoth (id : Uuid) (parent name : String)

/-- What a call answers. -/
inductive Reply where
  | done
  | claimed (op : Option Operation)
  | queued (op : Operation)
  | sealed (record : Option UploadRecord)
  | object (o : NamespaceObject)
  | working (w : WorkingFile)
  | outcome (state : MutationState)
  deriving DecidableEq, Repr

section Exec

open UploadJournal

/-- What a call tells its caller. -/
def answer {α : Type} (f : α → Reply) (x : Commits UploadJournal JournalError α) :
    Commits UploadJournal JournalError Reply := do
  let a ← x
  return f a

/-- Perform a call. -/
def exec (env : Env) : Op → Commits UploadJournal JournalError Reply
  | .configureNamespace scope names =>
    answer (fun _ => .done) (Commits.commit (fun j => j.configureNamespace scope names))
  | .observeNamespaceFile scope node =>
    answer .object (Commits.transaction (fun j => j.observeNamespaceFile env scope node))
  | .captureNamespaceAncestors entries =>
    answer (fun _ => .done) (Commits.commit (fun j => j.captureNamespaceAncestors env entries))
  | .enqueue scope intent =>
    answer (fun r => .queued (.upload r)) (Commits.transaction (fun j => j.enqueue env scope intent))
  | .enqueueAfterAll predecessor prerequisites =>
    answer (fun r => .queued (.upload r))
      (Commits.transaction (fun j => j.enqueueAfterAll env predecessor prerequisites))
  | .enqueueMutation request =>
    answer (fun r => .queued (.mutation r))
      (Commits.transaction (fun j => j.enqueueMutation env request))
  | .enqueueMutationAfterAll predecessor prerequisites request =>
    answer (fun r => .queued (.mutation r)) (Commits.transaction (fun j =>
      j.enqueueMutationAfterAll env predecessor prerequisites request))
  | .publishWorking scope node new truncate =>
    answer .working (Commits.transaction (fun j => j.publishWorking env scope node new truncate))
  | .writeWorking id written => answer .working (UploadJournal.writeWorking env id written)
  | .sealWorking id =>
    answer .sealed (Commits.transaction (fun j => j.sealWorking env (env.uuid 0) id))
  | .relocateWorking id parent name =>
    answer (fun r => .queued (.mutation r)) (UploadJournal.relocateWorking env id parent name)
  | .createNamespaceDirectory scope parent name =>
    answer (fun r => .queued (.mutation r))
      (Commits.transaction (fun j => j.createNamespaceDirectory env scope parent name))
  | .removeNamespaceDirectory id revision =>
    answer (fun r => .queued (.mutation r))
      (Commits.transaction (fun j => j.removeNamespaceDirectory env id revision))
  | .relocateNamespaceItem id revision parent name =>
    answer (fun r => .queued (.mutation r))
      (UploadJournal.relocateNamespaceItem env id revision parent name)
  | .unlinkNamespaceFile id revision preserveReaders =>
    answer (fun r => .queued (.mutation r))
      (Commits.transaction (fun j => j.unlinkNamespaceFile env id revision preserveReaders))
  | .replaceNamespaceFile source sourceRevision victim victimRevision preserveReaders =>
    answer (fun r => .queued (.upload r)) (Commits.transaction (fun j =>
      j.replaceNamespaceFile env source sourceRevision victim victimRevision preserveReaders))
  | .handoffNamespace id revision remote =>
    answer (fun _ => .done) (Commits.commit (fun j => j.handoffNamespace id revision remote))
  | .claimNext => answer (fun r => .claimed (r.map .upload)) (UploadJournal.claimNext env)
  | .claimVerification id =>
    answer (fun r => .claimed (some (.upload r)))
      (Commits.transaction (fun j => j.claimVerification env id))
  | .claimNextVerification =>
    answer (fun r => .claimed (r.map .upload)) (UploadJournal.claimNextVerification env)
  | .claimMutation => answer (fun r => .claimed (r.map .mutation)) (UploadJournal.claimMutation env)
  | .recordSession id attempt key transferred =>
    answer (fun _ => .done) (Commits.commit (fun j => j.recordSession id attempt key transferred))
  | .deferAttempt id attempt state delay =>
    answer (fun _ => .done) (Commits.commit (fun j => j.deferAttempt env id attempt state delay))
  | .acknowledge id attempt remote =>
    answer (fun _ => .done) (Commits.commit (fun j => j.acknowledge id attempt remote))
  | .retryVerifiedUncommitted id =>
    answer (fun _ => .done) (Commits.commit (fun j => j.retryVerifiedUncommitted env id))
  | .requestRetry id => answer (fun _ => .done) (Commits.commit (fun j => j.requestRetry id))
  | .releaseReplacementReaders id =>
    answer (fun _ => .done) (Commits.commit (fun j => j.releaseReplacementReaders id))
  | .recordPreparedMutation id attempt item =>
    answer (fun _ => .done) (Commits.commit (fun j => j.recordPreparedMutation id attempt item))
  | .acknowledgeMutation id attempt receipt proof =>
    answer .outcome (Commits.transaction (fun j => j.acknowledgeMutation id attempt receipt proof))
  | .deferMutation id attempt state delay =>
    answer (fun _ => .done) (Commits.commit (fun j => j.deferMutation env id attempt state delay))
  | .deferMutationPreparation id attempt delay =>
    answer (fun _ => .done) (Commits.commit (fun j => j.deferMutationPreparation env id attempt delay))
  | .retryUncommittedMutation id attempt =>
    answer (fun _ => .done) (Commits.commit (fun j => j.retryUncommittedMutation id attempt))
  | .requestMutationRetry id =>
    answer (fun _ => .done) (Commits.commit (fun j => j.requestMutationRetry id))
  | .releaseUnlinkedReaders id =>
    answer (fun _ => .done) (Commits.commit (fun j => j.releaseUnlinkedReaders id))
  | .discardStuckRemoval id =>
    answer (fun _ => .done) (Commits.commit (fun j => j.discardStuckRemoval id))
  | .keepBoth id parent name =>
    answer (fun r => .queued (.upload r)) (UploadJournal.keepBoth env id parent name)

end Exec

/-! ## The world -/

inductive Event where
  /-- A call runs to its end. -/
  | call (env : Env) (op : Op)
  /-- The process dies when a call has made this many commits. -/
  | die (env : Env) (op : Op) (commits : Nat)
  /-- A process opens the journal. -/
  | start (size : Uuid → Nat)
  /-- The process dies when it has made this many commits of the opening. -/
  | startDies (size : Uuid → Nat) (commits : Nat)

structure World where
  journal : UploadJournal
  running : Bool
  /-- The token handed out by the last claim of an operation since the journal was opened. -/
  current : Uuid → Option Uuid
  /-- Every token that was ever handed out, with its operation. -/
  issued : List (Uuid × Uuid)

/-- A new journal, opened. -/
def World.create (settings : Settings) : World where
  journal := .create settings
  running := true
  current := fun _ => none
  issued := []

/-- The operation a call hands out. -/
def handedOut (result : Except JournalError Reply) : Option Operation :=
  match result with
  | .ok (.claimed op) => op
  | _ => none

/-- A worker outside learns what a call answered. -/
def World.learn (w : World) (result : Except JournalError Reply) : World :=
  match handedOut result with
  | some op => { w with
      current := fun id => if id = op.id then op.attempt else w.current id
      issued := w.issued ++ op.attempt.toList.map (op.id, ·) }
  | none => w

def step (w : World) : Event → World
  | .call env op =>
    let outcome := exec env op w.journal
    { w with journal := outcome.final w.journal }.learn outcome.result
  | .die env op commits =>
    { w with
      journal := ((exec env op w.journal).states.take commits).getLastD w.journal
      running := false }
  | .start size =>
    let outcome := UploadJournal.reopen size w.journal
    { w with
      journal := outcome.final w.journal
      running := outcome.result.toBool
      current := fun _ => none }
  | .startDies size commits =>
    { w with
      journal := ((UploadJournal.reopen size w.journal).states.take commits).getLastD w.journal
      running := false
      current := fun _ => none }

/-! ## What the environment keeps to -/

/-- Item identities and ETags of a node. -/
def nodeTags (n : Node) : List String := n.id :: n.etag.toList

/-- Is this the local name of a folder that was created here? -/
def isLocalDirectory (item : String) : Bool := "local-directory-".toList.isPrefixOf item.toList

/-- The item identities and ETags a call brings from outside. A folder of a traversed path that was
    created here is named as it is here. -/
def Op.tags : Op → List String
  | .observeNamespaceFile _ node => nodeTags node
  | .captureNamespaceAncestors entries => entries.flatMap fun entry =>
    if isLocalDirectory entry.2.id then entry.2.etag.toList else nodeTags entry.2
  | .enqueue _ (.replace item etag) => [item, etag]
  | .enqueueMutation request => request.intent.before.toList.flatMap nodeTags
  | .publishWorking _ node _ _ => nodeTags node
  | .handoffNamespace _ _ remote => nodeTags remote
  | .acknowledge _ _ remote => nodeTags remote
  | .acknowledgeMutation _ _ (.upsert node) _ => nodeTags node
  | _ => []

/-- The folder a call puts something into. -/
def Op.parent : Op → Option String
  | .enqueue _ (.create parent _) => some parent
  | .enqueueMutation request => request.intent.destination
  | .enqueueMutationAfterAll _ _ request => request.intent.destination
  | .publishWorking _ node _ _ => node.parentId
  | .relocateWorking _ parent _ => some parent
  | .createNamespaceDirectory _ parent _ => some parent
  | .relocateNamespaceItem _ _ parent _ => some parent
  | .keepBoth _ parent _ => some parent
  | _ => none

/-- The path a call records. -/
def Op.captured : Op → List (Scope × Node)
  | .captureNamespaceAncestors entries => entries
  | _ => []

/-- An identity that occurs nowhere in the journal. -/
structure Unused (j : UploadJournal) (id : Uuid) : Prop where
  uploads : j.queue.uploads.get id = none
  mutations : j.queue.mutations.get id = none
  queue : j.queue.writeQueue.get id = none
  attempts : ∀ other op, j.queue.find other = some op → op.attempt ≠ some id
  folders : ∀ other op, j.queue.find other = some op → op.destination ≠ some (localDirectory id)
  resources : ∀ key, j.queue.writeResources.get (id, key) = none
  predecessors : j.queue.writeSuccessors.get id = none
  successors : ∀ other, j.queue.writeSuccessors.get other ≠ some id
  prerequisites : ∀ other, j.queue.writePrerequisites.get (id, other) = none
  awaited : ∀ other, j.queue.writePrerequisites.get (other, id) = none
  destinations : j.queue.writeDestinations.get id = none
  objects : j.names.objects.get id = none
  operations : j.names.operations.get id = none
  workingFiles : j.workingFiles.get id = none
  fileReplacements : j.fileReplacements.get id = none

/-- Fresh identities are distinct from each other and from every identity before, and only folders
    that were created here have local names. -/
structure Fresh (w : World) (env : Env) (op : Op) : Prop where
  injective : Function.Injective env.uuid
  unused : ∀ n, Unused w.journal (env.uuid n)
  unissued : ∀ n id, (id, env.uuid n) ∉ w.issued
  parent : ∀ n, op.parent ≠ some (localDirectory (env.uuid n))
  captured : ∀ scope node, (scope, node) ∈ op.captured → isLocalDirectory node.id = true →
    (w.journal.names.byLocal scope node.id).isSome = true

/-- Calls are made by a running process with fresh identities, and what they bring from outside
    satisfies `ok`. A journal is opened by one process at a time. -/
def Permitted (ok : String → Prop) (w : World) : Event → Prop
  | .call env op => w.running ∧ Fresh w env op ∧ ∀ tag ∈ op.tags, ok tag
  | .die env op _ => w.running ∧ Fresh w env op ∧ ∀ tag ∈ op.tags, ok tag
  | .start _ => !w.running
  | .startDies _ _ => !w.running

end Cirrove.Journal
