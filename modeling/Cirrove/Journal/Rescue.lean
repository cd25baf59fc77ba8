import Cirrove.Journal.Claims

/-!
# Keeping both versions

`cirrove-service/src/journal/rescue.rs`, `rescue/atomic.rs` and `rescue/chain.rs`. A save
that the provider refused, and every untouched save queued after it, is resolved: its
newest bytes enter the queue as a new file, and the cloud's version gets the old name
back. An editor's replacement among the saves also hands over its cleanup.
-/

namespace Cirrove.Journal

open Cirrove.Library

/-- `rescue::atomic::AtomicRescue` -/
structure AtomicRescue where
  record : ReplacementRecord
  victim : NamespaceObject
  cleanupObject : NamespaceObject
  cleanup : MutationRecord
  deriving DecidableEq, Repr

/-- `rescue::chain::Chain` -/
structure RescueChain where
  successors : List UploadRecord
  object : NamespaceObject
  atomics : List (AtomicRescue × NamespaceObject)
  deriving DecidableEq, Repr

/-- `rescue::RescueCommit` -/
structure RescueCommit where
  atomic : Option AtomicRescue
  chain : Option RescueChain
  original : UploadRecord
  successors : List UploadRecord
  object : Option NamespaceObject
  working : Option WorkingFile
  deriving DecidableEq, Repr

/-- `RescueCommit::latest` -/
def RescueCommit.latest (c : RescueCommit) : UploadRecord := c.successors.getLast?.getD c.original

/-- `RescueCommit::saves` -/
def RescueCommit.saves (c : RescueCommit) : List UploadRecord := c.original :: c.successors

/-- A save of the same file that nobody has tried to send. -/
def UploadRecord.untouchedAfter (next original previous : UploadRecord) : Bool :=
  next.state = .pending && previous.sequence < next.sequence && next.scope = original.scope &&
    next.intent = original.intent &&
    next.base.any (fun base => !base.resolved && base.predecessor = previous.id) &&
    next.attempt.isNone && next.remote.isNone && next.sessionKey.isNone &&
    next.transferredBytes = 0 && next.failedAttempts = 0

/-- Does an operation other than `cleanup` wait for this one? -/
def Queue.awaited (q : Queue) (id : Uuid) (cleanup : Option Uuid) : Bool :=
  q.writePrerequisites.rows.any (fun row => row.1.2 = id && cleanup.all (row.1.1 ≠ ·))

namespace UploadJournal

/-! ## Reading the chain of saves -/

/-- The loop of `rescue::successors`. -/
def rescueSuccessors (j : UploadJournal) (original : UploadRecord) (cleanup : Option Uuid) :
    Nat → UploadRecord → Except JournalError (List UploadRecord)
  | fuel, previous => do
    check (!j.queue.awaited previous.id cleanup) .stale
    match j.queue.writeSuccessors.get previous.id, fuel with
    | none, _ => return []
    | some _, 0 => .error .quota
    | some id, fuel + 1 =>
      let next ← j.queue.upload id
      check (next.untouchedAfter original previous && next.workingFile = original.workingFile) .stale
      let rest ← j.rescueSuccessors original cleanup fuel next
      return next :: rest

/-- The first loop of `rescue::chain::prepare`. -/
def chainSuccessors (j : UploadJournal) (original : UploadRecord) :
    Nat → UploadRecord → Except JournalError (List UploadRecord)
  | fuel, previous =>
    match j.queue.writeSuccessors.get previous.id, fuel with
    | none, _ => .ok []
    | some _, 0 => .error .quota
    | some id, fuel + 1 => do
      let next ← j.queue.upload id
      check (next.untouchedAfter original previous) .stale
      let rest ← j.chainSuccessors original fuel next
      return next :: rest

/-! ## Replacements by an editor -/

/-- `replacements::handoff_victim` -/
def handoffVictim (j : UploadJournal) (upload : UploadRecord) (source : NamespaceObject) :
    Except JournalError (Option NamespaceObject) :=
  match j.fileReplacements.get upload.id with
  | none => .ok none
  | some record => do
    let victim ← j.names.byId record.victim
    let some old := victim.remote | .error .stale
    let replacesOld := match upload.intent with
      | .replace item etag => item = old.id && old.etag = some etag
      | .create _ _ => false
    check (record.source = source.id && record.localReady && !record.remoteApplied &&
      victim.scope = upload.scope && source.scope = upload.scope && victim.unlinked &&
      victim.remoteOwned && old.kind = .file && !old.package && old.target.isNone &&
      source.remote.any (fun node => node.id ≠ old.id) && replacesOld) .stale
    return some victim

/-- The other replacements of the same file must be over. -/
def takeoversSettled (j : UploadJournal) (upload : Uuid) (object : Uuid) (allowed : List Uuid) :
    List ReplacementRecord → Except JournalError Unit
  | [] => .ok ()
  | record :: rest => do
    if (record.source = object || record.victim = object) && record.id ≠ upload &&
        !allowed.contains record.id then
      check (record.remoteApplied || record.rescuedAs.isSome) .stale
      let cleanup ← j.queue.mutation record.cleanup
      check (cleanup.state = .applied) .stale
    j.takeoversSettled upload object allowed rest

/-- The victim of a replacement in the middle of a chain. -/
def chainVictim (upload : UploadRecord) (record : ReplacementRecord) (object previous : NamespaceObject) :
    Except JournalError NamespaceObject := do
  check (record.source = object.id && record.victim = previous.id &&
    previous.scope = upload.scope && previous.unlinked && previous.remoteOwned &&
    !previous.node.package && previous.node.target.isNone && previous.node.kind = .file &&
    previous.remote.any (fun r => object.remote.any (fun n => n.id ≠ r.id))) .stale
  return previous

/-- The victim of a replacement; in the middle of a chain it is the object of the save before. -/
def takenVictim (j : UploadJournal) (upload : UploadRecord) (record : ReplacementRecord)
    (object : NamespaceObject) : Option NamespaceObject → Except JournalError NamespaceObject
  | some previous => chainVictim upload record object previous
  | none => do
    match ← j.handoffVictim upload object with
    | some victim => pure victim
    | none => .error .stale

/-- `rescue::atomic::prepare_bound` for an object. -/
def prepareBound (j : UploadJournal) (upload : UploadRecord) (object : NamespaceObject)
    (allowed : List Uuid) (predecessor : Option NamespaceObject) :
    Except JournalError (Option AtomicRescue) := do
  j.takeoversSettled upload.id object.id allowed (j.fileReplacements.select (fun _ r => some r))
  match j.fileReplacements.get upload.id with
  | none => return none
  | some record =>
    check (record.rescuedAs.isNone && record.localReady && !record.remoteApplied) .stale
    let victim ← j.takenVictim upload record object predecessor
    let cleanupObject ← j.names.byId record.cleanupObject
    let cleanup ← j.queue.mutation record.cleanup
    let some remote := object.remote | .error .stale
    let removesRemote := match cleanup.request.intent with
      | .removeFile before => before = remote
      | _ => false
    check (cleanup.state = .pending && cleanup.attempt.isNone && cleanup.receipt.isNone &&
      cleanup.preparedItem.isNone && cleanup.failedAttempts = 0 && cleanup.workingFile.isNone &&
      cleanup.localReady && baseBound cleanup.base && cleanup.request.scope = upload.scope &&
      removesRemote && cleanupObject.scope = upload.scope && cleanupObject.unlinked &&
      !cleanupObject.remoteOwned && cleanupObject.workingFile.isNone &&
      cleanupObject.latest = some cleanup.id) .stale
    check (j.queue.writePrerequisites.rows.all (fun row =>
      row.1.1 ≠ cleanup.id || row.1.2 = upload.id) &&
      (j.queue.writePrerequisites.get (cleanup.id, upload.id)).isSome) .stale
    check (!j.queue.awaited cleanup.id none &&
      (j.queue.writeSuccessors.get cleanup.id).isNone) .stale
    return some ⟨record, victim, cleanupObject, cleanup⟩

/-- One group of saves with the same bytes, of the loop of `rescue::chain::prepare`. -/
def prepareGroup (j : UploadJournal) (original : UploadRecord) (allowed : List Uuid)
    (objects : List NamespaceObject) (detached : Bool) (save latest : UploadRecord)
    (group : List UploadRecord) : Except JournalError (AtomicRescue × NamespaceObject) := do
  let some object := j.names.forOperation save.id | .error .stale
  let some id := object.workingFile | .error .stale
  let working ← j.workingFile id
  check (object.unlinked = detached && !object.followsRemote && object.remoteOwned &&
    object.scope = original.scope && object.latest = some latest.id &&
    object.node.kind = .file && !object.node.package && object.node.target.isNone &&
    working.unlinked = detached && working.latest = some latest.id &&
    working.node = object.node && working.scope = original.scope &&
    save.workingFile = some working.id && !objects.any (fun o => o.id = object.id)) .stale
  match ← j.prepareBound save object allowed objects.getLast? with
  | none => .error .stale
  | some atomic =>
    check (group.all (fun member =>
      ((j.names.forOperation member.id).map NamespaceObject.id) = some object.id &&
        !j.queue.awaited member.id (some atomic.cleanup.id))) .stale
    return (atomic, object)

/-- The loop of `rescue::chain::prepare` over the groups. -/
def prepareGroups (j : UploadJournal) (original : UploadRecord) (allowed : List Uuid) :
    List NamespaceObject → List (List UploadRecord) →
      Except JournalError (List (AtomicRescue × NamespaceObject))
  | _, [] => .ok []
  | objects, group :: rest => do
    match group.head?, group.getLast? with
    | some save, some latest =>
      let (atomic, object) ← j.prepareGroup original allowed objects (!rest.isEmpty) save latest group
      let later ← j.prepareGroups original allowed (objects ++ [object]) rest
      return (atomic, object) :: later
    | _, _ => .error .stale

/-- `rescue::chain::prepare` -/
def prepareChain (j : UploadJournal) (original : UploadRecord) :
    Except JournalError (Option RescueChain) := do
  let successors ← j.chainSuccessors original 9999 original
  let saves := original :: successors
  if successors.all (fun save => save.workingFile = original.workingFile) then return none
  let groups := saves.splitBy (fun a b => a.workingFile = b.workingFile)
  let atomics ← j.prepareGroups original (saves.map UploadRecord.id) [] groups
  match atomics.getLast? with
  | none => .error .stale
  | some (_, object) => return some ⟨successors, object, atomics⟩

/-! ## The plan -/

/-- The bytes and the name of the file that is rescued. -/
def rescueWorking (j : UploadJournal) (original latest : UploadRecord) (object : NamespaceObject)
    (parent name : String) : Except JournalError WorkingFile := do
  check (!object.unlinked && !object.followsRemote && object.remoteOwned &&
    object.latest = some latest.id && object.node.kind = .file && !object.node.package &&
    object.node.target.isNone) .stale
  let some id := object.workingFile | .error .stale
  let working ← j.workingFile id
  check (!working.unlinked && working.latest = some latest.id && working.node = object.node &&
    working.scope = original.scope && latest.workingFile = some working.id) .stale
  let parent := j.names.localParent original.scope parent
  let slot ← j.names.entrySlot j.settings.lowercase original.scope parent name
  let some oldParent := object.node.parentId | .error .intent
  let old ← j.names.entrySlot j.settings.lowercase original.scope oldParent object.node.name
  check (slot ≠ old) .intent
  check (!(j.names.entries.get slot).any (· ≠ object.id)) .stale
  return working

/-- `rescue::prepare_saved` -/
def prepareSaved (j : UploadJournal) (id : Uuid) (parent name : String) :
    Except JournalError RescueCommit := do
  let original ← j.queue.upload id
  check (original.state = .conflict || original.state = .failed) .stale
  check (UploadIntent.create parent name).validate .intent
  match ← j.prepareChain original with
  | some chain =>
    let latest := chain.successors.getLast?.getD original
    let working ← j.rescueWorking original latest chain.object parent name
    return ⟨none, some chain, original, chain.successors, some chain.object, some working⟩
  | none =>
    match j.names.forOperation id with
    | none =>
      let successors ← j.rescueSuccessors original none 10000 original
      check original.workingFile.isNone .corrupt
      return ⟨none, none, original, successors, none, none⟩
    | some object =>
      let atomic ← j.prepareBound original object [original.id] none
      let successors ← j.rescueSuccessors original (atomic.map (fun a => a.cleanup.id)) 10000 original
      let latest := successors.getLast?.getD original
      let working ← j.rescueWorking original latest object parent name
      check (successors.all (fun save =>
        ((j.names.forOperation save.id).map NamespaceObject.id) = some object.id)) .stale
      return ⟨atomic, none, original, successors, some object, some working⟩

/-! ## The transaction -/

/-- The old cleanup will never be sent; it is resolved. -/
def resolveCleanup (j : UploadJournal) (cleanup : MutationRecord) :
    Except JournalError UploadJournal :=
  match j.queue.mutations.get cleanup.id with
  | none => .error .stale
  | some row => do
    check (row.state = .pending) .stale
    let resolved : MutationRow :=
      { row with state := .resolved, body := { cleanup with state := .resolved } }
    let queue := { j.queue with mutations := j.queue.mutations.set cleanup.id resolved }
    let queue ← queue.queueComplete cleanup.id true
    return { j with
      queue := queue
      names := { j.names with operations := j.names.operations.erase cleanup.id } }

/-- `rescue::atomic::commit`: the victim's cloud identity becomes free, and a new cleanup of
    the source's old one waits for the copy. -/
def commitAtomic (saved : AtomicRescue) (source : NamespaceObject) (copy : UploadRecord)
    (fresh : Uuid) (j : UploadJournal) : Except JournalError (Node × UploadJournal) := do
  let victim ← j.names.byId saved.victim.id
  let cleanupObject ← j.names.byId saved.cleanupObject.id
  check (victim.revision = saved.victim.revision &&
    cleanupObject.revision = saved.cleanupObject.revision) .stale
  let some original := victim.remote | .error .stale
  let some temporary := source.remote | .error .stale
  let victimRevision ← increment victim.revision
  let j ← j.saveObject { victim with remoteOwned := false, revision := victimRevision }
  let j ← j.resolveCleanup saved.cleanup
  let cleanup := { saved.cleanup with
    id := fresh
    base := none
    retryAt := 0
    sequence := j.queue.nextSequence }
  let j ← j.enqueueChange cleanup [copy.id]
  let cleanupRevision ← increment cleanupObject.revision
  let j ← j.saveObject { cleanupObject with
    node := j.names.localizeParent copy.scope { temporary with id := cleanupObject.node.id }
    remote := some temporary
    remoteOwned := true
    remoteSequence := source.remoteSequence
    latest := some cleanup.id
    revision := cleanupRevision }
  return (original, { j with
    fileReplacements := j.fileReplacements.set saved.record.id
      { saved.record with cleanup := cleanup.id, rescuedAs := some copy.id } })

/-- `Chain::commit`: the newest replacement first. -/
def commitChain (copy : UploadRecord) (fresh : Nat → Uuid) :
    List (AtomicRescue × NamespaceObject) → UploadJournal →
      Except JournalError (Option Node × UploadJournal)
  | [], j => .ok (none, j)
  | (atomic, source) :: rest, j => do
    let (_, j) ← commitChain copy fresh rest j
    let (original, j) ← commitAtomic atomic source copy (fresh rest.length) j
    return (some original, j)

/-- The cloud's version of the rescued file gets an object of its own. -/
def aliasOf (j : UploadJournal) (id : Uuid) (object : NamespaceObject) (remote : Node) :
    NamespaceObject where
  id := id
  scope := object.scope
  names := object.names
  node := j.names.localizeParent object.scope { remote with id := localFile id }
  remote := some remote
  remoteOwned := true
  remoteSequence := 0
  workingFile := none
  latest := none
  revision := 0
  followsRemote := true
  unlinked := false

/-- The rescued file leaves its cloud identity and takes the copy as its own. -/
def moveRescued (saved : RescueCommit) (copy : UploadRecord) (parent name : String)
    (object : NamespaceObject) (working : WorkingFile) (j : UploadJournal) :
    Except JournalError (NamespaceObject × UploadJournal) := do
  let current ← j.names.byId object.id
  check (current.revision = object.revision && current.latest = some saved.latest.id) .stale
  let working := { working with
    node := { working.node with
      parentId := some (j.names.localParent copy.scope parent)
      name := name }
    intent := copy.intent
    initialRemote := none
    latest := some copy.id }
  let revision ← increment current.revision
  let object := { current with
    node := working.node
    remote := none
    remoteSequence := 0
    latest := some copy.id
    revision := revision }
  let slot ← j.names.workingSlot j.settings.lowercase working
  let j ← j.writeWorkingRow slot working .missing
  let operations := j.names.operations.deleteWhere (fun operation _ =>
    saved.saves.any (fun save => save.id = operation))
  let j ← { j with names := { j.names with operations := operations } }.saveObject object
  return (object, j)

/-- The replacements among the saves are taken over. The answer is the cloud's version that gets
    the old name back. -/
def commitReplacements (saved : RescueCommit) (copy : UploadRecord) (fresh : Nat → Uuid)
    (previous : NamespaceObject) (j : UploadJournal) :
    Except JournalError (Option Node × UploadJournal) :=
  match saved.chain, saved.atomic with
  | some chain, _ => do
    let (original, j) ← commitChain copy (fun n => fresh (n + 1)) chain.atomics j
    match original with
    | some original => pure (some original, j)
    | none => .error .stale
  | none, some atomic => do
    let (original, j) ← commitAtomic atomic previous copy (fresh 1) j
    pure (some original, j)
  | none, none => pure (previous.remote, j)

/-- The object's part of `rescue::commit`. -/
def commitObject (saved : RescueCommit) (copy : UploadRecord) (parent name : String)
    (fresh : Nat → Uuid) (previous : NamespaceObject) (working : WorkingFile) (j : UploadJournal) :
    Except JournalError UploadJournal := do
  let (object, j) ← moveRescued saved copy parent name previous working j
  let (restored, j) ← commitReplacements saved copy fresh previous j
  match restored with
  | none => return j
  | some remote =>
    j.names.room
    j.saveObject (j.aliasOf (fresh 0) object remote)

/-- A save of the chain is resolved. -/
def resolveSave (q : Queue) (save : UploadRecord) : Except JournalError Queue := do
  check (save.state = .conflict || save.state = .failed || save.state = .pending) .stale
  match q.uploads.get save.id with
  | none => .error .stale
  | some row =>
    check (row.state = save.state) .stale
    let resolved : UploadRow :=
      { row with state := .resolved, body := { save with state := .resolved } }
    let q := { q with uploads := q.uploads.set save.id resolved }
    q.queueComplete save.id true

/-- The last loop of `rescue::commit`. -/
def resolveSaves : List UploadRecord → Queue → Except JournalError Queue
  | [], q => .ok q
  | save :: rest, q => do
    let q ← resolveSave q save
    resolveSaves rest q

/-- The local names of a rescue. -/
def commitNames (saved : RescueCommit) (copy : UploadRecord) (parent name : String)
    (fresh : Nat → Uuid) (j : UploadJournal) : Except JournalError UploadJournal :=
  match saved.object, saved.working with
  | some previous, some working => commitObject saved copy parent name fresh previous working j
  | _, _ => .ok j

/-- `rescue::commit` -/
def commitRescue (saved : RescueCommit) (fresh : Nat → Uuid) : UploadCommit := fun j copy =>
  match copy.intent with
  | .replace _ _ => .error .intent
  | .create parent name => do
    let latest := saved.latest
    check (copy.scope = latest.scope && copy.sha256 = latest.sha256 && copy.size = latest.size)
      .corrupt
    let j ← commitNames saved copy parent name fresh j
    let queue ← resolveSaves saved.saves j.queue
    return { j with queue := queue }

/-- `rescue::prepare` -/
def prepareRescue (env : Env) (id : Uuid) (parent name : String) :
    Commits UploadJournal JournalError RescueCommit := do
  let _ ← resolveReadyGenerations
  let saved ← Commits.read (fun j : UploadJournal => j.prepareSaved id parent name)
  match saved.working.filter WorkingFile.dirty with
  | none => return saved
  | some working =>
    -- The newest bytes are sealed before the bytes of the copy are chosen.
    match ← Commits.transaction (fun j => j.sealWorking env (env.uuid 0) working.id) with
    | none => Commits.fail .stale
    | some _ => Commits.read (fun j : UploadJournal => j.prepareSaved id parent name)

/-- `UploadJournal::keep_both` -/
def keepBoth (env : Env) (id : Uuid) (parent name : String) :
    Commits UploadJournal JournalError UploadRecord := do
  let _ ← Commits.read (fun j : UploadJournal => j.queue.upload id)
  let saved ← prepareRescue env id parent name
  Commits.read (fun j : UploadJournal => j.payload env saved.latest.id)
  Commits.transaction (fun j => j.enqueueGeneration env (env.uuid 1) saved.original.scope
    (.create parent name) ⟨none, []⟩ (saved.working.map WorkingFile.id)
    (commitRescue saved (fun n => env.uuid (n + 2))))

end UploadJournal

end Cirrove.Journal
