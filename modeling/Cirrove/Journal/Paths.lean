import Cirrove.Journal.Working
import Cirrove.Journal.Ancestry

/-!
# Operations on paths

What the mounted file system does to names: adopting a file of the cloud, creating, moving
and removing files and folders, and an editor's atomic replacement of one file by another
(`namespace.rs`, `directories.rs`, `unlinked.rs`, `replacements.rs`, `preparation.rs` and
`handoff.rs`). Each commits the local change together with the operation it queues.
-/

namespace Cirrove.Journal

open Cirrove.Library

/-- `NamespaceObject::followed` -/
def NamespaceObject.followed (o : NamespaceObject) (remote : Node) :
    Except JournalError NamespaceObject := do
  check (!o.unlinked && o.remoteOwned && o.remote.any (fun r => r.id = remote.id) &&
    remote.kind = o.node.kind && remote.kind ≠ .shortcut && remote.target.isNone) .stale
  let some parent := remote.parentId | .error .intent
  check (MutationRequest.mk o.scope (.relocate remote parent remote.name)).validate .intent
  let revision ← increment o.revision
  return { o with
    node := { remote with id := o.node.id }
    remote := some remote
    workingFile := none
    latest := none
    followsRemote := true
    revision := revision }

namespace UploadJournal

/-- `UploadJournal::configure_namespace` -/
def configureNamespace (j : UploadJournal) (scope : Scope) (names : NamespaceNames) :
    Except JournalError UploadJournal := do
  check (scope.account = j.settings.account && scope.provider ≠ "" && scope.collection ≠ "")
    .account
  check ((j.names.scopes.get scope).all (· = names)) .stale
  if (j.names.scopes.get scope).isSome then return j
  return { j with names := { j.names with scopes := j.names.scopes.set scope names } }

/-- `namespace::save` inside a transaction of the whole journal. -/
def saveObject (j : UploadJournal) (o : NamespaceObject) : Except JournalError UploadJournal := do
  let names ← j.names.save j.settings.lowercase o
  return { j with names := names }

/-- The object of a cloud item, or a new one. -/
def adoptItem (j : UploadJournal) (env : Env) (scope : Scope) (node : Node) :
    Except JournalError (NamespaceObject × UploadJournal) :=
  match j.names.byRemote scope node.id with
  | some o => do
    check (!o.unlinked) .stale
    if !o.followsRemote then return (o, j)
    check (o.workingFile.isNone && o.latest.isNone && o.remote.any (fun r => r.id = node.id)) .stale
    let revision ← increment o.revision
    let o := { o with
      node := j.names.localizeParent scope { node with id := o.node.id }
      remote := some node
      followsRemote := false
      revision := revision }
    let j ← j.saveObject o
    return (o, j)
  | none => do
    j.names.room
    let names ← j.names.policy scope
    let o : NamespaceObject := {
      id := env.uuid 0
      scope := scope
      names := names
      node := j.names.localizeParent scope node
      remote := some node
      remoteOwned := true
      remoteSequence := 0
      workingFile := none
      latest := none
      revision := 0
      followsRemote := false
      unlinked := false }
    let j ← { j with names := j.names.ensureLegacyPolicy scope }.saveObject o
    return (o, j)

/-- `UploadJournal::observe_namespace_file` -/
def observeNamespaceFile (j : UploadJournal) (env : Env) (scope : Scope) (node : Node) :
    Except JournalError (NamespaceObject × UploadJournal) := do
  check (scope.account = j.settings.account) .account
  let intent ← match node.kind with
    | .file => pure (MutationIntent.removeFile node)
    | .folder => pure (MutationIntent.removeFolder node)
    | .shortcut => .error .intent
  check (MutationRequest.mk scope intent).validate .intent
  j.adoptItem env scope node

/-! ## The way to a local change -/

/-- `ancestry::valid_node` -/
def validAncestor (node : Node) : Bool :=
  validText node.id && validName node.name && node.parentId.any validText &&
    match node.kind, node.target with
    | .folder, none => true
    | .shortcut, some target => validText target.collection && validText target.item
    | _, _ => false

/-- The identity of a traversed node in the cloud: that of its object, or its own. -/
def remoteId (old : Option NamespaceObject) (node : Node) : Except JournalError String :=
  match old with
  | none => .ok node.id
  | some o =>
    match o.remote with
    | some remote => .ok remote.id
    | none => .error .corrupt

/-- The folder it is in there. -/
def remoteParent (n : Namespace) (scope : Scope) (node : Node) :
    Except JournalError (Option String) :=
  match node.parentId.bind (n.byLocal scope) with
  | none => .ok node.parentId
  | some folder =>
    match folder.remote with
    | some remote => .ok (some remote.id)
    | none => .error .stale

def remoteAncestor (n : Namespace) (scope : Scope) (old : Option NamespaceObject) (node : Node) :
    Except JournalError Node := do
  let id ← remoteId old node
  let parentId ← remoteParent n scope node
  return { node with id := id, parentId := parentId }

/-- A traversed node that has an object: it is moved to where it was found, unless a local change
    depends on it. -/
def captureAgain (j : UploadJournal) (retained : RetainedAncestors) (scope : Scope) (node : Node)
    (old : NamespaceObject) : Except JournalError UploadJournal := do
  check (!old.unlinked && old.node.kind = node.kind) .stale
  if !old.followsRemote || retained.contains old.id then return j
  let remote ← remoteAncestor j.names scope (some old) node
  if old.node = j.names.localizeParent scope node && old.remote = some remote then
    retained.checkSlot j.settings.lowercase old
    return j
  let revision ← increment old.revision
  let o := { old with
    node := j.names.localizeParent scope node
    remote := some remote
    revision := revision }
  retained.checkSlot j.settings.lowercase o
  j.saveObject o

/-- A traversed node that is seen for the first time. -/
def captureFirst (j : UploadJournal) (id : Uuid) (retained : RetainedAncestors) (scope : Scope)
    (node : Node) : Except JournalError UploadJournal := do
  let remote ← remoteAncestor j.names scope none node
  j.names.room
  let names ← j.names.policy scope
  let o : NamespaceObject := {
    id := id
    scope := scope
    names := names
    node := j.names.localizeParent scope node
    remote := some remote
    remoteOwned := true
    remoteSequence := 0
    workingFile := none
    latest := none
    revision := 0
    followsRemote := true
    unlinked := false }
  retained.checkSlot j.settings.lowercase o
  j.saveObject o

/-- One entry of `capture_namespace_ancestors`. The objects that are new have drawn `drawn`
    identities. -/
def captureAncestor (j : UploadJournal) (env : Env) (retained : RetainedAncestors) (drawn : Nat)
    (scope : Scope) (node : Node) : Except JournalError (Nat × UploadJournal) := do
  check (scope.account = j.settings.account) .account
  check (validText scope.provider && validText scope.collection && validAncestor node) .intent
  match j.names.byLocal scope node.id with
  | some old => do
    let j ← { j with names := j.names.ensureLegacyPolicy scope }.captureAgain retained scope node old
    return (drawn, j)
  | none => do
    let j ← { j with names := j.names.ensureLegacyPolicy scope }.captureFirst (env.uuid drawn)
      retained scope node
    return (drawn + 1, j)

/-- The loop of `capture_namespace_ancestors`. -/
def captureEach (env : Env) (retained : RetainedAncestors) :
    Nat → List (Scope × Node) → UploadJournal → Except JournalError UploadJournal
  | _, [], j => .ok j
  | drawn, (scope, node) :: rest, j => do
    let (drawn, j) ← j.captureAncestor env retained drawn scope node
    captureEach env retained drawn rest j

/-- `UploadJournal::capture_namespace_ancestors`: before a local change the path to it is recorded, by
    objects that follow the cloud. -/
def captureNamespaceAncestors (j : UploadJournal) (env : Env) (entries : List (Scope × Node)) :
    Except JournalError UploadJournal := do
  check (entries.length ≤ 128) .quota
  captureEach env (.new j.settings.lowercase j.names.allObjects) 0 entries j

/-! ## Folders -/

/-- `directories::commit_creation` -/
def commitCreation (o : NamespaceObject) : MutationCommit := fun j mutation =>
  match mutation.request.intent with
  | .createFolder parent name => do
    check (o.node.kind = .folder && o.remote.isNone && o.workingFile.isNone && o.latest.isNone &&
      o.node.parentId = some parent && o.node.name = name && o.scope = mutation.request.scope &&
      mutation.base.isNone) .stale
    { j with names := j.names.ensureLegacyPolicy o.scope }.saveObject
      { o with latest := some mutation.id }
  | _ => .error .intent

/-- `UploadJournal::create_namespace_directory` -/
def createNamespaceDirectory (j : UploadJournal) (env : Env) (scope : Scope)
    (parent name : String) : Except JournalError (MutationRecord × UploadJournal) := do
  check (scope.account = j.settings.account) .account
  let request : MutationRequest := ⟨scope, .createFolder parent name⟩
  check request.validate .intent
  j.names.room
  let names ← j.names.policy scope
  let id := env.uuid 0
  let o : NamespaceObject := {
    id := id
    scope := scope
    names := names
    node := {
      id := localDirectory id
      parentId := some parent
      name := name
      kind := .folder
      size := 0
      modifiedUnix := env.now
      etag := none
      contentVersion := none
      target := none
      package := false }
    remote := none
    remoteOwned := true
    remoteSequence := 0
    workingFile := none
    latest := none
    revision := 0
    followsRemote := false
    unlinked := false }
  j.enqueueMutationTransaction (env.uuid 1) request ⟨none, []⟩ none true (commitCreation o)

/-- Queue a change that has no destination folder. -/
def enqueueChange (j : UploadJournal) (mutation : MutationRecord) (prerequisites : List Uuid) :
    Except JournalError UploadJournal := do
  let keys ← mutationResources j.settings.lowercase mutation.request
  let queue ← j.queue.admitOperation j.names (.mutation mutation) keys none prerequisites
  return { j with queue := queue }

/-- What a removal is about: the local preview of something that is still being written, or
    the confirmed item. -/
def removalSource (o : NamespaceObject) : Except JournalError Node :=
  if o.latest.isSome then .ok o.node
  else
    match o.remote with
    | some remote => .ok remote
    | none => .error .stale

/-- `UploadJournal::remove_namespace_directory` -/
def removeNamespaceDirectory (j : UploadJournal) (env : Env) (id : Uuid) (revision : Nat) :
    Except JournalError (MutationRecord × UploadJournal) := do
  let o ← j.names.byId id
  check (o.scope.account = j.settings.account) .account
  check (!o.unlinked && !o.followsRemote && o.revision = revision) .stale
  check (o.node.kind = .folder && o.node.target.isNone && o.workingFile.isNone) .intent
  check (!j.names.allObjects.any (fun child => !child.unlinked && child.id ≠ o.id &&
    child.scope = o.scope && child.node.parentId = some o.node.id)) .intent
  let before ← removalSource o
  let request : MutationRequest := ⟨o.scope, .removeFolder before⟩
  let base ← j.followLatest o.latest request
  let mutation := MutationRecord.new (env.uuid 0) j.queue.nextSequence request base none true
  let next ← increment o.revision
  let j ← j.enqueueChange mutation []
  let j ← j.saveObject { o with unlinked := true, latest := some mutation.id, revision := next }
  return (mutation, j)

/-! ## Moving -/

/-- The walk of `relocate_namespace_item` from the destination to the top. -/
def walkAncestors (j : UploadJournal) (scope : Scope) (moved destination : String) :
    Nat → String → List String → Except JournalError (List String)
  | 0, _, visited => .ok visited
  | fuel + 1, ancestor, visited => do
    check (ancestor ≠ moved && !visited.contains ancestor) .intent
    let visited := ancestor :: visited
    match j.names.byLocal scope ancestor with
    | none =>
      check (ancestor ≠ destination) .intent
      return visited
    | some folder =>
      check (folder.node.kind = .folder && !folder.unlinked) .intent
      match folder.node.parentId with
      | none => .error .intent
      | some parent => j.walkAncestors scope moved destination fuel parent visited

/-- `namespace::commit_relocation` -/
def commitRelocation (o : NamespaceObject) : MutationCommit := fun j mutation => do
  let old ← j.names.byId o.id
  check (old.workingFile.isNone && old.latest = o.latest && old.scope = o.scope &&
    old.node.id = o.node.id && (increment old.revision).toOption = some o.revision &&
    mutation.base.map WriteBase.predecessor = old.latest &&
    mutation.request.scope = old.scope) .stale
  match mutation.request.intent with
  | .relocate before parent name =>
    check (old.remote = some before && o.node.parentId = some parent && o.node.name = name) .stale
    j.saveObject { o with latest := some mutation.id }
  | _ => .error .intent

/-- The relocation of an object without bytes of its own. -/
def relocateObject (j : UploadJournal) (env : Env) (o : NamespaceObject) (parent name : String) :
    Except JournalError (MutationRecord × UploadJournal) := do
  let some remote := o.remote | .error .corrupt
  let request : MutationRequest := ⟨o.scope, .relocate remote parent name⟩
  let base ← j.followLatest o.latest request
  let revision ← increment o.revision
  j.enqueueMutationTransaction (env.uuid 1) request ⟨base, []⟩ none true (commitRelocation
    { o with node := { o.node with parentId := some parent, name := name }, revision := revision })

/-- `UploadJournal::relocate_namespace_item` -/
def relocateNamespaceItem (env : Env) (id : Uuid) (revision : Nat) (parent name : String) :
    Commits UploadJournal JournalError MutationRecord := do
  let o ← Commits.read (fun j : UploadJournal => do
    let o ← j.names.byId id
    check (o.revision = revision && !o.followsRemote && !o.unlinked) .stale
    return o)
  match o.node.kind, o.workingFile with
  | .file, some working => relocateWorking env working parent name
  | .file, none => Commits.transaction (fun j => j.relocateObject env o parent name)
  | .folder, some _ => Commits.fail .intent
  | .folder, none => do
    Commits.read (fun j : UploadJournal =>
      if o.node.parentId = some parent then .ok ()
      else do
        let visited ← j.walkAncestors o.scope o.node.id parent 128 parent []
        check (visited.length ≠ 128) .quota)
    Commits.transaction (fun j => j.relocateObject env o parent name)
  | .shortcut, _ => Commits.fail .intent

/-! ## Removing a file -/

/-- The working file of an object, if its state is the object's. -/
def settledWorking (j : UploadJournal) (o : NamespaceObject) :
    Except JournalError (Option WorkingFile) :=
  match o.workingFile with
  | none => .ok none
  | some id => do
    let w ← j.workingFile id
    check (!w.dirty && !w.unlinked && w.latest = o.latest && w.node = o.node) .stale
    return some w

/-- `UploadJournal::unlink_namespace_file` -/
def unlinkNamespaceFile (j : UploadJournal) (env : Env) (id : Uuid) (revision : Nat)
    (preserveReaders : Bool) : Except JournalError (MutationRecord × UploadJournal) := do
  let o ← j.names.byId id
  check (o.scope.account = j.settings.account) .account
  check (!o.unlinked && !o.followsRemote && o.revision = revision) .stale
  check (o.node.kind = .file && o.node.target.isNone) .intent
  let working ← j.settledWorking o
  let before ← removalSource o
  let request : MutationRequest := ⟨o.scope, .removeFile before⟩
  let base ← j.followLatest o.latest request
  let mutation := MutationRecord.new (env.uuid 0) j.queue.nextSequence request base o.workingFile
    (!preserveReaders)
  let next ← increment o.revision
  let unlinked ← working.mapM (fun w => do
    let generation ← increment w.generation
    return { w with unlinked := true, latest := some mutation.id, generation := generation })
  let j ← j.enqueueChange mutation []
  let j ← match unlinked with
    | none => pure j
    | some w => j.writeWorkingRow none w .stale
  let j ← j.saveObject { o with unlinked := true, latest := some mutation.id, revision := next }
  return (mutation, j)

/-! ## Replacing a file -/

/-- `replacements::ReplacementCommit`; the fresh identities are those of the cleanup and of its
    object. -/
structure ReplacementPlan where
  source : NamespaceObject
  victim : NamespaceObject
  sourceWorking : Option WorkingFile
  victimWorking : Option WorkingFile
  cleanupRequest : MutationRequest
  cleanupBase : Option WriteBase
  preserveReaders : Bool
  cleanup : Uuid
  cleanupObject : Uuid

/-- `replacements::save_working` for a file whose place has changed. -/
def moveWorking (j : UploadJournal) (w : Option WorkingFile) (change : WorkingFile → WorkingFile) :
    Except JournalError UploadJournal :=
  match w with
  | none => .ok j
  | some w => do
    let generation ← increment w.generation
    let w := { change w with generation := generation }
    let slot ← j.names.workingSlot j.settings.lowercase w
    j.writeWorkingRow slot w .stale

/-- `replacements::commit` -/
def commitReplacement (plan : ReplacementPlan) : UploadCommit := fun j upload => do
  let source ← j.names.byId plan.source.id
  let victim ← j.names.byId plan.victim.id
  check (source.revision = plan.source.revision && victim.revision = plan.victim.revision &&
    source.latest = plan.source.latest && victim.latest = plan.victim.latest &&
    source.workingFile = plan.sourceWorking.map WorkingFile.id &&
    upload.size = plan.source.node.size &&
    upload.base.map WriteBase.predecessor = victim.latest) .stale
  let cleanup := MutationRecord.new plan.cleanup j.queue.nextSequence plan.cleanupRequest
    plan.cleanupBase none true
  let j ← j.enqueueChange cleanup [upload.id]
  -- Free both names before the destination is taken.
  let victimRevision ← increment victim.revision
  let victim := { victim with unlinked := true, revision := victimRevision }
  let j ← j.moveWorking plan.victimWorking (fun w => { w with unlinked := true })
  let j ← j.saveObject victim
  let sourceRevision ← increment source.revision
  let source := { source with
    node := { source.node with name := victim.node.name, parentId := victim.node.parentId }
    latest := some upload.id
    revision := sourceRevision }
  let j ← j.moveWorking plan.sourceWorking
    (fun w => { w with node := source.node, latest := some upload.id })
  let j ← j.saveObject source
  let j ← j.saveObject { plan.source with
    id := plan.cleanupObject
    node := { plan.source.node with id := localFile plan.cleanupObject }
    workingFile := none
    latest := some cleanup.id
    revision := 0
    unlinked := true
    remoteOwned := false }
  return { j with fileReplacements := j.fileReplacements.set upload.id {
    id := upload.id
    source := source.id
    victim := victim.id
    cleanup := cleanup.id
    cleanupObject := plan.cleanupObject
    localReady := !plan.preserveReaders
    remoteApplied := false
    rescuedAs := none } }

/-- `UploadJournal::enqueue_preparing_replacement` -/
def enqueuePreparingReplacement (j : UploadJournal) (env : Env) (id : Uuid) (scope : Scope)
    (intent : UploadIntent) (order : WriteOrder) (plan : ReplacementPlan) :
    Except JournalError (UploadRecord × UploadJournal) := do
  check (scope.account = j.settings.account && scope = plan.source.scope) .account
  check (plan.sourceWorking.isNone && plan.source.node.size < 2 ^ 63) .intent
  check intent.validate .intent
  match order.base with
  | some base => j.queue.ensureSuccessorFree base.predecessor
  | none => pure ()
  j.queue.validateBarriers scope order.prerequisites
  let record := { UploadRecord.new env id j.queue.nextSequence scope intent order.base none
    plan.source.node.size "" with state := .preparing }
  check (plan.source.latest.isSome || plan.source.remote.any (fun n => n.contentRevision.isSome))
    .intent
  let queue ← j.queue.admitOperation j.names (.upload record)
    (uploadResources j.settings.lowercase scope intent) none order.prerequisites
  let j ← commitReplacement plan { j with queue := queue } record
  return (record, j)

/-- What a replacement of the victim's content is sent against. -/
def replacementIntent (j : UploadJournal) (victim : NamespaceObject) :
    Except JournalError (UploadIntent × Option WriteBase) :=
  match victim.latest with
  | some predecessor => do
    let (_, intent) ← j.uploadIntentAfter predecessor
    return (intent, some ⟨predecessor, false⟩)
  | none =>
    match victim.remote with
    | none => .error .stale
    | some remote =>
      match remote.etag with
      | none => .error .intent
      | some etag => .ok (.replace remote.id etag, none)

/-- `UploadJournal::replace_namespace_file` -/
def replaceNamespaceFile (j : UploadJournal) (env : Env) (source : Uuid) (sourceRevision : Nat)
    (victim : Uuid) (victimRevision : Nat) (preserveReaders : Bool) :
    Except JournalError (UploadRecord × UploadJournal) := do
  let source ← j.names.byId source
  let victim ← j.names.byId victim
  check (source.scope = victim.scope && source.scope.account = j.settings.account) .account
  check (source.id ≠ victim.id && source.revision = sourceRevision &&
    victim.revision = victimRevision) .stale
  check ([source, victim].all (fun o => !o.unlinked && !o.followsRemote && o.remoteOwned)) .stale
  check ([source, victim].all (fun o => o.node.kind = .file && o.node.target.isNone)) .intent
  j.names.room
  let sourceWorking ← j.settledWorking source
  let victimWorking ← j.settledWorking victim
  let (intent, base) ← j.replacementIntent victim
  let before ← removalSource source
  let cleanupRequest : MutationRequest := ⟨source.scope, .removeFile before⟩
  let cleanupBase ← j.followLatest source.latest cleanupRequest
  let order : WriteOrder := ⟨base, source.latest.toList⟩
  let plan : ReplacementPlan := ⟨source, victim, sourceWorking, victimWorking, cleanupRequest,
    cleanupBase, preserveReaders, env.uuid 1, env.uuid 2⟩
  match sourceWorking with
  | some w =>
    j.enqueueGeneration env (env.uuid 0) source.scope intent order (some w.id)
      (commitReplacement plan)
  | none => j.enqueuePreparingReplacement env (env.uuid 0) source.scope intent order plan

/-! ## Handing a file back to the cloud -/

/-- Is an operation of the object not confirmed? -/
def pendingOperation (j : UploadJournal) (object : Uuid) : Bool :=
  j.names.operations.rows.any (fun row => row.2 = object &&
    match j.queue.find row.1 with
    | some (.upload r) => r.state ≠ .uploaded
    | some (.mutation r) => r.state ≠ .applied
    | none => true)

/-- Does the object show what its last operation confirmed? -/
def latestConfirmed (j : UploadJournal) (o : NamespaceObject) : Except JournalError Bool :=
  match o.latest with
  | none => .ok true
  | some latest => do
    match ← j.queue.operation latest with
    | .upload r =>
      return r.state = .uploaded && r.remote = o.remote && r.sequence = o.remoteSequence
    | .mutation r =>
      let node := match r.receipt with
        | some (.upsert node) => some node
        | _ => none
      return r.state = .applied && node = o.remote && r.sequence = o.remoteSequence

/-- `UploadJournal::namespace_is_clean` -/
def namespaceIsClean (j : UploadJournal) (o : NamespaceObject) : Except JournalError Bool := do
  if o.scope.account ≠ j.settings.account || o.followsRemote || o.unlinked || o.remote.isNone then
    return false
  let settled ← match o.workingFile with
    | none => pure true
    | some id => do
      let w ← j.workingFile id
      pure (!w.dirty && w.latest = o.latest && w.node = o.node)
  if !settled || j.pendingOperation o.id then return false
  j.latestConfirmed o

/-- `UploadJournal::handoff_namespace` -/
def handoffNamespace (j : UploadJournal) (id : Uuid) (revision : Nat) (remote : Node) :
    Except JournalError UploadJournal := do
  let o ← j.names.byId id
  let clean ← j.namespaceIsClean o
  check (o.revision = revision && clean) .stale
  let followed ← o.followed remote
  let followed := { followed with node := j.names.localizeParent o.scope followed.node }
  let j ← match o.workingFile with
    | none => pure j
    | some working => do
      check (j.workingFiles.get working).isSome .stale
      pure { j with workingFiles := j.workingFiles.erase working }
  j.saveObject followed

end UploadJournal

end Cirrove.Journal
