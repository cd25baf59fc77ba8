import Cirrove.Journal.Queue
import Cirrove.Library.Commits

/-!
# Working files

`cirrove-service/src/journal/working.rs`: mutable bytes of a local file, their sealing into
an upload and their relocation. The bytes themselves are outside the database; a call gets
their number from its environment.
-/

namespace Cirrove.Journal

open Cirrove.Library

/-- `format!("local-{id}")` -/
def localFile (id : Uuid) : String := "local-" ++ toString id.value

/-- `format!("local-directory-{id}")` -/
def localDirectory (id : Uuid) : String := "local-directory-" ++ toString id.value

/-- `WorkingFile::mutation_source` -/
def WorkingFile.mutationSource (w : WorkingFile) : Node :=
  if w.latest.isSome then w.node
  else w.initialRemote.getD { w.node with contentVersion := none }

namespace Namespace

/-- `working::slot` -/
def workingSlot (n : Namespace) (lowercase : String → String) (w : WorkingFile) :
    Except JournalError (Option Slot) :=
  if w.unlinked then .ok none
  else
    match w.node.parentId with
    | none => .error .intent
    | some parent => do
      let slot ← n.entrySlot lowercase w.scope parent w.node.name
      return some slot

/-- `namespace::update_working` -/
def updateWorking (n : Namespace) (lowercase : String → String) (w : WorkingFile) :
    Except JournalError Namespace :=
  match n.allObjects.find? (fun o => o.workingFile = some w.id) with
  | none => .error .storage
  | some o => do
    check (o.scope = w.scope && o.node.id = w.node.id && o.unlinked = w.unlinked) .stale
    let revision ← increment o.revision
    n.save lowercase { o with node := w.node, latest := w.latest, revision := revision }

/-- The object of a stream that starts to follow its own edits again. -/
def resumed (n : Namespace) (o : NamespaceObject) (w : WorkingFile) :
    Except JournalError NamespaceObject :=
  if !o.followsRemote then .ok o
  else
    match w.initialRemote with
    | none => .error .stale
    | some source => do
      check (o.latest.isNone && o.remote.any (fun r => r.id = source.id) &&
        source.kind = o.node.kind && source.target.isNone) .stale
      return { o with
        remote := some source
        node := n.localizeParent o.scope
          { o.node with name := source.name, parentId := source.parentId }
        followsRemote := false }

/-- `namespace::prepare_attachment` -/
def prepareAttachment (n : Namespace) (w : WorkingFile) :
    Except JournalError (WorkingFile × NamespaceObject) :=
  let existing := match w.initialRemote with
    | some remote => n.byRemote w.scope remote.id
    | none => n.byLocal w.scope w.node.id
  match existing with
  | some o => do
    check (o.unlinked = w.unlinked && o.workingFile.isNone) .stale
    let o ← n.resumed o w
    let sameContent := match o.remote, w.initialRemote with
      | some current, some source => current.size = source.size &&
          current.contentRevision = source.contentRevision
      | _, _ => false
    check (o.node.kind = w.node.kind && sameContent) .stale
    return ({ w with
      node := { w.node with id := o.node.id, name := o.node.name, parentId := o.node.parentId }
      latest := o.latest
      initialRemote := o.remote }, o)
  | none => do
    let w := if w.initialRemote.isSome then
        { w with node := n.localizeParent w.scope w.node }
      else w
    n.room
    let names ← n.policy w.scope
    return (w, {
      id := w.id
      scope := w.scope
      names := names
      node := w.node
      remote := w.initialRemote
      remoteOwned := true
      remoteSequence := 0
      workingFile := none
      latest := w.latest
      revision := 0
      followsRemote := false
      unlinked := false })

/-- `namespace::attach_working` -/
def attachWorking (n : Namespace) (lowercase : String → String) (w : WorkingFile) :
    Except JournalError (WorkingFile × Namespace) := do
  let n := n.ensureLegacyPolicy w.scope
  let (w, o) ← n.prepareAttachment w
  let revision ← increment o.revision
  let n ← n.save lowercase { o with
    node := w.node
    workingFile := some w.id
    revision := revision }
  return (w, n)

end Namespace

namespace UploadJournal

/-- `UploadJournal::working_file` -/
def workingFile (j : UploadJournal) (id : Uuid) : Except JournalError WorkingFile :=
  match j.workingFiles.get id with
  | some row => .ok row.body
  | none => .error .missing

/-- Is a slot taken by another working file? -/
def slotTaken (j : UploadJournal) (slot : Option Slot) (id : Uuid) : Bool :=
  slot.isSome && j.workingFiles.rows.any (fun row => row.1 ≠ id && row.2.slot = slot)

/-- `UPDATE working_files SET slot=?2,body=?3`: the slot column is unique. -/
def writeWorkingRow (j : UploadJournal) (slot : Option Slot) (w : WorkingFile)
    (absent : JournalError) : Except JournalError UploadJournal :=
  match j.workingFiles.get w.id with
  | none => .error absent
  | some row => do
    check (!j.slotTaken slot w.id) .storage
    return { j with workingFiles := j.workingFiles.set w.id ⟨row.identity, slot, w⟩ }

/-- `UploadJournal::save_working` -/
def saveWorking (j : UploadJournal) (w : WorkingFile) : Except JournalError UploadJournal := do
  let slot ← j.names.workingSlot j.settings.lowercase w
  let j ← j.writeWorkingRow slot w .missing
  let names ← j.names.updateWorking j.settings.lowercase w
  return { j with names := names }

/-- The record `publish_working_content` starts from. -/
def newWorking (j : UploadJournal) (env : Env) (id : Uuid) (scope : Scope) (node : Node)
    (intent : UploadIntent) (new truncate : Bool) (size : Nat) : WorkingFile where
  id := id
  scope := scope
  node := { node with
    id := if new then localFile id else node.id
    size := size
    modifiedUnix := if new || truncate then env.now else node.modifiedUnix
    contentVersion := some ("working-" ++ toString id.value) }
  intent := intent
  latest := none
  dirty := new || truncate
  generation := 0
  initialRemote := if new then none else some node
  unlinked := !new && (j.names.byRemote scope node.id).any NamespaceObject.unlinked

/-- `UploadJournal::publish_working_content` -/
def publishWorking (j : UploadJournal) (env : Env) (scope : Scope) (node : Node)
    (new truncate : Bool) : Except JournalError (WorkingFile × UploadJournal) := do
  let id := env.uuid 0
  let (size, _) ← env.snapshot id
  check (size = if truncate then 0 else node.size) .corrupt
  check (scope.account = j.settings.account) .account
  check (scope.provider ≠ "" && scope.collection ≠ "" && node.kind = .file &&
    node.target.isNone && !(new && node.size ≠ 0)) .intent
  let some parent := node.parentId | .error .intent
  let intent ← if new then pure (UploadIntent.create parent node.name)
    else match node.etag with
      | some etag => pure (UploadIntent.replace node.id etag)
      | none => .error .intent
  check (intent.validate && (UploadIntent.create parent node.name).validate) .intent
  let w := j.newWorking env id scope node intent new truncate size
  let (w, _) ← j.names.prepareAttachment w
  let slot ← j.names.workingSlot j.settings.lowercase w
  check (!j.workingFiles.rows.any (fun row => row.2.identity = (scope, w.node.id)) &&
    !j.slotTaken slot id) .stale
  let (w, names) ← j.names.attachWorking j.settings.lowercase w
  let slot ← names.workingSlot j.settings.lowercase w
  return (w, { j with
    names := names
    workingFiles := j.workingFiles.set id ⟨(scope, w.node.id), slot, w⟩ })

/-- `prepare_working_change`: the mark that bytes are about to change is committed first. -/
def markDirty (j : UploadJournal) (id : Uuid) : Except JournalError (WorkingFile × UploadJournal) := do
  let w ← j.workingFile id
  let generation ← increment w.generation
  let w := { w with dirty := true, generation := generation }
  let j ← j.saveWorking w
  return (w, j)

/-- `UploadJournal::write_working` and `truncate_working`; `written` is the length of the file
    after its bytes were changed. -/
def writeWorking (env : Env) (id : Uuid) (written : Except JournalError Nat) :
    Commits UploadJournal JournalError WorkingFile := do
  let w ← Commits.transaction (fun j => j.markDirty id)
  let size ← Commits.read (fun _ => written)
  let w := { w with node := { w.node with size := size, modifiedUnix := env.now } }
  Commits.commit (fun j => j.saveWorking w)
  return w

/-- `working::commit_generation` -/
def commitGeneration (id : Uuid) (generation : Nat) (previous : Option Uuid) : UploadCommit :=
  fun j upload =>
    match j.workingFiles.get id with
    | none => .error .storage
    | some row => do
      let w := row.body
      check (w.dirty && w.generation = generation && w.latest = previous &&
        w.scope = upload.scope) .stale
      let w := { w with
        latest := some upload.id
        dirty := false
        node := { w.node with size := upload.size } }
      let j := { j with workingFiles := j.workingFiles.set id { row with body := w } }
      let names ← j.names.updateWorking j.settings.lowercase w
      return { j with names := names }

/-- `UploadJournal::seal_working` -/
def sealWorking (j : UploadJournal) (env : Env) (upload id : Uuid) :
    Except JournalError (Option UploadRecord × UploadJournal) := do
  let w ← j.workingFile id
  if !w.dirty || w.unlinked then return (none, j)
  let (intent, base) ← match w.latest with
    | some previous => do
      let (_, intent) ← j.uploadIntentAfter previous
      pure (intent, some (WriteBase.mk previous false))
    | none => pure (w.intent, none)
  let (record, j) ← j.enqueueGeneration env upload w.scope intent ⟨base, []⟩ (some id)
    (commitGeneration id w.generation w.latest)
  return (some record, j)

/-- `working::commit_relocation` -/
def commitRelocationOf (w : WorkingFile) : MutationCommit := fun j mutation =>
  match j.workingFiles.get w.id with
  | none => .error .storage
  | some row => do
    let old := row.body
    check (!old.dirty && old.latest = w.latest && old.scope = w.scope &&
      old.node.id = w.node.id && (increment old.generation).toOption = some w.generation &&
      mutation.base.map WriteBase.predecessor = old.latest && mutation.request.scope = old.scope &&
      mutation.workingFile = some old.id) .stale
    match mutation.request.intent with
    | .relocate before parent name =>
      check (before = old.mutationSource && w.node.parentId = some parent &&
        w.node.name = name) .stale
      let w := { w with latest := some mutation.id }
      let slot ← j.names.workingSlot j.settings.lowercase w
      check (!j.slotTaken slot w.id) .stale
      let j ← j.writeWorkingRow slot w .storage
      let names ← j.names.updateWorking j.settings.lowercase w
      return { j with names := names }
    | _ => .error .intent

/-- The second transaction of `relocate_working`. -/
def relocateSealed (j : UploadJournal) (env : Env) (id : Uuid) (parent name : String) :
    Except JournalError (MutationRecord × UploadJournal) := do
  let w ← j.workingFile id
  let request : MutationRequest := ⟨w.scope, .relocate w.mutationSource parent name⟩
  let base ← j.followLatest w.latest request
  let generation ← increment w.generation
  let moved := { w with
    node := { w.node with parentId := some parent, name := name }
    generation := generation }
  j.enqueueMutationTransaction (env.uuid 1) request ⟨base, []⟩ (some id) true
    (commitRelocationOf moved)

/-- `UploadJournal::relocate_working` -/
def relocateWorking (env : Env) (id : Uuid) (parent name : String) :
    Commits UploadJournal JournalError MutationRecord := do
  let w ← Commits.read (fun j : UploadJournal => do
    check (UploadIntent.create parent name).validate .intent
    let w ← j.workingFile id
    check (!w.unlinked && w.node.id ≠ parent) .intent
    return w)
  if w.dirty then
    let _ ← Commits.transaction (fun j => j.sealWorking env (env.uuid 0) id)
  Commits.transaction (fun j => j.relocateSealed env id parent name)

end UploadJournal

end Cirrove.Journal
