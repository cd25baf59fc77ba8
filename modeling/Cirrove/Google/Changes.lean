import Cirrove.Google.Uploads
import Cirrove.Mutation.Worker

/-!
# Google changes

The changes of the namespace of `cirrove-googledrive/src/upload.rs`. A folder is created under an
identity that was reserved before. An item is moved, renamed or put into the bin under the version
the change was recorded with: the item is read, its version compared, and the request sent under the
ETag of what was read, in the older interface where the version is a number and in the newer one
where it is an ETag itself.
-/

namespace Cirrove.Google

open Cirrove.Library
open Cirrove.Upload
open Cirrove.Mutation (MutationError MutationReconciliation MutationProvider)
open Cirrove.Journal (MutationIntent MutationRequest MutationReceipt Uuid)

/-- `PreparedFolder` -/
structure PreparedFolder where
  id : String
  parent : String
  name : String
  deriving DecidableEq, Repr

/-- The drive whose namespace is changed. -/
structure GoogleValidationMutations extends GoogleWriter where
  /-- `str::to_lowercase` -/
  lowercase : String → String
  /-- For how many pages of a folder a call has time. -/
  pages : Nat

/-- `mutation_error` -/
def mutationError : UploadError → MutationError
  | .provider e => .provider e
  | .conflict => .conflict
  | .quota => .quota
  | .locked => .locked
  | .invalid | .checkpointInvalid => .invalid
  | .unsupported what => .unsupported what
  | _ => .uncertain

/-- `mounted_name_matches` -/
def mountedNameMatches (current acknowledged : Node) : Bool :=
  current.name = acknowledged.name ||
    projectedName current.name current.id false = acknowledged.name

/-- Is this what was recorded when the change was made? -/
def unchanged (current before : Node) : Bool :=
  current.etag = before.etag && mountedNameMatches current before &&
    current.parentId = before.parentId && current.kind = before.kind

/-- A name that a folder may have, or that an item may get. -/
def nameable (name : String) : Bool :=
  name ≠ "" && name.utf8ByteSize ≤ 4096 && name ≠ "." && name ≠ ".." &&
    !name.toList.any (fun c => c = '/' || c = '\x00')

namespace GoogleWriter

variable (g : GoogleWriter)

/-! ## Folders -/

/-- `GoogleDrive::check_folder_destination` -/
def checkFolderDestination (scope : Scope) (parent name : String) : Except UploadError Unit := do
  (g.checkScope scope).mapError .provider
  (validId parent).mapError .provider
  if !nameable name then .error .invalid

/-- `GoogleDrive::check_folder_plan` -/
def checkFolderPlan (scope : Scope) (plan : PreparedFolder) : Except UploadError Unit := do
  g.checkFolderDestination scope plan.parent plan.name
  (validId plan.id).mapError .provider

/-- `GoogleDrive::folder_receipt` -/
def folderReceipt (plan : PreparedFolder) (file : File) (etag : Option String) :
    Except UploadError Node :=
  if file.id ≠ plan.id ∨ file.name ≠ plan.name ∨ file.parents ≠ [plan.parent] ∨
      file.mimeType ≠ folderMime ∨ file.trashed ∨ !g.acceptsFile file then .error .uncertain
  else do
    let precondition := etag.or (file.version.map versionPrecondition)
    let node ← (file.node g.rfc3339 g.collection).mapError fun _ => .uncertain
    let node := { node with name := plan.name, etag := precondition }
    if node.kind ≠ .folder then .error .uncertain else .ok node

/-- `GoogleDrive::prepare_folder` -/
def prepareFolder (scope : Scope) (parent name : String) :
    Dialogue Ask (fun r => Option (Answer r)) (Except UploadError PreparedFolder) :=
  match g.checkFolderDestination scope parent name with
  | .error e => pure (.error e)
  | .ok () => uploadCall do
    let plan : PreparedFolder := ⟨← generatedId, parent, name⟩
    Exchange.ofExcept (g.checkFolderPlan scope plan)
    return plan

/-- `GoogleDrive::create_prepared_folder` -/
def createPreparedFolder (scope : Scope) (plan : PreparedFolder) :
    Dialogue Ask (fun r => Option (Answer r)) (Except UploadError Node) :=
  match g.checkFolderPlan scope plan with
  | .error e => pure (.error e)
  | .ok () => uploadCall do
    let response ← sendAuthorized (.createFolder plan.id plan.parent plan.name)
    let file ← Exchange.ofExcept (response.read response.file)
    let node ← Exchange.ofExcept (g.folderReceipt plan file (strongEtag response.etag))
    g.settleWrittenNode scope node

/-- `GoogleDrive::inspect_prepared_folder` -/
def inspectPreparedFolder (scope : Scope) (plan : PreparedFolder) :
    Dialogue Ask (fun r => Option (Answer r)) (Except UploadError (Option Node)) :=
  match g.checkFolderPlan scope plan with
  | .error e => pure (.error e)
  | .ok () => uploadCall do
    match ← Exchange.attempt (readTaggedFile plan.id) with
    | .ok (file, etag) => return some (← Exchange.ofExcept (g.folderReceipt plan file etag))
    | .error (.provider .notFound) => return none
    | .error e => throw e

/-! ## Items -/

/-- A file or a folder, and one that has contents to name when it is a file. -/
def changeable (node : Node) : Bool :=
  node.target.isNone && (node.kind = .file || node.kind = .folder) &&
    !(node.kind = .file && node.contentRevision.isNone)

/-- `GoogleDrive::validation_mutation_node` -/
def validationMutationNode (file : File) (etag : Option String) : Except UploadError Node :=
  if (file.mimeType ≠ "application/octet-stream" ∧ file.mimeType ≠ folderMime) ∨
      file.parents.length ≠ 1 ∨ file.trashed ∨ !g.acceptsFile file then .error .uncertain
  else do
    let node ← (file.node g.rfc3339 g.collection).mapError fun _ => .uncertain
    match etag with
    | none => .error (protocol "missing strong Google ETag")
    | some etag =>
      let node := { node with name := file.name, etag := some etag }
      if changeable node then .ok node else .error .uncertain

/-- `GoogleDrive::v2_mutation_node` -/
def v2MutationNode (file : V2File) : Exchange Node := do
  Exchange.refuseIf (file.trashed ∨ file.parents.length ≠ 1 ∨
    file.mimeType.all (fun mime => mime ≠ folderMime && googleType mime)) .uncertain
  let current ← g.fileForV2 file 5
  Exchange.refuseIf (current.mimeType ≠ file.mimeType.getD "") .uncertain
  let node ← Exchange.ofExcept
    ((current.node g.rfc3339 g.collection).mapError fun _ => .uncertain)
  let node := { node with name := current.name, etag := some (versionPrecondition file.version) }
  Exchange.refuseIf (!changeable node) .uncertain
  return node

/-- `GoogleDrive::list_files` of a folder. -/
def readPage (parent : String) (token : Option String) : Exchange FileList := do
  Exchange.ofProvider (validId parent)
  Exchange.ofProvider (token.toList.forM validToken)
  let page ← Exchange.ofProvider (← Exchange.ask (.list parent token))
  Exchange.refuseIf page.incompleteSearch (protocol "Google directory search incomplete")
  Exchange.ofProvider (page.nextPageToken.toList.forM validToken)
  Exchange.refuseIf (page.nextPageToken.isSome ∧ page.nextPageToken = token)
    (protocol "repeated Google page token")
  return page

/-- No item of a folder is like this, on so many pages that are left. -/
def noneIn (parent : String) (p : File → Bool) : Nat → Option String → Exchange Unit
  -- the time of the call is over
  | 0, _ => throw .uncertain
  | pages + 1, token => do
    let page ← readPage parent token
    Exchange.refuseIf (page.files.any p) .conflict
    match page.nextPageToken with
    | none => return ()
    | some next => noneIn parent p pages (some next)

end GoogleWriter

namespace GoogleValidationMutations

variable (g : GoogleValidationMutations)

/-- `GoogleDrive::validation_destination_free` -/
def validationDestinationFree (parent name item : String) : Exchange Unit :=
  GoogleWriter.noneIn parent
    (fun file => file.id ≠ item && !file.trashed && g.lowercase file.name = g.lowercase name)
    g.pages none

/-- The part of a removal that makes sure that a folder is empty. -/
def checkEmpty (request : MutationRequest) (before : Node) : Exchange Unit :=
  match request.intent with
  | .removeFolder _ => GoogleWriter.noneIn before.id (fun _ => true) g.pages none
  | _ => return ()

/-- From where to where an item is moved. -/
def moved (current : Node) (parent : String) : Except UploadError (Option (String × String)) :=
  if current.parentId = some parent then .ok none
  else
    match current.parentId with
    | some old => .ok (some (parent, old))
    | none => .error .invalid

/-- The receipt of a change, if it is one. -/
def accepted (request : MutationRequest) (receipt : MutationReceipt) : Exchange MutationReceipt :=
  if request.accepts receipt then return receipt else throw .uncertain

/-- `GoogleDrive::v2_relocate` -/
def v2Relocate (request : MutationRequest) (before : Node) (parent name : String) :
    Dialogue Ask (fun r => Option (Answer r)) (Except UploadError MutationReceipt) :=
  GoogleWriter.uploadCall do
    let currentFile ← g.readV2File before.id
    let current ← g.v2MutationNode currentFile
    Exchange.refuseIf (!unchanged current before) .conflict
    g.validationDestinationFree parent name before.id
    let target ← Exchange.ofExcept (moved current parent)
    let etag ← Exchange.ofExcept (GoogleWriter.v2Etag currentFile)
    let response ← GoogleWriter.sendAuthorized (.relocateV2 before.id name target etag)
    let file ← Exchange.ofExcept (response.read response.v2File)
    let node ← g.v2MutationNode file
    accepted request (.upsert node)

/-- `GoogleDrive::v2_remove` -/
def v2Remove (request : MutationRequest) (before : Node) :
    Dialogue Ask (fun r => Option (Answer r)) (Except UploadError MutationReceipt) :=
  GoogleWriter.uploadCall do
    let currentFile ← g.readV2File before.id
    let current ← g.v2MutationNode currentFile
    Exchange.refuseIf (!unchanged current before) .conflict
    g.checkEmpty request before
    let etag ← Exchange.ofExcept (GoogleWriter.v2Etag currentFile)
    let response ← GoogleWriter.sendAuthorized (.trashV2 before.id etag)
    let file ← Exchange.ofExcept (response.read response.v2File)
    Exchange.refuseIf (file.id ≠ before.id ∨ !file.trashed) .uncertain
    return .removed before.id

/-- `GoogleDrive::validation_relocate` -/
def validationRelocate (request : MutationRequest) (before : Node) (etag parent name : String) :
    Dialogue Ask (fun r => Option (Answer r)) (Except UploadError MutationReceipt) :=
  GoogleWriter.uploadCall do
    let (file, tag) ← GoogleWriter.readTaggedFile before.id
    let current ← Exchange.ofExcept (g.validationMutationNode file tag)
    Exchange.refuseIf (!unchanged current before) .conflict
    g.validationDestinationFree parent name before.id
    let target ← Exchange.ofExcept (moved current parent)
    let response ← GoogleWriter.sendAuthorized (.relocate before.id name target etag)
    let file ← Exchange.ofExcept (response.read response.file)
    let node ← Exchange.ofExcept (g.validationMutationNode file (strongEtag response.etag))
    accepted request (.upsert node)

/-- The type a removed item has in the drive. -/
def removedMime (before : Node) : String :=
  if before.kind = .file then "application/octet-stream" else folderMime

/-- `GoogleDrive::validation_remove` -/
def validationRemove (request : MutationRequest) (before : Node) (etag : String) :
    Dialogue Ask (fun r => Option (Answer r)) (Except UploadError MutationReceipt) :=
  GoogleWriter.uploadCall do
    let (file, tag) ← GoogleWriter.readTaggedFile before.id
    let current ← Exchange.ofExcept (g.validationMutationNode file tag)
    Exchange.refuseIf (!unchanged current before) .conflict
    g.checkEmpty request before
    let response ← GoogleWriter.sendAuthorized (.trash before.id etag)
    let file ← Exchange.ofExcept (response.read response.file)
    Exchange.refuseIf (file.id ≠ before.id ∨ !file.trashed ∨ file.mimeType ≠ removedMime before ∨
      !g.acceptsFile file) .uncertain
    return .removed before.id

/-! ## The provider -/

/-- What every call looks at first. -/
def checkMutation (request : MutationRequest) : Except MutationError Unit :=
  if !request.validate then .error .invalid
  else
    match request.intent with
    | .trashNativeDocument _ => .error (.unsupported "native document Trash")
    | _ => (g.checkScope request.scope).mapError .provider

/-- `MutationProvider::prepare_mutation` -/
def prepareMutation (request : MutationRequest) :
    Dialogue Ask (fun r => Option (Answer r)) (Except MutationError (Option String)) :=
  match g.checkMutation request with
  | .error e => pure (.error e)
  | .ok () =>
    match request.intent with
    | .createFolder parent name => do
      let plan ← g.prepareFolder request.scope parent name
      return (plan.map fun plan => some plan.id).mapError mutationError
    | _ => pure (.ok none)

/-- What is looked at before an item is changed: its ETag as the change was recorded with it. -/
def checkBefore (before : Node) : Except MutationError String :=
  if (validId before.id).toBool = false then .error .invalid
  else if before.kind ≠ .file ∧ before.kind ≠ .folder then .error .invalid
  else
    match before.etag with
    | none => .error .invalid
    | some etag =>
      if !validStrongEtag etag ∧ (preconditionVersion etag).isNone then .error .invalid
      else .ok etag

/-- The part of `mutate` for an item under the ETag it was recorded with. -/
def mutateItem (request : MutationRequest) (before : Node) (etag : String) :
    Dialogue Ask (fun r => Option (Answer r)) (Except UploadError MutationReceipt) :=
  match request.intent with
  | .relocate _ parent name =>
    if (validId parent).toBool = false ∨ !nameable name then pure (.error .invalid)
    else if (preconditionVersion etag).isSome then g.v2Relocate request before parent name
    else g.validationRelocate request before etag parent name
  | .removeFile _ | .removeFolder _ =>
    if (preconditionVersion etag).isSome then g.v2Remove request before
    else g.validationRemove request before etag
  | .trashNativeDocument _ => pure (.error (.unsupported "native document Trash"))
  | .createFolder _ _ => pure (.error (.unsupported
      "Google validation folder creation must carry a prepared identity"))

/-- `MutationProvider::mutate` -/
def mutate (request : MutationRequest) :
    Dialogue Ask (fun r => Option (Answer r)) (Except MutationError MutationReceipt) :=
  match g.checkMutation request with
  | .error e => pure (.error e)
  | .ok () =>
    match request.intent.before with
    | none => pure (.error
        (.unsupported "Google validation folder creation is prepared separately"))
    | some before =>
      match checkBefore before with
      | .error e => pure (.error e)
      | .ok etag => do
        let receipt ← g.mutateItem request before etag
        return receipt.mapError mutationError

/-- What is looked at before a prepared folder is created or looked for. -/
def checkPrepared (request : MutationRequest) (item : Option String) :
    Except MutationError String :=
  if !request.validate then .error .invalid
  else do
    (g.checkScope request.scope).mapError .provider
    match item with
    | none => .error .invalid
    | some id => if (validId id).toBool = false then .error .invalid else .ok id

/-- `MutationProvider::mutate_prepared`. Names are looked up outside of the adapter's own time; that
    part is cut off with the worker's. -/
def mutatePrepared (request : MutationRequest) (item : Option String) :
    Dialogue Ask (fun r => Option (Answer r)) (Except MutationError MutationReceipt) :=
  match request.intent with
  | .createFolder parent name =>
    match g.checkPrepared request item with
    | .error e => pure (.error e)
    | .ok id => do
      match ← Dialogue.cut (.error .uncertain) (g.validationDestinationFree parent name id).run with
      | .error e => return .error (mutationError e)
      | .ok () =>
        match ← g.createPreparedFolder request.scope ⟨id, parent, name⟩ with
        | .error e => return .error (mutationError e)
        | .ok node =>
          if request.accepts (.upsert node) then return .ok (.upsert node)
          else return .error .uncertain
  | _ => if item.isSome then pure (.error .invalid) else g.mutate request

/-- Where an item that was read stands: as the change left it, as it was before, or otherwise. -/
def compared (request : MutationRequest) (before current : Node) :
    Except MutationError MutationReconciliation :=
  let otherwise := if unchanged current before ∧ current.target = before.target then
      .ok .uncommitted
    else .ok .conflict
  match request.intent with
  | .relocate _ parent name =>
    if current.name = name ∧ current.parentId = some parent then
      if request.accepts (.upsert current) then .ok (.applied (.upsert current))
      else .error .uncertain
    else otherwise
  | _ => otherwise

def removes (request : MutationRequest) : Bool :=
  match request.intent with
  | .removeFile _ | .removeFolder _ => true
  | _ => false

/-- The part of `reconcile_mutation` for an item under a version. -/
def reconcileV2 (request : MutationRequest) (before : Node) :
    Dialogue Ask (fun r => Option (Answer r)) (Except MutationError MutationReconciliation) := do
  match ← GoogleWriter.uploadCall (g.readV2File before.id) with
  | .error (.provider .notFound) => return .ok .indeterminate
  | .error e => return .error (mutationError e)
  | .ok file =>
    if removes request ∧ file.trashed then return .ok (.applied (.removed before.id))
    else
      match ← GoogleWriter.uploadCall (g.v2MutationNode file) with
      | .error e => return .error (mutationError e)
      | .ok current => return compared request before current

/-- The part of `reconcile_mutation` for an item under an ETag. -/
def reconcileTagged (request : MutationRequest) (before : Node) :
    Dialogue Ask (fun r => Option (Answer r)) (Except MutationError MutationReconciliation) := do
  match ← GoogleWriter.uploadCall (GoogleWriter.readTaggedFile before.id) with
  | .error (.provider .notFound) => return .ok .indeterminate
  | .error e => return .error (mutationError e)
  | .ok (file, etag) =>
    if removes request ∧ file.trashed then
      if file.id ≠ before.id ∨ !g.acceptsFile file ∨ file.mimeType ≠ removedMime before then
        return .error .uncertain
      else return .ok (.applied (.removed before.id))
    else
      match g.validationMutationNode file etag with
      | .error e => return .error (mutationError e)
      | .ok current => return compared request before current

/-- `MutationProvider::reconcile_mutation` -/
def reconcileMutation (request : MutationRequest) :
    Dialogue Ask (fun r => Option (Answer r)) (Except MutationError MutationReconciliation) :=
  match g.checkMutation request with
  | .error e => pure (.error e)
  | .ok () =>
    match request.intent.before with
    | none => pure (.ok .indeterminate)
    | some before =>
      if (before.etag.bind preconditionVersion).isSome then g.reconcileV2 request before
      else g.reconcileTagged request before

/-- `MutationProvider::reconcile_prepared_mutation` -/
def reconcilePreparedMutation (request : MutationRequest) (item : Option String) :
    Dialogue Ask (fun r => Option (Answer r)) (Except MutationError MutationReconciliation) :=
  match request.intent with
  | .createFolder parent name =>
    match g.checkPrepared request item with
    | .error e => pure (.error e)
    | .ok id => do
      match ← g.inspectPreparedFolder request.scope ⟨id, parent, name⟩ with
      | .error e => return .error (mutationError e)
      | .ok none => return .ok .uncommitted
      | .ok (some node) =>
        if request.accepts (.upsert node) then return .ok (.applied (.upsert node))
        else return .error .uncertain
  | _ => if item.isSome then pure (.error .invalid) else g.reconcileMutation request

/-- The adapter as the worker uses it. -/
def provider : MutationProvider Ask Answer where
  prepareMutation _ request := g.prepareMutation request
  mutate _ request item := g.mutatePrepared request item
  reconcile _ request item := g.reconcilePreparedMutation request item

end GoogleValidationMutations

end Cirrove.Google
