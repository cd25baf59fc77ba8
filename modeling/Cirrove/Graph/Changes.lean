import Cirrove.Graph.Sessions
import Cirrove.Mutation.Worker

/-!
# Changes of a drive's namespace

`cirrove-onedrive/src/mutation.rs`, and `create_folder` of `upload.rs`. A folder is created where
nothing has its name. An item is moved, renamed or deleted under the ETag it was recorded with; it
is looked at once more before it is deleted, and of a folder also what is in it, because the service
deletes that with it.

A folder of the right name may be somebody else's. So a creation whose answer was lost is not looked
for: nothing says of it that it may be sent again.
-/

namespace Cirrove.Graph

open Cirrove.Library
open Cirrove.Upload
open Cirrove.Google (ProviderError)
open Cirrove.Mutation (MutationError MutationReconciliation MutationProvider)
open Cirrove.Journal (UploadIntent MutationIntent MutationRequest MutationReceipt)

/-! ## Questions -/

/-- A request that changes something, as it is sent once. -/
inductive Message where
  /-- A folder, unless its name is taken. -/
  | createFolder (collection parent name : String)
  /-- A name and a folder for an item, under its ETag, unless the name is taken. -/
  | relocate (collection item name parent : String) (etag : Option String)
  | delete (collection item : String) (etag : Option String)
  deriving DecidableEq, Repr

inductive Ask where
  /-- A place among the requests that are under way, when the service is not to be left alone. -/
  | permit
  /-- An item, in a call that changes something. It may not read as one. -/
  | item (collection item : String)
  /-- The first of the items of a folder. -/
  | children (collection item : String)
  /-- An item, in a call of its own. -/
  | resource (collection item : String)
  | send (message : Message)
  deriving DecidableEq, Repr

def Answer : Ask → Type
  | .permit => Except ProviderError Unit
  | .item _ _ => Except ProviderError (Option DriveItem)
  | .children _ _ => Except ProviderError (Option (List DriveItem))
  | .resource _ _ => Except ProviderError DriveItem
  | .send _ => Except UploadError Response

/-- A call of the adapter. -/
abbrev Exchange (α : Type) := ExceptT UploadError (Dialogue Ask Answer) α

namespace Exchange

variable {α : Type}

def ask (r : Ask) : Exchange (Answer r) := ExceptT.lift (Dialogue.question r)

def ofExcept : Except UploadError α → Exchange α := ExceptT.mk ∘ pure

def ofProvider (x : Except ProviderError α) : Exchange α := ofExcept (x.mapError .provider)

def refuseIf (condition : Prop) [Decidable condition] (e : UploadError) : Exchange Unit :=
  if condition then throw e else pure ()

end Exchange

/-- `error` -/
def mutationError : UploadError → MutationError
  | .provider e => .provider e
  | .conflict => .conflict
  | .quota => .quota
  | .locked => .locked
  | .invalid => .invalid
  | .unsupported what => .unsupported what
  | _ => .uncertain

/-- `OneDrive::resource_url` of an item. -/
def resourceUrl (collection item : String) : Except ProviderError Unit :=
  if [collection, item].any (fun s => s = "" || s = "." || s = "..") then
    .error (.protocol "invalid resource ID")
  else .ok ()

/-! ## Requests -/

/-- `OneDrive::upload_call`: a call needs a place among the requests and may be cut off, or run out
    of time, at every question. -/
def uploadCall {α : Type} (call : Exchange α) :
    Dialogue Ask (fun r => Option (Answer r)) (Except UploadError α) :=
  Dialogue.cut (.error .uncertain)
    (do Exchange.ofProvider (← Exchange.ask .permit); call : Exchange α).run

/-- `OneDrive::authorized_upload`: a request is sent once more when the token was refused. -/
def authorizedUpload (message : Message) : Exchange Response := do
  let first ← Exchange.ofExcept (← Exchange.ask (.send message))
  -- a refused token changed nothing, whatever the request was
  if first.status = 401 then Exchange.ofExcept (← Exchange.ask (.send message))
  else return first

namespace OneDrive

variable (od : OneDrive)

/-! ## Folders -/

/-- The folder that was created, if it is this one. -/
def createdFolder (scope : Scope) (parent name : String) (response : Response) :
    Except UploadError Node := do
  uploadBody response false
  if response.status ≠ 201 then .error .uncertain
  else
    let item ← readAs response.item
    if item.driveId ≠ some scope.collection then .error .uncertain
    else
      match ← (mapItem od.rfc3339 item).mapError .provider with
      | .upsert node =>
        if node.kind = .folder ∧ node.name = name ∧ node.parentId = some parent ∧ node.id ≠ "" then
          .ok node
        else .error .uncertain
      | .delete _ => .error .uncertain

/-- `OneDrive::create_folder` -/
def createFolder (scope : Scope) (parent name : String) :
    Dialogue Ask (fun r => Option (Answer r)) (Except UploadError Node) :=
  if (UploadIntent.create parent name).validate = false then pure (.error .invalid)
  else if scope.account ≠ od.account ∨ scope.provider ≠ "onedrive" ∨ scope.collection = "" then
    pure (.error .invalid)
  else uploadCall do
    Exchange.ofProvider (resourceUrl scope.collection parent)
    let response ← authorizedUpload (.createFolder scope.collection parent name)
    Exchange.ofExcept (od.createdFolder scope parent name response)

/-! ## Items -/

/-- What is looked at before a file is deleted. -/
def checkFile (request : MutationRequest) (before : Node) : Exchange Unit := do
  Exchange.ofProvider (resourceUrl request.scope.collection before.id)
  let found ← Exchange.ofProvider (← Exchange.ask (.item request.scope.collection before.id))
  let current ← Exchange.ofExcept (readAs found)
  Exchange.refuseIf (current.id ≠ before.id ∨ !current.file ∨ current.remoteItem.isSome ∨
    current.eTag ≠ before.etag ∨ current.driveId ≠ some request.scope.collection) .conflict

/-- What is looked at before a folder is deleted. Its ETag does not tell whether something was put
    into it. -/
def checkFolder (request : MutationRequest) (before : Node) : Exchange Unit := do
  Exchange.ofProvider (resourceUrl request.scope.collection before.id)
  let found ← Exchange.ofProvider (← Exchange.ask (.item request.scope.collection before.id))
  let current ← Exchange.ofExcept (readAs found)
  Exchange.refuseIf (current.id ≠ before.id ∨ !current.folder ∨ current.file ∨ current.package ∨
    current.deleted ∨ current.remoteItem.isSome ∨ current.eTag ≠ before.etag ∨
    current.driveId ≠ some request.scope.collection) .conflict
  let children ← Exchange.ofProvider
    (← Exchange.ask (.children request.scope.collection before.id))
  let children ← Exchange.ofExcept (readAs children)
  Exchange.refuseIf (children ≠ []) .conflict

/-- The part of `mutate` that looks at what is removed. -/
def checkRemoval (request : MutationRequest) (before : Node) : Exchange Unit :=
  match request.intent with
  | .removeFile _ => checkFile request before
  | .removeFolder _ => checkFolder request before
  | _ => return ()

/-- The request for a change of an item. -/
def message (request : MutationRequest) (before : Node) : Except UploadError Message :=
  match request.intent with
  | .relocate _ parent name =>
    .ok (.relocate request.scope.collection before.id name parent before.etag)
  | .removeFile _ | .removeFolder _ => .ok (.delete request.scope.collection before.id before.etag)
  | _ => .error .invalid

/-- What a response says of a change. -/
def changed (request : MutationRequest) (before : Node) (response : Response) :
    Except UploadError MutationReceipt :=
  if request.intent.isRemoval ∧ response.status = 204 then .ok (.removed before.id)
  else do
    -- a refusal is told from the status, before the item is read
    uploadBody response false
    if response.status ≠ 200 ∨ request.intent.isRemoval then .error .uncertain
    else
      let item ← readAs response.item
      if item.driveId ≠ some request.scope.collection then .error .uncertain
      else
        match ← (mapItem od.rfc3339 item).mapError .provider with
        | .upsert node =>
          if request.accepts (.upsert node) then .ok (.upsert node) else .error .uncertain
        | .delete _ => .error .uncertain

/-- The part of `mutate` for an item. -/
def mutateItem (request : MutationRequest) (before : Node) :
    Dialogue Ask (fun r => Option (Answer r)) (Except UploadError MutationReceipt) :=
  uploadCall do
    checkRemoval request before
    Exchange.ofProvider (resourceUrl request.scope.collection before.id)
    let message ← Exchange.ofExcept (message request before)
    let response ← authorizedUpload message
    Exchange.ofExcept (od.changed request before response)

/-- `ReadProvider::node`, cut off where it is cancelled. -/
def node (scope : Scope) (id : String) :
    Dialogue Ask (fun r => Option (Answer r)) (Except ProviderError Node) :=
  if scope.account ≠ od.account ∨ scope.provider ≠ "onedrive" then
    pure (.error (.protocol "provider/account mismatch"))
  else
    match resourceUrl scope.collection id with
    | .error e => pure (.error e)
    | .ok () => .ask (.resource scope.collection id) fun
      | none => pure (.error .cancelled)
      | some (answer : Except ProviderError DriveItem) => pure do
        let item ← answer
        if item.id ≠ id ∨ item.driveId.any (· ≠ scope.collection) then
          .error (.protocol "item response identity does not match request")
        else
          match ← mapItem od.rfc3339 item with
          | .upsert node => .ok node
          | .delete _ => .error .notFound

/-! ## The provider -/

/-- `OneDrive::check_mutation` -/
def checkMutation (request : MutationRequest) : Except MutationError Unit :=
  if !request.validate then .error .invalid
  else
    match request.intent with
    | .trashNativeDocument _ => .error (.unsupported "native document Trash")
    | _ =>
      if request.scope.account ≠ od.account ∨ request.scope.provider ≠ "onedrive" then
        .error .invalid
      else .ok ()

/-- `MutationProvider::prepare_mutation` -/
def prepareMutation (request : MutationRequest) : Except MutationError (Option String) :=
  (od.checkMutation request).map fun () => none

/-- `MutationProvider::mutate` -/
def mutate (request : MutationRequest) :
    Dialogue Ask (fun r => Option (Answer r)) (Except MutationError MutationReceipt) :=
  match od.checkMutation request with
  | .error e => pure (.error e)
  | .ok () =>
    match request.intent with
    | .createFolder parent name => do
      match ← od.createFolder request.scope parent name with
      | .error e => return .error (mutationError e)
      | .ok node =>
        if request.accepts (.upsert node) then return .ok (.upsert node)
        else return .error .uncertain
    | _ =>
      match request.intent.before with
      | none => pure (.error .invalid)
      | some before => do
        let receipt ← od.mutateItem request before
        return receipt.mapError mutationError

/-- Where an item that was read stands: as the change left it, as it was before, or otherwise. -/
def compared (request : MutationRequest) (before node : Node) : MutationReconciliation :=
  if request.accepts (.upsert node) then .applied (.upsert node)
  else if node.etag = before.etag ∧ node.name = before.name ∧ node.parentId = before.parentId ∧
      node.kind = before.kind ∧ node.target = before.target then .uncommitted
  else .conflict

/-- `MutationProvider::reconcile_mutation` -/
def reconcileMutation (request : MutationRequest) :
    Dialogue Ask (fun r => Option (Answer r)) (Except MutationError MutationReconciliation) :=
  match od.checkMutation request with
  | .error e => pure (.error e)
  | .ok () =>
    match request.intent.before with
    -- who created a folder of this name is not known
    | none => pure (.ok .indeterminate)
    | some before => do
      match ← od.node request.scope before.id with
      | .ok node => return .ok (compared request before node)
      | .error .notFound => return .ok .indeterminate
      | .error e => return .error (.provider e)

/-- The adapter as the worker uses it. It takes no identity that was reserved. -/
def provider : MutationProvider Ask Answer where
  prepareMutation _ request := pure (od.prepareMutation request)
  mutate _ request item := if item.isSome then pure (.error .invalid) else od.mutate request
  reconcile _ request item :=
    if item.isSome then pure (.error .invalid) else od.reconcileMutation request

end OneDrive

end Cirrove.Graph
