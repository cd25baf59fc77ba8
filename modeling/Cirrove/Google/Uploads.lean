import Cirrove.Google.Feed
import Cirrove.Library.Bytes
import Cirrove.Library.Dialogue
import Cirrove.Upload.Contract

/-!
# Google uploads

`cirrove-googledrive/src/upload.rs`: files are created under an identity that is reserved before,
and replaced under a version that was observed. Large contents go through a resumable session, a
URL that takes the file in parts. The identity, the session and the offset are in the checkpoint,
the JSON text of a `SavedUpload`.

An adapter's call is a dialogue with the service. What a question asks and what its answer may be is
given with the headers and the parsed body; the texts of requests are left out. URLs, times, JSON
and SHA-256 are third-party code and are parameters, as in the feed; of the reader of checkpoints it
is only assumed that it reads back what was written.
-/

namespace Cirrove.Google

open Cirrove.Library
open Cirrove.Upload
open Cirrove.Journal (UploadIntent)

/-- 256 KiB. -/
def alignment : Nat := 256 * 1024
def partSize : Nat := 8 * 1024 * 1024
def maxCheckpoint : Nat := 64 * 1024

/-! ## Checkpoints -/

inductive SavedUpload where
  | prepared (version : Nat) (request : UploadRequest) (id : String)
  | session (version : Nat) (request : UploadRequest) (id url : String) (offset length : Nat)
  deriving DecidableEq, Repr

namespace SavedUpload

def version : SavedUpload → Nat
  | .prepared version _ _ => version
  | .session version _ _ _ _ _ => version

def request : SavedUpload → UploadRequest
  | .prepared _ request _ => request
  | .session _ request _ _ _ _ => request

def id : SavedUpload → String
  | .prepared _ _ id => id
  | .session _ _ id _ _ _ => id

/-- `serde_json::to_string` of a checkpoint, with its tag first. -/
def encoded : SavedUpload → String
  | .prepared version request id =>
    String.ofList ('\x7b' :: (Json.key "phase" ++ (Json.quoted "prepared".toList ++
      ',' :: (Json.key "version" ++ (Json.number version ++
      ',' :: (Json.key "request" ++ (request.encoded ++
      ',' :: (Json.key "id" ++ (Json.quoted id.toList ++ ['\x7d'])))))))))
  | .session version request id url offset length =>
    String.ofList ('\x7b' :: (Json.key "phase" ++ (Json.quoted "session".toList ++
      ',' :: (Json.key "version" ++ (Json.number version ++
      ',' :: (Json.key "request" ++ (request.encoded ++
      ',' :: (Json.key "id" ++ (Json.quoted id.toList ++
      ',' :: (Json.key "url" ++ (Json.quoted url.toList ++
      ',' :: (Json.key "offset" ++ (Json.number offset ++
      ',' :: (Json.key "length" ++ (Json.number length ++ ['\x7d'])))))))))))))))

/-- The numbers are those of a `u8`, of a `u64` and of a `u32`. -/
def Fits (saved : SavedUpload) : Prop :=
  saved.version < 2 ^ 8 ∧ saved.request.size < 2 ^ 64 ∧
    match saved with
    | .prepared _ _ _ => True
    | .session _ _ _ _ offset length => offset < 2 ^ 64 ∧ length < 2 ^ 32

end SavedUpload

/-- `serde_json::from_str` of a checkpoint, of which it is used that it reads a written one back. -/
structure CheckpointReader where
  fromStr : String → Option SavedUpload
  reads : ∀ saved : SavedUpload, saved.Fits → fromStr saved.encoded = some saved

/-! ## Questions -/

/-- What is used of a parsed URL. -/
structure Url where
  username : String
  password : Option String
  fragment : Option String
  origin : Option (String × String × Nat)
  path : String
  /-- The URL as text again. -/
  text : String
  deriving DecidableEq, Repr

/-- A file as the older interface reports it. -/
structure V2File where
  id : String
  teamDriveId : Option String
  title : String
  etag : Option String
  parents : List String
  version : String
  mimeType : Option String
  fileSize : Option String
  trashed : Bool
  deriving DecidableEq, Repr

structure GeneratedIds where
  ids : List String
  space : String
  kind : String
  deriving DecidableEq, Repr

/-- A request that changes something, as it is sent once. -/
inductive Message where
  /-- A session for a file that is created under an identity. -/
  | createSession (id parent name : String) (size : Nat)
  /-- A session for the contents of an item, under its ETag. -/
  | replaceSession (item : String) (size : Nat) (etag : String)
  | replaceSessionV2 (item : String) (size : Nat) (etag : String)
  /-- A file without contents. -/
  | create (id parent name : String)
  | replaceEmpty (item etag : String)
  /-- Bytes for a session, or none of them to ask where it stands. -/
  | put (url range : String) (bytes : Bytes)
  /-- A folder. -/
  | createFolder (id parent name : String)
  /-- A name for an item, and a folder to put it into and one to take it from, under its ETag. -/
  | relocate (item name : String) (moved : Option (String × String)) (etag : String)
  | relocateV2 (item name : String) (moved : Option (String × String)) (etag : String)
  /-- An item is put into the bin, under its ETag. -/
  | trash (item etag : String)
  | trashV2 (item etag : String)
  deriving DecidableEq, Repr

/-- A response, with what its body reads as. -/
structure Response where
  status : Nat
  location : Option String
  range : Option String
  etag : Option String
  /-- What the service asks to wait, between a second and a day. -/
  retryAfter : Nat
  /-- The reasons of an error body. -/
  reasons : List String
  /-- How the body fails to arrive within its limit. -/
  broken : Option ProviderError
  file : Option File
  v2File : Option V2File
  deriving DecidableEq, Repr

/-- The answer to a download; without the permission to download there is none. -/
structure Download where
  status : Nat
  encoded : Bool
  contentRange : Option String
  body : Except ProviderError Bytes

inductive Ask where
  /-- A place among the requests that are under way, when the service is not to be left alone. -/
  | permit
  | generateIds
  | file (id : String)
  /-- The file with the ETag of the response. -/
  | taggedFile (id : String)
  | v2File (id : String)
  /-- A page of the items of a folder that are not in the bin. -/
  | list (parent : String) (token : Option String)
  | download (id : String) (first last : Nat)
  | send (message : Message)
  /-- Two seconds; answered with whether the call was cancelled. -/
  | wait
  deriving DecidableEq, Repr

def Answer : Ask → Type
  | .permit => Except ProviderError Unit
  | .generateIds => Except ProviderError GeneratedIds
  | .file _ => Except ProviderError File
  | .taggedFile _ => Except UploadError (Option String × File)
  | .v2File _ => Except UploadError V2File
  | .list _ _ => Except ProviderError FileList
  | .download _ _ _ => Except ProviderError Download
  | .send _ => Except UploadError Response
  | .wait => Bool

/-- A call of the adapter. -/
abbrev Exchange (α : Type) := ExceptT UploadError (Dialogue Ask Answer) α

namespace Exchange

variable {α : Type}

def ask (r : Ask) : Exchange (Answer r) := ExceptT.lift (Dialogue.question r)

def ofExcept : Except UploadError α → Exchange α := ExceptT.mk ∘ pure

def ofProvider (x : Except ProviderError α) : Exchange α := ofExcept (x.mapError .provider)

def refuseIf (condition : Prop) [Decidable condition] (e : UploadError) : Exchange Unit :=
  if condition then throw e else pure ()

/-- An error is a result. -/
def attempt (x : Exchange α) : Exchange (Except UploadError α) := ExceptT.lift x.run

end Exchange

/-! ## The adapter -/

/-- The drive files are written to. -/
structure GoogleWriter extends GoogleDrive where
  /-- Whether written files are read until they are seen twice alike. -/
  settleWriteReceipts : Bool
  endpoint : Url
  parseUrl : String → Option Url
  saved : CheckpointReader
  /-- SHA-256 in hexadecimal digits. -/
  sha256 : Bytes → String

/-- `valid_strong_etag` -/
def validStrongEtag (value : String) : Bool :=
  value.utf8ByteSize ≤ 1024 && value.toList.head? = some '"' && value.toList.getLast? = some '"' &&
    !value.toList.any (fun c => c = '\r' || c = '\n')

/-- `strong_etag` of a header that is text. -/
def strongEtag (etag : Option String) : Option String :=
  etag.filter fun value => value.utf8ByteSize ≤ 1024 && value.toList.head? = some '"' &&
    value.toList.getLast? = some '"'

/-- Digits and nothing else. -/
def decimal (version : String) : Bool := version ≠ "" && version.toList.all Char.isDigit

/-- `precondition_version` -/
def preconditionVersion (token : String) : Option String :=
  let start := "google-version:".toList
  if start <+: token.toList then
    some (String.ofList (token.toList.drop start.length)) |>.filter decimal
  else none

/-- `GoogleDrive::upload_response` -/
def uploadResponse (response : Response) (session : Bool) : Except UploadError Response :=
  let status := response.status
  if status = 200 ∨ status = 201 ∨ (session ∧ status = 308) then .ok response
  else if session ∧ 400 ≤ status ∧ status < 500 ∧ status ≠ 429 then .error .sessionGone
  else if status = 401 then .error (.provider .authentication)
  else if status = 404 then .error (.provider .notFound)
  else if status = 412 then .error .conflict
  else if status = 409 then .error .uncertain
  else if status = 400 then .error .invalid
  else if status = 403 then
    match response.broken with
    | some e => .error (.provider e)
    | none =>
      if response.reasons.any fun reason => ["rateLimitExceeded", "userRateLimitExceeded",
          "storageQuotaExceeded"].contains reason then .error .quota
      else .error (.provider .permission)
  else if status = 429 ∨ status = 503 then .error (.provider (.throttled response.retryAfter))
  else if 500 ≤ status ∧ status < 600 then .error .uncertain
  else .error (.unexpectedStatus status)

/-- The body of a response, read as what is expected. -/
def Response.read {α : Type} (response : Response) (parsed : Option α) : Except UploadError α :=
  match response.broken, parsed with
  | none, some a => .ok a
  | _, _ => .error .uncertain

/-- `GoogleDrive::received_offset` -/
def receivedOffset (response : Response) (size : Nat) : Except UploadError Nat :=
  match response.range with
  | none => .ok 0
  | some range =>
    let start := "bytes=0-".toList
    let last := if start <+: range.toList then
      parseU64 (String.ofList (range.toList.drop start.length)) else none
    match last with
    | none => .error (protocol "invalid Google upload status range")
    | some last =>
      if 2 ^ 64 ≤ last + 1 then .error (protocol "invalid Google upload status range")
      else if size ≤ last + 1 then .error (protocol "invalid Google upload status offset")
      else .ok (last + 1)

namespace GoogleWriter

variable (g : GoogleWriter)

/-- `GoogleDrive::check_upload` -/
def checkUpload (request : UploadRequest) : Except UploadError Unit := do
  request.validate
  (g.checkScope request.scope).mapError fun _ => .invalid
  match request.intent with
  | .create parent _ => (validId parent).mapError fun _ => .invalid
  | .replace item expectedEtag =>
    (validId item).mapError fun _ => .invalid
    if !validStrongEtag expectedEtag ∧ (preconditionVersion expectedEtag).isNone then
      .error .invalid

/-- Is this a URL of the older interface? -/
def v2Path (url : Url) : Bool := "/upload/drive/v2/files/".toList.isPrefixOf url.path.toList

/-- `GoogleDrive::session_url` -/
def sessionUrl (value : String) : Except UploadError Url :=
  match g.parseUrl value with
  | none => .error (protocol "invalid Google upload session URL")
  | some url =>
    if url.username ≠ "" ∨ url.password.isSome ∨ url.fragment.isSome ∨
        url.origin.isNone ∨ url.origin ≠ g.endpoint.origin ∨
        (!v2Path url ∧ url.path ≠ "/upload/drive/v3/files") then
      .error (protocol "unsafe Google upload session URL")
    else .ok url

/-- `GoogleDrive::v2_session_url` -/
def v2SessionUrl (value : String) : Except UploadError Url :=
  match g.parseUrl value with
  | none => .error (protocol "invalid Google v2 upload session URL")
  | some url =>
    if url.username ≠ "" ∨ url.password.isSome ∨ url.fragment.isSome ∨
        url.origin.isNone ∨ url.origin ≠ g.endpoint.origin ∨
        !v2Path url then
      .error (protocol "unsafe Google v2 upload session URL")
    else .ok url

/-- `GoogleDrive::prepared_checkpoint` -/
def preparedCheckpoint (request : UploadRequest) (id : String) : Except UploadError String :=
  match validId id with
  | .error _ => .error .invalid
  | .ok () => .ok (SavedUpload.prepared 1 request id).encoded

/-- `GoogleDrive::session_checkpoint` -/
def sessionCheckpoint (request : UploadRequest) (id url : String) (offset : Nat) :
    Except UploadError UploadStep := do
  let _ ← g.sessionUrl url
  if request.size ≤ offset then .error (protocol "Google session offset exceeds snapshot")
  else
    let remaining := request.size - offset
    let length := min remaining partSize
    if length < remaining ∧ length % alignment ≠ 0 then
      .error (protocol "unaligned Google upload range")
    else .ok (.continue (SavedUpload.session 1 request id url offset length).encoded offset length)

/-- `GoogleDrive::load_upload` -/
def loadUpload (request : UploadRequest) (checkpoint : String) : Except UploadError SavedUpload :=
  if maxCheckpoint < checkpoint.utf8ByteSize then .error .checkpointInvalid
  else
    match g.saved.fromStr checkpoint with
    | none => .error .checkpointInvalid
    | some saved =>
      if saved.version ≠ 1 ∨ saved.request ≠ request ∨ (validId saved.id).toBool = false then
        .error .checkpointInvalid
      else
        match saved with
        | .prepared _ _ _ => .ok saved
        | .session _ _ _ url offset length =>
          match g.sessionUrl url with
          | .error _ => .error .checkpointInvalid
          | .ok _ =>
            if length = 0 ∨ partSize < length ∨ request.size ≤ offset ∨
                request.size - offset < length ∨
                (offset + length < request.size ∧ length % alignment ≠ 0) then
              .error .checkpointInvalid
            else .ok saved

/-! ## Reading -/

/-- `GoogleDrive::file` -/
def readFile (id : String) : Exchange File := do
  Exchange.ofProvider (validId id)
  let f ← Exchange.ofProvider (← Exchange.ask (.file id))
  Exchange.refuseIf (id ≠ "root" ∧ f.id ≠ id) (protocol "Google returned a different item")
  Exchange.refuseIf (!g.acceptsFile f) (.provider .permission)
  return f

/-- `GoogleDrive::v2_file` -/
def readV2File (item : String) : Exchange V2File := do
  Exchange.ofProvider (validId item)
  let f ← Exchange.ofExcept (← Exchange.ask (.v2File item))
  Exchange.refuseIf (f.id ≠ item ∨
    (if g.sharedDrive then f.teamDriveId ≠ some g.collection else f.teamDriveId.isSome)) .uncertain
  return f

/-- `GoogleDrive::file_with_strong_etag` -/
def readTaggedFile (item : String) : Exchange (File × Option String) := do
  let (etag, f) ← Exchange.ofExcept (← Exchange.ask (.taggedFile item))
  return (f, strongEtag etag)

/-- `GoogleDrive::v3_file_for_v2`, with the attempts that are left. -/
def fileForV2 (file : V2File) : Nat → Exchange File
  | 0 => throw .uncertain
  | attempts + 1 => do
    let current ← g.readFile file.id
    if current.id = file.id ∧ current.name = file.title ∧ current.parents = file.parents ∧
        current.version = some file.version ∧ !current.trashed ∧ g.acceptsFile current then
      return current
    else if attempts = 0 then throw .uncertain
    else
      let _ ← Exchange.ask .wait
      fileForV2 file attempts

/-- `GoogleDrive::v2_etag` -/
def v2Etag (file : V2File) : Except UploadError String :=
  match file.etag.filter validStrongEtag with
  | some etag => .ok etag
  | none => .error (protocol "missing strong Google v2 ETag")

/-- `GoogleDrive::v2_file_version` -/
def v2FileVersion (file : V2File) : Except UploadError String :=
  if decimal file.version then .ok file.version else .error .uncertain

/-- `File::local_content` -/
def localContent (f : File) : Option String :=
  if f.mimeType = shortcutMime ∧
      f.shortcutDetails.any (fun shortcut => shortcut.targetResourceKey.isSome) then
    some (browserLink f.id)
  else documentLink f.id f.mimeType

/-- Is the node still the version that is read? -/
def sameContent (current node : Node) : Bool :=
  current.kind = .file && current.contentRevision = node.contentRevision && current.size = node.size

/-- `GoogleDrive::read_range` of an uploaded file. -/
def readRange (scope : Scope) (node : Node) (offset length : Nat) : Exchange Bytes := do
  Exchange.ofProvider (g.checkScope scope)
  Exchange.refuseIf (node.kind ≠ .file ∨ 8 * 1024 * 1024 < length)
    (protocol "invalid Google read range")
  Exchange.ofProvider (validId node.id)
  Exchange.ofProvider (← Exchange.ask .permit)
  let before ← g.readFile node.id
  let current ← Exchange.ofProvider (before.node g.rfc3339 scope.collection)
  Exchange.refuseIf (!sameContent current node) (.provider .versionChanged)
  if node.size ≤ offset ∨ length = 0 then return []
  else
    let count := min (node.size - offset) length
    match localContent before with
    | some text => return (text.toByteArray.data.toList.drop offset).take count
    | none => do
      let finish := offset + count - 1
      let response ← Exchange.ofProvider (← Exchange.ask (.download node.id offset finish))
      Exchange.refuseIf response.encoded (protocol "encoded Google range")
      Exchange.refuseIf (response.status = 206 ∧ response.contentRange ≠ some ("bytes " ++
          toString offset ++ "-" ++ toString finish ++ "/" ++ toString node.size))
        (protocol "incorrect Google content range")
      Exchange.refuseIf (response.status ≠ 206 ∧ (offset ≠ 0 ∨ count ≠ node.size))
        (protocol "Google ignored content range")
      let bytes ← Exchange.ofProvider response.body
      Exchange.refuseIf (bytes.length ≠ count) (protocol "short Google content range")
      let file ← g.readFile node.id
      let after ← Exchange.ofProvider (file.node g.rfc3339 scope.collection)
      Exchange.refuseIf (!sameContent after node) (.provider .versionChanged)
      return bytes

/-- The contents of a node from an offset on, in reads of `chunk` bytes; `short` is whether a read
    may bring less. There are at most as many reads as bytes. -/
def readContents (scope : Scope) (node : Node) (chunk : Nat) (short : Bool) :
    Nat → Nat → Bytes → Exchange Bytes
  | 0, _, read => return read
  | reads + 1, offset, read =>
    if node.size ≤ offset then return read
    else do
      let length := if short then chunk else min (node.size - offset) chunk
      let bytes ← g.readRange scope node offset length
      Exchange.refuseIf (if short then bytes = [] else bytes.length ≠ length) .uncertain
      readContents scope node chunk short reads (offset + bytes.length) (read ++ bytes)

/-- `GoogleDrive::probe_sha256` -/
def probeSha256 (scope : Scope) (node : Node) : Exchange String := do
  let read ← g.readContents scope node (4 * 1024 * 1024) false node.size 0 []
  return g.sha256 read

/-- One look at a written file: has what a receipt says been seen again? -/
def settled (initial current : Node) : Bool :=
  current.id = initial.id && current.parentId = initial.parentId && current.name = initial.name &&
    current.kind = initial.kind && current.size = initial.size && current.target = initial.target

/-- `GoogleDrive::settle_written_node`, with the looks that are left. -/
def settle (scope : Scope) (initial : Node) : Nat → Option Node → Exchange Node
  | 0, _ => throw .uncertain
  | looks + 1, previous => do
    let cancelled : Bool ← Exchange.ask .wait
    Exchange.refuseIf cancelled (.provider .cancelled)
    let file ← g.readFile initial.id
    let current ← Exchange.ofProvider (file.node g.rfc3339 scope.collection)
    let current := { current with name := file.name }
    Exchange.refuseIf (!settled initial current) .uncertain
    if previous = some current then return current
    else settle scope initial looks (some current)

/-- `GoogleDrive::settle_written_node` -/
def settleWrittenNode (scope : Scope) (initial : Node) : Exchange Node :=
  if !g.settleWriteReceipts then return initial else g.settle scope initial 5 none

/-! ## Receipts -/

/-- Is the size of a file as text this one? -/
def sizeIs (size : Option String) (expected : Nat) : Bool := size.bind parseU64 = some expected

def googleType (mime : String) : Bool := mime.startsWith "application/vnd.google-apps."

/-- `GoogleDrive::receipt_from_file` -/
def receiptFromFile (request : UploadRequest) (id : String) (file : File) :
    Except UploadError Node := do
  if file.id ≠ id ∨ googleType file.mimeType ∨ !sizeIs file.size request.size then .error .uncertain
  else
    let node ← (file.node g.rfc3339 request.scope.collection).mapError fun _ => .uncertain
    let name ← match request.intent with
      | .create parent name =>
        if file.name ≠ name ∨ file.parents ≠ [parent] then .error .uncertain else .ok name
      | .replace item _ => if item = id then .ok node.name else .error .invalid
    let node := { node with
      name := name
      etag := (file.version.map versionPrecondition).or node.etag }
    if node.kind ≠ .file ∨ node.contentRevision.isNone then .error .uncertain else .ok node

/-- `GoogleDrive::replacement_node` -/
def replacementNode (request : UploadRequest) (id : String) (file : File)
    (etag : Option String) : Except UploadError Node :=
  match request.intent with
  | .create _ _ => .error .invalid
  | .replace item _ => do
    if item ≠ id ∨ file.id ≠ id ∨ file.mimeType ≠ "application/octet-stream" ∨
        file.parents.length ≠ 1 ∨ file.trashed ∨ !g.acceptsFile file then .error .uncertain
    else
      let node ← (file.node g.rfc3339 request.scope.collection).mapError fun _ => .uncertain
      match etag with
      | none => .error (protocol "missing strong Google ETag")
      | some etag =>
        let node := { node with etag := some etag }
        if node.kind ≠ .file ∨ node.target.isSome ∨ node.contentRevision.isNone then
          .error .uncertain
        else .ok node

/-- `GoogleDrive::v2_replacement_node` -/
def v2ReplacementNode (request : UploadRequest) (id : String) (file : V2File) : Exchange Node :=
  match request.intent with
  | .create _ _ => throw .invalid
  | .replace item _ => do
    Exchange.refuseIf (item ≠ id ∨ file.id ≠ id ∨ file.trashed ∨ file.parents.length ≠ 1 ∨
      file.mimeType.all googleType ∨ !sizeIs file.fileSize request.size) .uncertain
    let current ← g.fileForV2 file 5
    let node ← Exchange.ofExcept
      ((current.node g.rfc3339 request.scope.collection).mapError fun _ => .uncertain)
    let node := { node with
      name := current.name
      etag := some (versionPrecondition file.version) }
    Exchange.refuseIf (node.kind ≠ .file ∨ node.target.isSome ∨ node.contentRevision.isNone ∨
      node.size ≠ request.size) .uncertain
    return node

/-- Is the file replaced under a version that was observed? -/
def underVersion (request : UploadRequest) : Bool :=
  match request.intent with
  | .create _ _ => false
  | .replace _ expectedEtag => (preconditionVersion expectedEtag).isSome

/-- `GoogleDrive::receipt` -/
def receipt (request : UploadRequest) (id : String) (response : Response) : Exchange Node := do
  if underVersion request then
    let file ← Exchange.ofExcept (response.read response.v2File)
    let node ← g.v2ReplacementNode request id file
    g.settleWrittenNode request.scope node
  else
    let file ← Exchange.ofExcept (response.read response.file)
    let node ← Exchange.ofExcept (match request.intent with
      | .create _ _ => g.receiptFromFile request id file
      | .replace _ _ => g.replacementNode request id file (strongEtag response.etag))
    Exchange.refuseIf (node.size ≠ request.size) .uncertain
    g.settleWrittenNode request.scope node

/-! ## Sessions -/

/-- A request that is sent once more when the token was refused. -/
def sendAuthorized (message : Message) : Exchange Response := do
  let first ← Exchange.ofExcept (← Exchange.ask (.send message))
  if first.status = 401 then
    let second ← Exchange.ofExcept (← Exchange.ask (.send message))
    Exchange.ofExcept (uploadResponse second false)
  else Exchange.ofExcept (uploadResponse first false)

/-- `GoogleDrive::generated_id` -/
def generatedId : Exchange String := do
  let generated ← Exchange.ofProvider (← Exchange.ask .generateIds)
  match generated.ids with
  | [id] =>
    Exchange.refuseIf (generated.kind ≠ "drive#generatedIds" ∨ generated.space ≠ "drive")
      (protocol "invalid Google generated IDs response")
    Exchange.ofProvider (validId id)
    return id
  | _ => throw (protocol "invalid Google generated IDs response")

/-- `GoogleDrive::begin_v2_conditional_resumable` -/
def beginV2Session (item : String) (size : Nat) (etag : String) : Exchange String := do
  Exchange.refuseIf (size = 0 ∨ !validStrongEtag etag) .invalid
  let response ← sendAuthorized (.replaceSessionV2 item size etag)
  match response.location with
  | none => throw (protocol "Google v2 upload session has no location")
  | some location =>
    let url ← Exchange.ofExcept (g.v2SessionUrl location)
    return url.text

/-- A session that is at its beginning. -/
def openSession (request : UploadRequest) (id : String) (message : Message) :
    Exchange UploadStep := do
  let response ← sendAuthorized message
  Exchange.refuseIf (response.status ≠ 200) .uncertain
  match response.location with
  | none => throw (protocol "Google upload session has no location")
  | some location => Exchange.ofExcept (g.sessionCheckpoint request id location 0)

/-- `GoogleDrive::begin_session` -/
def beginSession (request : UploadRequest) (id : String) : Exchange UploadStep :=
  match request.intent with
  | .create parent name => g.openSession request id (.createSession id parent name request.size)
  | .replace item expectedEtag =>
    match preconditionVersion expectedEtag with
    | some expectedVersion => do
      Exchange.refuseIf (item ≠ id ∨ request.size = 0) .invalid
      let current ← g.readV2File id
      let version ← Exchange.ofExcept (v2FileVersion current)
      Exchange.refuseIf (version ≠ expectedVersion) .conflict
      let etag ← Exchange.ofExcept (v2Etag current)
      let session ← g.beginV2Session id request.size etag
      Exchange.ofExcept (g.sessionCheckpoint request id session 0)
    | none => do
      Exchange.refuseIf (item ≠ id) .invalid
      g.openSession request id (.replaceSession item request.size expectedEtag)

/-- `GoogleDrive::create_empty` -/
def createEmpty (request : UploadRequest) (id parent name : String) : Exchange UploadStep := do
  let response ← sendAuthorized (.create id parent name)
  return .complete (← g.receipt request id response)

/-- `GoogleDrive::replace_v2_empty` -/
def replaceV2Empty (request : UploadRequest) (item etag : String) : Exchange UploadStep := do
  let response ← sendAuthorized (.replaceEmpty item etag)
  let file ← Exchange.ofExcept (response.read response.v2File)
  let node ← g.v2ReplacementNode request item file
  return .complete (← g.settleWrittenNode request.scope node)

/-- `GoogleDrive::session_request` -/
def sessionRequest (url range : String) (bytes : Bytes) (conditional : Bool) :
    Exchange Response := do
  let response ← Exchange.ofExcept (← Exchange.ask (.send (.put url range bytes)))
  Exchange.refuseIf (conditional ∧ response.status = 412) .conflict
  Exchange.ofExcept (uploadResponse response true)

/-- Sessions of replacements are conditional. -/
def conditional (request : UploadRequest) : Bool := request.intent matches .replace _ _

/-! ## Inspection -/

/-- The file has changed since: does it have the contents already? -/
def observed (request : UploadRequest) (node : Node) : Exchange UploadStep := do
  Exchange.refuseIf (node.size ≠ request.size) .conflict
  let digest ← g.probeSha256 request.scope node
  Exchange.refuseIf (digest ≠ request.sha256) .conflict
  return .complete (← g.settleWrittenNode request.scope node)

/-- `GoogleDrive::inspect_prepared` -/
def inspectPrepared (request : UploadRequest) (id : String) : Exchange UploadStep :=
  match request.intent with
  | .create parent name => do
    match ← Exchange.attempt (g.readFile id) with
    | .ok file =>
      let node ← Exchange.ofExcept (g.receiptFromFile request id file)
      return .complete (← g.settleWrittenNode request.scope node)
    | .error (.provider .notFound) =>
      if request.size = 0 then g.createEmpty request id parent name else g.beginSession request id
    | .error e => throw e
  | .replace _ expectedEtag =>
    match preconditionVersion expectedEtag with
    | some expectedVersion => do
      let current ← g.readV2File id
      let version ← Exchange.ofExcept (v2FileVersion current)
      let file ← g.readFile id
      Exchange.refuseIf (file.id ≠ current.id ∨ file.name ≠ current.title ∨
        file.parents ≠ current.parents ∨ file.version ≠ some version) .uncertain
      let node ← Exchange.ofExcept
        ((file.node g.rfc3339 request.scope.collection).mapError fun _ => .uncertain)
      let node := { node with name := file.name, etag := some (versionPrecondition version) }
      if version = expectedVersion then
        if request.size = 0 then do
          let etag ← Exchange.ofExcept (v2Etag current)
          g.replaceV2Empty request id etag
        else g.beginSession request id
      else g.observed request node
    | none => do
      let (file, etag) ← readTaggedFile id
      let node ← Exchange.ofExcept (g.replacementNode request id file etag)
      if node.etag = some expectedEtag then g.beginSession request id else g.observed request node

/-! ## The provider -/

/-- `GoogleDrive::upload_call`: a call needs a place among the requests and may be cut off, or run
    out of time, at every question. -/
def uploadCall {α : Type} (call : Exchange α) :
    Dialogue Ask (fun r => Option (Answer r)) (Except UploadError α) :=
  Dialogue.cut (.error .uncertain)
    (do Exchange.ofProvider (← Exchange.ask .permit); call : Exchange α).run

/-- `UploadProvider::begin_upload` -/
def beginUpload (request : UploadRequest) :
    Dialogue Ask (fun r => Option (Answer r)) (Except UploadError UploadStep) :=
  match g.checkUpload request with
  | .error e => pure (.error e)
  | .ok () =>
    match request.intent with
    | .create _ _ => uploadCall do
      let id ← generatedId
      return .prepared (← Exchange.ofExcept (preparedCheckpoint request id))
    | .replace item _ => pure ((preparedCheckpoint request item).map .prepared)

/-- What the answer to a session's request comes to: the session goes on at `next`, the file is
    complete, or the session is gone and another one may be begun under the same identity. -/
def sessionAnswer (request : UploadRequest) (id url : String)
    (next : Response → Except UploadError Nat) (sent : Except UploadError Response) :
    Exchange UploadStep :=
  match sent with
  | .ok response => do
    if response.status = 308 then
      let offset ← Exchange.ofExcept (next response)
      Exchange.ofExcept (g.sessionCheckpoint request id url offset)
    else return .complete (← g.receipt request id response)
  | .error .sessionGone => Exchange.ofExcept ((preparedCheckpoint request id).map .prepared)
  | .error e => throw e

/-- `UploadProvider::inspect_upload` -/
def inspectUpload (request : UploadRequest) (checkpoint : String) :
    Dialogue Ask (fun r => Option (Answer r)) (Except UploadError UploadStep) :=
  match g.checkUpload request >>= fun () => g.loadUpload request checkpoint with
  | .error e => pure (.error e)
  | .ok (.prepared _ _ id) => uploadCall (g.inspectPrepared request id)
  | .ok (.session _ _ id url _ _) => uploadCall do
    let sent ← Exchange.attempt (sessionRequest url ("bytes */" ++ toString request.size) []
      (conditional request))
    g.sessionAnswer request id url (receivedOffset · request.size) sent

/-- `UploadProvider::upload_part` -/
def uploadPart (request : UploadRequest) (checkpoint : String) (offset : Nat) (bytes : Bytes) :
    Dialogue Ask (fun r => Option (Answer r)) (Except UploadError UploadStep) :=
  match g.checkUpload request >>= fun () => g.loadUpload request checkpoint with
  | .error e => pure (.error e)
  | .ok (.prepared _ _ _) => pure (.error .checkpointInvalid)
  | .ok (.session _ _ id url expected length) =>
    if offset ≠ expected ∨ bytes.length ≠ length then pure (.error .invalid)
    else
      let finish := offset + bytes.length
      uploadCall do
        let sent ← Exchange.attempt (sessionRequest url ("bytes " ++ toString offset ++ "-" ++
          toString (finish - 1) ++ "/" ++ toString request.size) bytes (conditional request))
        let next := fun response => do
          let next ← receivedOffset response request.size
          if next ≠ finish then .error .uncertain else .ok next
        g.sessionAnswer request id url next sent

/-- `UploadProvider::commit_upload` -/
def commitUpload (request : UploadRequest) (_checkpoint : String) :
    Dialogue Ask (fun r => Option (Answer r)) (Except UploadError UploadStep) :=
  match g.checkUpload request with
  | .error e => pure (.error e)
  | .ok () => pure (.error (.unsupported "Google uploads commit with their final byte range"))

/-! ## Reconciliation -/

/-- Where a file stands that does not have the contents. -/
def unwritten (request : UploadRequest) (node : Node) : Reconciliation :=
  match request.intent with
  | .create _ _ => .conflict
  | .replace _ expectedEtag => if node.etag = some expectedEtag then .uncommitted else .conflict

/-- The part of `reconcile_upload` for a replacement under a version, with the attempts that are
    left. -/
def reconcileVersion (request : UploadRequest) (id : String) : Nat → Exchange Reconciliation
  | 0 => throw .uncertain
  | attempts + 1 => do
    match ← Exchange.attempt (g.readV2File id) with
    | .error (.provider .notFound) => return .conflict
    | .error e => throw e
    | .ok current =>
      let version ← Exchange.ofExcept (v2FileVersion current)
      match ← Exchange.attempt (g.fileForV2 current 5) with
      | .error e =>
        if e = .uncertain ∧ 0 < attempts then
          let _ ← Exchange.ask .wait
          reconcileVersion request id attempts
        else throw e
      | .ok file =>
        let node ← Exchange.ofExcept
          ((file.node g.rfc3339 request.scope.collection).mapError fun _ => .uncertain)
        let node := { node with name := file.name, etag := some (versionPrecondition version) }
        if node.size ≠ request.size then return unwritten request node
        else
          match ← Exchange.attempt (if node.size = 0 then return g.sha256 []
            else g.probeSha256 request.scope node) with
          | .ok digest =>
            if digest = request.sha256 then return .committed node
            else return unwritten request node
          | .error e =>
            if e = .provider .versionChanged ∧ 0 < attempts then
              let _ ← Exchange.ask .wait
              reconcileVersion request id attempts
            else throw e

/-- The file whose contents are compared. -/
def reconciledFile (request : UploadRequest) (saved : SavedUpload) :
    Exchange (Except Reconciliation (File × Option String)) := do
  match request.intent with
  | .create _ _ =>
    match ← Exchange.attempt (g.readFile saved.id) with
    | .ok file => return .ok (file, none)
    | .error (.provider .notFound) =>
      match saved with
      | .prepared _ _ _ => return .error .uncommitted
      | .session _ _ _ _ _ _ => throw .uncertain
    | .error e => throw e
  | .replace _ _ =>
    match ← Exchange.attempt (readTaggedFile saved.id) with
    | .ok (file, etag) => return .ok (file, etag)
    | .error (.provider .notFound) => return .error .conflict
    | .error e => throw e

/-- The rest of `reconcile_upload`. -/
def reconcileContents (request : UploadRequest) (saved : SavedUpload) :
    Exchange Reconciliation := do
  match ← g.reconciledFile request saved with
  | .error result => return result
  | .ok (file, etag) =>
    let node := match request.intent with
      | .create _ _ => g.receiptFromFile request saved.id file
      | .replace _ _ => g.replacementNode request saved.id file etag
    match node with
    | .error _ => return .conflict
    | .ok node =>
      if node.size ≠ request.size then return unwritten request node
      else
        let read ← g.readContents request.scope node (4 * 1024 * 1024) true node.size 0 []
        if g.sha256 read = request.sha256 then return .committed node
        else return unwritten request node

/-- `UploadProvider::reconcile_upload` -/
def reconcileUpload (request : UploadRequest) (checkpoint : Option String) :
    Dialogue Ask (fun r => Option (Answer r)) (Except UploadError Reconciliation) :=
  match g.checkUpload request with
  | .error e => pure (.error e)
  | .ok () =>
    match checkpoint with
    -- nothing may change before a prepared checkpoint is durable
    | none => pure (.ok .uncommitted)
    | some checkpoint =>
      match g.loadUpload request checkpoint with
      | .error e => pure (.error e)
      | .ok saved => uploadCall
        (if underVersion request then g.reconcileVersion request saved.id 8
          else g.reconcileContents request saved)

end GoogleWriter

end Cirrove.Google
