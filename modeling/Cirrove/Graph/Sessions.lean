import Cirrove.Library.Parts
import Cirrove.Graph.Items
import Cirrove.Upload.Contract

/-!
# Resumable transfers to a drive

`cirrove-onedrive/src/upload.rs`: an upload session is a preauthenticated URL that takes the file
in parts and says which ranges are missing. Where a session stands is in the checkpoint, the JSON
text of a `Session`; `progress` writes it and `load_session` reads it back, with checks of its own.

URLs, RFC 3339 times and JSON are read by third-party code. These are parameters; of the reader of
sessions it is only assumed that it reads back what was written. A response is given with what its
body reads as.
-/

namespace Cirrove.Graph

open Cirrove.Library
open Cirrove.Upload
open Cirrove.Google (ProviderError parseU64)

/-- Sixteen units of 320 KiB. -/
def alignment : Nat := 320 * 1024
def partSize : Nat := 5 * 1024 * 1024
def maxResponse : Nat := 1024 * 1024

/-! ## Sessions -/

structure Session where
  version : Nat
  request : UploadRequest
  url : String
  expiresAt : Nat
  offset : Nat
  length : Nat
  /-- The parent and the name of the item a deferred upload is committed to. -/
  commitTarget : Option (String × String)
  deriving DecidableEq, Repr

def encodeTarget : Option (String × String) → List Char
  | none => "null".toList
  | some (parent, name) =>
    '[' :: (Json.quoted parent.toList ++ ',' :: (Json.quoted name.toList ++ [']']))

/-- `serde_json::to_string` of a session. -/
def Session.encoded (s : Session) : String :=
  String.ofList ('\x7b' :: (Json.key "version" ++ (Json.number s.version ++
    ',' :: (Json.key "request" ++ (s.request.encoded ++
    ',' :: (Json.key "url" ++ (Json.quoted s.url.toList ++
    ',' :: (Json.key "expires_at" ++ (Json.number s.expiresAt ++
    ',' :: (Json.key "offset" ++ (Json.number s.offset ++
    ',' :: (Json.key "length" ++ (Json.number s.length ++
    ',' :: (Json.key "commit_target" ++ (encodeTarget s.commitTarget ++ ['\x7d'])))))))))))))))

/-- `serde_json::from_str` of a session, of which it is used that it reads a written one back. -/
structure SessionReader where
  fromStr : String → Option Session
  reads : ∀ s : Session, fromStr s.encoded = some s

structure SessionReply where
  uploadUrl : Option String
  expirationDateTime : String
  nextExpectedRanges : Option (List String)
  deriving DecidableEq, Repr

/-- What is used of a parsed URL. An opaque origin, here none, equals no other. -/
structure Url where
  scheme : String
  username : String
  password : Option String
  host : Option String
  fragment : Option String
  origin : Option (String × String × Nat)
  deriving DecidableEq, Repr

/-- The provider, with what it takes from third-party code. -/
structure OneDrive where
  account : String
  endpoint : Url
  /-- `Url::parse` -/
  parseUrl : String → Option Url
  /-- `chrono::DateTime::parse_from_rfc3339` -/
  rfc3339 : String → Option Int
  reader : SessionReader

/-- A response with what its body reads as; it is too long or breaks off where `body` is not set. -/
structure Response where
  status : Nat
  retryAfter : Nat
  body : Bool
  reply : Option SessionReply
  item : Option DriveItem
  deriving DecidableEq, Repr

/-! ## Ranges -/

/-- `str::split_once('-')` -/
def splitDash (text : String) : Option (String × String) :=
  let front := text.toList.takeWhile (· ≠ '-')
  match text.toList.drop front.length with
  | [] => none
  | _ :: rest => some (String.ofList front, String.ofList rest)

/-- One missing range, first and last byte. -/
def parseRange (size : Nat) (range : String) : Except UploadError (Nat × Nat) :=
  match splitDash range with
  | none => .error (protocol "invalid upload range")
  | some (first, last) =>
    match parseU64 first with
    | none => .error (protocol "invalid upload range start")
    | some start =>
      let finish : Except UploadError Nat :=
        if last = "" then .ok (size - 1)
        else match parseU64 last with
          | none => .error (protocol "invalid upload range end")
          | some finish => .ok finish
      match finish with
      | .error e => .error e
      | .ok finish =>
        if finish < start ∨ size ≤ finish then .error (protocol "upload range exceeds snapshot")
        else .ok (start, finish)

/-- The order of spans. -/
def spanLe (a b : Nat × Nat) : Bool := a.1 < b.1 || (a.1 = b.1 && a.2 ≤ b.2)

/-- Do two neighbours of a sorted list overlap? -/
def overlapping : List (Nat × Nat) → Bool
  | a :: b :: rest => b.1 ≤ a.2 || overlapping (b :: rest)
  | _ => false

/-- `next_range` -/
def nextRange (ranges : List String) (size : Nat) : Except UploadError (Nat × Nat) :=
  if ranges = [] ∨ 1024 < ranges.length ∨ size = 0 then .error (protocol "invalid upload ranges")
  else
    match ranges.mapM (parseRange size) with
    | .error e => .error e
    | .ok spans =>
      match spans.mergeSort spanLe with
      | [] => .error (protocol "invalid upload ranges")
      | (offset, finish) :: rest =>
        if overlapping ((offset, finish) :: rest) then
          .error (protocol "overlapping upload ranges")
        else
          let longest := min (finish - offset + 1) partSize
          let length := if offset + longest < size then longest - longest % alignment else longest
          if length = 0 ∨ offset % alignment ≠ 0 then .error (protocol "unaligned upload range")
          else .ok (offset, length)

section

variable (od : OneDrive)

/-- `expiry` -/
def OneDrive.expiry (now : Nat) (value : String) : Except UploadError Nat :=
  match od.rfc3339 value with
  | none => .error (protocol "invalid upload session expiry")
  | some t =>
    if t < 0 then .error .sessionGone
    else if t.toNat ≤ now then .error .sessionGone
    else .ok t.toNat

/-- `check_upload` -/
def OneDrive.checkUpload (request : UploadRequest) : Except UploadError Unit :=
  match request.validate with
  | .error e => .error e
  | .ok () =>
    if request.scope.account ≠ od.account ∨ request.scope.provider ≠ "onedrive" then
      .error .invalid
    else .ok ()

/-- `session_url` -/
def OneDrive.sessionUrl (value : String) : Except UploadError Url :=
  match od.parseUrl value with
  | none => .error (protocol "invalid upload session URL")
  | some url =>
    if url.username ≠ "" ∨ url.password.isSome ∨ url.fragment.isSome ∨ url.host.isNone ∨
        (url.scheme ≠ "https" ∧
          ¬ (od.endpoint.scheme = "http" ∧ url.origin.isSome ∧ url.origin = od.endpoint.origin)) then
      .error (protocol "unsafe upload session URL")
    else .ok url

/-! ## Checkpoints -/

/-- `load_session` at a moment. -/
def OneDrive.loadSession (now : Nat) (request : UploadRequest) (checkpoint : String) :
    Except UploadError Session :=
  if maxResponse < checkpoint.utf8ByteSize then .error .checkpointInvalid
  else
    match od.reader.fromStr checkpoint with
    | none => .error .checkpointInvalid
    | some session =>
      if session.version ≠ 1 ∨ session.request ≠ request then .error .checkpointInvalid
      else
        match od.sessionUrl session.url with
        | .error _ => .error .checkpointInvalid
        | .ok _ =>
          if session.expiresAt ≤ now then .error .sessionGone
          else
            let ready := session.commitTarget.isSome ∧ session.offset = request.size ∧
              session.length = 0
            if ¬ ready ∧ (session.length = 0 ∨ partSize < session.length ∨
                request.size ≤ session.offset ∨ request.size - session.offset < session.length ∨
                session.offset % alignment ≠ 0 ∨
                (session.offset + session.length < request.size ∧
                  session.length % alignment ≠ 0)) then
              .error .checkpointInvalid
            else .ok session

/-- The URL of a session after a reply. -/
def replyUrl (reply : SessionReply) (existing : Option Session) : Except UploadError String :=
  match reply.uploadUrl, existing with
  | some url, none => .ok url
  | some url, some old =>
    if url = old.url then .ok url
    else .error (protocol "upload session URL changed or missing")
  | none, some old => .ok old.url
  | none, none => .error (protocol "upload session URL changed or missing")

/-- The missing ranges after a reply. -/
def replyRanges (reply : SessionReply) (initial acceptedFinal : Bool)
    (commitTarget : Option (String × String)) : Except UploadError (List String) :=
  match reply.nextExpectedRanges with
  | some ranges => .ok ranges
  | none =>
    if initial then .ok ["0-"]
    else if acceptedFinal ∧ commitTarget.isSome then .ok []
    else .error (protocol "upload status has no ranges")

/-- Is every byte staged and the commit all that is left? -/
def isReady (request : UploadRequest) (initial : Bool) (commitTarget : Option (String × String))
    (ranges : List String) : Bool :=
  commitTarget.isSome && !initial && (ranges = [] || ranges = [toString request.size ++ "-"])

/-- The part a reply asks for; nothing is left of a transfer that is ready. -/
def replyPart (request : UploadRequest) (ready : Bool) (ranges : List String) :
    Except UploadError (Nat × Nat) :=
  if ready then .ok (request.size, 0) else nextRange ranges request.size

/-- `progress` at a moment. -/
def OneDrive.progress (now : Nat) (request : UploadRequest) (reply : SessionReply)
    (existing : Option Session) (initial : Bool) (commitTarget : Option (String × String))
    (acceptedFinal : Bool) : Except UploadError UploadStep := do
  let url ← replyUrl reply existing
  let _ ← od.sessionUrl url
  let ranges ← replyRanges reply initial acceptedFinal commitTarget
  let ready := isReady request initial commitTarget ranges
  let (offset, length) ← replyPart request ready ranges
  if initial ∧ offset ≠ 0 then .error (protocol "new upload session did not start at zero")
  else
    let expiresAt ← od.expiry now reply.expirationDateTime
    let checkpoint := (Session.mk 1 request url expiresAt offset length commitTarget).encoded
    if ready then .ok (.commit checkpoint) else .ok (.continue checkpoint offset length)

/-! ## Calls -/

/-- `upload_body` -/
def uploadBody (response : Response) (session : Bool) : Except UploadError Unit :=
  match response.status with
  | 200 | 201 | 202 => if response.body then .ok () else .error .uncertain
  | 409 | 412 => .error .conflict
  | 507 => .error .quota
  | 423 => .error .locked
  | 404 => .error (if session then .sessionGone else .provider .notFound)
  | 410 => .error (if session then .sessionGone else .unexpectedStatus 410)
  | 401 => .error (if session then .sessionGone else .provider .authentication)
  | 403 => .error (if session then .sessionGone else .provider .permission)
  | 429 | 503 => .error (.provider (.throttled response.retryAfter))
  | 400 => .error .invalid
  | status => .error (.unexpectedStatus status)

/-- What a body reads as, or the result is unknown. -/
def readAs {α : Type} : Option α → Except UploadError α
  | none => .error .uncertain
  | some a => .ok a

/-- `receipt` -/
def OneDrive.receipt (request : UploadRequest) (response : Response) : Except UploadError Node := do
  let item ← readAs response.item
  if item.size ≠ some request.size ∨ item.driveId ≠ some request.scope.collection then
    .error .uncertain
  else
    match mapItem od.rfc3339 item with
    | .ok (.upsert node) =>
      let matching : Bool := match request.intent with
        | .create parent name => node.parentId = some parent && node.name = name
        | .replace item _ => node.id = item
      if !matching ∨ node.kind ≠ .file ∨ node.contentRevision = none then .error .uncertain
      else .ok node
    | _ => .error .uncertain

/-- The parent and the name a replacement is committed to. -/
def commitTarget (item expectedEtag : String) (metadata : Except UploadError (Option DriveItem)) :
    Except UploadError (String × String) := do
  match ← metadata with
  | none => .error (protocol "invalid replacement metadata")
  | some current =>
    if current.id ≠ item ∨ current.eTag ≠ some expectedEtag ∨ !current.file then .error .conflict
    else
      match current.parentReference.bind Parent.id, current.name with
      | none, _ => .error (protocol "replacement has no parent")
      | some _, none => .error (protocol "replacement has no name")
      | some parent, some name => .ok (parent, name)

/-- Where an upload is committed to: a new file needs no commit. -/
def uploadTarget (request : UploadRequest) (metadata : Except UploadError (Option DriveItem)) :
    Except UploadError (Option (String × String)) :=
  match request.intent with
  | .create _ _ => .ok none
  | .replace item expectedEtag => (commitTarget item expectedEtag metadata).map some

/-- `begin_upload`, with the metadata of a file to be replaced and the response to the request that
follows. -/
def OneDrive.beginUpload (now : Nat) (request : UploadRequest)
    (metadata : Except UploadError (Option DriveItem)) (answer : Except UploadError Response) :
    Except UploadError UploadStep := do
  od.checkUpload request
  if request.size = 0 then
    let response ← answer
    uploadBody response false
    if response.status = 202 then .error .uncertain
    else (od.receipt request response).map .complete
  else
    let target ← uploadTarget request metadata
    let response ← answer
    uploadBody response false
    if response.status ≠ 200 then .error .uncertain
    else
      let reply ← readAs response.reply
      od.progress now request reply none true target false

/-- `inspect_upload`, begun at one moment and answered at another. -/
def OneDrive.inspectUpload (begun ended : Nat) (request : UploadRequest) (checkpoint : String)
    (answer : Except UploadError Response) : Except UploadError UploadStep := do
  od.checkUpload request
  let session ← od.loadSession begun request checkpoint
  let response ← answer
  uploadBody response true
  if response.status ≠ 200 then .error .uncertain
  else
    let reply ← readAs response.reply
    od.progress ended request reply (some session) false session.commitTarget false

/-- A part on its way: the session, the numbers of its `Content-Range` and its bytes. -/
structure SentPart where
  url : String
  first : Nat
  last : Nat
  size : Nat
  bytes : List UInt8
  deriving DecidableEq, Repr

/-- What follows from the response to a part. -/
def OneDrive.partAnswered (ended : Nat) (request : UploadRequest) (session : Session) (finish : Nat)
    (response : Response) : Except UploadError UploadStep := do
  uploadBody response true
  if response.status = 202 then
    let reply ← readAs response.reply
    let next ← od.progress ended request reply (some session) false session.commitTarget
      (finish = request.size)
    match next with
    | .continue _ offset _ => if offset < finish then .error .uncertain else .ok next
    | _ => .ok next
  else if session.commitTarget.isSome then
    .error (.unsupported "deferred replacement was committed automatically")
  else (od.receipt request response).map .complete

/-- `upload_part`, with the part it sent if it sent one. -/
def OneDrive.uploadPart (begun ended : Nat) (request : UploadRequest) (checkpoint : String) (offset : Nat)
    (bytes : List UInt8) (send : SentPart → Except UploadError Response) :
    Option SentPart × Except UploadError UploadStep :=
  let admitted : Except UploadError Session := do
    od.checkUpload request
    let session ← od.loadSession begun request checkpoint
    if session.length = 0 ∨ offset ≠ session.offset ∨ bytes.length ≠ session.length then
      .error .invalid
    else .ok session
  match admitted with
  | .error e => (none, .error e)
  | .ok session =>
    let finish := offset + bytes.length
    let sent := SentPart.mk session.url offset (finish - 1) request.size bytes
    (some sent, (send sent).bind (od.partAnswered ended request session finish))

end

end Cirrove.Graph
