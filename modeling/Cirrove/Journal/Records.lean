import Cirrove.Core

/-!
# Records of the journal

The values the journal stores: what a write wants (`cirrove-core/src/upload.rs` and
`mutation.rs`), where it stands, and the local names it belongs to
(`cirrove-service/src/journal.rs` and `journal/`).

Only ordinary file bytes are modelled. The representations of native documents and the
handoff of a replaced identity have tables and operations of their own.
-/

namespace Cirrove.Journal

/-- The identity of an operation, an attempt, a local object or a working file. -/
structure Uuid where
  value : Nat
  deriving DecidableEq, Repr

inductive JournalError where
  | storage
  | busy
  | account
  | intent
  | quota
  | deviceFull
  | missing
  | stale
  | corrupt
  | schema
  deriving DecidableEq, Repr

/-- `ok` or the given error. -/
def check (condition : Bool) (error : JournalError) : Except JournalError Unit :=
  if condition then .ok () else .error error

theorem check_eq_ok {condition : Bool} {error : JournalError} {u : Unit} :
    check condition error = .ok u ↔ condition = true := by
  unfold check
  split
  · next h => simp [h]
  · next h => simp [h]

/-! ## What a write wants -/

/-- `mutation::text` and the check of `UploadIntent::validate`. -/
def validText (value : String) : Bool :=
  value ≠ "" && value.utf8ByteSize ≤ 4096 && !value.toList.contains '\x00'

def validName (value : String) : Bool :=
  validText value && value ≠ "." && value ≠ ".." && !value.toList.contains '/'

/-- A usable precondition. -/
def validEtag (value : String) : Bool :=
  validText value && !value.toList.any (fun c => c = '\r' || c = '\n' || c = '*')

inductive UploadIntent where
  | create (parent name : String)
  | replace (item expectedEtag : String)
  deriving DecidableEq, Repr

/-- `UploadIntent::validate` -/
def UploadIntent.validate : UploadIntent → Bool
  | .create parent name => validText parent && validName name
  | .replace item expectedEtag => validText item && validEtag expectedEtag

inductive MutationIntent where
  | createFolder (parent name : String)
  | relocate (before : Node) (parent name : String)
  | removeFile (before : Node)
  | removeFolder (before : Node)
  | trashNativeDocument (before : Node)
  deriving DecidableEq, Repr

/-- `MutationIntent::before` -/
def MutationIntent.before : MutationIntent → Option Node
  | .createFolder _ _ => none
  | .relocate before _ _ => some before
  | .removeFile before => some before
  | .removeFolder before => some before
  | .trashNativeDocument before => some before

/-- Does the intent remove a file or a folder? -/
def MutationIntent.isRemoval : MutationIntent → Bool
  | .removeFile _ => true
  | .removeFolder _ => true
  | _ => false

inductive MutationReceipt where
  | upsert (node : Node)
  | removed (item : String)
  deriving DecidableEq, Repr

structure MutationRequest where
  scope : Scope
  intent : MutationIntent
  deriving DecidableEq, Repr

/-- The source of a change as `MutationRequest::validate` wants it. -/
def validBefore (before : Node) : Bool :=
  validText before.id && validName before.name && before.parentId.any validText &&
    before.etag.any validEtag && before.target.isNone && before.kind ≠ .shortcut

/-- `MutationRequest::validate` -/
def MutationRequest.validate (r : MutationRequest) : Bool :=
  validText r.scope.account && validText r.scope.provider && validText r.scope.collection &&
    r.intent.before.all validBefore &&
    match r.intent with
    | .createFolder parent name => validText parent && validName name
    | .relocate before parent name => validText parent && validName name && before.id ≠ parent
    | .removeFile before => before.kind = .file
    | .removeFolder before => before.kind = .folder
    | .trashNativeDocument before => before.kind = .folder && before.package

/-- `MutationRequest::accepts` -/
def MutationRequest.accepts (r : MutationRequest) (receipt : MutationReceipt) : Bool :=
  match r.intent, receipt with
  | .createFolder parent name, .upsert node =>
    node.id ≠ "" && node.kind = .folder && node.target.isNone && node.name = name &&
      node.parentId = some parent
  | .relocate before parent name, .upsert node =>
    node.id = before.id && node.kind = before.kind && node.target.isNone && node.name = name &&
      node.parentId = some parent && node.etag.any (· ≠ "")
  | .removeFile before, .removed item => before.id = item
  | .removeFolder before, .removed item => before.id = item
  | .trashNativeDocument before, .removed item => before.id = item
  | _, _ => false

/-- Evidence that two revisions have the same content. -/
structure VerifiedMutationContent where
  scope : Scope
  item : String
  sourceEtag : String
  resultEtag : String
  size : Nat
  sha256 : String
  deriving DecidableEq, Repr

def validDigest (sha256 : String) : Bool :=
  sha256.utf8ByteSize = 64 &&
    sha256.toList.all (fun c => c.isDigit || ('a' ≤ c && c ≤ 'f'))

/-- `VerifiedMutationContent::valid_for` -/
def VerifiedMutationContent.validFor (p : VerifiedMutationContent) (request : MutationRequest)
    (receipt : MutationReceipt) : Bool :=
  match request.intent, receipt with
  | .relocate before _ _, .upsert after =>
    request.accepts receipt && p.scope = request.scope && p.item = before.id &&
      before.kind = .file && !before.package && !after.package && before.target.isNone &&
      before.etag = some p.sourceEtag && after.etag = some p.resultEtag &&
      [p.sourceEtag, p.resultEtag].all (fun etag => etag ≠ "" && etag.utf8ByteSize ≤ 4096 &&
        !etag.toList.any (fun c => c = '\r' || c = '\n' || c = '*')) &&
      p.size = before.size && p.size = after.size && validDigest p.sha256
  | _, _ => false

/-! ## Where a write stands -/

inductive UploadState where
  | preparing
  | pending
  | uploading
  | verifyRequired
  | verifying
  | uploaded
  | conflict
  | failed
  | resolved
  deriving DecidableEq, Repr

inductive MutationState where
  | pending
  | applying
  | verifyRequired
  | verifying
  | applied
  | resolved
  | conflict
  | failed
  | needsReview
  deriving DecidableEq, Repr

/-- A worker holds the operation. -/
def UploadState.inFlight : UploadState → Bool
  | .uploading => true
  | .verifying => true
  | _ => false

def MutationState.inFlight : MutationState → Bool
  | .applying => true
  | .verifying => true
  | _ => false

/-- Nothing more is to be done for the operation. -/
def UploadState.isComplete : UploadState → Bool
  | .uploaded => true
  | .resolved => true
  | _ => false

def MutationState.isComplete : MutationState → Bool
  | .applied => true
  | .resolved => true
  | _ => false

/-- A preceding operation whose receipt supplies the base version. -/
structure WriteBase where
  predecessor : Uuid
  resolved : Bool
  deriving DecidableEq, Repr

structure UploadRecord where
  id : Uuid
  sequence : Nat
  scope : Scope
  intent : UploadIntent
  state : UploadState
  size : Nat
  sha256 : String
  attempt : Option Uuid
  remote : Option Node
  base : Option WriteBase
  workingFile : Option Uuid
  sessionKey : Option Uuid
  transferredBytes : Nat
  retryAt : Nat
  failedAttempts : Nat
  savedAt : Nat
  deriving DecidableEq, Repr

structure MutationRecord where
  id : Uuid
  sequence : Nat
  request : MutationRequest
  state : MutationState
  attempt : Option Uuid
  receipt : Option MutationReceipt
  verifiedContent : Option VerifiedMutationContent
  retryAt : Nat
  failedAttempts : Nat
  base : Option WriteBase
  workingFile : Option Uuid
  preparedItem : Option String
  localReady : Bool
  deriving DecidableEq, Repr

/-- `generations::Operation` -/
inductive Operation where
  | upload (record : UploadRecord)
  | mutation (record : MutationRecord)
  deriving DecidableEq, Repr

namespace Operation

def id : Operation → Uuid
  | .upload r => r.id
  | .mutation r => r.id

def scope : Operation → Scope
  | .upload r => r.scope
  | .mutation r => r.request.scope

def sequence : Operation → Nat
  | .upload r => r.sequence
  | .mutation r => r.sequence

def base : Operation → Option WriteBase
  | .upload r => r.base
  | .mutation r => r.base

def attempt : Operation → Option Uuid
  | .upload r => r.attempt
  | .mutation r => r.attempt

def inFlight : Operation → Bool
  | .upload r => r.state.inFlight
  | .mutation r => r.state.inFlight

def isComplete : Operation → Bool
  | .upload r => r.state.isComplete
  | .mutation r => r.state.isComplete

/-- `Operation::kind`: a removal leaves no node behind. -/
def kind : Operation → Option NodeKind
  | .upload _ => some .file
  | .mutation r =>
    match r.request.intent with
    | .createFolder _ _ => some .folder
    | .relocate before _ _ => some before.kind
    | _ => none

/-- `Operation::confirmed_node` -/
def confirmedNode : Operation → Option Node
  | .upload r => if r.state = .uploaded then r.remote else none
  | .mutation r =>
    match r.state, r.receipt with
    | .applied, some (.upsert node) => if r.request.accepts (.upsert node) then some node else none
    | _, _ => none

end Operation

/-! ## Local names -/

inductive NamespaceNames where
  | sensitive
  | insensitive
  deriving DecidableEq, Repr

/-- A local object. Its identity survives renames, saves and the assignment of a cloud
    identity. -/
structure NamespaceObject where
  id : Uuid
  scope : Scope
  names : NamespaceNames
  node : Node
  remote : Option Node
  remoteOwned : Bool
  remoteSequence : Nat
  workingFile : Option Uuid
  latest : Option Uuid
  revision : Nat
  followsRemote : Bool
  unlinked : Bool
  deriving DecidableEq, Repr

/-- Mutable application bytes of one file. -/
structure WorkingFile where
  id : Uuid
  scope : Scope
  node : Node
  intent : UploadIntent
  latest : Option Uuid
  dirty : Bool
  generation : Nat
  initialRemote : Option Node
  unlinked : Bool
  deriving DecidableEq, Repr

/-- An editor's atomic replacement of one file by another. -/
structure ReplacementRecord where
  id : Uuid
  source : Uuid
  victim : Uuid
  cleanup : Uuid
  cleanupObject : Uuid
  localReady : Bool
  remoteApplied : Bool
  rescuedAs : Option Uuid
  deriving DecidableEq, Repr

end Cirrove.Journal
