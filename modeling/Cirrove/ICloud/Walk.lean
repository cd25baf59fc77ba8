import Cirrove.Google.Files
import Cirrove.Upload.Contract

/-!
# The snapshot walk

The full-snapshot feed of `cirrove-icloud/src/provider.rs`. A call lists one folder or two; where
the walk stands, the stack of folders with a position and a fingerprint of the listing each, is in
the cursor it hands out, as JSON text.

The reader of cursors and the digest of a listing (`serde_json::to_vec`, `Sha256::digest` and
`hex::encode`) are third-party code and parameters. The service is the listings it answers with.
-/

namespace Cirrove.ICloud

open Cirrove.Library
open Cirrove.Google (ProviderError)

def rootId : String := "FOLDER::com.apple.CloudDocs::root"
def maxCursor : Nat := 128 * 1024
def maxDepth : Nat := 128

structure DriveEntry where
  drivewsid : String
  docwsid : String
  itemId : String
  zone : String
  name : String
  extension : String
  parentId : String
  etag : String
  kind : String
  size : Nat
  items : List DriveEntry
  numberOfItems : Option Nat

namespace DriveEntry

def displayName (e : DriveEntry) : String :=
  if e.extension = "" then e.name else e.name ++ "." ++ e.extension

def isFolder (e : DriveEntry) : Bool := e.kind ∈ ["FOLDER", "APP_CONTAINER", "APP_LIBRARY"]

end DriveEntry

/-! ## Nodes -/

/-- The node of an entry, if it can be shown. -/
def entryNode (parent : String) (e : DriveEntry) : Except ProviderError Node :=
  let kind : Option NodeKind :=
    if e.isFolder then some .folder else if e.kind = "FILE" then some .file else none
  match kind with
  | none => .error (.protocol "unsupported iCloud item kind")
  | some kind =>
    if e.displayName = "" ∨ '/' ∈ e.displayName.toList then
      .error (.protocol "invalid iCloud item name")
    else
      .ok {
        id := e.drivewsid
        parentId := some parent
        name := e.displayName
        kind := kind
        size := e.size
        modifiedUnix := 0
        etag := if e.etag = "" then none else some e.etag
        contentVersion := none
        target := none
        package := e.kind ∈ ["APP_CONTAINER", "APP_LIBRARY"] }

/-- The loop of `directory_nodes`, with the ids it has passed. -/
def directoryNodes (parent : String) (seen : List String) :
    List DriveEntry → Except ProviderError (List Node)
  | [] => .ok []
  | e :: rest => do
    if e.drivewsid ∈ seen ∨ e.drivewsid = rootId then
      .error (.protocol "duplicate iCloud item identity")
    else
      let node ← entryNode parent e
      let nodes ← directoryNodes parent (e.drivewsid :: seen) rest
      .ok (node :: nodes)

/-- `nodes` -/
def nodes (parent : String) (items : List DriveEntry) : Except ProviderError (List Change) :=
  (directoryNodes parent [] items).map fun nodes => nodes.map .upsert

def rootNode : Node where
  id := rootId
  parentId := none
  name := "iCloud Drive"
  kind := .folder
  size := 0
  modifiedUnix := 0
  etag := none
  contentVersion := none
  target := none
  package := false

/-! ## Walks -/

structure Frame where
  folder : String
  nextFolder : Nat
  fingerprint : String
  deriving DecidableEq, Repr

structure Walk where
  scope : Scope
  frames : List Frame
  deriving DecidableEq, Repr

def Frame.encoded (f : Frame) : List Char :=
  '\x7b' :: (Json.key "folder" ++ (Json.quoted f.folder.toList ++
    ',' :: (Json.key "next_folder" ++ (Json.number f.nextFolder ++
    ',' :: (Json.key "fingerprint" ++ (Json.quoted f.fingerprint.toList ++ ['\x7d']))))))

/-- `serde_json::to_string` of a walk. -/
def Walk.encoded (w : Walk) : String :=
  String.ofList ('\x7b' :: (Json.key "scope" ++ (w.scope.encoded.toList ++
    ',' :: (Json.key "frames" ++ (Json.array Frame.encoded w.frames ++ ['\x7d'])))))

/-- `serde_json::from_str` of a walk, of which it is used that it reads a written one back. -/
structure WalkReader where
  fromStr : String → Option Walk
  reads : ∀ w : Walk, fromStr w.encoded = some w

/-- The digest of an ordered listing. -/
structure Digest where
  digest : List DriveEntry → String
  length_digest : ∀ items, (digest items).utf8ByteSize = 64

/-- The provider, with what it takes from third-party code. -/
structure ICloudDrive where
  scope : Scope
  reader : WalkReader
  sha : Digest

/-- The order of ids. -/
def entryLe (a b : DriveEntry) : Bool := a.drivewsid ≤ b.drivewsid

/-- The ids of the folders of a listing, in order. -/
def subfolders (items : List DriveEntry) : List String :=
  ((items.filter DriveEntry.isFolder).mergeSort entryLe).map DriveEntry.drivewsid

section

variable (drive : ICloudDrive)

/-- `fingerprint` -/
def ICloudDrive.fingerprint (items : List DriveEntry) : String :=
  drive.sha.digest (items.mergeSort entryLe)

/-- A frame `decode` accepts behind others. -/
def Frame.accepted (f : Frame) (seen : List String) : Bool :=
  "FOLDER::".toList.isPrefixOf f.folder.toList && f.folder.utf8ByteSize ≤ 512 &&
    f.fingerprint.utf8ByteSize = 64 && !seen.contains f.folder

/-- The loop of `decode`, with the folders it has passed. -/
def checkFrames (seen : List String) : List Frame → Except ProviderError Unit
  | [] => .ok ()
  | f :: rest =>
    if f.accepted seen then checkFrames (f.folder :: seen) rest
    else .error (.protocol "invalid iCloud continuation frame")

/-- `Walk::decode` -/
def ICloudDrive.decode (cursor : Cursor) (scope : Scope) : Except ProviderError Walk :=
  if maxCursor < cursor.value.utf8ByteSize then
    .error (.protocol "iCloud continuation exceeds limit")
  else
    match drive.reader.fromStr cursor.value with
    | none => .error (.protocol "invalid iCloud continuation")
    | some walk =>
      if walk.scope ≠ scope ∨ walk.frames = [] ∨ maxDepth < walk.frames.length ∨
          walk.frames.head?.map Frame.folder ≠ some rootId then
        .error (.protocol "invalid iCloud continuation scope")
      else (checkFrames [] walk.frames).map fun _ => walk

/-- `Walk::encode` -/
def Walk.encode (w : Walk) : Except ProviderError Cursor :=
  if maxCursor < w.encoded.utf8ByteSize then
    .error (.protocol "iCloud continuation exceeds limit")
  else .ok ⟨w.encoded⟩

/-- `Walk::new` -/
def ICloudDrive.newWalk (scope : Scope) (items : List DriveEntry) : Walk :=
  ⟨scope, [⟨rootId, 0, drive.fingerprint items⟩]⟩

/-- `Walk::next_folder` -/
def ICloudDrive.nextFolder (w : Walk) (items : List DriveEntry) :
    Except ProviderError (Walk × Option String) :=
  match w.frames.getLast? with
  | none => .error (.protocol "empty iCloud continuation")
  | some frame =>
    if drive.fingerprint items ≠ frame.fingerprint then .error .cursorExpired
    else
      let folders := subfolders items
      if folders.length < frame.nextFolder then .error (.protocol "invalid iCloud folder position")
      else
        match folders[frame.nextFolder]? with
        | none => .ok (w, none)
        | some folder =>
          .ok ({ w with frames :=
            w.frames.dropLast ++ [{ frame with nextFolder := frame.nextFolder + 1 }] }, some folder)

/-- `Walk::descend` -/
def ICloudDrive.descend (w : Walk) (folder : String) (items : List DriveEntry) :
    Except ProviderError Walk :=
  if maxDepth ≤ w.frames.length ∨ ∃ frame ∈ w.frames, frame.folder = folder then
    .error (.protocol "iCloud folder ancestry is cyclic or too deep")
  else .ok { w with frames := w.frames ++ [⟨folder, 0, drive.fingerprint items⟩] }

/-! ## Calls -/

/-- What the service answers when it is asked to list a folder. -/
abbrev Listing := String → Except ProviderError (List DriveEntry)

/-- `list_folder`. The session refuses some ids without asking. -/
def listFolder (service : Listing) (folder : String) : Except ProviderError (List DriveEntry) :=
  if folder = "" ∨ 512 < folder.utf8ByteSize ∨ '/' ∈ folder.toList then .error .unavailable
  else service folder

/-- The page of a walk that goes on. -/
def continuePage (changes : List Change) (w : Walk) : Except ProviderError ChangePage := do
  let cursor ← w.encode
  .ok ⟨changes, .continue cursor⟩

/-- `changes` of the full snapshot. The first request of a call is answered by one listing, the
second by the other. -/
def ICloudDrive.changes (scope : Scope) (cursor : Option Cursor) (first second : Listing) :
    Except ProviderError ChangePage :=
  if scope ≠ drive.scope then .error .permission
  else
    match cursor with
    | none => do
      let entries ← listFolder first rootId
      let shown ← nodes rootId entries
      continuePage (.upsert rootNode :: shown) (drive.newWalk scope entries)
    | some cursor => do
      let walk ← drive.decode cursor scope
      match walk.frames.getLast? with
      | none => .error (.protocol "empty iCloud continuation")
      | some top =>
        let entries ← listFolder first top.folder
        let (walk, next) ← drive.nextFolder walk entries
        match next with
        | some folder =>
          let children ← listFolder second folder
          let walk ← drive.descend walk folder children
          let shown ← nodes folder children
          continuePage shown walk
        | none =>
          let frames := walk.frames.dropLast
          if frames = [] then .ok ⟨[], .complete ⟨"snapshot-complete"⟩⟩
          else continuePage [] { walk with frames := frames }

end

end Cirrove.ICloud
