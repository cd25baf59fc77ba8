import Cirrove.Core
import Mathlib.Data.List.Basic

/-!
# Google Drive files

`cirrove-googledrive/src/files.rs`: the metadata of one file as Drive reports it and the
node it is presented as. Names are escaped and carry the full identity, so that they are
legal, unique and independent of the page a file was read from.

The parser of RFC 3339 times is third-party code. It is a parameter: the seconds since the
epoch that a text stands for, or none.
-/

namespace Cirrove.Google

/-- `ProviderError` of `cirrove-core`. -/
inductive ProviderError where
  | versionChanged
  | cancelled
  | authentication
  | permission
  | notFound
  | cursorExpired
  | throttled (seconds : Nat)
  | unavailable
  | protocol (message : String)
  deriving DecidableEq, Repr

def maxTokenBytes : Nat := 16 * 1024

/-- `valid_id` -/
def validId (id : String) : Except ProviderError Unit :=
  if id = "" ∨ id.utf8ByteSize > 128 ∨
      !id.toList.all (fun c => c.isAlphanum || c = '_' || c = '-') then
    .error (.protocol "invalid Google item identity")
  else .ok ()

/-- `valid_token` -/
def validToken (token : String) : Except ProviderError Unit :=
  if token = "" ∨ token.utf8ByteSize > maxTokenBytes then
    .error (.protocol "invalid Google continuation")
  else .ok ()

/-! ## MIME types -/

def folderMime : String := "application/vnd.google-apps.folder"
def shortcutMime : String := "application/vnd.google-apps.shortcut"
def nativeDocumentMime : String := "application/vnd.google-apps.document"
def nativeSpreadsheetMime : String := "application/vnd.google-apps.spreadsheet"

/-- The documents that are presented as a folder of exported formats. -/
inductive NativeKind where
  | document
  | spreadsheet
  deriving DecidableEq, Repr

namespace NativeKind

/-- `NativeKind::from_mime` -/
def fromMime (mime : String) : Option NativeKind :=
  if mime = nativeDocumentMime then some .document
  else if mime = nativeSpreadsheetMime then some .spreadsheet
  else none

def packageExtension : NativeKind → String
  | .document => ".gdoc"
  | .spreadsheet => ".gsheet"

def versionPrefix : NativeKind → String
  | .document => "google-native-document:"
  | .spreadsheet => "google-native-spreadsheet:"

end NativeKind

/-! ## Names -/

/-- `%`, `/` and the null character are escaped. -/
def escapeName (name : String) : List Char :=
  name.toList.flatMap fun c =>
    if c = '%' then "%25".toList
    else if c = '/' then "%2F".toList
    else if c = '\x00' then "%00".toList
    else [c]

/-- The longest beginning of at most `bytes` bytes that ends between two characters. -/
def takeBytes : Nat → List Char → List Char
  | _, [] => []
  | bytes, c :: rest =>
    if c.utf8Size ≤ bytes then c :: takeBytes (bytes - c.utf8Size) rest else []

/-- `str::rsplit_once('.')` -/
def rsplitDot (text : List Char) : Option (List Char × List Char) :=
  if '.' ∈ text then
    let extension := (text.reverse.takeWhile (· ≠ '.')).reverse
    some (text.take (text.length - extension.length - 1), extension)
  else none

/-- The stem and the extension of an escaped name, as `projected_name` splits them. -/
def splitExtension (escaped : List Char) : List Char × String :=
  match rsplitDot escaped with
  | some (stem, extension) =>
    if stem ≠ [] ∧ (String.ofList extension).utf8ByteSize ≤ 20 then
      (stem, "." ++ String.ofList extension)
    else (escaped, "")
  | none => (escaped, "")

/-- The stem cut so that the name has at most 255 bytes. An accepted identity has at most
    128 bytes, so the subtraction does not go below zero. -/
def joinName (stem : List Char) (id ext : String) : String :=
  let suffix := " [" ++ id ++ "]" ++ ext
  String.ofList (takeBytes (min (String.ofList stem).utf8ByteSize (255 - suffix.utf8ByteSize)) stem)
    ++ suffix

/-- `projected_name` -/
def projectedName (name id : String) (link : Bool) : String :=
  let escaped := escapeName name
  let (stem, ext) := if link then (escaped, ".url") else splitExtension escaped
  joinName stem id ext

/-- `projected_name_with_extension` -/
def projectedNameWithExtension (name id ext : String) : String :=
  joinName (escapeName name) id ext

/-! ## Files -/

/-- `shortcutDetails` -/
structure Shortcut where
  targetId : String
  targetMimeType : String
  targetResourceKey : Option String
  deriving DecidableEq, Repr

/-- A file as Drive reports it. `capabilities` is read by downloads only. -/
structure File where
  id : String
  name : String
  mimeType : String
  parents : List String
  size : Option String
  version : Option String
  headRevisionId : Option String
  modifiedTime : Option String
  trashed : Bool
  driveId : Option String
  shortcutDetails : Option Shortcut
  deriving DecidableEq, Repr

/-- `browser_link` -/
def browserLink (id : String) : String :=
  "[InternetShortcut]\nURL=https://drive.google.com/open?id=" ++ id ++ "\n"

/-- `document_link` -/
def documentLink (id mime : String) : Option String :=
  if mime.startsWith "application/vnd.google-apps." ∧ mime ≠ folderMime ∧ mime ≠ shortcutMime ∧
      (NativeKind.fromMime mime).isNone then
    some (browserLink id)
  else none

/-- `version_precondition` -/
def versionPrecondition (version : String) : String := "google-version:" ++ version

/-- `str::parse::<u64>` -/
def parseU64 (text : String) : Option Nat :=
  let digits := match text.toList with
    | '+' :: rest => rest
    | chars => chars
  if digits = [] ∨ !digits.all Char.isDigit then none
  else
    let value := digits.foldl (fun value c => 10 * value + (c.toNat - '0'.toNat)) 0
    if value < 2 ^ 64 then some value else none

namespace File

/-- The checks of `File::node` before the kind of the file is looked at; they give the
    version. -/
def checked (f : File) (collection : String) : Except ProviderError String := do
  validId f.id
  if f.trashed then .error .notFound
  else if f.driveId.any (· ≠ collection) then .error .permission
  else if f.parents.length > 1 then .error (.protocol "multiple Google parents")
  else
    f.parents.forM validId
    match f.version.filter (fun v => v ≠ "" ∧ v.toList.all Char.isDigit) with
    | some version => .ok version
    | none => .error (.protocol "missing Google file version")

/-- `File::browser_link_node` -/
def browserLinkNode (f : File) (version : String) : Node where
  id := f.id
  parentId := f.parents.head?
  name := projectedName f.name f.id true
  kind := .file
  size := (browserLink f.id).utf8ByteSize
  modifiedUnix := 0
  etag := none
  contentVersion := some ("google-version:" ++ version)
  target := none
  package := false

/-- What a file is presented as, apart from its name and version. -/
inductive Presented where
  /-- A shortcut with a resource key is kept as a browser link. -/
  | browserLink
  | plain (kind : NodeKind) (size : Nat) (target : Option RemoteRef)

/-- The target of a shortcut. -/
def shortcutTarget (f : File) (collection : String) : Except ProviderError Presented :=
  match f.shortcutDetails with
  | none => .error (.protocol "missing shortcut target")
  | some shortcut => do
    validId shortcut.targetId
    if shortcut.targetResourceKey.isSome then .ok .browserLink
    else .ok (.plain .shortcut 0 (some {
      collection := collection
      item := shortcut.targetId
      kind := some (if shortcut.targetMimeType = folderMime then .folder else .file) }))

/-- The kind, the size and the target of a file. -/
def presented (f : File) (collection : String) : Except ProviderError Presented :=
  if f.mimeType = folderMime ∨ (NativeKind.fromMime f.mimeType).isSome then
    .ok (.plain .folder 0 none)
  else if f.mimeType = shortcutMime then f.shortcutTarget collection
  else
    match documentLink f.id f.mimeType with
    | some link => .ok (.plain .file link.utf8ByteSize none)
    | none =>
      match f.size.bind parseU64 with
      | some size => .ok (.plain .file size none)
      | none => .error (.protocol "missing Google file size")

/-- The content version: of a native document by its version, of a binary file by its head
    revision. -/
def revision (f : File) (version : String) : Except ProviderError String :=
  match NativeKind.fromMime f.mimeType with
  | some native => .ok (native.versionPrefix ++ version)
  | none =>
    if f.mimeType ≠ folderMime ∧ f.mimeType ≠ shortcutMime ∧
        (documentLink f.id f.mimeType).isNone then
      match f.headRevisionId.filter (fun r => r ≠ "" ∧ r.utf8ByteSize ≤ maxTokenBytes) with
      | some head => .ok ("google-revision:" ++ head)
      | none => .error (.protocol "missing Google binary head revision")
    else .ok ("google-version:" ++ version)

/-- The name a file is presented under. -/
def presentedName (f : File) : String :=
  match NativeKind.fromMime f.mimeType with
  | some native => projectedNameWithExtension f.name f.id native.packageExtension
  | none => projectedName f.name f.id (documentLink f.id f.mimeType).isSome

/-- `File::node`, with the parser of times. -/
def node (rfc3339 : String → Option Int) (f : File) (collection : String) :
    Except ProviderError Node := do
  let version ← f.checked collection
  match ← f.presented collection with
  | .browserLink => .ok (f.browserLinkNode version)
  | .plain kind size target =>
    let contentVersion ← f.revision version
    .ok {
      id := f.id
      parentId := f.parents.head?
      name := f.presentedName
      kind := kind
      size := size
      modifiedUnix := ((f.modifiedTime.bind rfc3339).map fun t => (max t 0).toNat).getD 0
      etag := if (documentLink f.id f.mimeType).isNone ∧ f.mimeType ≠ shortcutMime then
        some (versionPrecondition version) else none
      contentVersion := some contentVersion
      target := target
      package := (NativeKind.fromMime f.mimeType).isSome }

/-- A presented file keeps its identity. -/
theorem node_id {rfc3339 : String → Option Int} {f : File} {collection : String} {n : Node}
    (h : f.node rfc3339 collection = .ok n) : n.id = f.id := by
  unfold node at h
  cases hversion : f.checked collection with
  | error e => rw [hversion] at h; cases h
  | ok version =>
    rw [hversion] at h
    cases hpresented : f.presented collection with
    | error e => rw [hpresented] at h; cases h
    | ok presented =>
      rw [hpresented] at h
      cases presented with
      | browserLink =>
        cases h
        rfl
      | plain kind size target =>
        cases hrevision : f.revision version with
        | error e =>
          simp only [bind, Except.bind, hrevision] at h
          cases h
        | ok contentVersion =>
          simp only [bind, Except.bind, hrevision] at h
          cases h
          rfl

end File

end Cirrove.Google
