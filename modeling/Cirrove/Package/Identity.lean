import Cirrove.Package.Archive

/-!
# The content identity of a package

The rest of `cirrove-icloud/src/package_semantic.rs`: a wrapped archive is bound to its
expected root (`bindRoot`), the root and all implied directories are added
(`directoryClosure`), and everything is hashed in one framed stream (`identityStream`).
-/

namespace Cirrove.Package

open Cirrove.Library
open Std (ExtTreeMap)

/-- A content identity; it is compared as a whole. -/
structure PackageSemanticIdentity where
  version : Nat
  sha256 : String
  entries : Nat
  files : Nat
  expandedBytes : Nat
  deriving DecidableEq, Repr

/-! ## The expected root -/

def validateRoot (root : Bytes) : Except ProviderError Unit := do
  let refusal := ProviderError.protocol "invalid expected package root"
  if slash ∈ root then throw refusal
  if (← safeName root false) ≠ root then throw refusal

/-- The path of an entry below the root. -/
def relativeName (root name : Bytes) (entry : Entry) : Except ProviderError Bytes :=
  if name = root then
    if entry.directory then pure [] else throw (.protocol "package root is not a directory")
  else
    match name.dropPrefix? (root ++ [slash]) with
    | some (b :: relative) => pure (b :: relative)
    | _ => throw (.protocol "package entry lies outside expected root")

def bindEntry (root : Bytes) (entries : ExtTreeMap Bytes Entry) (item : Bytes × Entry) :
    Except ProviderError (ExtTreeMap Bytes Entry) := do
  let relative ← relativeName root item.1 item.2
  refuseIf (entries.contains relative)
  pure (entries.insert relative item.2)

def bindRoot (content : Fingerprint) (root : Bytes) : Except ProviderError Fingerprint := do
  if content.files = 0 then throw (.protocol "package root has no file content")
  let entries ← content.entries.toList.foldlM (bindEntry root) ∅
  pure { content with entries }

/-! ## Implied directories -/

/-- A directory, as the closure writes it and as it expects to find it. -/
def directoryEntry (sha : Sha256) : Entry :=
  { directory := true, size := 0, sha256 := hexEncode (sha.digest []) }

def entryLimitExceeded : ProviderError := .protocol "package canonical entry limit exceeded"

/-- Make sure that a path is there as a directory. -/
def includePath (sha : Sha256) (content : Fingerprint) (path : Bytes) :
    Except ProviderError Fingerprint :=
  match content.entries[path]? with
  | some entry => do
    refuseIf (entry ≠ directoryEntry sha)
    pure content
  | none =>
    if maxEntries ≤ content.entries.size then throw entryLimitExceeded
    else pure { content with entries := content.entries.insert path (directoryEntry sha) }

/-- The paths a closure visits: the root and whatever stands before a slash of a name that
    was there at the start. -/
def impliedPaths (content : Fingerprint) : List Bytes :=
  [] :: content.entries.keys.flatMap (ancestors slash)

def directoryClosure (sha : Sha256) (content : Fingerprint) : Except ProviderError Fingerprint :=
  (impliedPaths content).foldlM (includePath sha) content

/-! ## The hashed stream -/

/-- `u32::try_from` -/
def toU32 (n : Nat) : Except ProviderError Nat := if n < 2 ^ 32 then pure n else throw invalid

/-- The bytes of an ASCII text. -/
def ascii (text : String) : Bytes := text.toList.map fun c => UInt8.ofNat c.toNat

def identityDomain : Bytes := ascii "cirrove.package.semantic.identity\x00"

/-- One entry of the stream. The length frames the path, the only field of no fixed width. -/
def frame (item : Bytes × Entry) : Except ProviderError Bytes := do
  let length ← toU32 item.1.length
  let digest ← orInvalid (hexDecode item.2.sha256)
  refuseIf (digest.length ≠ 32)
  pure ((if item.2.directory then 0x44 else 0x46) ::
    (bigEndian 4 length ++ (item.1 ++ (bigEndian 8 item.2.size ++ digest))))

/-- Everything the identity hashes. -/
def identityStream (content : Fingerprint) (domain : Bytes) (version : Nat) :
    Except ProviderError Bytes := do
  let entries ← toU32 content.entries.size
  let files ← toU32 content.files
  let frames ← content.entries.toList.mapM frame
  pure (domain ++ bigEndian 4 version ++ bigEndian 4 entries ++ bigEndian 4 files ++
    bigEndian 8 content.expanded ++ frames.flatten)

def identityDigest (sha : Sha256) (content : Fingerprint) (domain : Bytes) (version : Nat) :
    Except ProviderError String := do
  pure (hexEncode (sha.digest (← identityStream content domain version)))

/-- The identity of a content that is bound and closed. -/
def semanticIdentity (sha : Sha256) (content : Fingerprint) (version : Nat) :
    Except ProviderError PackageSemanticIdentity := do
  let sha256 ← identityDigest sha content identityDomain version
  let entries ← toU32 content.entries.size
  let files ← toU32 content.files
  pure { version, sha256, entries, files, expandedBytes := content.expanded }

/-! ## The two entrances -/

variable (zip : Zip) (sha : Sha256)

def packageArchiveSemanticIdentityVersioned (archive : File) (receipt : PackageDownload)
    (expectedRoot : Bytes) (version : Nat) : Except ProviderError PackageSemanticIdentity := do
  if version ≠ 1 ∧ version ≠ 2 then throw (.protocol "unsupported package semantic version")
  validateRoot expectedRoot
  let content ← bindRoot (← fingerprint zip sha archive receipt maxExpanded) expectedRoot
  let content ← if version = 2 then directoryClosure sha content else pure content
  semanticIdentity sha content version

def packageFlatArchiveSemanticIdentityV2 (archive : File) (receipt : PackageDownload) :
    Except ProviderError PackageSemanticIdentity := do
  let content ← fingerprintWithLocalSizeMirror zip sha archive receipt maxExpanded true
  refuseIf (content.files = 0)
  let content ← directoryClosure sha content
  semanticIdentity sha content 2

end Cirrove.Package
