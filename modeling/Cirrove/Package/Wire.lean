import Cirrove.Package.Trees
import Cirrove.Package.Stored

/-!
# Putting a flat document on the wire

`cirrove-icloud/src/package_wire.rs`: a flat source is scanned, re-encoded below its expected
root in the order of its names, and both archives are scanned again before a receipt is
issued. The scanner reads names as they are stored (`name_raw`), the encoder as the ZIP
library decodes them (`name`).

The writing side of the ZIP library is a parameter (`ZipWriter`). The sink refuses whatever
ends behind `writeStagingFileLimit`, and the writer never leaves the extent of the archive it
finishes, so the sink is its limit here.
-/

namespace Cirrove.Package

open Cirrove.Library

def invalidWire : ProviderError := .protocol "invalid flat native wire archive"

def refuseWireIf (p : Prop) [Decidable p] : Except ProviderError Unit := refuseWith invalidWire p

def orInvalidWire {α : Type} (o : Option α) : Except ProviderError α := orRefuse invalidWire o

/-- Another identity than the one that is expected is a changed version. -/
def requireSame (actual expected : PackageSemanticIdentity) : Except ProviderError Unit :=
  if actual ≠ expected then throw .versionChanged else pure ()

def writeStagingFileLimit : Nat := 64 * 1024 * 1024

/-! ## The expected root -/

def asciiLower (b : UInt8) : UInt8 := if 0x41 ≤ b ∧ b ≤ 0x5a then b + 0x20 else b

def eqIgnoreAsciiCase (a b : Bytes) : Bool := a.map asciiLower == b.map asciiLower

def numbersSuffix : Bytes := ascii ".numbers"
def pagesSuffix : Bytes := ascii ".pages"
def keySuffix : Bytes := ascii ".key"

/-- The native format a name announces. -/
def nativePackageSuffix (name : Bytes) : Option Bytes :=
  if 1024 < name.length ∨ ((utf8Chars name).getD []).any (fun c => isControl c || c == '/') then
    none
  else [pagesSuffix, numbersSuffix, keySuffix].find? fun suffix =>
    eqIgnoreAsciiCase (name.drop (name.length - suffix.length)) suffix

/-- The root is text, names a document of one of the two formats and is one component. -/
def validateWireRoot (root : Bytes) : Except ProviderError Unit := do
  let chars ← orInvalidWire (utf8Chars root)
  refuseWireIf (1024 < root.length ∨
    (nativePackageSuffix root ≠ some numbersSuffix ∧ nativePackageSuffix root ≠ some pagesSuffix) ∨
    eqIgnoreAsciiCase root numbersSuffix ∨ eqIgnoreAsciiCase root pagesSuffix ∨
    (chars.any fun c => isControl c || c == '/' || c == '\\' || c == ':'))

/-! ## Receipts -/

structure WireReceipt where
  version : Nat
  size : Nat
  sha256 : String
  expectedRoot : Bytes
  deriving DecidableEq, Repr

def WireReceipt.validate (receipt : WireReceipt) (root : Bytes) : Except ProviderError Unit := do
  validateWireRoot root
  refuseWireIf (receipt.version ≠ 1 ∨ receipt.expectedRoot ≠ root ∨ receipt.size = 0 ∨
    writeStagingFileLimit < receipt.size ∨ receipt.sha256.toList.length ≠ 64 ∨
    ¬ receipt.sha256.toList.all fun c => ('0' ≤ c && c ≤ '9') || ('a' ≤ c && c ≤ 'f'))

/-! ## The encoder -/

/-- One `add_directory`, or one `start_file` with what is written behind it. -/
structure WireEntry where
  name : Bytes
  directory : Bool
  content : Bytes
  deriving DecidableEq, Repr

/-- The bytes a `ZipWriter` leaves in its sink: every entry stored, at the default time. -/
abbrev ZipWriter := List WireEntry → Option Bytes

/-- A staged file and what tells it from another. -/
structure WriteStagingFile where
  file : File
  dev : Nat
  ino : Nat
  deriving DecidableEq, Repr

/-- The name of an entry on the wire. -/
def wireName (expectedRoot name : Bytes) : Bytes := expectedRoot ++ slash :: name

def nameEntry (expectedRoot : Bytes) (entry : Option ZipEntry) :
    Except ProviderError (Bytes × ZipEntry) := do
  let entry ← orInvalidWire entry
  let name := wireName expectedRoot entry.name
  refuseWireIf (1024 < name.length)
  pure (name, entry)

/-- The order of the names. -/
def nameLE (a b : Bytes × ZipEntry) : Prop := (compare a.1 b.1).isLE

instance : DecidableRel nameLE := fun a b => inferInstanceAs (Decidable ((compare a.1 b.1).isLE = true))

def copyEntry (item : Bytes × ZipEntry) : Except ProviderError WireEntry :=
  if item.2.isDir then pure { name := item.1, directory := true, content := [] }
  else do
    refuseWireIf (item.2.broken = true)
    pure { name := item.1, directory := false, content := item.2.reads.flatten }

/-- The receipt, and what the wire file holds then. -/
def flatNativeWire (zip : Zip) (writer : ZipWriter) (sha : Sha256) (source : WriteStagingFile)
    (original : PackageDownload) (expectedRoot : Bytes) (semantic : PackageSemanticIdentity)
    (wire : WriteStagingFile) : Except ProviderError (WireReceipt × Bytes) := do
  validateWireRoot expectedRoot
  refuseWireIf (wire.file.isFile = false ∨ wire.file.bytes.length ≠ 0 ∨
    (source.dev = wire.dev ∧ source.ino = wire.ino))
  let actual ← packageFlatArchiveSemanticIdentityV2 zip sha source.file original
  requireSame actual semantic
  let archive ← orInvalidWire (zip source.file.bytes)
  refuseWireIf (maxEntries ≤ archive.length)
  let entries ← archive.mapM (nameEntry expectedRoot)
  let copies ← (entries.insertionSort nameLE).mapM copyEntry
  let root : WireEntry := { name := expectedRoot ++ [slash], directory := true, content := [] }
  let bytes ← orInvalidWire (writer (root :: copies))
  refuseWireIf (writeStagingFileLimit < bytes.length)
  let receipt : WireReceipt :=
    { version := 1, size := bytes.length, sha256 := hexEncode (sha.digest bytes), expectedRoot }
  receipt.validate expectedRoot
  let raw : PackageDownload := { size := receipt.size, sha256 := receipt.sha256 }
  let delivered ← packageArchiveSemanticIdentityVersioned zip sha { isFile := true, bytes } raw
    expectedRoot 2
  requireSame delivered actual
  let again ← packageFlatArchiveSemanticIdentityV2 zip sha source.file original
  requireSame again actual
  pure (receipt, bytes)

end Cirrove.Package
