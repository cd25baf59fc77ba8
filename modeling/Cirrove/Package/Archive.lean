import Cirrove.Library.Bytes
import Cirrove.Library.Hierarchy
import Cirrove.Library.Runs

/-!
# The bounded archive scanner

The scanner of `cirrove-icloud/src/package_semantic.rs`: `snapshot` binds the bytes to a
receipt, `layout` walks the central directory before the ZIP library sees it, and
`fingerprint` reads every entry. A path is the bytes of its UTF-8 text, so that the order of
a map is the order of the source's `BTreeMap<String, _>`.

The ZIP library and SHA-256 are parameters (`Zip`, `Sha256`). Cancellation is left out.
-/

namespace Cirrove.Package

open Cirrove.Library
open Std (ExtTreeMap)

/-- What the scanner refuses with. -/
inductive ProviderError where
  | protocol (text : String)
  | versionChanged
  deriving DecidableEq, Repr

def invalid : ProviderError := .protocol "unsupported or invalid package archive"

/-- Where the condition holds the archive is refused. -/
def refuseWith (e : ProviderError) (p : Prop) [Decidable p] : Except ProviderError Unit :=
  if p then throw e else pure ()

/-- Where there is nothing the archive is refused. -/
def orRefuse {α : Type} (e : ProviderError) : Option α → Except ProviderError α
  | none => throw e
  | some a => pure a

def refuseIf (p : Prop) [Decidable p] : Except ProviderError Unit := refuseWith invalid p

def orInvalid {α : Type} (o : Option α) : Except ProviderError α := orRefuse invalid o

def maxArchive : Nat := 64 * 1024 * 1024
def maxExpanded : Nat := 64 * 1024 * 1024
def maxEntries : Nat := 10000
def maxCentral : Nat := 16 * 1024 * 1024
def maxName : Nat := 1024

/-! ## What is scanned -/

/-- The digest function of the `sha2` crate. -/
structure Sha256 where
  digest : Bytes → Bytes
  length_digest : ∀ bytes, (digest bytes).length = 32

inductive CompressionMethod where
  | stored
  | deflated
  | other
  deriving DecidableEq, Repr

/-- One entry as the `zip` crate presents it. `reads` are the buffers that reading it to its
    end returns, and `broken` says that reading ends in an error instead. -/
structure ZipEntry where
  nameRaw : Bytes
  name : Bytes
  isDir : Bool
  encrypted : Bool
  isSymlink : Bool
  compression : CompressionMethod
  size : Nat
  reads : List Bytes
  broken : Bool
  deriving DecidableEq, Repr

/-- `ZipArchive::new` and then `by_index` at every index. -/
abbrev Zip := Bytes → Option (List (Option ZipEntry))

/-- An open file: its metadata and what it holds. -/
structure File where
  isFile : Bool
  bytes : Bytes
  deriving DecidableEq, Repr

structure PackageDownload where
  size : Nat
  sha256 : String
  deriving DecidableEq, Repr

/-- One scanned entry. -/
structure Entry where
  directory : Bool
  size : Nat
  sha256 : String
  deriving DecidableEq, Repr

structure Fingerprint where
  entries : ExtTreeMap Bytes Entry
  expanded : Nat
  files : Nat

/-- The bytes of the file, once its length and digest match the receipt. -/
def snapshot (sha : Sha256) (file : File) (receipt : PackageDownload) :
    Except ProviderError Bytes := do
  refuseIf (file.isFile = false ∨ receipt.size = 0 ∨ maxArchive < receipt.size ∨
    file.bytes.length ≠ receipt.size)
  if hexEncode (sha.digest file.bytes) ≠ receipt.sha256 then throw .versionChanged
  pure file.bytes

/-! ## Names -/

def slash : UInt8 := 0x2f
def dot : UInt8 := 0x2e

/-- `strip_suffix('/')` -/
def stripSlash (name : Bytes) : Option Bytes :=
  if name.getLast? = some slash then some name.dropLast else none

/-- The path an entry's raw name stands for. -/
def safeName (raw : Bytes) (directory : Bool) : Except ProviderError Bytes := do
  refuseIf (raw = [] ∨ maxName < raw.length)
  let name ← orInvalid (utf8Chars raw)
  refuseIf ((name.any fun c => isControl c || c == '\\' || c == ':') ∨ raw.head? = some slash)
  let key ← orInvalid (if directory then stripSlash raw else some raw)
  refuseIf ((key.splitOn slash).any fun part => part == [] || part == [dot] || part == [dot, dot])
  pure key

/-! ## The central directory -/

/-- `bytes.get(i..i + n)` -/
def slice (bytes : Bytes) (i n : Nat) : Option Bytes :=
  if i + n ≤ bytes.length then some ((bytes.drop i).take n) else none

def u16At (bytes : Bytes) (i : Nat) : Except ProviderError Nat :=
  orInvalid ((slice bytes i 2).map fromLittleEndian)

def u32At (bytes : Bytes) (i : Nat) : Except ProviderError Nat :=
  orInvalid ((slice bytes i 4).map fromLittleEndian)

/-- The loop of `extras` from an offset on. Every round moves at least four bytes on, so as
    much fuel as there are bytes is enough. -/
def extrasFrom (bytes : Bytes) : Nat → Nat → Except ProviderError Unit
  | 0, i => refuseIf (i < bytes.length)
  | fuel + 1, i =>
    if i < bytes.length then do
      let kind ← u16At bytes i
      let len ← u16At bytes (i + 2)
      refuseIf (kind = 1 ∨ bytes.length < i + (4 + len))
      extrasFrom bytes fuel (i + (4 + len))
    else pure ()

/-- No extra field is a ZIP64 one. -/
def extras (bytes : Bytes) : Except ProviderError Unit := extrasFrom bytes bytes.length 0

/-- The loop of `local_extras` when a size mirror is allowed. -/
def mirrorFrom (bytes : Bytes) (uncompressed compressed : Nat) :
    Nat → Nat → Bool → Except ProviderError Unit
  | 0, i, _ => refuseIf (i < bytes.length)
  | fuel + 1, i, seen =>
    if i < bytes.length then do
      let kind ← u16At bytes i
      let len ← u16At bytes (i + 2)
      let field ← orInvalid (slice bytes i (4 + len))
      if kind = 1 then
        refuseIf (seen = true ∨ len ≠ 16)
        let sizes ← orInvalid (slice field 4 16)
        refuseIf (fromLittleEndian (sizes.take 8) ≠ uncompressed ∨
          fromLittleEndian (sizes.drop 8) ≠ compressed)
        mirrorFrom bytes uncompressed compressed fuel (i + (4 + len)) true
      else
        extras field
        mirrorFrom bytes uncompressed compressed fuel (i + (4 + len)) seen
    else pure ()

def localExtras (bytes : Bytes) (uncompressed compressed : Nat) (allowSizeMirror : Bool) :
    Except ProviderError Unit :=
  if allowSizeMirror then mirrorFrom bytes uncompressed compressed bytes.length 0 false
  else extras bytes

def endMagic : Bytes := [0x50, 0x4b, 0x05, 0x06]
def centralMagic : Bytes := [0x50, 0x4b, 0x01, 0x02]
def localMagic : Bytes := [0x50, 0x4b, 0x03, 0x04]
def descriptorMagic : Bytes := [0x50, 0x4b, 0x07, 0x08]

/-- Where the end record is: the last place that has its signature and a comment that
    reaches exactly to the end of the file. -/
def findEnd (bytes : Bytes) : Option Nat :=
  let lower := bytes.length - 65557
  (List.range' lower (bytes.length - 22 - lower + 1)).reverse.find? fun i =>
    endMagic.isPrefixOf (bytes.drop i) &&
      match u16At bytes (i + 20) with
      | .ok n => i + 22 + n == bytes.length
      | .error _ => false

/-- What the walk over the central directory has collected. -/
structure Walk where
  position : Nat
  names : ExtTreeMap Bytes Bool
  ranges : List (Nat × Nat)
  expanded : Nat

/-- Where the bytes of a local entry end, its data descriptor included. -/
def intervalEnd (bytes : Bytes) (start i flags compressed uncompressed finish : Nat) :
    Except ProviderError Nat := do
  if flags &&& 8 ≠ 0 then
    let descriptor := if slice bytes finish 4 = some descriptorMagic then finish + 4 else finish
    refuseIf (start < descriptor + 12)
    refuseIf ((← u32At bytes descriptor) ≠ (← u32At bytes (i + 16)) ∨
      (← u32At bytes (descriptor + 4)) ≠ compressed ∨
      (← u32At bytes (descriptor + 8)) ≠ uncompressed)
    pure (descriptor + 12)
  else pure finish

/-- The local header of one entry agrees with its central record. The bytes it takes are
    returned. -/
def localRecord (bytes : Bytes) (start i flags method compressed uncompressed : Nat)
    (raw : Bytes) (allowLocalSizeMirror : Bool) : Except ProviderError (Nat × Nat) := do
  let loc ← u32At bytes (i + 42)
  refuseIf (start ≤ loc)
  refuseIf (slice bytes loc 4 ≠ some localMagic)
  refuseIf ((← u16At bytes (loc + 6)) ≠ flags ∨ (← u16At bytes (loc + 8)) ≠ method ∨
    (← u16At bytes (loc + 26)) ≠ raw.length)
  let localExtra ← u16At bytes (loc + 28)
  let data := loc + (30 + raw.length + localExtra)
  let finish := data + compressed
  refuseIf (start < finish ∨ slice bytes (loc + 30) raw.length ≠ some raw)
  let field ← orInvalid (slice bytes (loc + 30 + raw.length) localExtra)
  localExtras field uncompressed compressed
    (allowLocalSizeMirror && flags == 0 && method == 0 && uncompressed != 0xffffffff &&
      compressed != 0xffffffff)
  if flags &&& 8 = 0 then
    refuseIf ((← u32At bytes (loc + 14)) ≠ (← u32At bytes (i + 16)) ∨
      (← u32At bytes (loc + 18)) ≠ compressed ∨ (← u32At bytes (loc + 22)) ≠ uncompressed)
  pure (loc, ← intervalEnd bytes start i flags compressed uncompressed finish)

/-- One central record and its local header. -/
def centralRecord (bytes : Bytes) (start stop expandedLimit : Nat) (allowLocalSizeMirror : Bool)
    (walk : Walk) : Except ProviderError Walk := do
  let i := walk.position
  refuseIf (slice bytes i 4 ≠ some centralMagic)
  let flags ← u16At bytes (i + 8)
  let method ← u16At bytes (i + 10)
  let compressed ← u32At bytes (i + 20)
  let uncompressed ← u32At bytes (i + 24)
  let nameLen ← u16At bytes (i + 28)
  let extra ← u16At bytes (i + 30)
  let comment ← u16At bytes (i + 32)
  let next := i + (46 + nameLen + extra + comment)
  -- only the deflate hints, the data descriptor and the UTF-8 flag are known
  refuseIf (stop < next ∨ maxName < nameLen ∨ flags &&& 0xf7f1 ≠ 0 ∨ (method ≠ 0 ∧ method ≠ 8) ∨
    (← u16At bytes (i + 34)) ≠ 0)
  let raw ← orInvalid (slice bytes (i + 46) nameLen)
  let directory := raw.getLast? == some slash
  let name ← safeName raw directory
  refuseIf (walk.names.contains name)
  extras ((bytes.drop (i + 46 + nameLen)).take extra)
  let kind := ((← u32At bytes (i + 38)) >>> 16) &&& 0xf000
  refuseIf ((kind ≠ 0 ∧ kind ≠ 0x8000 ∧ kind ≠ 0x4000) ∨ (kind = 0x4000 ∧ directory = false) ∨
    (kind = 0x8000 ∧ directory = true) ∨ (directory = true ∧ uncompressed ≠ 0))
  refuseIf (expandedLimit < walk.expanded + uncompressed)
  let range ← localRecord bytes start i flags method compressed uncompressed raw
    allowLocalSizeMirror
  pure { position := next
         names := walk.names.insert name directory
         ranges := walk.ranges ++ [range]
         expanded := walk.expanded + uncompressed }

def centralRecords (bytes : Bytes) (start stop expandedLimit : Nat)
    (allowLocalSizeMirror : Bool) : Nat → Walk → Except ProviderError Walk
  | 0, walk => pure walk
  | count + 1, walk => do
    centralRecords bytes start stop expandedLimit allowLocalSizeMirror count
      (← centralRecord bytes start stop expandedLimit allowLocalSizeMirror walk)

/-- The order of `sort_unstable` on ranges. -/
def rangeLE (a b : Nat × Nat) : Prop := a.1 < b.1 ∨ a.1 = b.1 ∧ a.2 ≤ b.2

instance : DecidableRel rangeLE := fun _ _ => inferInstanceAs (Decidable (_ ∨ _))

/-- Two neighbours of a list overlap. -/
def overlapping : List (Nat × Nat) → Bool
  | a :: b :: rest => b.1 < a.2 || overlapping (b :: rest)
  | _ => false

/-- Every central entry is validated before the ZIP library can coalesce duplicate names:
    classic, single-disk archives only. The number of entries is returned. -/
def layout (bytes : Bytes) (expandedLimit : Nat) (allowLocalSizeMirror : Bool) :
    Except ProviderError Nat := do
  refuseIf (bytes.length < 22)
  let stop ← orInvalid (findEnd bytes)
  let count ← u16At bytes (stop + 10)
  let size ← u32At bytes (stop + 12)
  let start ← u32At bytes (stop + 16)
  refuseIf ((← u16At bytes (stop + 4)) ≠ 0 ∨ (← u16At bytes (stop + 6)) ≠ 0 ∨
    (← u16At bytes (stop + 8)) ≠ count ∨ count = 0 ∨ maxEntries < count ∨ maxCentral < size ∨
    start + size ≠ stop)
  let walk ← centralRecords bytes start stop expandedLimit allowLocalSizeMirror count
    { position := start, names := ∅, ranges := [], expanded := 0 }
  refuseIf (walk.position ≠ stop)
  refuseIf (overlapping (walk.ranges.insertionSort rangeLE))
  -- no entry lies below a file
  refuseIf (walk.names.keys.any fun name =>
    (ancestors slash name).any fun above => walk.names[above]? == some false)
  pure count

/-! ## The entries -/

/-- The reading loop of one entry: how much it has read, how much the whole archive has, and
    what went into the hash. -/
def readAll (declared expandedLimit : Nat) : Nat → Nat → Bytes → List Bytes →
    Except ProviderError (Nat × Nat × Bytes)
  | size, expanded, hashed, [] => pure (size, expanded, hashed)
  | size, expanded, hashed, buffer :: rest => do
    refuseIf (declared < size + buffer.length ∨ expandedLimit < expanded + buffer.length)
    readAll declared expandedLimit (size + buffer.length) (expanded + buffer.length)
      (hashed ++ buffer) rest

def scanEntry (sha : Sha256) (expandedLimit : Nat) (content : Fingerprint)
    (entry : Option ZipEntry) : Except ProviderError Fingerprint := do
  let entry ← orInvalid entry
  refuseIf (entry.encrypted = true ∨ entry.isSymlink = true ∨ entry.compression = .other)
  let directory := entry.isDir
  let name ← safeName entry.nameRaw directory
  let (size, expanded, hashed) ←
    readAll entry.size expandedLimit 0 content.expanded [] entry.reads
  refuseIf (entry.broken = true)
  refuseIf (size ≠ entry.size ∨ (directory = true ∧ size ≠ 0))
  refuseIf (content.entries.contains name)
  pure { entries := content.entries.insert name
           { directory, size, sha256 := hexEncode (sha.digest hashed) }
         expanded
         files := if directory then content.files else content.files + 1 }

def fingerprintWithLocalSizeMirror (zip : Zip) (sha : Sha256) (file : File)
    (receipt : PackageDownload) (expandedLimit : Nat) (allowLocalSizeMirror : Bool) :
    Except ProviderError Fingerprint := do
  let bytes ← snapshot sha file receipt
  let count ← layout bytes expandedLimit allowLocalSizeMirror
  let archive ← orInvalid (zip bytes)
  refuseIf (archive.length ≠ count)
  archive.foldlM (scanEntry sha expandedLimit) { entries := ∅, expanded := 0, files := 0 }

def fingerprint (zip : Zip) (sha : Sha256) (file : File) (receipt : PackageDownload)
    (expandedLimit : Nat) : Except ProviderError Fingerprint :=
  fingerprintWithLocalSizeMirror zip sha file receipt expandedLimit false

end Cirrove.Package
