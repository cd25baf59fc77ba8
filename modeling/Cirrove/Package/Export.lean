import Cirrove.Library.Patches
import Cirrove.Package.Layout

/-!
# The canonical export

`canonical_export` of `cirrove-icloud/src/package_archive.rs`: in a staged archive the timestamps of
empty directories are overwritten, at offsets the ZIP library reports. The file is its bytes, and
only the bytes of an export that succeeded are kept. Cancellation is left out.
-/

namespace Cirrove.Package.Export

open Cirrove.Library

def invalid : ProviderError := .protocol "unsupported or invalid iCloud package archive"

def refuseIf (p : Prop) [Decidable p] : Except ProviderError Unit := refuseWith invalid p

def orInvalid {α : Type} (o : Option α) : Except ProviderError α := orRefuse invalid o

/-- `read` -/
def read (n : Nat) (bytes : Bytes) (offset : Nat) : Except ProviderError Bytes :=
  orInvalid (slice bytes offset n)

def u16At (bytes : Bytes) (offset : Nat) : Nat := fromLittleEndian ((bytes.drop offset).take 2)

def u32At (bytes : Bytes) (offset : Nat) : Nat := fromLittleEndian ((bytes.drop offset).take 4)

/-- `checked_add` of 64-bit numbers. -/
def checkedAdd (a b : Nat) : Except ProviderError Nat :=
  if a + b < 2 ^ 64 then pure (a + b) else throw invalid

/-! ## What the ZIP library reports -/

/-- An entry of `by_index_raw`. -/
structure RawEntry where
  headerStart : Nat
  centralHeaderStart : Nat
  nameRaw : Bytes
  compressedSize : Nat
  size : Nat
  crc32 : Nat
  isDir : Bool
  deriving DecidableEq, Repr

/-- `ZipArchive::new`, and `by_index_raw` at every index. -/
structure ZipArchive where
  centralDirectoryStart : Nat
  entries : List (Option RawEntry)
  deriving DecidableEq, Repr

/-- 1980-01-01 00:00:00 -/
def stamp : Bytes := [0, 0, 33, 0]

namespace RawEntry

def dataStart (bytes : Bytes) (e : RawEntry) : Nat :=
  e.headerStart + (30 + e.nameRaw.length + u16At bytes (e.headerStart + 28))

def dataEnd (bytes : Bytes) (e : RawEntry) : Nat := e.dataStart bytes + e.compressedSize

def centralEnd (bytes : Bytes) (e : RawEntry) : Nat :=
  e.centralHeaderStart + (46 + e.nameRaw.length + u16At bytes (e.centralHeaderStart + 30) +
    u16At bytes (e.centralHeaderStart + 32))

/-- A byte of one of the two timestamps of a directory. -/
def Stamped (e : RawEntry) (i : Nat) : Prop :=
  e.isDir = true ∧ (Covers stamp (e.headerStart + 10) i ∨ Covers stamp (e.centralHeaderStart + 12) i)

/-- The places the loop of the source notes for an entry. -/
def places (e : RawEntry) : List Nat :=
  if e.isDir then [e.headerStart + 10, e.centralHeaderStart + 12] else []

/-- The local records of two entries do not overlap. -/
def Apart (bytes : Bytes) (e e' : RawEntry) : Prop :=
  e.dataEnd bytes ≤ e'.headerStart ∨ e'.dataEnd bytes ≤ e.headerStart

/-- The central records of two entries do not overlap. -/
def CentralApart (bytes : Bytes) (e e' : RawEntry) : Prop :=
  e.centralEnd bytes ≤ e'.centralHeaderStart ∨ e'.centralEnd bytes ≤ e.centralHeaderStart

end RawEntry

namespace ZipArchive

def records (a : ZipArchive) : List RawEntry := a.entries.filterMap id

/-- A byte of a timestamp of a directory. -/
def Stamped (a : ZipArchive) (i : Nat) : Prop := ∃ e ∈ a.records, e.Stamped i

/-- Local records, central records and the end record follow one another without overlap. -/
structure Spaced (a : ZipArchive) (bytes : Bytes) (stop : Nat) : Prop where
  apart : a.records.Pairwise (RawEntry.Apart bytes)
  centralApart : a.records.Pairwise (RawEntry.CentralApart bytes)
  before : ∀ e ∈ a.records, e.dataEnd bytes ≤ a.centralDirectoryStart
  inside : ∀ e ∈ a.records,
    a.centralDirectoryStart ≤ e.centralHeaderStart ∧ e.centralEnd bytes ≤ stop
  footer : endMagic.isPrefixOf (bytes.drop stop) = true

end ZipArchive

/-- The `zip` crate. It reports records of the central directory, which follow one another; where
nothing overlaps, the timestamps of directories are nothing but timestamps. -/
structure ZipLibrary where
  archive : Bytes → Option ZipArchive
  apart : ∀ {bytes a}, archive bytes = some a → a.records.Pairwise (RawEntry.CentralApart bytes)
  timeless : ∀ {bytes bytes' a stop}, archive bytes = some a → a.Spaced bytes stop →
    bytes'.length = bytes.length → (∀ i, ¬ a.Stamped i → bytes'[i]? = bytes[i]?) →
    archive bytes' = some a

/-! ## The export -/

/-- Where the end record is in the last bytes of a file. -/
def findEnd (tail : Bytes) : Option Nat :=
  (List.range (tail.length - 21)).reverse.find? fun i =>
    endMagic.isPrefixOf (tail.drop i) && i + 22 + u16At tail (i + 20) == tail.length

/-- `empty_payload` -/
def emptyPayload (bytes : Bytes) (dataStart method compressedSize : Nat) :
    Except ProviderError Bool :=
  if method = 0 ∧ compressedSize = 0 then pure true
  else if method = 8 ∧ compressedSize = 2 then
    (read 2 bytes dataStart).map fun payload => payload == [3, 0]
  else pure false

/-- The checks of an empty directory. -/
def checkDirectory (bytes header directory : Bytes) (dataStart : Nat) (e : RawEntry) :
    Except ProviderError Unit := do
  let method := u16At directory 10
  let empty ← emptyPayload bytes dataStart method e.compressedSize
  refuseIf (e.size ≠ 0 ∨ e.crc32 ≠ 0 ∨ empty = false ∨ u16At header 8 ≠ method ∨
    u16At header 6 ≠ u16At directory 8 ∨ u16At header 6 &&& 1 ≠ 0 ∨
    (u32At header 18 ≠ 0 ∧ u32At header 18 ≠ e.compressedSize) ∨ u32At header 22 ≠ 0)

/-- The checks of one entry. The bytes its local record takes are returned. -/
def checkEntry (bytes : Bytes) (start size : Nat) (e : RawEntry) :
    Except ProviderError (Nat × Nat) := do
  let header ← read 30 bytes e.headerStart
  let directory ← read 46 bytes e.centralHeaderStart
  refuseIf (localMagic.isPrefixOf header = false ∨ centralMagic.isPrefixOf directory = false ∨
    u16At header 26 ≠ e.nameRaw.length ∨ u16At directory 28 ≠ e.nameRaw.length)
  let name ← read e.nameRaw.length bytes (e.headerStart + 30)
  refuseIf (name ≠ e.nameRaw)
  let dataStart ← checkedAdd e.headerStart (30 + name.length + u16At header 28)
  let dataEnd ← checkedAdd dataStart e.compressedSize
  let centralEnd ← checkedAdd e.centralHeaderStart
    (46 + name.length + u16At directory 30 + u16At directory 32)
  refuseIf (start < dataEnd ∨ e.centralHeaderStart < start ∨ start + size < centralEnd)
  if e.isDir then checkDirectory bytes header directory dataStart e
  pure (e.headerStart, dataEnd)

/-- The loop over the entries: the bytes of the local records and the places to patch. -/
def scan (bytes : Bytes) (start size : Nat) : List (Option RawEntry) →
    Except ProviderError (List (Nat × Nat) × List Nat)
  | [] => pure ([], [])
  | entry :: rest => do
    let e ← orInvalid entry
    let interval ← checkEntry bytes start size e
    let (intervals, places) ← scan bytes start size rest
    pure (interval :: intervals, e.places ++ places)

/-- `canonical_export`, with the bytes of the file afterwards. -/
def canonicalExport (zip : ZipLibrary) (sha : Sha256) (bytes : Bytes) (receipt : PackageDownload) :
    Except ProviderError (Bytes × PackageDownload) := do
  if bytes.length ≠ receipt.size ∨ hexEncode (sha.digest bytes) ≠ receipt.sha256 then
    throw .versionChanged
  let tailStart := receipt.size - min receipt.size 65557
  let tail := bytes.drop tailStart
  let stop ← orInvalid (findEnd tail)
  let footer := tail.drop stop
  let count := u16At footer 10
  let centralSize := u32At footer 12
  let centralStart := u32At footer 16
  refuseIf (u16At footer 4 ≠ 0 ∨ u16At footer 6 ≠ 0 ∨ u16At footer 8 ≠ count ∨ count = 0 ∨
    maxEntries < count ∨ maxCentral < centralSize ∨ centralStart + centralSize ≠ tailStart + stop)
  let archive ← orInvalid (zip.archive bytes)
  refuseIf (archive.entries.length ≠ count ∨ archive.centralDirectoryStart ≠ centralStart)
  let (intervals, places) ← scan bytes centralStart centralSize archive.entries
  refuseIf (overlapping (intervals.insertionSort rangeLE))
  let out := writeAll stamp bytes places
  pure (out, ⟨receipt.size, hexEncode (sha.digest out)⟩)

/-! ## What is accepted -/

section

variable {p : Prop} [Decidable p]

theorem refuseIf_eq_ok {u : Unit} : refuseIf p = .ok u ↔ ¬ p := refuseWith_eq_ok

theorem orInvalid_eq_ok {α : Type} {o : Option α} {a : α} : orInvalid o = .ok a ↔ o = some a :=
  orRefuse_eq_ok

theorem checkedAdd_eq_ok {a b c : Nat} : checkedAdd a b = .ok c ↔ a + b < 2 ^ 64 ∧ a + b = c := by
  unfold checkedAdd
  split
  · next h => exact ⟨fun heq => ⟨h, Except.ok.inj heq⟩, fun heq => congrArg Except.ok heq.2⟩
  · next h =>
    constructor
    · intro heq
      cases heq
    · rintro ⟨hlt, -⟩
      exact absurd hlt h

theorem read_eq_ok {n offset : Nat} {bytes out : Bytes} :
    read n bytes offset = .ok out ↔
      offset + n ≤ bytes.length ∧ (bytes.drop offset).take n = out := by
  rw [read, orInvalid_eq_ok, slice]
  split
  · next h => simp [h]
  · next h => simp [h]

end

section

variable {bytes : Bytes} {i n k : Nat}

theorem u16At_read (h : k + 2 ≤ n) : u16At ((bytes.drop i).take n) k = u16At bytes (i + k) := by
  rw [u16At, u16At, List.drop_take, List.take_take, List.drop_drop, Nat.min_eq_left (by omega)]

theorem u32At_read (h : k + 4 ≤ n) : u32At ((bytes.drop i).take n) k = u32At bytes (i + k) := by
  rw [u32At, u32At, List.drop_take, List.take_take, List.drop_drop, Nat.min_eq_left (by omega)]

theorem u16At_drop : u16At (bytes.drop i) k = u16At bytes (i + k) := by
  rw [u16At, u16At, List.drop_drop]

theorem u32At_drop : u32At (bytes.drop i) k = u32At bytes (i + k) := by
  rw [u32At, u32At, List.drop_drop]

/-- A signature is told by its own bytes. -/
theorem magic_read {magic : Bytes} (h : magic.length ≤ n) :
    magic.isPrefixOf ((bytes.drop i).take n) = true ↔
      (bytes.drop i).take magic.length = magic := by
  rw [List.isPrefixOf_iff_prefix, List.prefix_iff_eq_take, List.take_take,
    Nat.min_eq_left h]
  exact eq_comm

end

namespace RawEntry

variable {bytes : Bytes} {start size : Nat} {e : RawEntry}

/-- An empty directory whose headers agree. -/
structure EmptyDirectory (bytes : Bytes) (e : RawEntry) : Prop where
  payload : (u16At bytes (e.centralHeaderStart + 10) = 0 ∧ e.compressedSize = 0) ∨
    (u16At bytes (e.centralHeaderStart + 10) = 8 ∧ e.compressedSize = 2 ∧
      e.dataStart bytes + 2 ≤ bytes.length ∧ (bytes.drop (e.dataStart bytes)).take 2 = [3, 0])
  size : e.size = 0
  crc : e.crc32 = 0
  method : u16At bytes (e.headerStart + 8) = u16At bytes (e.centralHeaderStart + 10)
  flags : u16At bytes (e.headerStart + 6) = u16At bytes (e.centralHeaderStart + 8)
  plain : u16At bytes (e.headerStart + 6) &&& 1 = 0
  compressed : u32At bytes (e.headerStart + 18) = 0 ∨
    u32At bytes (e.headerStart + 18) = e.compressedSize
  uncompressed : u32At bytes (e.headerStart + 22) = 0

/-- An entry the export accepts. -/
structure Sound (bytes : Bytes) (start size : Nat) (e : RawEntry) : Prop where
  room : e.headerStart + 30 ≤ bytes.length
  centralRoom : e.centralHeaderStart + 46 ≤ bytes.length
  magic : (bytes.drop e.headerStart).take 4 = localMagic
  centralMagic : (bytes.drop e.centralHeaderStart).take 4 = centralMagic
  nameLength : u16At bytes (e.headerStart + 26) = e.nameRaw.length
  centralNameLength : u16At bytes (e.centralHeaderStart + 28) = e.nameRaw.length
  nameRoom : e.headerStart + 30 + e.nameRaw.length ≤ bytes.length
  name : (bytes.drop (e.headerStart + 30)).take e.nameRaw.length = e.nameRaw
  dataStart_lt : e.dataStart bytes < 2 ^ 64
  dataEnd_lt : e.dataEnd bytes < 2 ^ 64
  centralEnd_lt : e.centralEnd bytes < 2 ^ 64
  before : e.dataEnd bytes ≤ start
  central : start ≤ e.centralHeaderStart
  inside : e.centralEnd bytes ≤ start + size
  directory : e.isDir = true → e.EmptyDirectory bytes

theorem emptyPayload_eq_ok_iff {dataStart method compressedSize : Nat} :
    emptyPayload bytes dataStart method compressedSize = .ok true ↔
      (method = 0 ∧ compressedSize = 0) ∨ (method = 8 ∧ compressedSize = 2 ∧
        dataStart + 2 ≤ bytes.length ∧ (bytes.drop dataStart).take 2 = [3, 0]) := by
  unfold emptyPayload
  by_cases hstored : method = 0 ∧ compressedSize = 0
  · rw [if_pos hstored]
    exact ⟨fun _ => .inl hstored, fun _ => rfl⟩
  rw [if_neg hstored]
  by_cases hdeflated : method = 8 ∧ compressedSize = 2
  · rw [if_pos hdeflated]
    constructor
    · intro h
      cases hread : read 2 bytes dataStart with
      | error e =>
        rw [hread] at h
        cases h
      | ok payload =>
        rw [hread] at h
        have heq : payload = [3, 0] := beq_iff_eq.mp (Except.ok.inj h)
        obtain ⟨hroom, hpayload⟩ := read_eq_ok.mp hread
        exact .inr ⟨hdeflated.1, hdeflated.2, hroom, hpayload.trans heq⟩
    · rintro (h | ⟨-, -, hroom, hpayload⟩)
      · exact absurd h hstored
      · rw [read_eq_ok.mpr ⟨hroom, hpayload⟩]
        rfl
  · rw [if_neg hdeflated]
    constructor
    · intro h
      cases h
    · rintro (h | ⟨hmethod, hsize, -⟩)
      · exact absurd h hstored
      · exact absurd ⟨hmethod, hsize⟩ hdeflated

theorem checkDirectory_eq_ok_iff {u : Unit} :
    checkDirectory bytes ((bytes.drop e.headerStart).take 30)
      ((bytes.drop e.centralHeaderStart).take 46) (e.dataStart bytes) e = .ok u ↔
      e.EmptyDirectory bytes := by
  unfold checkDirectory
  simp (disch := decide) only [u16At_read, u32At_read, bind_eq_ok_iff, refuseIf_eq_ok, not_or, ne_eq,
    not_not, Bool.not_eq_false, not_and_or]
  constructor
  · rintro ⟨_, hpayload, hsize, hcrc, rfl, hmethod, hflags, hplain, hcompressed, huncompressed⟩
    exact ⟨emptyPayload_eq_ok_iff.mp hpayload, hsize, hcrc, hmethod, hflags, hplain, hcompressed,
      huncompressed⟩
  · intro h
    exact ⟨true, emptyPayload_eq_ok_iff.mpr h.payload, h.size, h.crc, rfl, h.method, h.flags, h.plain,
      h.compressed, h.uncompressed⟩

theorem checkEntry_eq_ok_iff {interval : Nat × Nat} :
    checkEntry bytes start size e = .ok interval ↔
      e.Sound bytes start size ∧ (e.headerStart, e.dataEnd bytes) = interval := by
  have hdirectory : ∀ r, (if e.isDir = true then do
        checkDirectory bytes ((bytes.drop e.headerStart).take 30)
          ((bytes.drop e.centralHeaderStart).take 46) (e.dataStart bytes) e
        pure (e.headerStart, e.dataEnd bytes)
      else pure (e.headerStart, e.dataEnd bytes)) = Except.ok r ↔
      (e.isDir = true → e.EmptyDirectory bytes) ∧ (e.headerStart, e.dataEnd bytes) = r := by
    intro r
    by_cases hdir : e.isDir = true
    · rw [if_pos hdir]
      simp only [hdir, bind_eq_ok_iff, checkDirectory_eq_ok_iff, pure_eq_ok, true_imp_iff,
        exists_const]
    · rw [if_neg hdir, pure_eq_ok]
      exact ⟨fun h => ⟨fun hpos => absurd hpos hdir, h⟩, And.right⟩
  simp only [checkEntry, bind_eq_ok_iff, read_eq_ok, refuseIf_eq_ok, checkedAdd_eq_ok]
  constructor
  · rintro ⟨_, ⟨hroom, rfl⟩, _, ⟨hcentralRoom, rfl⟩, -, hmagic, _, ⟨hnameRoom, rfl⟩, -, hname, _,
      ⟨hstart, rfl⟩, _, ⟨hend, rfl⟩, _, ⟨hcentral, rfl⟩, -, hplace, hdir⟩
    have hname := not_not.mp hname
    simp (disch := decide) only [hname, u16At_read] at hmagic hstart hend hcentral hplace hdir
    simp only [not_or, Bool.not_eq_false, not_not, not_lt, ne_eq] at hmagic hplace
    obtain ⟨hlocal, hdirectoryMagic, hlength, hcentralLength⟩ := hmagic
    obtain ⟨hbefore, hafter, hinside⟩ := hplace
    obtain ⟨hempty, heq⟩ := (hdirectory interval).mp hdir
    exact ⟨⟨hroom, hcentralRoom, (magic_read (by decide)).mp hlocal,
      (magic_read (by decide)).mp hdirectoryMagic, hlength, hcentralLength, hnameRoom, hname, hstart,
      hend, hcentral, hbefore, hafter, hinside, hempty⟩, heq⟩
  · rintro ⟨h, heq⟩
    have hlocal : localMagic.isPrefixOf ((bytes.drop e.headerStart).take 30) = true :=
      (magic_read (by decide)).mpr h.magic
    have hcentral : Package.centralMagic.isPrefixOf ((bytes.drop e.centralHeaderStart).take 46) =
        true := (magic_read (by decide)).mpr h.centralMagic
    refine ⟨_, ⟨h.room, rfl⟩, _, ⟨h.centralRoom, rfl⟩, (), ?_, _, ⟨h.nameRoom, h.name⟩, (),
      not_not_intro rfl, _, ⟨?_, rfl⟩, _, ⟨?_, rfl⟩, _, ⟨?_, rfl⟩, (), ?_, ?_⟩
    all_goals simp (disch := decide) only [u16At_read]
    · simp [hlocal, hcentral, h.nameLength, h.centralNameLength]
    · exact h.dataStart_lt
    · exact h.dataEnd_lt
    · exact h.centralEnd_lt
    · rw [not_or, not_or, Nat.not_lt, Nat.not_lt, Nat.not_lt]
      exact ⟨h.before, h.central, h.inside⟩
    · exact (hdirectory interval).mpr ⟨h.directory, heq⟩

end RawEntry

theorem scan_eq_ok_iff {bytes : Bytes} {start size : Nat} {entries : List (Option RawEntry)}
    {intervals : List (Nat × Nat)} {places : List Nat} :
    scan bytes start size entries = .ok (intervals, places) ↔
      entries = (entries.filterMap id).map some ∧
      (∀ e ∈ entries.filterMap id, e.Sound bytes start size) ∧
      ((entries.filterMap id).map fun e => (e.headerStart, e.dataEnd bytes)) = intervals ∧
      (entries.filterMap id).flatMap RawEntry.places = places := by
  induction entries generalizing intervals places with
  | nil => simp [scan, pure_eq_ok]
  | cons entry rest ih =>
    rw [scan]
    cases entry with
    | none =>
      have hlength : (none :: rest) ≠ ((none :: rest).filterMap id).map some := by
        intro heq
        have hmem : none ∈ ((none :: rest).filterMap id).map some := heq ▸ List.mem_cons_self
        obtain ⟨_, -, hnone⟩ := List.mem_map.mp hmem
        cases hnone
      exact ⟨fun h => (nomatch h), fun h => absurd h.1 hlength⟩
    | some e =>
      simp only [bind_eq_ok_iff, orInvalid_eq_ok, RawEntry.checkEntry_eq_ok_iff, pure_eq_ok,
        List.filterMap_cons_some (rfl : id (some e) = some e), List.map_cons, List.cons.injEq,
        true_and, List.forall_mem_cons, List.flatMap_cons, Prod.exists, ih]
      constructor
      · rintro ⟨_, hsome, _, _, ⟨hsound, hinterval⟩, _, _, ⟨hrest, hsounds, rfl, rfl⟩, heq⟩
        cases hsome
        obtain ⟨rfl, rfl⟩ := Prod.mk.inj heq
        exact ⟨hrest, ⟨hsound, hsounds⟩, congrArg (· :: _) hinterval, rfl⟩
      · rintro ⟨hrest, ⟨hsound, hsounds⟩, rfl, rfl⟩
        exact ⟨e, rfl, _, _, ⟨hsound, rfl⟩, _, _, ⟨hrest, hsounds, rfl, rfl⟩, rfl⟩

/-- Where the end record of a file is. -/
def footerAt (bytes : Bytes) : Option Nat :=
  let tailStart := bytes.length - min bytes.length 65557
  (findEnd (bytes.drop tailStart)).map (tailStart + ·)

def ZipArchive.places (a : ZipArchive) : List Nat := a.records.flatMap RawEntry.places

/-- The bytes with the timestamps of directories overwritten. -/
def ZipArchive.canonical (a : ZipArchive) (bytes : Bytes) : Bytes := writeAll stamp bytes a.places

/-- A file the export accepts, with its entries and the place of its end record. -/
structure Accepts (zip : ZipLibrary) (bytes : Bytes) (a : ZipArchive) (stop : Nat) : Prop where
  footer : footerAt bytes = some stop
  fields : u16At bytes (stop + 4) = 0 ∧ u16At bytes (stop + 6) = 0 ∧
    u16At bytes (stop + 8) = u16At bytes (stop + 10) ∧ u16At bytes (stop + 10) ≠ 0 ∧
    u16At bytes (stop + 10) ≤ maxEntries ∧ u32At bytes (stop + 12) ≤ maxCentral ∧
    u32At bytes (stop + 16) + u32At bytes (stop + 12) = stop
  opened : zip.archive bytes = some a
  count : a.entries.length = u16At bytes (stop + 10)
  start : a.centralDirectoryStart = u32At bytes (stop + 16)
  known : a.entries = a.records.map some
  sound : ∀ e ∈ a.records, e.Sound bytes (u32At bytes (stop + 16)) (u32At bytes (stop + 12))
  apart : a.records.Pairwise (RawEntry.Apart bytes)

theorem overlapping_records {bytes : Bytes} {records : List RawEntry} :
    overlapping ((records.map fun e => (e.headerStart, e.dataEnd bytes)).insertionSort rangeLE) =
      false ↔ records.Pairwise (RawEntry.Apart bytes) := by
  rw [overlapping_eq_false_iff, List.pairwise_map]
  · rfl
  · intro r hr
    obtain ⟨e, -, rfl⟩ := List.mem_map.mp hr
    simp only [RawEntry.dataEnd, RawEntry.dataStart]
    omega

theorem canonicalExport_eq_ok_iff {zip : ZipLibrary} {sha : Sha256} {bytes : Bytes}
    {receipt : PackageDownload} {result : Bytes × PackageDownload} :
    canonicalExport zip sha bytes receipt = .ok result ↔
      (bytes.length = receipt.size ∧ hexEncode (sha.digest bytes) = receipt.sha256) ∧
      ∃ a stop, Accepts zip bytes a stop ∧ result = (a.canonical bytes,
        ⟨bytes.length, hexEncode (sha.digest (a.canonical bytes))⟩) := by
  obtain ⟨size, text⟩ := receipt
  unfold canonicalExport
  by_cases hreceipt : bytes.length = size ∧ hexEncode (sha.digest bytes) = text
  swap
  · rw [if_pos (not_and_or.mp hreceipt)]
    exact ⟨fun h => (nomatch h), fun h => absurd h.1 hreceipt⟩
  rw [if_neg (by rw [← not_and_or]; exact not_not_intro hreceipt)]
  obtain ⟨rfl, rfl⟩ := hreceipt
  simp only [true_and, bind_eq_ok_iff, orInvalid_eq_ok, refuseIf_eq_ok, scan_eq_ok_iff, u16At_drop,
    u32At_drop, Prod.exists, pure_eq_ok, ← Nat.add_assoc, Bool.not_eq_true]
  constructor
  · rintro ⟨stop, hstop, -, hfields, a, hopened, -, hsame, _, _, ⟨hknown, hsound, rfl, rfl⟩, -,
      hapart, rfl⟩
    simp only [not_or, ne_eq, not_not, not_lt] at hfields hsame
    refine ⟨a, _, ⟨?_, hfields, hopened, hsame.1, hsame.2, hknown, hsound,
      overlapping_records.mp hapart⟩, rfl⟩
    rw [footerAt, hstop]
    rfl
  · rintro ⟨a, stop, h, rfl⟩
    have hfooter := h.footer
    rw [footerAt, Option.map_eq_some_iff] at hfooter
    obtain ⟨last, hlast, rfl⟩ := hfooter
    refine ⟨last, hlast, (), ?_, a, h.opened, (), ?_, _, _, ⟨h.known, h.sound, rfl, rfl⟩, (),
      overlapping_records.mpr h.apart, rfl⟩
    · simp only [not_or, ne_eq, not_not, not_lt]
      exact h.fields
    · simp only [not_or, ne_eq, not_not]
      exact ⟨h.count, h.start⟩

/-! ## Timestamps are apart from everything else -/

section

variable {zip : ZipLibrary} {bytes bytes' : Bytes} {a : ZipArchive} {stop i : Nat} {e e' : RawEntry}

instance : Std.Symm (RawEntry.Apart bytes) := ⟨fun _ _ h => h.symm⟩

instance : Std.Symm (RawEntry.CentralApart bytes) := ⟨fun _ _ h => h.symm⟩

theorem dataStart_le_dataEnd : e.headerStart + 30 + e.nameRaw.length ≤ e.dataEnd bytes := by
  simp only [RawEntry.dataEnd, RawEntry.dataStart]
  omega

theorem le_centralEnd : e.centralHeaderStart + 46 ≤ e.centralEnd bytes := by
  simp only [RawEntry.centralEnd]
  omega

theorem stamped_iff : a.Stamped i ↔ ∃ p ∈ a.places, Covers stamp p i := by
  simp only [ZipArchive.Stamped, RawEntry.Stamped, ZipArchive.places, RawEntry.places,
    List.mem_flatMap]
  constructor
  · rintro ⟨e, he, hdir, hlocal | hcentral⟩
    · exact ⟨_, ⟨e, he, by rw [if_pos hdir]; exact List.mem_cons_self⟩, hlocal⟩
    · exact ⟨_, ⟨e, he, by rw [if_pos hdir]; exact List.mem_cons_of_mem _ List.mem_cons_self⟩,
        hcentral⟩
  · rintro ⟨p, ⟨e, he, hp⟩, hcovers⟩
    split at hp
    · next hdir =>
      simp only [List.mem_cons, List.not_mem_nil, or_false] at hp
      rcases hp with rfl | rfl
      · exact ⟨e, he, hdir, .inl hcovers⟩
      · exact ⟨e, he, hdir, .inr hcovers⟩
    · cases hp

namespace Accepts

theorem central (h : Accepts zip bytes a stop) :
    a.records.Pairwise (RawEntry.CentralApart bytes) := zip.apart h.opened

theorem footer_magic (h : Accepts zip bytes a stop) :
    endMagic.isPrefixOf (bytes.drop stop) = true := by
  have hfooter := h.footer
  rw [footerAt, Option.map_eq_some_iff] at hfooter
  obtain ⟨last, hlast, rfl⟩ := hfooter
  have hfound := List.find?_some hlast
  simp only [Bool.and_eq_true] at hfound
  rw [← List.drop_drop]
  exact hfound.1

theorem spaced (h : Accepts zip bytes a stop) : a.Spaced bytes stop where
  apart := h.apart
  centralApart := h.central
  before e he := h.start ▸ (h.sound e he).before
  inside e he := ⟨h.start ▸ (h.sound e he).central, h.fields.2.2.2.2.2.2 ▸ (h.sound e he).inside⟩
  footer := h.footer_magic

/-- Other bytes of a local record are no timestamps. -/
theorem not_stamped_local (h : Accepts zip bytes a stop) (he : e ∈ a.records)
    (hi : e.headerStart ≤ i ∧ i < e.dataEnd bytes)
    (hown : ¬ (e.isDir = true ∧ Covers stamp (e.headerStart + 10) i)) : ¬ a.Stamped i := by
  rintro ⟨e', he', hdir, hlocal | hcentral⟩
  · by_cases heq : e = e'
    · exact hown ⟨heq ▸ hdir, heq ▸ hlocal⟩
    · -- the local record of another directory
      have hapart : RawEntry.Apart bytes e e' :=
        h.apart.forall he he' heq
      have hroom := @dataStart_le_dataEnd bytes e'
      have hcovers : e'.headerStart + 10 ≤ i ∧ i < e'.headerStart + 10 + 4 := hlocal
      rcases hapart with hle | hle
      · omega
      · omega
  · have hbefore := h.spaced.before e he
    have hinside := (h.spaced.inside e' he').1
    have hcovers : e'.centralHeaderStart + 12 ≤ i ∧ i < e'.centralHeaderStart + 12 + 4 := hcentral
    omega

/-- Other bytes of a central record are no timestamps. -/
theorem not_stamped_central (h : Accepts zip bytes a stop) (he : e ∈ a.records)
    (hi : e.centralHeaderStart ≤ i ∧ i < e.centralEnd bytes)
    (hown : ¬ (e.isDir = true ∧ Covers stamp (e.centralHeaderStart + 12) i)) : ¬ a.Stamped i := by
  rintro ⟨e', he', hdir, hlocal | hcentral⟩
  · have hbefore := h.spaced.before e' he'
    have hinside := (h.spaced.inside e he).1
    have hroom := @dataStart_le_dataEnd bytes e'
    have hcovers : e'.headerStart + 10 ≤ i ∧ i < e'.headerStart + 10 + 4 := hlocal
    omega
  · by_cases heq : e = e'
    · exact hown ⟨heq ▸ hdir, heq ▸ hcentral⟩
    · have hapart : RawEntry.CentralApart bytes e e' :=
        h.central.forall he he' heq
      have hroom := @le_centralEnd bytes e'
      have hcovers : e'.centralHeaderStart + 12 ≤ i ∧ i < e'.centralHeaderStart + 12 + 4 := hcentral
      rcases hapart with hle | hle
      · omega
      · omega

theorem not_stamped_footer (h : Accepts zip bytes a stop) (hi : stop ≤ i) : ¬ a.Stamped i := by
  rintro ⟨e, he, -, hlocal | hcentral⟩
  · have hbefore := h.spaced.before e he
    have hinside := h.spaced.inside e he
    have hroom := @dataStart_le_dataEnd bytes e
    have hcentralRoom := @le_centralEnd bytes e
    have hcovers : e.headerStart + 10 ≤ i ∧ i < e.headerStart + 10 + 4 := hlocal
    omega
  · have hinside := h.spaced.inside e he
    have hcentralRoom := @le_centralEnd bytes e
    have hcovers : e.centralHeaderStart + 12 ≤ i ∧ i < e.centralHeaderStart + 12 + 4 := hcentral
    omega

theorem places_room (h : Accepts zip bytes a stop) : ∀ p ∈ a.places, p + stamp.length ≤ bytes.length := by
  intro p hp
  obtain ⟨e, he, hp⟩ := List.mem_flatMap.mp hp
  have hroom := (h.sound e he).room
  have hcentral := (h.sound e he).centralRoom
  have hstamp : stamp.length = 4 := rfl
  rw [RawEntry.places] at hp
  split at hp
  · simp only [List.mem_cons, List.not_mem_nil, or_false] at hp
    rcases hp with rfl | rfl
    · omega
    · omega
  · cases hp

theorem length_canonical (h : Accepts zip bytes a stop) :
    (a.canonical bytes).length = bytes.length := length_writeAll h.places_room

theorem getElem?_canonical (h : Accepts zip bytes a stop) (hi : ¬ a.Stamped i) :
    (a.canonical bytes)[i]? = bytes[i]? := by
  apply getElem?_writeAll h.places_room
  intro p hp hcovers
  exact hi (stamped_iff.mpr ⟨p, hp, hcovers⟩)

/-! ### What else is read stays -/

variable (h : Accepts zip bytes a stop)
  (hsame : ∀ i, ¬ a.Stamped i → bytes'[i]? = bytes[i]?) (he : e ∈ a.records)

include h hsame he

theorem local_congr {k n : Nat} (hk : k + n ≤ 10 ∨ 14 ≤ k)
    (hin : e.headerStart + k + n ≤ e.dataEnd bytes) :
    (bytes'.drop (e.headerStart + k)).take n = (bytes.drop (e.headerStart + k)).take n := by
  apply take_drop_congr
  intro j hj hjn
  apply hsame
  apply h.not_stamped_local he (by omega)
  rintro ⟨-, hcovers⟩
  have hcovers : e.headerStart + 10 ≤ j ∧ j < e.headerStart + 10 + 4 := hcovers
  omega

theorem central_congr {k n : Nat} (hk : k + n ≤ 12 ∨ 16 ≤ k)
    (hin : e.centralHeaderStart + k + n ≤ e.centralEnd bytes) :
    (bytes'.drop (e.centralHeaderStart + k)).take n =
      (bytes.drop (e.centralHeaderStart + k)).take n := by
  apply take_drop_congr
  intro j hj hjn
  apply hsame
  apply h.not_stamped_central he (by omega)
  rintro ⟨-, hcovers⟩
  have hcovers : e.centralHeaderStart + 12 ≤ j ∧ j < e.centralHeaderStart + 12 + 4 := hcovers
  omega

theorem dataStart_congr : e.dataStart bytes' = e.dataStart bytes := by
  have hroom := @dataStart_le_dataEnd bytes e
  rw [RawEntry.dataStart, RawEntry.dataStart, u16At, u16At,
    local_congr h hsame he (by omega) (by omega)]

theorem dataEnd_congr : e.dataEnd bytes' = e.dataEnd bytes := by
  rw [RawEntry.dataEnd, RawEntry.dataEnd, dataStart_congr h hsame he]

theorem centralEnd_congr : e.centralEnd bytes' = e.centralEnd bytes := by
  have hroom := @le_centralEnd bytes e
  rw [RawEntry.centralEnd, RawEntry.centralEnd, u16At, u16At, u16At, u16At,
    central_congr h hsame he (k := 30) (by omega) (by omega),
    central_congr h hsame he (k := 32) (by omega) (by omega)]

theorem emptyDirectory_congr (hempty : e.EmptyDirectory bytes) (hlength : bytes'.length = bytes.length) :
    e.EmptyDirectory bytes' := by
  have hroom := @dataStart_le_dataEnd bytes e
  have hcentralRoom := @le_centralEnd bytes e
  have hlocal : ∀ k, k + 2 ≤ 10 ∨ 14 ≤ k → k + 2 ≤ 30 →
      u16At bytes' (e.headerStart + k) = u16At bytes (e.headerStart + k) := by
    intro k hk hk'
    rw [u16At, u16At, local_congr h hsame he hk (by omega)]
  have hlocal32 : ∀ k, 14 ≤ k → k + 4 ≤ 30 →
      u32At bytes' (e.headerStart + k) = u32At bytes (e.headerStart + k) := by
    intro k hk hk'
    rw [u32At, u32At, local_congr h hsame he (.inr hk) (by omega)]
  have hcentral : ∀ k, k + 2 ≤ 12 →
      u16At bytes' (e.centralHeaderStart + k) = u16At bytes (e.centralHeaderStart + k) := by
    intro k hk
    rw [u16At, u16At, central_congr h hsame he (.inl hk) (by omega)]
  refine ⟨?_, hempty.size, hempty.crc, ?_, ?_, ?_, ?_, ?_⟩
  · rw [hcentral 10 (by omega), dataStart_congr h hsame he, hlength]
    refine hempty.payload.imp_right ?_
    rintro ⟨hmethod, hsize, hpayload, hbytes⟩
    refine ⟨hmethod, hsize, hpayload, ?_⟩
    have hbehind : e.dataStart bytes = e.headerStart + (e.dataStart bytes - e.headerStart) := by
      simp only [RawEntry.dataStart]
      omega
    have hend : e.dataEnd bytes = e.dataStart bytes + 2 := by rw [RawEntry.dataEnd, hsize]
    have hstart : e.headerStart + 30 ≤ e.dataStart bytes := by
      simp only [RawEntry.dataStart]
      omega
    rw [hbehind] at hbytes ⊢
    rw [local_congr h hsame he (.inr (by omega)) (by omega)]
    exact hbytes
  · rw [hlocal 8 (by omega) (by omega), hcentral 10 (by omega)]
    exact hempty.method
  · rw [hlocal 6 (by omega) (by omega), hcentral 8 (by omega)]
    exact hempty.flags
  · rw [hlocal 6 (by omega) (by omega)]
    exact hempty.plain
  · rw [hlocal32 18 (by omega) (by omega)]
    exact hempty.compressed
  · rw [hlocal32 22 (by omega) (by omega)]
    exact hempty.uncompressed

theorem sound_congr {start size : Nat} (hsound : e.Sound bytes start size)
    (hlength : bytes'.length = bytes.length) : e.Sound bytes' start size := by
  have hroom := @dataStart_le_dataEnd bytes e
  have hcentralRoom := @le_centralEnd bytes e
  refine ⟨hlength ▸ hsound.room, hlength ▸ hsound.centralRoom, ?_, ?_, ?_, ?_,
    hlength ▸ hsound.nameRoom, ?_, ?_, ?_, ?_, ?_, hsound.central, ?_, ?_⟩
  · exact (local_congr h hsame he (k := 0) (.inl (by omega)) (by omega)).trans hsound.magic
  · exact (central_congr h hsame he (k := 0) (.inl (by omega)) (by omega)).trans hsound.centralMagic
  · rw [u16At, local_congr h hsame he (.inr (by omega)) (by omega)]
    exact hsound.nameLength
  · rw [u16At, central_congr h hsame he (.inr (by omega)) (by omega)]
    exact hsound.centralNameLength
  · rw [local_congr h hsame he (.inr (by omega)) (by omega)]
    exact hsound.name
  · rw [dataStart_congr h hsame he]
    exact hsound.dataStart_lt
  · rw [dataEnd_congr h hsame he]
    exact hsound.dataEnd_lt
  · rw [centralEnd_congr h hsame he]
    exact hsound.centralEnd_lt
  · rw [dataEnd_congr h hsame he]
    exact hsound.before
  · rw [centralEnd_congr h hsame he]
    exact hsound.inside
  · intro hdir
    exact emptyDirectory_congr h hsame he (hsound.directory hdir) hlength

omit he in
/-- From the end record on nothing changes. -/
theorem drop_congr {k : Nat} (hk : stop ≤ k) : bytes'.drop k = bytes.drop k := by
  apply List.ext_getElem?
  intro j
  rw [List.getElem?_drop, List.getElem?_drop]
  exact hsame _ (h.not_stamped_footer (by omega))

omit he in
theorem footer_congr (hlength : bytes'.length = bytes.length) : footerAt bytes' = some stop := by
  have hfooter := h.footer
  rw [footerAt, Option.map_eq_some_iff] at hfooter
  obtain ⟨last, hlast, hstop⟩ := hfooter
  rw [footerAt, hlength]
  generalize bytes.length - min bytes.length 65557 = tailStart at hlast hstop ⊢
  have htail : (bytes'.drop tailStart).length = (bytes.drop tailStart).length := by
    rw [List.length_drop, List.length_drop, hlength]
  suffices hfound : findEnd (bytes'.drop tailStart) = some last by
    rw [hfound, ← hstop]
    rfl
  unfold findEnd at hlast ⊢
  rw [htail]
  apply find_last_congr hlast
  intro i hi _
  rw [u16At_drop, u16At_drop, u16At, u16At, List.drop_drop, List.drop_drop,
    drop_congr h hsame (by omega), drop_congr h hsame (by omega)]

omit he in
/-- What is accepted is accepted whatever the timestamps of directories are. -/
theorem congr (hlength : bytes'.length = bytes.length) : Accepts zip bytes' a stop := by
  have hfield16 : ∀ k, u16At bytes' (stop + k) = u16At bytes (stop + k) := by
    intro k
    rw [u16At, u16At, drop_congr h hsame (Nat.le_add_right _ _)]
  have hfield32 : ∀ k, u32At bytes' (stop + k) = u32At bytes (stop + k) := by
    intro k
    rw [u32At, u32At, drop_congr h hsame (Nat.le_add_right _ _)]
  refine ⟨footer_congr h hsame hlength, ?_, zip.timeless h.opened h.spaced hlength hsame, ?_, ?_,
    h.known, ?_, ?_⟩
  · simp only [hfield16, hfield32]
    exact h.fields
  · rw [hfield16]
    exact h.count
  · rw [hfield32]
    exact h.start
  · intro e he
    rw [hfield32, hfield32]
    exact sound_congr h hsame he (h.sound e he) hlength
  · apply h.apart.imp_of_mem
    intro e e' he he' hapart
    rw [RawEntry.Apart, dataEnd_congr h hsame he, dataEnd_congr h hsame he']
    exact hapart

omit he in
theorem canonical_congr (hlength : bytes'.length = bytes.length) :
    a.canonical bytes' = a.canonical bytes := by
  apply writeAll_congr h.places_room hlength
  intro i hi
  apply hsame i
  rintro hstamped
  obtain ⟨p, hp, hcovers⟩ := stamped_iff.mp hstamped
  exact hi p hp hcovers

end Accepts

end

/-- The local and the central record of a file have the bytes they had. -/
structure KeepsFile (bytes out : Bytes) (e : RawEntry) : Prop where
  localRecord : ∀ i, e.headerStart ≤ i → i < e.dataEnd bytes → out[i]? = bytes[i]?
  centralRecord : ∀ i, e.centralHeaderStart ≤ i → i < e.centralEnd bytes → out[i]? = bytes[i]?

/-- An export changes the timestamps of directories, to what every export changes them to. -/
theorem canonical_export_canonical (zip : ZipLibrary) (sha : Sha256) (bytes out : Bytes)
    (receipt receipt' : PackageDownload)
    (h : canonicalExport zip sha bytes receipt = .ok (out, receipt')) :
    ∃ a, zip.archive bytes = some a ∧ out.length = bytes.length ∧
      (∀ i, out[i]? ≠ bytes[i]? → a.Stamped i) ∧
      (∀ e ∈ a.records, e.isDir = false → KeepsFile bytes out e) ∧
      canonicalExport zip sha out receipt' = .ok (out, receipt') ∧
      ∀ bytes₂ out₂ receipt₂ receipt₂',
        canonicalExport zip sha bytes₂ receipt₂ = .ok (out₂, receipt₂') →
        bytes₂.length = bytes.length → (∀ i, bytes₂[i]? ≠ bytes[i]? → a.Stamped i) →
        out₂ = out ∧ receipt₂' = receipt' := by
  obtain ⟨-, a, stop, haccepts, hresult⟩ := canonicalExport_eq_ok_iff.mp h
  obtain ⟨rfl, rfl⟩ := Prod.mk.inj hresult
  have hlength := haccepts.length_canonical
  have hkept : ∀ i, ¬ a.Stamped i → (a.canonical bytes)[i]? = bytes[i]? :=
    fun i hi => haccepts.getElem?_canonical hi
  have hagain := haccepts.canonical_congr hkept hlength
  refine ⟨a, haccepts.opened, hlength, ?_, ?_, ?_, ?_⟩
  · intro i hne
    by_contra hi
    exact hne (hkept i hi)
  · intro e he hfile
    have hown : ∀ p : Prop, ¬ (e.isDir = true ∧ p) := by simp [hfile]
    exact ⟨fun i hi hlt => hkept i (haccepts.not_stamped_local he ⟨hi, hlt⟩ (hown _)),
      fun i hi hlt => hkept i (haccepts.not_stamped_central he ⟨hi, hlt⟩ (hown _))⟩
  · rw [canonicalExport_eq_ok_iff]
    refine ⟨⟨hlength, rfl⟩, a, stop, haccepts.congr hkept hlength, ?_⟩
    rw [hagain, hlength]
  · intro bytes₂ out₂ receipt₂ receipt₂' h₂ hlength₂ hdiffers
    have hsame : ∀ i, ¬ a.Stamped i → bytes₂[i]? = bytes[i]? := by
      intro i hi
      by_contra hne
      exact hi (hdiffers i hne)
    obtain ⟨-, a₂, stop₂, haccepts₂, hresult₂⟩ := canonicalExport_eq_ok_iff.mp h₂
    have hopened := (haccepts.congr hsame hlength₂).opened
    rw [haccepts₂.opened] at hopened
    obtain ⟨rfl, rfl⟩ := Prod.mk.inj hresult₂
    rw [Option.some.inj hopened, haccepts.canonical_congr hsame hlength₂, hlength₂]
    exact ⟨rfl, rfl⟩

/-! ## An archive with a directory and a file -/

/-- The local and the central record of the directory `a/`, with a timestamp. -/
def sampleDirectory (time : Bytes) : Bytes × Bytes :=
  ([80, 75, 3, 4, 20, 0, 0, 0, 0, 0] ++ time ++
    [0, 0, 0, 0, 0, 0, 0, 0, 0, 0, 0, 0, 2, 0, 0, 0, 97, 47],
   [80, 75, 1, 2, 20, 3, 20, 0, 0, 0, 0, 0] ++ time ++
    [0, 0, 0, 0, 0, 0, 0, 0, 0, 0, 0, 0, 2, 0, 0, 0, 0, 0, 0, 0, 0, 0, 0, 0, 128, 1, 0, 0, 0,
    0, 97, 47])

/-- The archive of the directory and a file `a/b`. -/
def sampleBytes (time : Bytes) : Bytes :=
  (sampleDirectory time).1 ++
  [80, 75, 3, 4, 20, 0, 0, 0, 0, 0, 163, 32, 67, 80, 172, 42, 147, 216, 2, 0, 0, 0, 2, 0, 0,
    0, 3, 0, 0, 0, 97, 47, 98, 104, 105] ++
  (sampleDirectory time).2 ++
  [80, 75, 1, 2, 20, 3, 20, 0, 0, 0, 0, 0, 163, 32, 67, 80, 172, 42, 147, 216, 2, 0, 0, 0,
    2, 0, 0, 0, 3, 0, 0, 0, 0, 0, 0, 0, 0, 0, 0, 0, 128, 1, 32, 0, 0, 0, 97, 47, 98] ++
  [80, 75, 5, 6, 0, 0, 0, 0, 2, 0, 2, 0, 97, 0, 0, 0, 67, 0, 0, 0, 0, 0]

def sampleTime : Bytes := [0, 0, 33, 90]

def sampleArchive : ZipArchive :=
  ⟨67, [some ⟨0, 67, [97, 47], 0, 0, 0, true⟩, some ⟨32, 115, [97, 47, 98], 2, 2, 3633523372, false⟩]⟩

def sampleStamped (i : Nat) : Bool := (10 ≤ i && i < 14) || (79 ≤ i && i < 83)

/-- The digests of the archive and of its export. -/
def sampleDigest (bytes : Bytes) : Bytes :=
  if bytes = sampleBytes sampleTime then
    [238, 235, 251, 185, 153, 117, 125, 186, 99, 176, 34, 192, 116, 52, 149, 214, 221, 147,
    163, 178, 122, 105, 87, 162, 98, 99, 45, 29, 89, 241, 176, 129]
  else if bytes = sampleBytes stamp then
    [232, 14, 210, 14, 54, 103, 140, 91, 50, 65, 9, 170, 246, 240, 215, 79, 50, 6, 91, 98,
    234, 123, 73, 252, 72, 242, 245, 50, 163, 7, 15, 24]
  else List.replicate 32 0

theorem sampleArchive_stamped (i : Nat) : sampleArchive.Stamped i ↔ sampleStamped i = true := by
  simp [ZipArchive.Stamped, ZipArchive.records, sampleArchive, RawEntry.Stamped, Covers, stamp,
    sampleStamped]

def sampleZip : ZipLibrary where
  archive bytes :=
    if bytes.length = (sampleBytes stamp).length ∧
        ∀ i < bytes.length, sampleStamped i = false → bytes[i]? = (sampleBytes stamp)[i]? then
      some sampleArchive
    else none
  apart := by
    intro bytes a h
    split at h
    · next hsame =>
      cases h
      have hread : ∀ k, 83 ≤ k → k + 2 ≤ 186 → u16At bytes k = u16At (sampleBytes stamp) k := by
        intro k hk hk'
        rw [u16At, u16At]
        congr 1
        apply take_drop_congr
        intro j hj hj'
        apply hsame.2 j
        · rw [hsame.1]
          exact lt_of_lt_of_le hj' hk'
        · simp only [sampleStamped, Bool.or_eq_false_iff, Bool.and_eq_false_iff,
            decide_eq_false_iff_not]
          omega
      have hfirst : RawEntry.centralEnd bytes ⟨0, 67, [97, 47], 0, 0, 0, true⟩ = 115 := by
        rw [RawEntry.centralEnd, hread _ (by decide) (by decide), hread _ (by decide) (by decide)]
        decide
      exact List.pairwise_pair.mpr (.inl hfirst.le)
    · cases h
  timeless := by
    intro bytes bytes' a stop h _ hlength hkept
    split at h
    · next hsame =>
      cases h
      rw [if_pos]
      refine ⟨hlength.trans hsame.1, ?_⟩
      intro i hi hstamped
      rw [hkept i, hsame.2 i (hlength ▸ hi) hstamped]
      rw [sampleArchive_stamped, hstamped]
      exact Bool.false_ne_true
    · cases h

def sampleSha : Sha256 where
  digest := sampleDigest
  length_digest := by
    intro bytes
    unfold sampleDigest
    split_ifs <;> rfl

def sampleReceipt (bytes : Bytes) : PackageDownload :=
  ⟨bytes.length, hexEncode (sampleDigest bytes)⟩

theorem sampleBytes_exported :
    ∃ a, sampleZip.archive (sampleBytes sampleTime) = some a ∧
      (∀ i, (sampleBytes stamp)[i]? ≠ (sampleBytes sampleTime)[i]? → a.Stamped i) ∧
      (∀ e ∈ a.records, e.isDir = false → KeepsFile (sampleBytes sampleTime) (sampleBytes stamp) e) ∧
      canonicalExport sampleZip sampleSha (sampleBytes stamp) (sampleReceipt (sampleBytes stamp)) =
        .ok (sampleBytes stamp, sampleReceipt (sampleBytes stamp)) := by
  have h : canonicalExport sampleZip sampleSha (sampleBytes sampleTime)
      (sampleReceipt (sampleBytes sampleTime)) =
      .ok (sampleBytes stamp, sampleReceipt (sampleBytes stamp)) := by
    decide +kernel
  obtain ⟨a, hopened, -, hdiffers, hfiles, hagain, -⟩ :=
    canonical_export_canonical sampleZip sampleSha _ _ _ _ h
  exact ⟨a, hopened, hdiffers, hfiles, hagain⟩

end Cirrove.Package.Export
