import Cirrove.Library.Framing
import Cirrove.Package.Checked
import Cirrove.Package.Delivery

/-!
# The archive format

What a classic single-disk archive is, said of its bytes without a scanner: the end record, the
central records that tile the directory, the local records they agree with, the extra fields,
and the paths (`SoundArchive`). The two loops over extra fields accept exactly the areas that
are made of whole fields (`extras_eq_ok_iff`, `mirrorFrom_eq_ok_iff`).
-/

namespace Cirrove.Package

open Cirrove.Library
open Std (ExtTreeMap)

/-! ## The format -/

/-- The number in `n` bytes at an offset. -/
def numberAt (bytes : Bytes) (i n : Nat) : Nat := fromLittleEndian ((bytes.drop i).take n)

/-- One field of an extra area. -/
structure ExtraField where
  kind : Nat
  body : Bytes
  kind_lt : kind < 2 ^ 16
  body_lt : body.length < 2 ^ 16

def ExtraField.bytes (f : ExtraField) : Bytes :=
  littleEndian 2 f.kind ++ littleEndian 2 f.body.length ++ f.body

/-- Whole fields, none a ZIP64 one, except that many that mirror what they may mirror. -/
def ExtraFields (mirrored : Option Bytes) (many : Nat) (area : Bytes) : Prop :=
  ∃ fields : List ExtraField, area = fields.flatMap ExtraField.bytes ∧
    (∀ f ∈ fields, f.kind = 1 → mirrored = some f.body) ∧
    (fields.filter fun f => f.kind = 1).length ≤ many

/-- The extra area of a record. -/
def ExtraArea (area : Bytes) (mirrored : Option Bytes) : Prop := ExtraFields mirrored 1 area

/-- A central record by its place. -/
structure Central where
  bytes : Bytes
  place : Nat

namespace Central

variable (c : Central)

def flags : Nat := numberAt c.bytes (c.place + 8) 2
def method : Nat := numberAt c.bytes (c.place + 10) 2
def crc : Nat := numberAt c.bytes (c.place + 16) 4
def compressed : Nat := numberAt c.bytes (c.place + 20) 4
def uncompressed : Nat := numberAt c.bytes (c.place + 24) 4
def nameLength : Nat := numberAt c.bytes (c.place + 28) 2
def extraLength : Nat := numberAt c.bytes (c.place + 30) 2
def commentLength : Nat := numberAt c.bytes (c.place + 32) 2
def disk : Nat := numberAt c.bytes (c.place + 34) 2
/-- The file type of the Unix mode. -/
def kind : Nat := (numberAt c.bytes (c.place + 38) 4 >>> 16) &&& 0xf000
def offset : Nat := numberAt c.bytes (c.place + 42) 4

def length : Nat := 46 + c.nameLength + c.extraLength + c.commentLength
def name : Bytes := (c.bytes.drop (c.place + 46)).take c.nameLength
def extra : Bytes := (c.bytes.drop (c.place + 46 + c.nameLength)).take c.extraLength
def directory : Bool := endsInSlash c.name
/-- The name without the slash of a directory. -/
def path : Bytes := namePath c.name
/-- Sizes and checksum are in a descriptor behind the payload. -/
def described : Bool := c.flags &&& 8 ≠ 0

def localName : Bytes := (c.bytes.drop (c.offset + 30)).take c.nameLength
def localExtraLength : Nat := numberAt c.bytes (c.offset + 28) 2
def localExtra : Bytes :=
  (c.bytes.drop (c.offset + 30 + c.nameLength)).take c.localExtraLength
def payloadEnd : Nat := c.offset + (30 + c.nameLength + c.localExtraLength) + c.compressed

/-- Where the fields of the descriptor are; its signature is optional. -/
def descriptor : Nat :=
  if slice c.bytes c.payloadEnd 4 = some descriptorMagic then c.payloadEnd + 4 else c.payloadEnd

/-- Where the checksum is that belongs to the payload; the sizes follow it. -/
def summary : Nat := if c.described then c.descriptor else c.offset + 14

/-- Where the local record ends, its payload and descriptor included. -/
def finish : Nat := if c.described then c.descriptor + 12 else c.payloadEnd

/-- The bytes of the local record. -/
def range : Nat × Nat := (c.offset, c.finish)

/-- What an extra field of the local record may mirror. -/
def mirrored (mirror : Bool) : Option Bytes :=
  if mirror && c.flags == 0 && c.method == 0 && c.uncompressed != 0xffffffff &&
      c.compressed != 0xffffffff then
    some (littleEndian 8 c.uncompressed ++ littleEndian 8 c.compressed)
  else none

/-- The local record lies before the directory and agrees with the central one. -/
structure Local (start : Nat) (mirror : Bool) : Prop where
  inside : c.finish ≤ start
  signature : slice c.bytes c.offset 4 = some localMagic
  flags : numberAt c.bytes (c.offset + 6) 2 = c.flags
  method : numberAt c.bytes (c.offset + 8) 2 = c.method
  nameLength : numberAt c.bytes (c.offset + 26) 2 = c.nameLength
  name : c.localName = c.name
  extra : ExtraArea c.localExtra (c.mirrored mirror)
  crc : numberAt c.bytes c.summary 4 = c.crc
  compressed : numberAt c.bytes (c.summary + 4) 4 = c.compressed
  uncompressed : numberAt c.bytes (c.summary + 8) 4 = c.uncompressed

/-- A record of a single-disk archive that is stored or deflated, with a safe name. -/
structure Sound (start : Nat) (mirror : Bool) : Prop where
  signature : slice c.bytes c.place 4 = some centralMagic
  /-- Only the deflate hints, the data descriptor and the UTF-8 flag are set. -/
  flags : c.flags &&& 0xf7f1 = 0
  method : c.method = 0 ∨ c.method = 8
  disk : c.disk = 0
  name : Safe c.name c.directory c.path
  extra : ExtraArea c.extra none
  kind : c.kind = 0 ∨ c.kind = 0x8000 ∧ c.directory = false ∨ c.kind = 0x4000 ∧ c.directory = true
  empty : c.directory = true → c.uncompressed = 0
  loc : c.Local start mirror

end Central

/-- An end record with a comment that reaches exactly to the end. -/
def EndRecord (bytes : Bytes) (i : Nat) : Prop :=
  endMagic <+: bytes.drop i ∧ i + 22 + numberAt bytes (i + 20) 2 = bytes.length

/-- The last end record of a single-disk archive, and the directory before it. -/
structure Footer (bytes : Bytes) (start stop count : Nat) : Prop where
  here : EndRecord bytes stop
  last : ∀ i, EndRecord bytes i → i ≤ stop
  disk : numberAt bytes (stop + 4) 2 = 0
  centralDisk : numberAt bytes (stop + 6) 2 = 0
  countHere : numberAt bytes (stop + 8) 2 = count
  countAll : numberAt bytes (stop + 10) 2 = count
  size : start + numberAt bytes (stop + 12) 4 = stop
  startAt : numberAt bytes (stop + 16) 4 = start
  nonempty : 0 < count
  countLimit : count ≤ maxEntries
  sizeLimit : numberAt bytes (stop + 12) 4 ≤ maxCentral

/-- The archives that are sound. -/
structure SoundArchive (bytes : Bytes) (limit : Nat) (mirror : Bool) (start stop : Nat)
    (records : List Central) : Prop where
  footer : Footer bytes start stop records.length
  /-- The central records tile the directory. -/
  tiles : Tiles (fun c => (c.place, c.length)) start stop records
  source : ∀ c ∈ records, c.bytes = bytes
  sound : ∀ c ∈ records, c.Sound start mirror
  /-- The local records are disjoint. -/
  disjoint : records.Pairwise fun c d => c.finish ≤ d.offset ∨ d.finish ≤ c.offset
  distinct : (records.map Central.path).Nodup
  /-- No entry lies below a file. -/
  below : ∀ c ∈ records, ∀ d ∈ records, Above slash c.path d.path → c.directory = true
  expanded : (records.map Central.uncompressed).sum ≤ limit

/-! ## Reading numbers -/

section Numbers

variable {bytes : Bytes} {i v : Nat}

theorem number_eq_ok {n : Nat} : orInvalid ((slice bytes i n).map fromLittleEndian) = .ok v ↔
    i + n ≤ bytes.length ∧ numberAt bytes i n = v := by
  rw [orInvalid_eq_ok, slice]
  split
  · next h => simp [h, numberAt]
  · next h => simp [h]

theorem u16At_eq_ok : u16At bytes i = .ok v ↔ i + 2 ≤ bytes.length ∧ numberAt bytes i 2 = v :=
  number_eq_ok

theorem u32At_eq_ok : u32At bytes i = .ok v ↔ i + 4 ≤ bytes.length ∧ numberAt bytes i 4 = v :=
  number_eq_ok

theorem numberAt_lt (bytes : Bytes) (i n : Nat) : numberAt bytes i n < 256 ^ n := by
  have hlt := Checked.fromLittleEndian_lt ((bytes.drop i).take n)
  have hlength : ((bytes.drop i).take n).length ≤ n := List.length_take_le _ _
  exact hlt.trans_le (Nat.pow_le_pow_right (by omega) hlength)

theorem slice_eq_some_iff {part : Bytes} {n : Nat} :
    slice bytes i n = some part ↔ i + n ≤ bytes.length ∧ (bytes.drop i).take n = part := by
  rw [slice]
  split
  · next h => simp [h]
  · next h => simp [h]

/-- The bytes of a number are those it is read from. -/
theorem littleEndian_fromLittleEndian (part : Bytes) :
    littleEndian part.length (fromLittleEndian part) = part := by
  induction part with
  | nil => rfl
  | cons b rest ih =>
    have hlow : (b.toNat + 256 * fromLittleEndian rest) % 256 = b.toNat := by
      have hb := b.toNat_lt
      omega
    have hhigh : (b.toNat + 256 * fromLittleEndian rest) / 256 = fromLittleEndian rest := by
      have hb := b.toNat_lt
      omega
    rw [List.length_cons, fromLittleEndian, littleEndian, hhigh, ih]
    simp

theorem fromLittleEndian_eq_iff {part : Bytes} {n : Nat} (hv : v < 256 ^ n)
    (hlength : part.length = n) : fromLittleEndian part = v ↔ part = littleEndian n v := by
  constructor
  · rintro rfl
    rw [← hlength, littleEndian_fromLittleEndian]
  · rintro rfl
    exact fromLittleEndian_littleEndian hv

end Numbers

/-! ## Reading extra fields -/

section Extra

variable {bytes area rest rest' : Bytes} {f f' : ExtraField} {mirrored : Option Bytes}
  {many i : Nat}

@[simp]
theorem ExtraField.length_bytes (f : ExtraField) : f.bytes.length = 4 + f.body.length := by
  simp only [bytes, List.length_append, length_littleEndian]

/-- What is read where a field lies. -/
theorem reads_of_field (h : bytes.drop i = f.bytes ++ rest) :
    u16At bytes i = .ok f.kind ∧ u16At bytes (i + 2) = .ok f.body.length ∧
      i + (4 + f.body.length) ≤ bytes.length ∧ rest = bytes.drop (i + (4 + f.body.length)) ∧
      slice bytes i (4 + f.body.length) = some f.bytes := by
  have hlength := congrArg List.length h
  rw [List.length_drop, List.length_append, f.length_bytes] at hlength
  have hkind : bytes.drop i = littleEndian 2 f.kind ++
      (littleEndian 2 f.body.length ++ (f.body ++ rest)) := by
    rw [h]
    simp [ExtraField.bytes]
  have hbody := drop_field hkind (j := i + 2) (by simp)
  refine ⟨u16At_field hkind f.kind_lt, u16At_field hbody f.body_lt, by omega, ?_, ?_⟩
  · exact (drop_field h (by simp)).symm
  · exact slice_field h (by simp) (by omega)

/-- A field lies where one is read. -/
theorem field_of_reads {kind len : Nat} (hkind : u16At bytes i = .ok kind)
    (hlen : u16At bytes (i + 2) = .ok len) (hnext : i + (4 + len) ≤ bytes.length) :
    ∃ f : ExtraField, f.kind = kind ∧ f.body.length = len ∧
      bytes.drop i = f.bytes ++ bytes.drop (i + (4 + len)) := by
  obtain ⟨_, rfl⟩ := u16At_eq_ok.mp hkind
  obtain ⟨_, rfl⟩ := u16At_eq_ok.mp hlen
  -- The two numbers are written as they are read.
  have hnumber : ∀ j, j + 2 ≤ bytes.length →
      littleEndian 2 (numberAt bytes j 2) = (bytes.drop j).take 2 := by
    intro j hj
    have hlength : ((bytes.drop j).take 2).length = 2 := by
      rw [List.length_take, List.length_drop]
      omega
    have h := littleEndian_fromLittleEndian ((bytes.drop j).take 2)
    rwa [hlength] at h
  have hbody : ((bytes.drop (i + 4)).take (numberAt bytes (i + 2) 2)).length =
      numberAt bytes (i + 2) 2 := by
    rw [List.length_take, List.length_drop]
    omega
  refine ⟨⟨_, (bytes.drop (i + 4)).take (numberAt bytes (i + 2) 2), numberAt_lt bytes i 2, ?_⟩,
    rfl, hbody, ?_⟩
  · rw [hbody]
    exact numberAt_lt bytes (i + 2) 2
  · have hsplit : ∀ j n, bytes.drop j = (bytes.drop j).take n ++ bytes.drop (j + n) := by
      intro j n
      rw [← List.drop_drop, List.take_append_drop]
    simp only [ExtraField.bytes]
    rw [hbody, hnumber i (by omega), hnumber (i + 2) (by omega), List.append_assoc,
      List.append_assoc, ← Nat.add_assoc, ← hsplit, ← hsplit, ← hsplit]

/-- A field is told by the bytes it begins. -/
theorem ExtraField.bytes_inj (h : f.bytes ++ rest = f'.bytes ++ rest') : f = f' ∧ rest = rest' := by
  obtain ⟨hkind, hlen, -⟩ := reads_of_field (i := 0) (List.drop_zero : _ = f.bytes ++ rest)
  obtain ⟨hkind', hlen', -⟩ := reads_of_field (i := 0) (h : (f.bytes ++ rest).drop 0 = _)
  rw [hkind] at hkind'
  rw [hlen] at hlen'
  have hlength : f.bytes.length = f'.bytes.length := by
    simpa using hlen'
  obtain ⟨hbytes, hrest⟩ := List.append_inj h hlength
  have hbody : f.body = f'.body := by
    apply List.append_inj_right hbytes
    simp
  obtain ⟨kind, body, _, _⟩ := f
  obtain ⟨kind', body', _, _⟩ := f'
  simp_all

theorem ExtraFields.nil : ExtraFields mirrored many [] := ⟨[], by simp⟩

/-- What is asked of an area that begins with a field. -/
theorem extraFields_append : ExtraFields mirrored many (f.bytes ++ rest) ↔
    (f.kind ≠ 1 ∧ ExtraFields mirrored many rest) ∨
      (f.kind = 1 ∧ mirrored = some f.body ∧ ∃ fewer, many = fewer + 1 ∧
        ExtraFields mirrored fewer rest) := by
  constructor
  · rintro ⟨fields, hfields, hplain, hmany⟩
    cases fields with
    | nil =>
      have hlength := congrArg List.length hfields
      simp at hlength
    | cons f' fields =>
      rw [List.flatMap_cons] at hfields
      obtain ⟨rfl, rfl⟩ := ExtraField.bytes_inj hfields
      have hrest : ∀ g ∈ fields, g.kind = 1 → mirrored = some g.body := fun g hg =>
        hplain g (List.mem_cons_of_mem _ hg)
      by_cases hkind : f.kind = 1
      · rw [List.filter_cons_of_pos (by simpa using hkind), List.length_cons] at hmany
        obtain ⟨fewer, rfl⟩ := Nat.exists_eq_add_of_lt (Nat.lt_of_lt_of_le (Nat.succ_pos _) hmany)
        refine .inr ⟨hkind, hplain f List.mem_cons_self hkind, fewer, by omega, fields, rfl, hrest, ?_⟩
        omega
      · rw [List.filter_cons_of_neg (by simpa using hkind)] at hmany
        exact .inl ⟨hkind, fields, rfl, hrest, hmany⟩
  · rintro (⟨hkind, fields, rfl, hplain, hmany⟩ | ⟨hkind, hbody, fewer, rfl, fields, rfl, hplain, hmany⟩)
    · refine ⟨f :: fields, by simp, ?_, by simpa [hkind] using hmany⟩
      intro g hg hone
      rcases List.mem_cons.mp hg with rfl | hg
      · exact absurd hone hkind
      · exact hplain g hg hone
    · refine ⟨f :: fields, by simp, ?_, by simpa [hkind] using hmany⟩
      intro g hg hone
      rcases List.mem_cons.mp hg with rfl | hg
      · exact hbody
      · exact hplain g hg hone

/-- An area that is not empty begins with a field. -/
theorem ExtraFields.exists_field (h : ExtraFields mirrored many area) (hne : area ≠ []) :
    ∃ f : ExtraField, ∃ rest, area = f.bytes ++ rest := by
  obtain ⟨fields, rfl, -⟩ := h
  cases fields with
  | nil => exact absurd rfl hne
  | cons f fields => exact ⟨f, fields.flatMap ExtraField.bytes, by simp⟩

theorem extrasFrom_eq_ok_iff {fuel : Nat} (hi : i ≤ bytes.length) (hfuel : bytes.length ≤ i + fuel) :
    extrasFrom bytes fuel i = .ok () ↔ ExtraFields none many (bytes.drop i) := by
  induction fuel generalizing i with
  | zero =>
    have hend : i = bytes.length := by omega
    simp [extrasFrom, hend, ExtraFields.nil]
  | succ fuel ih =>
    by_cases hlt : i < bytes.length
    · have hne : bytes.drop i ≠ [] := by simpa using hlt
      rw [extrasFrom, if_pos hlt]
      simp only [bind_eq_ok_iff, refuseIf_eq_ok, not_or, not_lt, exists_const]
      constructor
      · rintro ⟨kind, hkind, len, hlen, ⟨hone, hnext⟩, hrest⟩
        obtain ⟨f, rfl, rfl, hfield⟩ := field_of_reads hkind hlen hnext
        rw [hfield, extraFields_append]
        exact .inl ⟨hone, (ih hnext (by omega)).mp hrest⟩
      · intro h
        obtain ⟨f, rest, hfield⟩ := h.exists_field hne
        obtain ⟨hkind, hlen, hnext, rfl, -⟩ := reads_of_field hfield
        rw [hfield, extraFields_append] at h
        rcases h with ⟨hone, hrest⟩ | ⟨_, hnone, _⟩
        · exact ⟨_, hkind, _, hlen, ⟨hone, hnext⟩, (ih hnext (by omega)).mpr hrest⟩
        · cases hnone
    · have hend : i = bytes.length := by omega
      simp [extrasFrom, hend, ExtraFields.nil, pure_eq_ok]

theorem extras_eq_ok_iff : extras bytes = .ok () ↔ ExtraArea bytes none := by
  rw [extras, extrasFrom_eq_ok_iff (Nat.zero_le _) (by omega), List.drop_zero, ExtraArea]

/-- The sizes a mirror holds. -/
theorem mirror_body {body : Bytes} {u c : Nat} (hu : u < 2 ^ 64) (hc : c < 2 ^ 64)
    (hlength : body.length = 16) :
    fromLittleEndian (body.take 8) = u ∧ fromLittleEndian (body.drop 8) = c ↔
      body = littleEndian 8 u ++ littleEndian 8 c := by
  have hfirst := @fromLittleEndian_eq_iff u (body.take 8) 8 hu (by simp [hlength])
  have hsecond := @fromLittleEndian_eq_iff c (body.drop 8) 8 hc (by simp [hlength])
  rw [hfirst, hsecond]
  constructor
  · rintro ⟨hfirst, hsecond⟩
    rw [← hfirst, ← hsecond, List.take_append_drop]
  · rintro rfl
    exact ⟨List.take_left' (by simp), List.drop_left' (by simp)⟩

/-- One round, where a field lies. -/
theorem mirrorFrom_succ {u c fuel : Nat} {seen : Bool} (hu : u < 2 ^ 64) (hc : c < 2 ^ 64)
    (hfield : bytes.drop i = f.bytes ++ rest) :
    mirrorFrom bytes u c (fuel + 1) i seen = .ok () ↔
      (f.kind ≠ 1 ∧ mirrorFrom bytes u c fuel (i + (4 + f.body.length)) seen = .ok ()) ∨
      (f.kind = 1 ∧ f.body = littleEndian 8 u ++ littleEndian 8 c ∧ seen = false ∧
        mirrorFrom bytes u c fuel (i + (4 + f.body.length)) true = .ok ()) := by
  obtain ⟨hkind, hlen, hnext, -, hslice⟩ := reads_of_field hfield
  have hlt : i < bytes.length := by omega
  simp only [mirrorFrom, if_pos hlt, bind_eq_ok_iff, hkind, hlen, hslice, orInvalid_eq_ok,
    Except.ok.injEq, exists_eq_left', Option.some.injEq]
  by_cases hone : f.kind = 1
  · have hsizes : ∀ sizes, slice f.bytes 4 16 = some sizes → f.body.length = 16 →
        sizes = f.body := by
      intro sizes hsizes hlength
      obtain ⟨-, rfl⟩ := slice_eq_some_iff.mp hsizes
      have hbody : f.bytes.drop 4 = f.body := List.drop_left' (by simp)
      rw [hbody, List.take_of_length_le hlength.le]
    rw [if_pos hone]
    simp only [bind_eq_ok_iff, refuseIf_eq_ok, orInvalid_eq_ok, exists_const, not_or, not_not,
      ne_eq, hone, not_true_eq_false, false_and, false_or, true_and, Bool.not_eq_true]
    constructor
    · rintro ⟨⟨hseen, hlength⟩, sizes, hslice, hmirror, hrest⟩
      obtain rfl := hsizes sizes hslice hlength
      exact ⟨(mirror_body hu hc hlength).mp hmirror, hseen, hrest⟩
    · rintro ⟨hbody, hseen, hrest⟩
      have hlength : f.body.length = 16 := by simp [hbody]
      have hslice : slice f.bytes 4 16 = some f.body := by
        rw [slice_eq_some_iff]
        have hdrop : f.bytes.drop 4 = f.body := List.drop_left' (by simp)
        rw [hdrop, List.take_of_length_le hlength.le]
        exact ⟨by simp [hlength], rfl⟩
      exact ⟨⟨hseen, hlength⟩, f.body, hslice, (mirror_body hu hc hlength).mpr hbody, hrest⟩
  · -- A field of another kind stands alone.
    have hfield : extras f.bytes = .ok () := by
      rw [extras_eq_ok_iff, ExtraArea, ← List.append_nil f.bytes, extraFields_append]
      exact .inl ⟨hone, .nil⟩
    rw [if_neg hone]
    simp only [bind_eq_ok_iff, hfield, hone, exists_const, true_and, ne_eq, not_false_eq_true,
      false_and, or_false]

/-- The loop has seen a mirror when no more may come. -/
theorem mirrorFrom_eq_ok_iff {u c fuel : Nat} {seen : Bool} (hu : u < 2 ^ 64) (hc : c < 2 ^ 64)
    (hi : i ≤ bytes.length) (hfuel : bytes.length ≤ i + fuel) :
    mirrorFrom bytes u c fuel i seen = .ok () ↔
      ExtraFields (some (littleEndian 8 u ++ littleEndian 8 c)) (if seen then 0 else 1)
        (bytes.drop i) := by
  induction fuel generalizing i seen with
  | zero =>
    have hend : i = bytes.length := by omega
    simp [mirrorFrom, hend, ExtraFields.nil]
  | succ fuel ih =>
    by_cases hlt : i < bytes.length
    · have hne : bytes.drop i ≠ [] := by simpa using hlt
      have hstep : ∀ f : ExtraField, bytes.drop i = f.bytes ++ bytes.drop (i + (4 + f.body.length)) →
          i + (4 + f.body.length) ≤ bytes.length →
          (mirrorFrom bytes u c (fuel + 1) i seen = .ok () ↔
            ExtraFields (some (littleEndian 8 u ++ littleEndian 8 c)) (if seen then 0 else 1)
              (bytes.drop i)) := by
        intro f hfield hnext
        rw [mirrorFrom_succ hu hc hfield, hfield, extraFields_append, ih hnext (by omega),
          ih hnext (by omega)]
        cases seen <;> simp [eq_comm]
      constructor
      · intro h
        have hread := h
        rw [mirrorFrom, if_pos hlt] at hread
        obtain ⟨kind, hkind, hread⟩ := bind_eq_ok hread
        obtain ⟨len, hlen, hread⟩ := bind_eq_ok hread
        obtain ⟨field, hslice, -⟩ := bind_eq_ok hread
        obtain ⟨hnext, -⟩ := slice_eq_some_iff.mp (orInvalid_eq_ok.mp hslice)
        obtain ⟨f, rfl, rfl, hfield⟩ := field_of_reads hkind hlen hnext
        exact (hstep f hfield hnext).mp h
      · intro h
        obtain ⟨f, rest, hfield⟩ := h.exists_field hne
        obtain ⟨-, -, hnext, rfl, -⟩ := reads_of_field hfield
        exact (hstep f hfield hnext).mpr h
    · have hend : i = bytes.length := by omega
      simp [mirrorFrom, hend, ExtraFields.nil, pure_eq_ok]

end Extra

end Cirrove.Package
