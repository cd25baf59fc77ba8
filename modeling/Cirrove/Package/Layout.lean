import Cirrove.Package.Format

/-!
# Archives the scanner accepts

One central record is accepted when it is sound and agrees with its local record
(`Central.centralRecord_eq_ok_iff`), a walk reads the records that tile the directory
(`centralRecords_reads`, `centralRecords_total`), and the scan accepts exactly the sound
archives, on no buffer leaving its bounds (`layout_accepts_exactly`).
-/

namespace Cirrove.Package

open Cirrove.Library
open Std (ExtTreeMap)

/-! ## Records -/

theorem localExtras_eq_ok_iff {area : Bytes} {u c : Nat} (allow : Bool) (hu : u < 2 ^ 64)
    (hc : c < 2 ^ 64) : localExtras area u c allow = .ok () ↔
      ExtraArea area (if allow then some (littleEndian 8 u ++ littleEndian 8 c) else none) := by
  rw [localExtras]
  cases allow with
  | false => exact extras_eq_ok_iff
  | true =>
    rw [if_pos rfl, if_pos rfl, mirrorFrom_eq_ok_iff hu hc (Nat.zero_le _) (by omega),
      List.drop_zero]
    rfl

namespace Central

variable {c : Central} {start : Nat} {mirror : Bool} {range : Nat × Nat}

theorem uncompressed_lt : c.uncompressed < 2 ^ 64 :=
  (numberAt_lt _ _ _).trans (by norm_num)

theorem compressed_lt : c.compressed < 2 ^ 64 :=
  (numberAt_lt _ _ _).trans (by norm_num)

theorem payloadEnd_le : c.payloadEnd ≤ c.finish := by
  simp only [finish, descriptor]
  split_ifs <;> omega

/-- The extra area of the local record, as the scanner asks for it. -/
theorem localExtra_eq_ok_iff {u : Unit} : localExtras c.localExtra c.uncompressed c.compressed
    (mirror && c.flags == 0 && c.method == 0 && c.uncompressed != 0xffffffff &&
      c.compressed != 0xffffffff) = .ok u ↔ ExtraArea c.localExtra (c.mirrored mirror) :=
  localExtras_eq_ok_iff _ uncompressed_lt compressed_lt

theorem intervalEnd_eq_ok_iff {stop : Nat} (hplace : c.place + 46 ≤ c.bytes.length)
    (hstart : start ≤ c.bytes.length) (hdescribed : c.described = true) :
    intervalEnd c.bytes start c.place c.flags c.compressed c.uncompressed c.payloadEnd = .ok stop ↔
      c.finish ≤ start ∧ numberAt c.bytes c.summary 4 = c.crc ∧
      numberAt c.bytes (c.summary + 4) 4 = c.compressed ∧
      numberAt c.bytes (c.summary + 8) 4 = c.uncompressed ∧ c.finish = stop := by
  have hflag : c.flags &&& 8 ≠ 0 := by simpa [described] using hdescribed
  have hdescriptor : (if slice c.bytes c.payloadEnd 4 = some descriptorMagic then c.payloadEnd + 4
      else c.payloadEnd) = c.descriptor := rfl
  have hcrc : numberAt c.bytes (c.place + 16) 4 = c.crc := rfl
  rw [intervalEnd, if_pos hflag]
  simp only [bind_eq_ok_iff, refuseIf_eq_ok, u32At_eq_ok, pure_eq_ok, exists_const, not_or, not_lt,
    not_not, ne_eq, hdescriptor, hcrc, and_assoc, exists_and_left, exists_eq_left', finish, summary,
    if_pos hdescribed]
  constructor
  · rintro ⟨h, -, -, -, -, hcrc, hcompressed, huncompressed, hstop⟩
    exact ⟨h, hcrc, hcompressed, huncompressed, hstop⟩
  · rintro ⟨h, hcrc, hcompressed, huncompressed, hstop⟩
    exact ⟨h, by omega, by omega, by omega, by omega, hcrc, hcompressed, huncompressed, hstop⟩

theorem localRecord_eq_ok_iff (hplace : c.place + 46 ≤ c.bytes.length)
    (hstart : start ≤ c.bytes.length) (hname : c.name.length = c.nameLength) :
    localRecord c.bytes start c.place c.flags c.method c.compressed c.uncompressed c.name mirror =
      .ok range ↔ c.Local start mirror ∧ range = c.range := by
  have hoffset : numberAt c.bytes (c.place + 42) 4 = c.offset := rfl
  have hlength : numberAt c.bytes (c.offset + 28) 2 = c.localExtraLength := rfl
  have hpayload : c.offset + (30 + c.nameLength + c.localExtraLength) + c.compressed = c.payloadEnd :=
    rfl
  have harea : (c.bytes.drop (c.offset + 30 + c.nameLength)).take c.localExtraLength =
    c.localExtra := rfl
  have hlocalName : (c.bytes.drop (c.offset + 30)).take c.nameLength = c.localName := rfl
  have hfinish := c.payloadEnd_le
  cases hdescribed : c.described with
  | true =>
    have hflag : ¬ c.flags &&& 8 = 0 := by simpa [described] using hdescribed
    simp only [localRecord, bind_eq_ok_iff, refuseIf_eq_ok, u32At_eq_ok, u16At_eq_ok, pure_eq_ok,
      orInvalid_eq_ok, slice_eq_some_iff, exists_const, not_or, not_le, not_lt, not_not, ne_eq, hname,
      and_assoc, exists_and_left, exists_eq_left', hoffset, hlength, hpayload, harea, hlocalName,
      if_neg hflag, intervalEnd_eq_ok_iff hplace hstart hdescribed, localExtra_eq_ok_iff]
    constructor
    · rintro ⟨-, -, hin, hsignature, -, -, -, hflags, hmethod, hlength, -, -, -, hlocal, -, harea,
        hinside, hcrc, hcompressed, huncompressed, rfl⟩
      exact ⟨⟨hinside, slice_eq_some_iff.mpr ⟨hin, hsignature⟩, hflags, hmethod, hlength, hlocal, harea,
        hcrc, hcompressed, huncompressed⟩, rfl⟩
    · rintro ⟨h, rfl⟩
      have hinside := h.inside
      obtain ⟨hin, hsignature⟩ := slice_eq_some_iff.mp h.signature
      exact ⟨by omega, by omega, hin, hsignature, by omega, by omega, by omega, h.flags, h.method,
        h.nameLength, by omega, by omega, by omega, h.name, by omega, h.extra, hinside, h.crc,
        h.compressed, h.uncompressed, rfl⟩
  | false =>
    have hflag : c.flags &&& 8 = 0 := by simpa [described] using hdescribed
    have hinterval : intervalEnd c.bytes start c.place c.flags c.compressed c.uncompressed
        c.payloadEnd = pure c.payloadEnd := by
      rw [intervalEnd, if_neg (by simpa using hflag)]
    have hcrc : numberAt c.bytes (c.place + 16) 4 = c.crc := rfl
    simp only [localRecord, bind_eq_ok_iff, refuseIf_eq_ok, u32At_eq_ok, u16At_eq_ok, pure_eq_ok,
      orInvalid_eq_ok, slice_eq_some_iff, exists_const, not_or, not_le, not_lt, not_not, ne_eq, hname,
      and_assoc, exists_and_left, exists_eq_left', hoffset, hlength, hpayload, harea, hlocalName,
      if_pos hflag, hinterval, localExtra_eq_ok_iff, hcrc]
    have hend : c.finish = c.payloadEnd := by simp [finish, hdescribed]
    have hsummary : c.summary = c.offset + 14 := by simp [summary, hdescribed]
    constructor
    · rintro ⟨-, -, hin, hsignature, -, -, -, hflags, hmethod, hlength, -, hinside, -, hlocal, -,
        harea, -, -, -, -, hsum, hcompressed, huncompressed, rfl⟩
      refine ⟨⟨by omega, slice_eq_some_iff.mpr ⟨hin, hsignature⟩, hflags, hmethod, hlength, hlocal,
        harea, ?_, ?_, ?_⟩, ?_⟩
      · rw [hsummary, hsum]
      · rw [hsummary, ← hcompressed]
      · rw [hsummary, ← huncompressed]
      · rw [Central.range, hend]
    · rintro ⟨h, rfl⟩
      have hinside := h.inside
      obtain ⟨hin, hsignature⟩ := slice_eq_some_iff.mp h.signature
      have hsum := h.crc
      have hcompressed := h.compressed
      have huncompressed := h.uncompressed
      rw [hsummary] at hsum hcompressed huncompressed
      refine ⟨by omega, by omega, hin, hsignature, by omega, by omega, by omega, h.flags, h.method,
        h.nameLength, by omega, by omega, by omega, h.name, by omega, h.extra, by omega, by omega,
        by omega, by omega, hsum, hcompressed, huncompressed, ?_⟩
      rw [Central.range, hend]

/-- What one record adds to a walk. -/
def next (walk : Walk) (c : Central) : Walk where
  position := walk.position + c.length
  names := walk.names.insert c.path c.directory
  ranges := walk.ranges ++ [c.range]
  expanded := walk.expanded + c.uncompressed

theorem length_name (hplace : c.place + c.length ≤ c.bytes.length) :
    c.name.length = c.nameLength := by
  rw [name, List.length_take, List.length_drop]
  simp only [length] at hplace
  omega

/-- The three questions about a file type have one answer. -/
theorem fileType_iff {kind : Nat} {directory : Bool} :
    (¬kind = 0 → ¬kind = 0x8000 → kind = 0x4000) ∧ (kind = 0x4000 → ¬directory = false) ∧
      (kind = 0x8000 → ¬directory = true) ↔
    kind = 0 ∨ kind = 0x8000 ∧ directory = false ∨ kind = 0x4000 ∧ directory = true := by
  cases directory with
  | false =>
    simp
    omega
  | true =>
    simp
    omega

theorem centralRecord_eq_ok_iff {bytes : Bytes} {stop limit : Nat} {walk walk' : Walk}
    (hstart : start ≤ bytes.length) (hstop : stop ≤ bytes.length) :
    centralRecord bytes start stop limit mirror walk = .ok walk' ↔
      (⟨bytes, walk.position⟩ : Central).Sound start mirror ∧
      walk.position + (⟨bytes, walk.position⟩ : Central).length ≤ stop ∧
      (∀ b, walk.names[(⟨bytes, walk.position⟩ : Central).path]? ≠ some b) ∧
      walk.expanded + (⟨bytes, walk.position⟩ : Central).uncompressed ≤ limit ∧
      walk' = next walk ⟨bytes, walk.position⟩ := by
  generalize hc : (⟨bytes, walk.position⟩ : Central) = c
  obtain rfl : c.bytes = bytes := by rw [← hc]
  have hplace : walk.position = c.place := by rw [← hc]
  rw [hplace]
  have hflags : numberAt c.bytes (c.place + 8) 2 = c.flags := rfl
  have hmethod : numberAt c.bytes (c.place + 10) 2 = c.method := rfl
  have hcompressed : numberAt c.bytes (c.place + 20) 4 = c.compressed := rfl
  have huncompressed : numberAt c.bytes (c.place + 24) 4 = c.uncompressed := rfl
  have hnameLength : numberAt c.bytes (c.place + 28) 2 = c.nameLength := rfl
  have hextraLength : numberAt c.bytes (c.place + 30) 2 = c.extraLength := rfl
  have hcommentLength : numberAt c.bytes (c.place + 32) 2 = c.commentLength := rfl
  have hdisk : numberAt c.bytes (c.place + 34) 2 = c.disk := rfl
  have hkind : (numberAt c.bytes (c.place + 38) 4 >>> 16) &&& 0xf000 = c.kind := rfl
  have hname : (c.bytes.drop (c.place + 46)).take c.nameLength = c.name := rfl
  have hextra : (c.bytes.drop (c.place + 46 + c.nameLength)).take c.extraLength = c.extra := rfl
  have hdirectory : (c.name.getLast? == some slash) = c.directory := rfl
  have hlength : 46 + c.nameLength + c.extraLength + c.commentLength = c.length := rfl
  simp only [centralRecord, bind_eq_ok_iff, refuseIf_eq_ok, u32At_eq_ok, u16At_eq_ok, pure_eq_ok,
    orInvalid_eq_ok, slice_eq_some_iff, safeName_eq_ok, exists_const, not_or, not_and,
    Classical.not_imp, not_lt, not_not, ne_eq, and_assoc, exists_and_left, exists_eq_left', hplace,
    hflags, hmethod, hcompressed, huncompressed, hnameLength, hextraLength, hcommentLength, hdisk,
    hkind, hname, hextra, hdirectory, hlength]
  constructor
  · rintro ⟨hin, hsignature, -, -, -, -, -, -, -, -, hinside, -, hknown, hstored, hclassic, -, key,
      hsafe, hfresh, _, harea, -, htype, hfolder, hfile, hempty, hlimit, range, hlocal, rfl⟩
    have hlocal := (localRecord_eq_ok_iff (by simp only [length] at hinside; omega) hstart
      (length_name (by omega))).mp hlocal
    obtain rfl : c.path = key := hsafe.namePath_eq
    refine ⟨⟨slice_eq_some_iff.mpr ⟨hin, hsignature⟩, hknown, or_iff_not_imp_left.mpr hstored,
      hclassic, hsafe, extras_eq_ok_iff.mp harea, ?_, hempty, hlocal.1⟩, hinside,
      contains_eq_false.mp hfresh, hlimit, ?_⟩
    · exact fileType_iff.mp ⟨htype, hfolder, hfile⟩
    · rw [next, ← hlocal.2, hplace]
  · rintro ⟨h, hinside, hfresh, hlimit, rfl⟩
    obtain ⟨hin, hsignature⟩ := slice_eq_some_iff.mp h.signature
    have hrecord : c.place + 46 ≤ c.bytes.length := by
      simp only [length] at hinside
      omega
    have hnameLimit := h.name.length
    rw [length_name (by omega)] at hnameLimit
    have hlocal := (localRecord_eq_ok_iff hrecord hstart (length_name (by omega))).mpr ⟨h.loc, rfl⟩
    have hbehind : c.place + 46 + c.nameLength ≤ c.bytes.length := by
      simp only [length] at hinside
      omega
    obtain ⟨htype, hfolder, hfile⟩ := fileType_iff.mpr h.kind
    refine ⟨hin, hsignature, by omega, by omega, by omega, by omega, by omega, by omega, by omega,
      by omega, hinside, hnameLimit, h.flags, or_iff_not_imp_left.mp h.method, h.disk, hbehind, c.path,
      h.name, contains_eq_false.mpr hfresh, (), extras_eq_ok_iff.mpr h.extra, by omega, htype, hfolder,
      hfile, h.empty, hlimit, c.range, hlocal, ?_⟩
    rw [next, hplace]

end Central

/-! ## The directory -/

/-- What a walk over the records has read. -/
structure Reads (bytes : Bytes) (start limit : Nat) (mirror : Bool) (walk walk' : Walk)
    (records : List Central) : Prop where
  tiles : Tiles (fun c : Central => (c.place, c.length)) walk.position walk'.position records
  source : ∀ c ∈ records, c.bytes = bytes
  sound : ∀ c ∈ records, c.Sound start mirror
  distinct : (records.map Central.path).Nodup
  fresh : ∀ c ∈ records, ∀ b, walk.names[c.path]? ≠ some b
  names : ∀ key b, walk'.names[key]? = some b ↔ walk.names[key]? = some b ∨
    ∃ c ∈ records, c.path = key ∧ c.directory = b
  ranges : walk'.ranges = walk.ranges ++ records.map Central.range
  expanded : walk'.expanded = walk.expanded + (records.map Central.uncompressed).sum
  limit : walk'.expanded ≤ limit

section Directory

variable {bytes : Bytes} {start stop limit count : Nat} {mirror : Bool} {walk walk' : Walk}
  {records : List Central}

theorem Reads.refl (hlimit : walk.expanded ≤ limit) :
    Reads bytes start limit mirror walk walk [] where
  tiles := .nil _
  source := by simp
  sound := by simp
  distinct := by simp
  fresh := by simp
  names := by simp
  ranges := by simp
  expanded := by simp
  limit := hlimit

/-- One more record in front. -/
theorem Reads.cons {c : Central} (h : Reads bytes start limit mirror (c.next walk) walk' records)
    (hplace : c.place = walk.position) (hbytes : c.bytes = bytes) (hsound : c.Sound start mirror)
    (hfresh : ∀ b, walk.names[c.path]? ≠ some b) :
    Reads bytes start limit mirror walk walk' (c :: records) := by
  have hother : ∀ d ∈ records, d.path ≠ c.path ∧ ∀ b, walk.names[d.path]? ≠ some b := by
    intro d hd
    have hnew := h.fresh d hd
    simp only [Central.next, ne_eq, getElem?_insert_eq_some, not_or, not_and] at hnew
    have hne : d.path ≠ c.path := by
      intro heq
      exact (hnew c.directory).1 heq.symm rfl
    exact ⟨hne, fun b => (hnew b).2 (Ne.symm hne)⟩
  constructor
  case tiles => exact .cons hplace h.tiles
  case source => exact List.forall_mem_cons.mpr ⟨hbytes, h.source⟩
  case sound => exact List.forall_mem_cons.mpr ⟨hsound, h.sound⟩
  case distinct =>
    rw [List.map_cons, List.nodup_cons]
    refine ⟨?_, h.distinct⟩
    intro hmem
    obtain ⟨d, hd, heq⟩ := List.mem_map.mp hmem
    exact (hother d hd).1 heq
  case fresh => exact List.forall_mem_cons.mpr ⟨hfresh, fun d hd => (hother d hd).2⟩
  case names =>
    intro key b
    rw [h.names]
    simp only [Central.next, getElem?_insert_eq_some, List.exists_mem_cons_iff]
    constructor
    · rintro ((⟨hkey, hdir⟩ | ⟨-, hold⟩) | hlater)
      · exact .inr (.inl ⟨hkey, hdir⟩)
      · exact .inl hold
      · exact .inr (.inr hlater)
    · rintro (hold | ⟨hkey, hdir⟩ | hlater)
      · refine .inl (.inr ⟨?_, hold⟩)
        rintro rfl
        exact hfresh b hold
      · exact .inl (.inl ⟨hkey, hdir⟩)
      · exact .inr hlater
  case ranges => simp [h.ranges, Central.next]
  case expanded =>
    rw [h.expanded, List.map_cons, List.sum_cons, Central.next, Nat.add_assoc]
  case limit => exact h.limit

/-- A walk that succeeds has read its records. -/
theorem centralRecords_reads (hstart : start ≤ bytes.length) (hstop : stop ≤ bytes.length)
    (hlimit : walk.expanded ≤ limit)
    (h : centralRecords bytes start stop limit mirror count walk = .ok walk') :
    ∃ records, records.length = count ∧ Reads bytes start limit mirror walk walk' records := by
  induction count generalizing walk with
  | zero =>
    cases h
    exact ⟨[], rfl, .refl hlimit⟩
  | succ count ih =>
    obtain ⟨walk₁, hrecord, hrest⟩ := bind_eq_ok h
    obtain ⟨hsound, -, hfresh, hsum, rfl⟩ := (Central.centralRecord_eq_ok_iff hstart hstop).mp hrecord
    obtain ⟨records, rfl, hreads⟩ := ih hsum hrest
    exact ⟨_ :: records, rfl, hreads.cons rfl rfl hsound hfresh⟩

/-- Records that tile a directory are read. -/
theorem centralRecords_total (hstart : start ≤ bytes.length) (hstop : stop ≤ bytes.length)
    (htiles : Tiles (fun c : Central => (c.place, c.length)) walk.position stop records)
    (hsource : ∀ c ∈ records, c.bytes = bytes) (hsound : ∀ c ∈ records, c.Sound start mirror)
    (hdistinct : (records.map Central.path).Nodup)
    (hfresh : ∀ c ∈ records, ∀ b, walk.names[c.path]? ≠ some b)
    (hlimit : walk.expanded + (records.map Central.uncompressed).sum ≤ limit) :
    ∃ walk', centralRecords bytes start stop limit mirror records.length walk = .ok walk' := by
  induction records generalizing walk with
  | nil => exact ⟨walk, rfl⟩
  | cons c records ih =>
    rw [List.forall_mem_cons] at hsource hsound hfresh
    rw [List.map_cons, List.nodup_cons] at hdistinct
    rw [List.map_cons, List.sum_cons] at hlimit
    cases htiles with
    | cons hplace hrest =>
      have hc : (⟨bytes, walk.position⟩ : Central) = c := by rw [← hsource.1, ← hplace]
      have hrecord : centralRecord bytes start stop limit mirror walk = .ok (c.next walk) := by
        rw [Central.centralRecord_eq_ok_iff hstart hstop, hc]
        exact ⟨hsound.1, hrest.le, hfresh.1, by omega, rfl⟩
      have hlater : ∀ d ∈ records, ∀ b, (c.next walk).names[d.path]? ≠ some b := by
        intro d hd b hb
        simp only [Central.next, getElem?_insert_eq_some] at hb
        rcases hb with ⟨hsame, -⟩ | ⟨-, hold⟩
        · exact hdistinct.1 (hsame ▸ List.mem_map_of_mem hd)
        · exact hfresh.2 d hd b hold
      have hsum : (c.next walk).expanded + (records.map Central.uncompressed).sum ≤ limit := by
        simp only [Central.next]
        omega
      obtain ⟨walk', hwalk'⟩ := @ih (c.next walk) hrest hsource.2 hsound.2 hdistinct.2 hlater hsum
      refine ⟨walk', ?_⟩
      rw [List.length_cons, centralRecords, hrecord]
      exact hwalk'

/-- As many records from one place on are the same. -/
theorem tiles_unique {records' : List Central} {stop' : Nat}
    (h : Tiles (fun c : Central => (c.place, c.length)) start stop records)
    (h' : Tiles (fun c : Central => (c.place, c.length)) start stop' records')
    (hsource : ∀ c ∈ records, c.bytes = bytes) (hsource' : ∀ c ∈ records', c.bytes = bytes)
    (hlength : records.length = records'.length) : records = records' ∧ stop = stop' := by
  induction h generalizing records' with
  | nil =>
    obtain rfl := List.length_eq_zero_iff.mp hlength.symm
    cases h'
    exact ⟨rfl, rfl⟩
  | @cons i stop c rest hplace _ ih =>
    cases h' with
    | nil => simp at hlength
    | @cons _ _ c' rest' hplace' hrest' =>
      rw [List.forall_mem_cons] at hsource hsource'
      obtain rfl : c = c' := by
        obtain ⟨_, _⟩ := c
        obtain ⟨_, _⟩ := c'
        simp_all
      obtain ⟨rfl, rfl⟩ := ih hrest' hsource.2 hsource'.2 (by simpa using hlength)
      exact ⟨rfl, rfl⟩

end Directory

/-! ## Disjoint ranges -/

/-- Sorted, no two neighbours overlap exactly when no two ranges do. -/
theorem overlapping_sorted {ranges : List (Nat × Nat)} (hsorted : ranges.Pairwise rangeLE)
    (hnonempty : ∀ r ∈ ranges, r.1 < r.2) :
    overlapping ranges = false ↔ ranges.Pairwise fun a b => a.2 ≤ b.1 ∨ b.2 ≤ a.1 := by
  induction ranges with
  | nil => simp [overlapping]
  | cons a ranges ih =>
    rw [List.forall_mem_cons] at hnonempty
    rw [List.pairwise_cons] at hsorted
    have ih := ih hsorted.2 hnonempty.2
    -- A range behind another one in the order lies behind it.
    have hbehind : ∀ x ∈ ranges, a.2 ≤ x.1 ∨ x.2 ≤ a.1 → a.2 ≤ x.1 := by
      intro x hx happart
      have hle := hsorted.1 x hx
      have hlt := hnonempty.2 x hx
      unfold rangeLE at hle
      omega
    cases ranges with
    | nil => simp [overlapping]
    | cons b rest =>
      rw [overlapping, Bool.or_eq_false_iff, decide_eq_false_iff_not, not_lt, ih,
        List.pairwise_cons (a := a)]
      constructor
      · rintro ⟨hnext, hrest⟩
        refine ⟨?_, hrest⟩
        intro x hx
        rcases List.mem_cons.mp hx with rfl | hx
        · exact .inl hnext
        · -- What lies behind the next range lies behind this one.
          have happart := List.rel_of_pairwise_cons hrest hx
          have hle := List.rel_of_pairwise_cons hsorted.2 hx
          have hb := hnonempty.2 b List.mem_cons_self
          have hx := hnonempty.2 x (List.mem_cons_of_mem _ hx)
          unfold rangeLE at hle
          omega
      · rintro ⟨happart, hrest⟩
        exact ⟨hbehind b List.mem_cons_self (happart b List.mem_cons_self), hrest⟩

instance : Std.Total rangeLE :=
  ⟨fun a b => by
    unfold rangeLE
    omega⟩

theorem overlapping_eq_false_iff {ranges : List (Nat × Nat)} (hnonempty : ∀ r ∈ ranges, r.1 < r.2) :
    overlapping (ranges.insertionSort rangeLE) = false ↔
      ranges.Pairwise fun a b => a.2 ≤ b.1 ∨ b.2 ≤ a.1 := by
  have hperm := List.perm_insertionSort rangeLE ranges
  rw [overlapping_sorted (List.pairwise_insertionSort rangeLE ranges)
    fun r hr => hnonempty r (hperm.mem_iff.mp hr)]
  exact hperm.pairwise_iff fun h => h.symm

/-! ## The end record -/

/-- A search from the back finds the last one. -/
theorem find?_eq_some_last {l : List Nat} {p : Nat → Bool} {b : Nat}
    (hl : l.Pairwise (· > ·)) :
    l.find? p = some b ↔ b ∈ l ∧ p b = true ∧ ∀ i ∈ l, p i = true → i ≤ b := by
  induction l with
  | nil => simp
  | cons a l ih =>
    rw [List.pairwise_cons] at hl
    rw [List.find?_cons]
    cases ha : p a with
    | true =>
      simp only [Option.some.injEq, List.forall_mem_cons]
      constructor
      · rintro rfl
        exact ⟨List.mem_cons_self, ha, fun _ => le_rfl, fun i hi _ => (hl.1 i hi).le⟩
      · rintro ⟨hb, -, hle, -⟩
        rcases List.mem_cons.mp hb with rfl | hb
        · rfl
        · exact absurd (hl.1 b hb) (by simpa using hle ha)
    | false =>
      simp only [ih hl.2]
      rw [List.forall_mem_cons, List.mem_cons]
      constructor
      · rintro ⟨hb, hpb, hlast⟩
        exact ⟨.inr hb, hpb, fun hpa => absurd hpa (by simp [ha]), hlast⟩
      · rintro ⟨rfl | hb, hpb, -, hlast⟩
        · rw [ha] at hpb
          cases hpb
        · exact ⟨hb, hpb, hlast⟩

theorem EndRecord.room {bytes : Bytes} {i : Nat} (h : EndRecord bytes i) : i + 22 ≤ bytes.length := by
  have hfits := h.2
  omega

/-- The test of a place. -/
theorem endRecord_here {bytes : Bytes} {i : Nat} (hroom : i + 22 ≤ bytes.length) :
    (endMagic.isPrefixOf (bytes.drop i) &&
      match u16At bytes (i + 20) with
      | .ok n => i + 22 + n == bytes.length
      | .error _ => false) = true ↔ EndRecord bytes i := by
  have hread : u16At bytes (i + 20) = .ok (numberAt bytes (i + 20) 2) :=
    u16At_eq_ok.mpr ⟨by omega, rfl⟩
  simp [hread, EndRecord]

theorem findEnd_eq_some_iff {bytes : Bytes} {stop : Nat} (hroom : 22 ≤ bytes.length) :
    findEnd bytes = some stop ↔ EndRecord bytes stop ∧ ∀ i, EndRecord bytes i → i ≤ stop := by
  -- A comment is too short for a record before the places that are looked at.
  have hmem : ∀ i, i ∈ (List.range' (bytes.length - 65557)
      (bytes.length - 22 - (bytes.length - 65557) + 1)).reverse ↔
        bytes.length - 65557 ≤ i ∧ i + 22 ≤ bytes.length := by
    intro i
    rw [List.mem_reverse, List.mem_range'_1]
    omega
  have hplace : ∀ i, EndRecord bytes i → bytes.length - 65557 ≤ i ∧ i + 22 ≤ bytes.length := by
    intro i hi
    have hshort := numberAt_lt bytes (i + 20) 2
    have hfits := hi.2
    omega
  rw [findEnd, find?_eq_some_last]
  · constructor
    · rintro ⟨hstop, hhere, hlast⟩
      have hstop := (hmem stop).mp hstop
      refine ⟨(endRecord_here hstop.2).mp hhere, ?_⟩
      intro i hi
      exact hlast i ((hmem i).mpr (hplace i hi)) ((endRecord_here hi.room).mpr hi)
    · rintro ⟨hhere, hlast⟩
      refine ⟨(hmem stop).mpr (hplace stop hhere), (endRecord_here hhere.room).mpr hhere, ?_⟩
      intro i hi htested
      exact hlast i ((endRecord_here ((hmem i).mp hi).2).mp htested)
  · rw [List.pairwise_reverse]
    exact List.pairwise_lt_range'

/-! ## Archives -/

/-- The paths of the records, as the map of names has them. -/
theorem below_iff {names : ExtTreeMap Bytes Bool} {records : List Central}
    (hnames : ∀ key b, names[key]? = some b ↔ ∃ c ∈ records, c.path = key ∧ c.directory = b) :
    (names.keys.any fun name =>
      (ancestors slash name).any fun above => names[above]? == some false) = false ↔
    ∀ c ∈ records, ∀ d ∈ records, Above slash c.path d.path → c.directory = true := by
  have hkey : ∀ name, name ∈ names.keys ↔ ∃ d ∈ records, d.path = name := by
    intro name
    rw [ExtTreeMap.mem_keys, mem_iff_exists]
    simp only [hnames]
    constructor
    · rintro ⟨_, d, hd, hpath, -⟩
      exact ⟨d, hd, hpath⟩
    · rintro ⟨d, hd, hpath⟩
      exact ⟨_, d, hd, hpath, rfl⟩
  simp only [List.any_eq_false, List.any_eq_true, mem_ancestors, not_exists, not_and, beq_iff_eq,
    hkey, hnames]
  constructor
  · intro h c hc d hd habove
    cases hdir : c.directory with
    | true => rfl
    | false => exact absurd hdir (h d.path ⟨d, hd, rfl⟩ c.path habove c hc rfl)
  · rintro h _ ⟨d, hd, rfl⟩ _ habove c hc rfl hfile
    rw [h c hc d hd habove] at hfile
    cases hfile

/-- The walk before any record. -/
def Walk.start (start : Nat) : Walk := { position := start, names := ∅, ranges := [], expanded := 0 }

section Archives

variable {bytes : Bytes} {start limit : Nat} {mirror : Bool} {walk : Walk} {records : List Central}

theorem Central.offset_lt_finish (c : Central) : c.range.1 < c.range.2 := by
  have hle := c.payloadEnd_le
  simp only [payloadEnd] at hle
  simp only [range]
  omega

/-- The local records of a walk are disjoint when the scanner finds no overlap. -/
theorem Reads.overlapping_iff (h : Reads bytes start limit mirror (.start start) walk records) :
    overlapping (walk.ranges.insertionSort rangeLE) = false ↔
      records.Pairwise fun c d => c.finish ≤ d.offset ∨ d.finish ≤ c.offset := by
  have hranges : walk.ranges = records.map Central.range := by
    rw [h.ranges]
    rfl
  rw [hranges, overlapping_eq_false_iff, List.pairwise_map]
  · rfl
  · intro r hr
    obtain ⟨c, -, rfl⟩ := List.mem_map.mp hr
    exact c.offset_lt_finish

theorem Reads.below_iff (h : Reads bytes start limit mirror (.start start) walk records) :
    (walk.names.keys.any fun name =>
      (ancestors slash name).any fun above => walk.names[above]? == some false) = false ↔
    ∀ c ∈ records, ∀ d ∈ records, Above slash c.path d.path → c.directory = true := by
  apply Package.below_iff
  intro key b
  rw [h.names]
  simp [Walk.start]

/-- What a walk that ends at the end record has read is an archive. -/
theorem Reads.archive (h : Reads bytes start limit mirror (.start start) walk records)
    (hfooter : Footer bytes start walk.position records.length)
    (hdisjoint : overlapping (walk.ranges.insertionSort rangeLE) = false)
    (hbelow : (walk.names.keys.any fun name =>
      (ancestors slash name).any fun above => walk.names[above]? == some false) = false) :
    SoundArchive bytes limit mirror start walk.position records where
  footer := hfooter
  tiles := h.tiles
  source := h.source
  sound := h.sound
  disjoint := h.overlapping_iff.mp hdisjoint
  distinct := h.distinct
  below := h.below_iff.mp hbelow
  expanded := by
    have hlimit := h.limit
    rwa [h.expanded, Walk.start, Nat.zero_add] at hlimit

/-- The records of an archive are read. -/
theorem SoundArchive.reads {stop : Nat} (h : SoundArchive bytes limit mirror start stop records)
    (hstart : start ≤ bytes.length) (hstop : stop ≤ bytes.length) :
    ∃ walk, centralRecords bytes start stop limit mirror records.length (.start start) = .ok walk ∧
      walk.position = stop ∧ Reads bytes start limit mirror (.start start) walk records := by
  have hexpanded : (Walk.start start).expanded + (records.map Central.uncompressed).sum ≤ limit := by
    have hsum := h.expanded
    rwa [Walk.start, Nat.zero_add]
  obtain ⟨walk, hwalk⟩ := @centralRecords_total bytes start stop limit mirror (.start start) records
    hstart hstop h.tiles h.source h.sound h.distinct (by simp [Walk.start]) hexpanded
  obtain ⟨records', hlength, hreads⟩ := centralRecords_reads hstart hstop (Nat.zero_le _) hwalk
  obtain ⟨rfl, rfl⟩ := tiles_unique h.tiles hreads.tiles h.source hreads.source hlength.symm
  exact ⟨walk, hwalk, rfl, hreads⟩

/-- The scanner accepts the sound archives, and counts their records. -/
theorem layout_eq_ok_iff {count : Nat} :
    layout bytes limit mirror = .ok count ↔ ∃ start stop records, records.length = count ∧
      SoundArchive bytes limit mirror start stop records := by
  simp only [layout, bind_eq_ok_iff, refuseIf_eq_ok, orInvalid_eq_ok, pure_eq_ok, u16At_eq_ok,
    u32At_eq_ok, and_assoc, exists_and_left, exists_eq_left', exists_const, not_or, not_lt, not_not,
    ne_eq, Bool.not_eq_true]
  constructor
  · rintro ⟨hroom, stop, hend, -, -, hfits, -, -, -, hdisk, hcentralDisk, hhere, hsome, hcount, hsize,
      hplace, walk, hwalk, hposition, hdisjoint, hbelow, rfl⟩
    obtain ⟨hrecord, hlast⟩ := (findEnd_eq_some_iff hroom).mp hend
    obtain ⟨records, hlength, hreads⟩ :=
      centralRecords_reads (by omega) (by omega) (Nat.zero_le _) hwalk
    refine ⟨_, walk.position, records, hlength, hreads.archive ?_ hdisjoint hbelow⟩
    rw [hposition, hlength]
    exact ⟨hrecord, hlast, hdisk, hcentralDisk, hhere, rfl, hplace, rfl, by omega, hcount, hsize⟩
  · rintro ⟨start, stop, records, rfl, h⟩
    have hfooter := h.footer
    have hroom := hfooter.here.room
    have hplace := hfooter.size
    have hsome := hfooter.nonempty
    obtain ⟨walk, hwalk, hposition, hreads⟩ := h.reads (by omega) (by omega)
    have hend := (findEnd_eq_some_iff (by omega)).mpr ⟨hfooter.here, hfooter.last⟩
    refine ⟨by omega, stop, hend, by omega, by omega, by omega, by omega, by omega, by omega,
      hfooter.disk, hfooter.centralDisk, ?_⟩
    rw [hfooter.countHere, hfooter.countAll, hfooter.startAt]
    exact ⟨rfl, by omega, hfooter.countLimit, hfooter.sizeLimit, hplace, walk, hwalk, hposition,
      hreads.overlapping_iff.mpr h.disjoint, hreads.below_iff.mpr h.below, rfl⟩

end Archives

/-- On every buffer that fits in memory, and with either setting of the mirror, the scanner comes
    to an end within its bounds. It accepts exactly the sound archives, and returns the number of
    their records. -/
theorem layout_accepts_exactly {bytes : Bytes} {limit : Nat} (mirror : Bool)
    (hfits : bytes.length < 2 ^ 63) (hlimit : limit < 2 ^ 64) :
    Checked.layout bytes limit mirror ≠ .error .panicked ∧
    ∀ count, Checked.layout bytes limit mirror = .ok count ↔
      ∃ start stop records, records.length = count ∧
        SoundArchive bytes limit mirror start stop records := by
  rw [Checked.layout_checked hfits mirror hlimit]
  refine ⟨Checked.lift_ne_panicked _, ?_⟩
  intro count
  rw [Checked.lift_eq_ok, layout_eq_ok_iff]

/-! ## A folder, a mirrored file and a deflated one -/

/-- A record of either kind, without what only the central one has. -/
structure SampleRecord where
  name : Bytes
  flags : Nat
  method : Nat
  crc : Nat
  payload : Bytes
  size : Nat
  attributes : Nat
  extra : Bytes

/-- A local record with its payload; a described one has its sizes behind it. -/
def SampleRecord.localBytes (r : SampleRecord) : Bytes :=
  let sizes := littleEndian 4 r.crc ++ littleEndian 4 r.payload.length ++ littleEndian 4 r.size
  localMagic ++ littleEndian 2 20 ++ littleEndian 2 r.flags ++ littleEndian 2 r.method ++
    littleEndian 4 0 ++ (if r.flags = 8 then littleEndian 12 0 else sizes) ++
    littleEndian 2 r.name.length ++ littleEndian 2 r.extra.length ++ r.name ++ r.extra ++
    r.payload ++
    if r.flags = 8 then descriptorMagic ++ sizes else []

def SampleRecord.centralBytes (r : SampleRecord) (offset : Nat) : Bytes :=
  centralMagic ++ littleEndian 2 0x0314 ++ littleEndian 2 20 ++ littleEndian 2 r.flags ++
    littleEndian 2 r.method ++ littleEndian 4 0 ++ littleEndian 4 r.crc ++
    littleEndian 4 r.payload.length ++ littleEndian 4 r.size ++ littleEndian 2 r.name.length ++
    littleEndian 8 0 ++ littleEndian 4 r.attributes ++ littleEndian 4 offset ++ r.name

/-- The folder `d`, a stored file in it whose local record mirrors its sizes, and a deflated file
    with a descriptor. -/
def mixedRecords : SampleRecord × SampleRecord × SampleRecord :=
  (⟨ascii "d/", 0, 0, 0, [], 0, 0x41ed0010, []⟩,
    ⟨ascii "d/a", 0, 0, 0x4c667a2e, [7], 1, 0x81a40000,
      littleEndian 2 1 ++ littleEndian 2 16 ++ littleEndian 8 1 ++ littleEndian 8 1⟩,
    ⟨ascii "b", 8, 8, 0x12da640, [0xcb, 0x48, 0xcd, 0xc9, 0xc9, 0x57, 0xc8, 0, 0x91, 0], 11, 0, []⟩)

def mixedArchive : Bytes :=
  let (folder, mirrored, described) := mixedRecords
  let locals := folder.localBytes ++ mirrored.localBytes ++ described.localBytes
  let centrals := folder.centralBytes 0 ++ mirrored.centralBytes folder.localBytes.length ++
    described.centralBytes (folder.localBytes.length + mirrored.localBytes.length)
  locals ++ centrals ++ endBytes 3 centrals.length locals.length

theorem layout_accepts_mixedArchive :
    Checked.layout mixedArchive 12 true ≠ .error .panicked ∧
      ∃ start stop records, records.length = 3 ∧
        SoundArchive mixedArchive 12 true start stop records := by
  have hfits : mixedArchive.length < 2 ^ 63 := by decide +kernel
  have haccepted : (Checked.layout mixedArchive 12 true).toOption = some 3 := by decide +kernel
  obtain ⟨hcalm, hexact⟩ := layout_accepts_exactly true hfits (show 12 < 2 ^ 64 by decide)
  refine ⟨hcalm, (hexact 3).mp ?_⟩
  cases hlayout : Checked.layout mixedArchive 12 true with
  | error e => simp [hlayout, Except.toOption] at haccepted
  | ok count => simpa [hlayout, Except.toOption] using haccepted

/-- Without the mirror the same archive is refused. -/
example : (Checked.layout mixedArchive 12 false).toOption = none := by decide +kernel

end Cirrove.Package
