import Cirrove.Package.Contents

/-!
# Stored archives

The classic single-disk archive of uncompressed entries, as the `zip` crate writes it to a
sink it can seek in: the local records one after the other, the central directory, and an end
record without a comment. The scanner accepts every such archive of safe, distinct names in
which no entry lies below a file (`layout_storedArchive`).
-/

namespace Cirrove.Package

open Cirrove.Library
open Std (ExtTreeMap)

/-! ## The format -/

/-- One entry and the header fields that nothing depends on. -/
structure StoredRecord where
  name : Bytes
  content : Bytes
  flags : Nat
  crc : Nat
  attributes : Nat
  madeBy : Nat
  needed : Nat
  time : Nat

def localBytes (r : StoredRecord) : Bytes :=
  localMagic ++ littleEndian 2 r.needed ++ littleEndian 2 r.flags ++ littleEndian 2 0 ++
    littleEndian 4 r.time ++ littleEndian 4 r.crc ++ littleEndian 4 r.content.length ++
    littleEndian 4 r.content.length ++ littleEndian 2 r.name.length ++ littleEndian 2 0 ++
    (r.name ++ r.content)

def centralBytes (offset : Nat) (r : StoredRecord) : Bytes :=
  centralMagic ++ littleEndian 2 r.madeBy ++ littleEndian 2 r.needed ++ littleEndian 2 r.flags ++
    littleEndian 2 0 ++ littleEndian 4 r.time ++ littleEndian 4 r.crc ++
    littleEndian 4 r.content.length ++ littleEndian 4 r.content.length ++
    littleEndian 2 r.name.length ++ littleEndian 2 0 ++ littleEndian 2 0 ++ littleEndian 2 0 ++
    littleEndian 2 0 ++ littleEndian 4 r.attributes ++ littleEndian 4 offset ++ r.name

def endBytes (count size start : Nat) : Bytes :=
  endMagic ++ littleEndian 2 0 ++ littleEndian 2 0 ++ littleEndian 2 count ++
    littleEndian 2 count ++ littleEndian 4 size ++ littleEndian 4 start ++ littleEndian 2 0

def localsOf (rs : List StoredRecord) : Bytes := rs.flatMap localBytes

/-- The central directory of records whose local ones start at an offset. -/
def centralsOf : Nat → List StoredRecord → Bytes
  | _, [] => []
  | offset, r :: rs => centralBytes offset r ++ centralsOf (offset + (localBytes r).length) rs

def storedArchive (rs : List StoredRecord) : Bytes :=
  localsOf rs ++ (centralsOf 0 rs ++
    endBytes rs.length (centralsOf 0 rs).length (localsOf rs).length)

@[simp]
theorem length_localBytes (r : StoredRecord) :
    (localBytes r).length = 30 + r.name.length + r.content.length := by
  simp only [localBytes, localMagic, List.length_append, length_littleEndian, List.length_cons,
    List.length_nil]
  omega

@[simp]
theorem length_centralBytes (offset : Nat) (r : StoredRecord) :
    (centralBytes offset r).length = 46 + r.name.length := by
  simp only [centralBytes, centralMagic, List.length_append, length_littleEndian,
    List.length_cons, List.length_nil]

@[simp]
theorem length_endBytes (count size start : Nat) : (endBytes count size start).length = 22 := by
  simp [endBytes, endMagic]

theorem length_localsOf (rs : List StoredRecord) :
    (localsOf rs).length = (rs.map fun r => 30 + r.name.length + r.content.length).sum := by
  simp [localsOf, List.length_flatMap]

theorem length_centralsOf (offset : Nat) (rs : List StoredRecord) :
    (centralsOf offset rs).length = (rs.map fun r => 46 + r.name.length).sum := by
  induction rs generalizing offset with
  | nil => rfl
  | cons r rs ih => simp [centralsOf, ih]

/-! ## Reading fields -/

/-- Behind a field comes the rest. -/
theorem drop_field {bytes field rest : Bytes} {i j : Nat} (h : bytes.drop i = field ++ rest)
    (hj : i + field.length = j) : bytes.drop j = rest := by
  rw [← hj, ← List.drop_drop, h, List.drop_left]

theorem slice_field {bytes field rest : Bytes} {i k : Nat} (h : bytes.drop i = field ++ rest)
    (hk : field.length = k) (hle : i ≤ bytes.length) : slice bytes i k = some field := by
  have hlength := congrArg List.length h
  rw [List.length_drop, List.length_append] at hlength
  have hfit : i + k ≤ bytes.length := by omega
  rw [slice, if_pos hfit, h, ← hk, List.take_left]

theorem u16At_field {bytes rest : Bytes} {i n : Nat} (h : bytes.drop i = littleEndian 2 n ++ rest)
    (hn : n < 2 ^ 16) : u16At bytes i = .ok n := by
  have hle : i ≤ bytes.length := by
    by_contra hlt
    rw [List.drop_eq_nil_of_le (by omega)] at h
    have := congrArg List.length h
    simp only [List.length_nil, List.length_append, length_littleEndian] at this
    omega
  simp only [u16At, slice_field h (length_littleEndian 2 n) hle, Option.map_some,
    orInvalid_eq_ok, Option.some.injEq]
  exact fromLittleEndian_littleEndian hn

theorem u32At_field {bytes rest : Bytes} {i n : Nat} (h : bytes.drop i = littleEndian 4 n ++ rest)
    (hn : n < 2 ^ 32) : u32At bytes i = .ok n := by
  have hle : i ≤ bytes.length := by
    by_contra hlt
    rw [List.drop_eq_nil_of_le (by omega)] at h
    have := congrArg List.length h
    simp only [List.length_nil, List.length_append, length_littleEndian] at this
    omega
  simp only [u32At, slice_field h (length_littleEndian 4 n) hle, Option.map_some,
    orInvalid_eq_ok, Option.some.injEq]
  exact fromLittleEndian_littleEndian hn

/-- What a record must satisfy to be stored in the classic format. -/
structure StoredRecord.Fits (r : StoredRecord) : Prop where
  flags : r.flags = 0 ∨ r.flags = 0x0800
  crc : r.crc < 2 ^ 32
  attributes : r.attributes < 2 ^ 32
  kind : (r.attributes >>> 16) &&& 0xf000 = if endsInSlash r.name then 0x4000 else 0x8000
  name : r.name.length ≤ maxName
  content : r.content.length < 2 ^ 32
  directory : endsInSlash r.name = true → r.content = []

theorem StoredRecord.Fits.flags_lt {r : StoredRecord} (h : r.Fits) : r.flags < 2 ^ 16 := by
  rcases h.flags with hf | hf <;> rw [hf] <;> decide

theorem StoredRecord.Fits.name_lt {r : StoredRecord} (h : r.Fits) : r.name.length < 2 ^ 16 :=
  lt_of_le_of_lt h.name (by decide)

/-- Where the local header of a record stands, it is found as the central record says. -/
theorem localRecord_stored {bytes rest : Bytes} {r : StoredRecord} {start i offset : Nat}
    (mirror : Bool) (hfits : r.Fits) (hoffset : u32At bytes (i + 42) = .ok offset)
    (hcrc : u32At bytes (i + 16) = .ok r.crc) (hdrop : bytes.drop offset = localBytes r ++ rest)
    (hle : offset ≤ bytes.length) (hfinish : offset + (localBytes r).length ≤ start) :
    localRecord bytes start i r.flags 0 r.content.length r.content.length r.name mirror =
      .ok (offset, offset + (localBytes r).length) := by
  have hflags := hfits.flags_lt
  -- one field after the other
  have h0 : bytes.drop offset = localMagic ++ (littleEndian 2 r.needed ++
      (littleEndian 2 r.flags ++ (littleEndian 2 0 ++ (littleEndian 4 r.time ++
        (littleEndian 4 r.crc ++ (littleEndian 4 r.content.length ++
          (littleEndian 4 r.content.length ++ (littleEndian 2 r.name.length ++
            (littleEndian 2 0 ++ (r.name ++ (r.content ++ rest))))))))))) := by
    rw [hdrop, localBytes]
    simp only [List.append_assoc]
  have h4 : bytes.drop (offset + 4) = _ := drop_field h0 rfl
  have h6 : bytes.drop (offset + 6) = _ := drop_field h4 rfl
  have h8 : bytes.drop (offset + 8) = _ := drop_field h6 rfl
  have h10 : bytes.drop (offset + 10) = _ := drop_field h8 rfl
  have h14 : bytes.drop (offset + 14) = _ := drop_field h10 rfl
  have h18 : bytes.drop (offset + 18) = _ := drop_field h14 rfl
  have h22 : bytes.drop (offset + 22) = _ := drop_field h18 rfl
  have h26 : bytes.drop (offset + 26) = _ := drop_field h22 rfl
  have h28 : bytes.drop (offset + 28) = _ := drop_field h26 rfl
  have h30 : bytes.drop (offset + 30) = _ := drop_field h28 rfl
  have hplain : r.flags &&& 8 = 0 := by rcases hfits.flags with hf | hf <;> rw [hf] <;> decide
  have hextras : ∀ mirror, localExtras [] r.content.length r.content.length mirror = .ok () := by
    intro mirror
    cases mirror <;> rfl
  have hend : intervalEnd bytes start i r.flags r.content.length r.content.length
      (offset + (30 + r.name.length + 0) + r.content.length) =
      .ok (offset + (30 + r.name.length + r.content.length)) := by
    simp only [intervalEnd, hplain, ne_eq, not_true, if_false, pure_eq_ok]
    omega
  have hlength := congrArg List.length hdrop
  rw [List.length_drop, List.length_append] at hlength
  rw [length_localBytes] at hlength hfinish ⊢
  have hnoextra : slice bytes (offset + 30 + r.name.length) 0 = some [] := by
    rw [slice, if_pos (by omega), List.take_zero]
  simp only [localRecord, bind_eq_ok_iff, refuseIf_eq_ok, orInvalid_eq_ok, pure_eq_ok,
    exists_const, hplain, if_true]
  refine ⟨offset, hoffset, by omega, not_not.mpr (slice_field h0 rfl hle), _,
    u16At_field h6 hflags, _, u16At_field h8 (by decide), _, u16At_field h26 hfits.name_lt,
    by simp, 0, u16At_field h28 (by decide), ?_, [], hnoextra, (), hextras _, _,
    u32At_field h14 hfits.crc, _, hcrc, _, u32At_field h18 hfits.content, _,
    u32At_field h22 hfits.content, by simp, _, hend, rfl⟩
  rw [slice_field h30 rfl (by omega)]
  simp only [ne_eq, not_true, or_false, not_lt]
  omega

/-- One central record of a stored archive is accepted. -/
theorem centralRecord_stored {bytes centrals locals key : Bytes} {r : StoredRecord}
    {start stop limit offset : Nat} {mirror : Bool} {walk : Walk} (hfits : r.Fits)
    (hsafe : Safe r.name (endsInSlash r.name) key) (hfresh : walk.names[key]? = none)
    (hcentral : bytes.drop walk.position = centralBytes offset r ++ centrals)
    (hlocal : bytes.drop offset = localBytes r ++ locals)
    (hfinish : offset + (localBytes r).length ≤ start) (hstart : start ≤ bytes.length)
    (hsmall : offset < 2 ^ 32) (hstop : walk.position + (centralBytes offset r).length ≤ stop)
    (hexpanded : walk.expanded + r.content.length ≤ limit) :
    centralRecord bytes start stop limit mirror walk =
      .ok { position := walk.position + (centralBytes offset r).length
            names := walk.names.insert key (endsInSlash r.name)
            ranges := walk.ranges ++ [(offset, offset + (localBytes r).length)]
            expanded := walk.expanded + r.content.length } := by
  obtain ⟨i, names, ranges, expanded⟩ := walk
  dsimp only at hfresh hcentral hstop hexpanded ⊢
  have hlength := congrArg List.length hcentral
  rw [List.length_drop, List.length_append] at hlength
  rw [length_centralBytes] at hlength hstop ⊢
  have hle : i ≤ bytes.length := by omega
  have h0 : bytes.drop i = centralMagic ++ (littleEndian 2 r.madeBy ++ (littleEndian 2 r.needed ++
      (littleEndian 2 r.flags ++ (littleEndian 2 0 ++ (littleEndian 4 r.time ++
        (littleEndian 4 r.crc ++ (littleEndian 4 r.content.length ++
          (littleEndian 4 r.content.length ++ (littleEndian 2 r.name.length ++
            (littleEndian 2 0 ++ (littleEndian 2 0 ++ (littleEndian 2 0 ++ (littleEndian 2 0 ++
              (littleEndian 4 r.attributes ++ (littleEndian 4 offset ++
                (r.name ++ centrals)))))))))))))))) := by
    rw [hcentral, centralBytes]
    simp only [List.append_assoc]
  have h4 : bytes.drop (i + 4) = _ := drop_field h0 rfl
  have h6 : bytes.drop (i + 6) = _ := drop_field h4 rfl
  have h8 : bytes.drop (i + 8) = _ := drop_field h6 rfl
  have h10 : bytes.drop (i + 10) = _ := drop_field h8 rfl
  have h12 : bytes.drop (i + 12) = _ := drop_field h10 rfl
  have h16 : bytes.drop (i + 16) = _ := drop_field h12 rfl
  have h20 : bytes.drop (i + 20) = _ := drop_field h16 rfl
  have h24 : bytes.drop (i + 24) = _ := drop_field h20 rfl
  have h28 : bytes.drop (i + 28) = _ := drop_field h24 rfl
  have h30 : bytes.drop (i + 30) = _ := drop_field h28 rfl
  have h32 : bytes.drop (i + 32) = _ := drop_field h30 rfl
  have h34 : bytes.drop (i + 34) = _ := drop_field h32 rfl
  have h36 : bytes.drop (i + 36) = _ := drop_field h34 rfl
  have h38 : bytes.drop (i + 38) = _ := drop_field h36 rfl
  have h42 : bytes.drop (i + 42) = _ := drop_field h38 rfl
  have h46 : bytes.drop (i + 46) = _ := drop_field h42 rfl
  have hkind := hfits.kind
  have hflags : r.flags &&& 0xf7f1 = 0 := by
    rcases hfits.flags with hf | hf <;> rw [hf] <;> decide
  have hnoextra : extras ((bytes.drop (i + 46 + r.name.length)).take 0) = .ok () := by
    rw [List.take_zero]
    rfl
  have hlocalRecord := localRecord_stored mirror hfits (u32At_field h42 hsmall)
    (u32At_field h16 hfits.crc) hlocal (by omega) hfinish
  simp only [centralRecord, bind_eq_ok_iff, refuseIf_eq_ok, orInvalid_eq_ok, pure_eq_ok,
    safeName_eq_ok, exists_const]
  refine ⟨not_not.mpr (slice_field h0 rfl hle), _, u16At_field h8 hfits.flags_lt, _,
    u16At_field h10 (by decide), _, u32At_field h20 hfits.content, _,
    u32At_field h24 hfits.content, _, u16At_field h28 hfits.name_lt, 0,
    u16At_field h30 (by decide), 0, u16At_field h32 (by decide), 0, u16At_field h34 (by decide),
    ?_, r.name, slice_field h46 rfl (by omega), key, hsafe, ?_, (), hnoextra, _,
    u32At_field h38 hfits.attributes, ?_, by omega, _, hlocalRecord, ?_⟩
  · simp only [hflags, not_or, not_lt]
    exact ⟨by omega, hfits.name, by simp, by simp, by simp⟩
  · rw [ExtTreeMap.contains_eq_isSome_getElem?, hfresh]
    simp
  · rw [hkind]
    cases hdir : endsInSlash r.name with
    | false =>
      have : (r.name.getLast? == some slash) = false := hdir
      simp [this]
    | true =>
      have : (r.name.getLast? == some slash) = true := hdir
      simp [this, hfits.directory hdir]
  · simp [endsInSlash]

/-! ## The walk over the directory -/

/-- The path a record stands for. -/
def StoredRecord.path (r : StoredRecord) : Bytes :=
  if endsInSlash r.name then r.name.dropLast else r.name

/-- The bytes the local records take. -/
def rangesOf : Nat → List StoredRecord → List (Nat × Nat)
  | _, [] => []
  | offset, r :: rs =>
    (offset, offset + (localBytes r).length) :: rangesOf (offset + (localBytes r).length) rs

/-- Records that can stand together in one archive. -/
structure Storable (rs : List StoredRecord) : Prop where
  fits : ∀ r ∈ rs, r.Fits
  safe : ∀ r ∈ rs, Safe r.name (endsInSlash r.name) r.path
  distinct : (rs.map StoredRecord.path).Nodup

theorem Storable.tail {r : StoredRecord} {rs : List StoredRecord} (h : Storable (r :: rs)) :
    Storable rs :=
  ⟨fun x hx => h.fits x (List.mem_cons_of_mem _ hx),
    fun x hx => h.safe x (List.mem_cons_of_mem _ hx), (List.nodup_cons.mp h.distinct).2⟩

theorem centralRecords_stored {bytes centrals locals : Bytes} {rs : List StoredRecord}
    {start stop limit offset : Nat} (mirror : Bool) {walk : Walk} (hrs : Storable rs)
    (hfresh : ∀ r ∈ rs, walk.names[r.path]? = none)
    (hcentral : bytes.drop walk.position = centralsOf offset rs ++ centrals)
    (hlocal : bytes.drop offset = localsOf rs ++ locals)
    (hfinish : offset + (localsOf rs).length = start) (hstart : start ≤ bytes.length)
    (hsmall : start < 2 ^ 32) (hstop : walk.position + (centralsOf offset rs).length = stop)
    (hexpanded : walk.expanded + (rs.map (·.content.length)).sum ≤ limit) :
    ∃ walk', centralRecords bytes start stop limit mirror rs.length walk = .ok walk' ∧
      walk'.position = stop ∧ walk'.ranges = walk.ranges ++ rangesOf offset rs ∧
      ∀ path b, walk'.names[path]? = some b → walk.names[path]? = some b ∨
        ∃ r ∈ rs, r.path = path ∧ endsInSlash r.name = b := by
  induction rs generalizing offset walk with
  | nil =>
    refine ⟨walk, rfl, ?_, ?_, fun _ _ => .inl⟩
    · simpa [centralsOf] using hstop
    · simp [rangesOf]
  | cons r rs ih =>
    have hlocals : localsOf (r :: rs) = localBytes r ++ localsOf rs := rfl
    rw [hlocals, List.append_assoc] at hlocal
    rw [hlocals, List.length_append] at hfinish
    rw [centralsOf, List.append_assoc] at hcentral
    rw [centralsOf, List.length_append] at hstop
    rw [List.map_cons, List.sum_cons] at hexpanded
    obtain ⟨walk₁, hrecord, hposition₁, hnames₁, hranges₁, hexpanded₁⟩ :
        ∃ walk₁, centralRecord bytes start stop limit mirror walk = .ok walk₁ ∧
          walk₁.position = walk.position + (centralBytes offset r).length ∧
          walk₁.names = walk.names.insert r.path (endsInSlash r.name) ∧
          walk₁.ranges = walk.ranges ++ [(offset, offset + (localBytes r).length)] ∧
          walk₁.expanded = walk.expanded + r.content.length :=
      ⟨_, centralRecord_stored (hrs.fits r List.mem_cons_self) (hrs.safe r List.mem_cons_self)
        (hfresh r List.mem_cons_self) hcentral hlocal (by omega) hstart (by omega) (by omega)
        (by omega), rfl, rfl, rfl, rfl⟩
    have hfresh₁ : ∀ x ∈ rs, walk₁.names[x.path]? = none := by
      intro x hx
      rw [hnames₁, Option.eq_none_iff_forall_ne_some]
      intro b hb
      rcases getElem?_insert_eq_some.mp hb with ⟨hsame, -⟩ | ⟨-, hold⟩
      · exact (List.nodup_cons.mp hrs.distinct).1 (hsame ▸ List.mem_map_of_mem hx)
      · simp [hfresh x (List.mem_cons_of_mem _ hx)] at hold
    have hcentral₁ : bytes.drop walk₁.position =
        centralsOf (offset + (localBytes r).length) rs ++ centrals := drop_field hcentral hposition₁.symm
    have hlocal₁ : bytes.drop (offset + (localBytes r).length) = localsOf rs ++ locals :=
      drop_field hlocal rfl
    obtain ⟨walk', hwalk', hposition, hranges, hnames⟩ :=
      ih hrs.tail hfresh₁ hcentral₁ hlocal₁ (by omega) (by omega) (by omega)
    refine ⟨walk', ?_, hposition, ?_, ?_⟩
    · simp only [List.length_cons, centralRecords, hrecord]
      exact hwalk'
    · rw [hranges, hranges₁, rangesOf, List.append_assoc, List.singleton_append]
    · intro path b hb
      rcases hnames path b hb with hold | ⟨x, hx, hpath, hdir⟩
      · rw [hnames₁] at hold
        rcases getElem?_insert_eq_some.mp hold with ⟨hsame, hdir⟩ | ⟨-, hold⟩
        · exact .inr ⟨r, List.mem_cons_self, hsame, hdir⟩
        · exact .inl hold
      · exact .inr ⟨x, List.mem_cons_of_mem _ hx, hpath, hdir⟩

/-! ## The whole archive -/

theorem rangesOf_pairwise (offset : Nat) (rs : List StoredRecord) :
    (∀ x ∈ rangesOf offset rs, offset ≤ x.1) ∧ (rangesOf offset rs).Pairwise rangeLE := by
  induction rs generalizing offset with
  | nil => simp [rangesOf]
  | cons r rs ih =>
    obtain ⟨hlow, hsorted⟩ := ih (offset + (localBytes r).length)
    have hpos : 0 < (localBytes r).length := by rw [length_localBytes]; omega
    refine ⟨?_, List.pairwise_cons.mpr ⟨?_, hsorted⟩⟩
    · intro x hx
      rcases List.mem_cons.mp hx with rfl | hx
      · exact le_rfl
      · have := hlow x hx
        omega
    · intro x hx
      have := hlow x hx
      exact .inl (by dsimp only; omega)

theorem overlapping_rangesOf (offset : Nat) (rs : List StoredRecord) :
    overlapping (rangesOf offset rs) = false := by
  induction rs generalizing offset with
  | nil => rfl
  | cons r rs ih =>
    cases rs with
    | nil => rfl
    | cons r' rs =>
      have := ih (offset + (localBytes r).length)
      simp only [rangesOf, overlapping, lt_irrefl, decide_false, Bool.false_or] at this ⊢
      exact this

/-- The end record of an archive is found where it stands. -/
theorem findEnd_append {front : Bytes} {count size start : Nat} :
    findEnd (front ++ endBytes count size start) = some front.length := by
  set bytes := front ++ endBytes count size start with hbytes
  have hlength : bytes.length = front.length + 22 := by simp [hbytes]
  have hdrop : bytes.drop front.length = endBytes count size start := by simp [hbytes]
  have hcomment : u16At bytes (front.length + 20) = .ok 0 := by
    have h0 : bytes.drop front.length = (endMagic ++ littleEndian 2 0 ++ littleEndian 2 0 ++
        littleEndian 2 count ++ littleEndian 2 count ++ littleEndian 4 size ++
        littleEndian 4 start) ++ (littleEndian 2 0 ++ []) := by
      rw [hdrop, endBytes]
      simp only [List.append_nil]
    have h20 : bytes.drop (front.length + 20) = _ := drop_field h0 (by simp [endMagic])
    exact u16At_field h20 (by decide)
  have hmagic : endMagic.isPrefixOf (bytes.drop front.length) = true := by
    rw [hdrop]
    rfl
  unfold findEnd
  dsimp only
  have hrange : front.length = bytes.length - 65557 + (bytes.length - 22 - (bytes.length - 65557)) := by
    omega
  rw [List.range'_concat, List.reverse_append, List.reverse_singleton, List.singleton_append,
    Nat.one_mul, ← hrange, List.find?_cons_of_pos]
  rw [hmagic, hcomment]
  simp [hlength]

instance : IsTrans (Nat × Nat) rangeLE where
  trans a b c hab hbc := by
    unfold rangeLE at *
    omega

instance : Std.Antisymm rangeLE where
  antisymm a b hab hba := by
    unfold rangeLE at hab hba
    ext <;> omega

/-- Every archive of storable records is accepted, if no entry lies below a file and nothing
    is too large. -/
theorem layout_storedArchive {rs : List StoredRecord} {limit : Nat} (mirror : Bool)
    (hrs : Storable rs) (hne : rs ≠ []) (hcount : rs.length ≤ maxEntries)
    (hinterior : ∀ r ∈ rs, ∀ r' ∈ rs, Above slash r.path r'.path → endsInSlash r.name = true)
    (hcentral : (centralsOf 0 rs).length ≤ maxCentral)
    (hsize : (storedArchive rs).length < 2 ^ 32)
    (hexpanded : (rs.map (·.content.length)).sum ≤ limit) :
    layout (storedArchive rs) limit mirror = .ok rs.length := by
  have hlength : (storedArchive rs).length =
      (localsOf rs).length + (centralsOf 0 rs).length + 22 := by
    simp [storedArchive, Nat.add_assoc]
  have hfront : storedArchive rs = (localsOf rs ++ centralsOf 0 rs) ++
      endBytes rs.length (centralsOf 0 rs).length (localsOf rs).length := by
    simp [storedArchive]
  set bytes := storedArchive rs with hbytes
  set stop := (localsOf rs).length + (centralsOf 0 rs).length with hstop
  have hfind : findEnd bytes = some stop := by
    rw [hfront, findEnd_append, List.length_append]
  have h0 : bytes.drop stop = endMagic ++ (littleEndian 2 0 ++ (littleEndian 2 0 ++
      (littleEndian 2 rs.length ++ (littleEndian 2 rs.length ++
        (littleEndian 4 (centralsOf 0 rs).length ++ (littleEndian 4 (localsOf rs).length ++
          (littleEndian 2 0 ++ []))))))) := by
    rw [hfront, hstop, ← List.length_append, List.drop_left, endBytes]
    simp only [List.append_assoc, List.append_nil]
  have h4 : bytes.drop (stop + 4) = _ := drop_field h0 rfl
  have h6 : bytes.drop (stop + 6) = _ := drop_field h4 rfl
  have h8 : bytes.drop (stop + 8) = _ := drop_field h6 rfl
  have h10 : bytes.drop (stop + 10) = _ := drop_field h8 rfl
  have h12 : bytes.drop (stop + 12) = _ := drop_field h10 rfl
  have h16 : bytes.drop (stop + 16) = _ := drop_field h12 rfl
  have hcount16 : rs.length < 2 ^ 16 := lt_of_le_of_lt hcount (by decide)
  have hwalkStart : bytes.drop (localsOf rs).length = centralsOf 0 rs ++
      endBytes rs.length (centralsOf 0 rs).length (localsOf rs).length := by
    rw [hbytes, storedArchive, List.drop_left]
  have hlocals : bytes.drop 0 = localsOf rs ++ (centralsOf 0 rs ++
      endBytes rs.length (centralsOf 0 rs).length (localsOf rs).length) := rfl
  have hrecords : ∃ walk, centralRecords bytes (localsOf rs).length stop limit mirror rs.length
        { position := (localsOf rs).length, names := ∅, ranges := [], expanded := 0 } = .ok walk ∧
      walk.position = stop ∧ walk.ranges = [] ++ rangesOf 0 rs ∧
      ∀ path b, walk.names[path]? = some b → (∅ : ExtTreeMap Bytes Bool)[path]? = some b ∨
        ∃ r ∈ rs, r.path = path ∧ endsInSlash r.name = b :=
    centralRecords_stored mirror hrs (by simp) hwalkStart hlocals (by simp) (by omega)
      (by omega) rfl (by simpa using hexpanded)
  obtain ⟨walk, hwalk, hposition, hranges, hnames⟩ := hrecords
  simp only [layout, bind_eq_ok_iff, refuseIf_eq_ok, orInvalid_eq_ok, pure_eq_ok, exists_const]
  refine ⟨by omega, stop, hfind, _, u16At_field h10 hcount16, _, u32At_field h12 (by omega), _,
    u32At_field h16 (by omega), _, u16At_field h4 (by decide), _, u16At_field h6 (by decide), _,
    u16At_field h8 hcount16, ?_, walk, hwalk, not_not.mpr hposition, ?_, ?_, rfl⟩
  · have : rs.length ≠ 0 := by simpa using hne
    simp only [ne_eq, not_true, false_or, this, not_or, not_lt]
    exact ⟨hcount, hcentral, not_not.mpr rfl⟩
  · rw [hranges, List.nil_append, (rangesOf_pairwise 0 rs).2.insertionSort_eq,
      overlapping_rangesOf]
    simp
  · intro habove
    simp only [List.any_eq_true, ExtTreeMap.mem_keys, mem_ancestors, beq_iff_eq] at habove
    obtain ⟨path', hmem, path, hunder, hfile⟩ := habove
    obtain ⟨b, hb⟩ := mem_iff_exists.mp hmem
    obtain ⟨r, hr, rfl, hdir⟩ := (hnames path false hfile).resolve_left (by simp)
    obtain ⟨r', hr', rfl, -⟩ := (hnames path' b hb).resolve_left (by simp)
    simp [hinterior r hr r' hr' hunder] at hdir

end Cirrove.Package
