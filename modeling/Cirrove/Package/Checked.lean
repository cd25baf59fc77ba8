import Cirrove.Package.Contents

/-!
# The scanner with machine arithmetic

`layout` reads offsets that the archive itself supplies. Here every addition, subtraction and
slice of the source is an operation that panics where the machine would: a sum beyond 64 bits,
a range beyond the buffer, a text cut inside a character. A loop that does not come to its end
counts as a panic as well. None of them happens (`layout_checked`): on every buffer that fits
in memory the scanner returns what `layout` over the natural numbers returns.

A read that `||` would skip is made all the same: it can only end the scan in the same refusal.
-/

namespace Cirrove.Package

open Cirrove.Library
open Std (ExtTreeMap)

/-- How a scan ends without a result. -/
inductive Stop where
  | refused (error : ProviderError)
  | panicked
  deriving DecidableEq, Repr

abbrev Scan := Except Stop

namespace Checked

variable {α β : Type}

/-- A refusal of the source. -/
def lift (x : Except ProviderError α) : Scan α := x.mapError .refused

/-! ## Machine operations -/

def panic : Scan α := .error .panicked

/-- `a + b` -/
def add (a b : Nat) : Scan Nat := if a + b < 2 ^ 64 then pure (a + b) else panic

/-- `a - b` -/
def sub (a b : Nat) : Scan Nat := if b ≤ a then pure (a - b) else panic

/-- `a.checked_add(b).ok_or_else(invalid)?` -/
def checkedAdd (a b : Nat) : Scan Nat :=
  if a + b < 2 ^ 64 then pure (a + b) else lift (throw invalid)

/-- `bytes.get(i..j)` -/
def get (bytes : Bytes) (i j : Nat) : Option Bytes :=
  if i ≤ j ∧ j ≤ bytes.length then some ((bytes.drop i).take (j - i)) else none

/-- `&bytes[i..j]` -/
def between (bytes : Bytes) (i j : Nat) : Scan Bytes :=
  match get bytes i j with
  | some part => pure part
  | none => panic

/-- `&name[..i]` of a text -/
def textBefore (name : Bytes) (i : Nat) : Scan Bytes :=
  if i = 0 ∨ i = name.length ∨ (name[i]?.any fun b => !isTail b) then pure (name.take i) else panic

/-! ## The scanner -/

def u16At (bytes : Bytes) (i : Nat) : Scan Nat := do
  lift (orInvalid ((get bytes i (← add i 2)).map fromLittleEndian))

def u32At (bytes : Bytes) (i : Nat) : Scan Nat := do
  lift (orInvalid ((get bytes i (← add i 4)).map fromLittleEndian))

def extrasFrom (bytes : Bytes) : Nat → Nat → Scan Unit
  | 0, i => if i < bytes.length then panic else pure ()
  | fuel + 1, i =>
    if i < bytes.length then do
      let kind ← u16At bytes i
      let len ← u16At bytes (← add i 2)
      let next ← checkedAdd i (← add 4 len)
      lift (refuseIf (kind = 1 ∨ bytes.length < next))
      extrasFrom bytes fuel next
    else pure ()

def extras (bytes : Bytes) : Scan Unit := extrasFrom bytes bytes.length 0

def mirrorFrom (bytes : Bytes) (uncompressed compressed : Nat) : Nat → Nat → Bool → Scan Unit
  | 0, i, _ => if i < bytes.length then panic else pure ()
  | fuel + 1, i, seen =>
    if i < bytes.length then do
      let kind ← u16At bytes i
      let len ← u16At bytes (← add i 2)
      let next ← checkedAdd i (← add 4 len)
      let field ← lift (orInvalid (get bytes i next))
      if kind = 1 then
        lift (refuseIf (seen = true ∨ len ≠ 16))
        let sizes ← lift (orInvalid (get field 4 20))
        lift (refuseIf (fromLittleEndian (← between sizes 0 8) ≠ uncompressed ∨
          fromLittleEndian (← between sizes 8 sizes.length) ≠ compressed))
        mirrorFrom bytes uncompressed compressed fuel next true
      else
        extras field
        mirrorFrom bytes uncompressed compressed fuel next seen
    else pure ()

def localExtras (bytes : Bytes) (uncompressed compressed : Nat) (allowSizeMirror : Bool) :
    Scan Unit :=
  if allowSizeMirror then mirrorFrom bytes uncompressed compressed bytes.length 0 false
  else extras bytes

/-- An end record is at the place, and its comment reaches exactly to the end. -/
def endsAt (bytes : Bytes) (i : Nat) : Scan Bool := do
  if endMagic.isPrefixOf (← between bytes i bytes.length) then
    match u16At bytes (← add i 20) with
    | .ok n => return (← add (← add i 22) n) == bytes.length
    | .error (.refused _) => return false
    | .error .panicked => panic
  else return false

def findEnd (bytes : Bytes) : Scan (Option Nat) := do
  let lower := bytes.length - 65557
  let upper ← sub bytes.length 22
  (List.range' lower (upper - lower + 1)).reverse.findM? (endsAt bytes)

def intervalEnd (bytes : Bytes) (start i flags compressed uncompressed finish : Nat) :
    Scan Nat := do
  if flags &&& 8 ≠ 0 then
    let descriptor ← if get bytes finish (← add finish 4) = some descriptorMagic
      then checkedAdd finish 4 else pure finish
    let descriptorEnd ← checkedAdd descriptor 12
    lift (refuseIf (start < descriptorEnd))
    lift (refuseIf ((← u32At bytes descriptor) ≠ (← u32At bytes (← add i 16)) ∨
      (← u32At bytes (← add descriptor 4)) ≠ compressed ∨
      (← u32At bytes (← add descriptor 8)) ≠ uncompressed))
    pure descriptorEnd
  else pure finish

def localRecord (bytes : Bytes) (start i flags method compressed uncompressed : Nat)
    (raw : Bytes) (allowLocalSizeMirror : Bool) : Scan (Nat × Nat) := do
  let loc ← u32At bytes (← add i 42)
  lift (refuseIf (start ≤ loc))
  lift (refuseIf (get bytes loc (← add loc 4) ≠ some localMagic))
  lift (refuseIf ((← u16At bytes (← add loc 6)) ≠ flags ∨ (← u16At bytes (← add loc 8)) ≠ method ∨
    (← u16At bytes (← add loc 26)) ≠ raw.length))
  let localExtra ← u16At bytes (← add loc 28)
  let data ← checkedAdd loc (← add (← add 30 raw.length) localExtra)
  let finish ← checkedAdd data compressed
  let name ← add loc 30
  let behind ← add name raw.length
  lift (refuseIf (start < finish ∨ get bytes name behind ≠ some raw))
  localExtras (← lift (orInvalid (get bytes behind data))) uncompressed compressed
    (allowLocalSizeMirror && flags == 0 && method == 0 && uncompressed != 0xffffffff &&
      compressed != 0xffffffff)
  if flags &&& 8 = 0 then
    lift (refuseIf ((← u32At bytes (← add loc 14)) ≠ (← u32At bytes (← add i 16)) ∨
      (← u32At bytes (← add loc 18)) ≠ compressed ∨ (← u32At bytes (← add loc 22)) ≠ uncompressed))
  pure (loc, ← intervalEnd bytes start i flags compressed uncompressed finish)

def centralRecord (bytes : Bytes) (start stop expandedLimit : Nat) (allowLocalSizeMirror : Bool)
    (walk : Walk) : Scan Walk := do
  let i := walk.position
  lift (refuseIf (get bytes i (← add i 4) ≠ some centralMagic))
  let flags ← u16At bytes (← add i 8)
  let method ← u16At bytes (← add i 10)
  let compressed ← u32At bytes (← add i 20)
  let uncompressed ← u32At bytes (← add i 24)
  let nameLen ← u16At bytes (← add i 28)
  let extra ← u16At bytes (← add i 30)
  let comment ← u16At bytes (← add i 32)
  let next ← checkedAdd i (← add (← add (← add 46 nameLen) extra) comment)
  lift (refuseIf (stop < next ∨ maxName < nameLen ∨ flags &&& 0xf7f1 ≠ 0 ∨
    (method ≠ 0 ∧ method ≠ 8) ∨ (← u16At bytes (← add i 34)) ≠ 0))
  let name ← add i 46
  let behind ← add name nameLen
  let raw ← lift (orInvalid (get bytes name behind))
  let directory := raw.getLast? == some slash
  let key ← lift (safeName raw directory)
  lift (refuseIf (walk.names.contains key))
  extras (← between bytes behind (← add behind extra))
  let kind := ((← u32At bytes (← add i 38)) >>> 16) &&& 0xf000
  lift (refuseIf ((kind ≠ 0 ∧ kind ≠ 0x8000 ∧ kind ≠ 0x4000) ∨
    (kind = 0x4000 ∧ directory = false) ∨ (kind = 0x8000 ∧ directory = true) ∨
    (directory = true ∧ uncompressed ≠ 0)))
  let expanded ← checkedAdd walk.expanded uncompressed
  lift (refuseIf (expandedLimit < expanded))
  let range ← localRecord bytes start i flags method compressed uncompressed raw
    allowLocalSizeMirror
  pure { position := next
         names := walk.names.insert key directory
         ranges := walk.ranges ++ [range]
         expanded := expanded }

def centralRecords (bytes : Bytes) (start stop expandedLimit : Nat)
    (allowLocalSizeMirror : Bool) : Nat → Walk → Scan Walk
  | 0, walk => pure walk
  | count + 1, walk => do
    centralRecords bytes start stop expandedLimit allowLocalSizeMirror count
      (← centralRecord bytes start stop expandedLimit allowLocalSizeMirror walk)

/-- `name.match_indices('/')` -/
def slashes (name : Bytes) : List Nat :=
  (List.range name.length).filter fun i => name[i]? = some slash

/-- No entry lies below a file. -/
def checkPaths (names : ExtTreeMap Bytes Bool) : Scan Unit :=
  names.keys.forM fun name => (slashes name).forM fun i => do
    lift (refuseIf (names[← textBefore name i]? = some false))

def layout (bytes : Bytes) (expandedLimit : Nat) (allowLocalSizeMirror : Bool) : Scan Nat := do
  lift (refuseIf (bytes.length < 22))
  let stop ← lift (orInvalid (← findEnd bytes))
  let count ← u16At bytes (← add stop 10)
  let size ← u32At bytes (← add stop 12)
  let start ← u32At bytes (← add stop 16)
  lift (refuseIf ((← u16At bytes (← add stop 4)) ≠ 0 ∨ (← u16At bytes (← add stop 6)) ≠ 0 ∨
    (← u16At bytes (← add stop 8)) ≠ count ∨ count = 0 ∨ maxEntries < count ∨ maxCentral < size ∨
    (← checkedAdd start size) ≠ stop))
  let walk ← centralRecords bytes start stop expandedLimit allowLocalSizeMirror count
    { position := start, names := ∅, ranges := [], expanded := 0 }
  lift (refuseIf (walk.position ≠ stop))
  lift (refuseIf (overlapping (walk.ranges.insertionSort rangeLE)))
  checkPaths walk.names
  pure count

/-! ## Refusals -/

theorem lift_bind (x : Except ProviderError α) (f : α → Except ProviderError β) :
    lift (x >>= f) = lift x >>= fun a => lift (f a) := by
  cases x <;> rfl

theorem lift_bind_congr {x : Except ProviderError α} {f g : α → Scan β}
    (h : ∀ a, x = .ok a → f a = g a) : (lift x >>= f) = lift x >>= g := by
  cases x with
  | error e => rfl
  | ok a => exact h a rfl

@[simp]
theorem lift_pure (a : α) : lift (pure a) = pure a := rfl

@[simp]
theorem lift_eq_ok {x : Except ProviderError α} {a : α} : lift x = .ok a ↔ x = .ok a := by
  cases x <;> simp [lift, Except.mapError]

theorem lift_ne_panicked (x : Except ProviderError α) : lift x ≠ .error .panicked := by
  cases x <;> simp [lift, Except.mapError]

/-- A search whose tests come to an end finds what they say. -/
theorem findM?_eq_pure {l : List α} {p : α → Scan Bool} {q : α → Bool}
    (h : ∀ a ∈ l, p a = pure (q a)) : l.findM? p = pure (l.find? q) := by
  induction l with
  | nil => rfl
  | cons a l ih =>
    simp only [List.findM?, List.find?_cons, h a List.mem_cons_self, pure_bind,
      ih fun x hx => h x (List.mem_cons_of_mem _ hx)]
    cases q a <;> rfl

/-! ## Machine operations stay in bounds -/

theorem add_eq {a b : Nat} (h : a + b < 2 ^ 64) : add a b = pure (a + b) := if_pos h

theorem checkedAdd_eq {a b : Nat} (h : a + b < 2 ^ 64) : checkedAdd a b = pure (a + b) := if_pos h

theorem get_add (bytes : Bytes) (i n : Nat) : get bytes i (i + n) = slice bytes i n := by
  simp [get, slice]

theorem between_add {bytes : Bytes} {i n : Nat} (h : i + n ≤ bytes.length) :
    between bytes i (i + n) = pure ((bytes.drop i).take n) := by
  rw [between, get_add, slice, if_pos h]

theorem u16At_checked {i : Nat} (bytes : Bytes) (h : i + 2 < 2 ^ 64) :
    u16At bytes i = lift (Package.u16At bytes i) := by
  rw [u16At, add_eq h, pure_bind, get_add, Package.u16At]

theorem u32At_checked {i : Nat} (bytes : Bytes) (h : i + 4 < 2 ^ 64) :
    u32At bytes i = lift (Package.u32At bytes i) := by
  rw [u32At, add_eq h, pure_bind, get_add, Package.u32At]

theorem fromLittleEndian_lt (bytes : Bytes) : fromLittleEndian bytes < 256 ^ bytes.length := by
  induction bytes with
  | nil => simp [fromLittleEndian]
  | cons b rest ih =>
    have hb := b.toNat_lt
    simp only [fromLittleEndian, List.length_cons, pow_succ]
    omega

/-- A number that is read lies in the buffer, and is as small as its width says. -/
theorem number_bounds {bytes : Bytes} {i n v : Nat}
    (h : orInvalid ((slice bytes i n).map fromLittleEndian) = .ok v) :
    i + n ≤ bytes.length ∧ v < 256 ^ n := by
  rw [orInvalid_eq_ok, Option.map_eq_some_iff] at h
  obtain ⟨part, hpart, rfl⟩ := h
  obtain ⟨rfl, hfits⟩ := slice_eq_some hpart
  have hlength : ((bytes.drop i).take n).length = n := by
    rw [List.length_take, List.length_drop]
    omega
  have hlt := fromLittleEndian_lt ((bytes.drop i).take n)
  rw [hlength] at hlt
  exact ⟨hfits, hlt⟩

theorem u16At_bounds {bytes : Bytes} {i v : Nat} (h : Package.u16At bytes i = .ok v) :
    i + 2 ≤ bytes.length ∧ v < 2 ^ 16 := number_bounds h

theorem u32At_bounds {bytes : Bytes} {i v : Nat} (h : Package.u32At bytes i = .ok v) :
    i + 4 ≤ bytes.length ∧ v < 2 ^ 32 := number_bounds h

/-! ## Paths -/

/-- The texts before the slashes of a name are its ancestors. -/
theorem map_slashes (name : Bytes) :
    (slashes name).map (name.take ·) = ancestors slash name := by
  induction name with
  | nil => rfl
  | cons b rest ih =>
    have hrest : (slashes (b :: rest)).map ((b :: rest).take ·) =
        (if b = slash then [[]] else []) ++ ((slashes rest).map (rest.take ·)).map (b :: ·) := by
      simp only [slashes, List.length_cons, List.range_succ_eq_map, List.filter_cons,
        List.getElem?_cons_zero, Option.some.injEq, decide_eq_true_eq, List.filter_map]
      split <;> simp [Function.comp_def]
    rw [hrest, ih, ancestors]

/-- A text is cut before a slash, never inside a character. -/
theorem textBefore_slash {name : Bytes} {i : Nat} (h : i ∈ slashes name) :
    textBefore name i = pure (name.take i) := by
  rw [slashes, List.mem_filter, decide_eq_true_eq] at h
  apply if_pos
  right; right
  rw [h.2, Option.any_some]
  rfl

/-- A loop that refuses some elements. -/
theorem forM_refuseIf {l : List α} {f : α → Scan Unit} {q : α → Bool}
    (h : ∀ a ∈ l, f a = lift (refuseIf (q a = true))) :
    l.forM f = lift (refuseIf (l.any q = true)) := by
  induction l with
  | nil => simp [refuseIf, refuseWith]
  | cons a l ih =>
    have hrest := ih fun x hx => h x (List.mem_cons_of_mem _ hx)
    rw [List.forM, h a List.mem_cons_self, hrest, List.any_cons]
    cases q a <;> rfl

theorem checkPaths_checked (names : ExtTreeMap Bytes Bool) :
    checkPaths names = lift (refuseIf (names.keys.any fun name =>
      (ancestors slash name).any fun above => names[above]? == some false)) := by
  apply forM_refuseIf
  intro name _
  rw [← map_slashes, List.any_map]
  apply forM_refuseIf
  intro i hi
  rw [textBefore_slash hi, pure_bind]
  simp [refuseIf, refuseWith]

/-! ## The scanner does not panic -/

/-- An end record fits behind the place where it is found. -/
theorem findEnd_room {bytes : Bytes} {stop : Nat} (hroom : 22 ≤ bytes.length)
    (h : Package.findEnd bytes = some stop) : stop + 22 ≤ bytes.length := by
  have hmem := List.mem_of_find?_eq_some h
  rw [List.mem_reverse, List.mem_range'_1] at hmem
  omega

/-- A record ends before the end record. -/
theorem centralRecord_position {bytes : Bytes} {start stop limit : Nat} {mirror : Bool} {walk walk' : Walk}
    (h : Package.centralRecord bytes start stop limit mirror walk = .ok walk') :
    walk'.position ≤ stop := by
  simp only [Package.centralRecord, bind_eq_ok_iff, refuseIf_eq_ok, orInvalid_eq_ok, pure_eq_ok,
    exists_const] at h
  obtain ⟨-, flags, -, method, -, compressed, -, uncompressed, -, nameLen, -, extra, -, comment, -,
    disk, -, hinside, raw, -, key, -, -, _, -, attributes, -, -, -, range, -, rfl⟩ := h
  simp only [not_or, not_lt] at hinside
  exact hinside.1

section Sound

variable {bytes : Bytes} (hfits : bytes.length < 2 ^ 63)
include hfits

/-- Every round moves on, so the loop ends before the fuel does. -/
theorem extrasFrom_checked {fuel i : Nat} (hi : i ≤ bytes.length)
    (hfuel : bytes.length ≤ i + fuel) :
    extrasFrom bytes fuel i = lift (Package.extrasFrom bytes fuel i) := by
  induction fuel generalizing i with
  | zero =>
    have hend : ¬ i < bytes.length := by omega
    simp [extrasFrom, Package.extrasFrom, refuseIf, refuseWith, hend]
  | succ fuel ih =>
    unfold extrasFrom Package.extrasFrom
    split
    · simp only [lift_bind]
      rw [u16At_checked bytes (by omega)]
      apply lift_bind_congr
      intro kind _
      rw [add_eq (by omega), pure_bind, u16At_checked bytes (by omega)]
      apply lift_bind_congr
      intro len hlen
      have hlen := u16At_bounds hlen
      rw [add_eq (by omega), pure_bind, checkedAdd_eq (by omega), pure_bind]
      apply lift_bind_congr
      intro _ hnext
      simp only [refuseIf_eq_ok, not_or, not_lt] at hnext
      exact ih hnext.2 (by omega)
    · rfl

theorem extras_checked : extras bytes = lift (Package.extras bytes) :=
  extrasFrom_checked hfits (Nat.zero_le _) (by omega)

theorem mirrorFrom_checked {uncompressed compressed fuel i : Nat} {seen : Bool}
    (hi : i ≤ bytes.length) (hfuel : bytes.length ≤ i + fuel) :
    mirrorFrom bytes uncompressed compressed fuel i seen =
      lift (Package.mirrorFrom bytes uncompressed compressed fuel i seen) := by
  induction fuel generalizing i seen with
  | zero =>
    have hend : ¬ i < bytes.length := by omega
    simp [mirrorFrom, Package.mirrorFrom, refuseIf, refuseWith, hend]
  | succ fuel ih =>
    unfold mirrorFrom Package.mirrorFrom
    split
    · simp only [lift_bind]
      rw [u16At_checked bytes (by omega)]
      apply lift_bind_congr
      intro kind _
      rw [add_eq (by omega), pure_bind, u16At_checked bytes (by omega)]
      apply lift_bind_congr
      intro len hlen
      have hlen := u16At_bounds hlen
      rw [add_eq (by omega), pure_bind, checkedAdd_eq (by omega), pure_bind, get_add]
      apply lift_bind_congr
      intro field hfield
      rw [orInvalid_eq_ok] at hfield
      obtain ⟨rfl, hnext⟩ := slice_eq_some hfield
      have hlength : (List.take (4 + len) (List.drop i bytes)).length = 4 + len := by
        rw [List.length_take, List.length_drop]
        omega
      split
      · simp only [lift_bind]
        apply lift_bind_congr
        intro _ hmirror
        rw [show (20 : Nat) = 4 + 16 from rfl, get_add]
        apply lift_bind_congr
        intro sizes hsizes
        rw [orInvalid_eq_ok] at hsizes
        have hsixteen : sizes.length = 16 := by
          obtain ⟨rfl, hle⟩ := slice_eq_some hsizes
          rw [List.length_take, List.length_drop]
          omega
        have hfirst : between sizes 0 8 = pure (sizes.take 8) := by
          simpa using @between_add sizes 0 8 (by omega)
        have hsecond : between sizes 8 sizes.length = pure (sizes.drop 8) := by
          have hwhole : (sizes.drop 8).length ≤ 8 := by simp [hsixteen]
          rw [hsixteen]
          simpa [List.take_of_length_le hwhole] using
            @between_add sizes 8 8 (by omega)
        rw [hfirst, hsecond, pure_bind, pure_bind]
        apply lift_bind_congr
        intro _ _
        exact ih hnext (by omega)
      · rw [lift_bind, extras_checked (by omega)]
        apply lift_bind_congr
        intro _ _
        exact ih hnext (by omega)
    · rfl

theorem localExtras_checked (uncompressed compressed : Nat) (mirror : Bool) :
    localExtras bytes uncompressed compressed mirror =
      lift (Package.localExtras bytes uncompressed compressed mirror) := by
  unfold localExtras Package.localExtras
  split
  · exact mirrorFrom_checked hfits (Nat.zero_le _) (by omega)
  · exact extras_checked hfits

theorem endsAt_checked {i : Nat} (hi : i + 22 ≤ bytes.length) :
    endsAt bytes i = pure (endMagic.isPrefixOf (bytes.drop i) &&
      match Package.u16At bytes (i + 20) with
      | .ok n => i + 22 + n == bytes.length
      | .error _ => false) := by
  have hrest : between bytes i bytes.length = pure (bytes.drop i) := by
    have hlength : (bytes.drop i).length ≤ bytes.length - i := by simp
    have hwhole : i + (bytes.length - i) = bytes.length := by omega
    have h := @between_add bytes i (bytes.length - i) (by omega)
    rwa [hwhole, List.take_of_length_le hlength] at h
  rw [endsAt, hrest, pure_bind]
  cases hmagic : endMagic.isPrefixOf (bytes.drop i) with
  | false => rfl
  | true =>
    rw [if_pos rfl, add_eq (by omega), pure_bind, u16At_checked bytes (by omega)]
    cases hn : Package.u16At bytes (i + 20) with
    | error e => rfl
    | ok n =>
      have hbound := u16At_bounds hn
      simp only [lift, Except.mapError]
      rw [add_eq (by omega), pure_bind, add_eq (by omega), pure_bind, Bool.true_and]

theorem findEnd_checked (hroom : 22 ≤ bytes.length) :
    findEnd bytes = pure (Package.findEnd bytes) := by
  rw [findEnd, sub, if_pos hroom, pure_bind, Package.findEnd]
  apply findM?_eq_pure
  intro i hi
  rw [List.mem_reverse, List.mem_range'_1] at hi
  exact endsAt_checked hfits (by omega)

theorem intervalEnd_checked {start i finish : Nat} (flags compressed uncompressed : Nat)
    (hi : i + 46 ≤ bytes.length) (hstart : start ≤ bytes.length) (hfinish : finish ≤ start) :
    intervalEnd bytes start i flags compressed uncompressed finish =
      lift (Package.intervalEnd bytes start i flags compressed uncompressed finish) := by
  unfold intervalEnd Package.intervalEnd
  split
  · rw [add_eq (by omega), pure_bind, get_add]
    -- The descriptor is behind the payload, or behind its own signature.
    by_cases hsigned : slice bytes finish 4 = some descriptorMagic
    all_goals
      simp (disch := omega) only [hsigned, if_true, if_false, add_eq, checkedAdd_eq, pure_bind,
        u32At_checked, lift_bind, lift_pure]
  · rfl

theorem localRecord_checked {start i : Nat} (flags method : Nat) {compressed uncompressed : Nat}
    {raw : Bytes} (mirror : Bool) (hi : i + 46 ≤ bytes.length) (hstart : start ≤ bytes.length)
    (hraw : raw.length < 2 ^ 16) (hcompressed : compressed < 2 ^ 32) :
    localRecord bytes start i flags method compressed uncompressed raw mirror =
      lift (Package.localRecord bytes start i flags method compressed uncompressed raw mirror) := by
  unfold localRecord Package.localRecord
  simp only [lift_bind]
  rw [add_eq (by omega), pure_bind, u32At_checked bytes (by omega)]
  apply lift_bind_congr
  intro loc hloc
  have hloc := u32At_bounds hloc
  apply lift_bind_congr
  intro _ _
  rw [add_eq (by omega), pure_bind, get_add]
  apply lift_bind_congr
  intro _ _
  simp (disch := omega) only [add_eq, pure_bind, u16At_checked]
  apply lift_bind_congr
  intro localFlags _
  apply lift_bind_congr
  intro localMethod _
  apply lift_bind_congr
  intro localName _
  apply lift_bind_congr
  intro _ _
  apply lift_bind_congr
  intro localExtra hlocalExtra
  have hlocalExtra := u16At_bounds hlocalExtra
  simp (disch := omega) only [add_eq, checkedAdd_eq, pure_bind, get_add]
  apply lift_bind_congr
  intro _ hinside
  simp only [refuseIf_eq_ok, not_or, not_lt] at hinside
  have hbehind : loc + 30 + raw.length + localExtra = loc + (30 + raw.length + localExtra) := by
    omega
  rw [← hbehind, get_add]
  apply lift_bind_congr
  intro field hfield
  rw [orInvalid_eq_ok] at hfield
  obtain ⟨rfl, hle⟩ := slice_eq_some hfield
  have hshort : (List.take localExtra (List.drop (loc + 30 + raw.length) bytes)).length < 2 ^ 63 := by
    rw [List.length_take]
    omega
  rw [localExtras_checked hshort]
  apply lift_bind_congr
  intro _ _
  rw [intervalEnd_checked hfits flags compressed uncompressed hi hstart (by omega)]
  split
  · simp (disch := omega) only [u32At_checked, lift_bind, lift_pure]
  · simp only [lift_bind, lift_pure]

/-- One record: its fields lie before the end record once their length was compared with it. -/
theorem centralRecord_checked {start stop limit : Nat} (mirror : Bool) {walk : Walk}
    (hstart : start ≤ bytes.length) (hstop : stop ≤ bytes.length) (hposition : walk.position ≤ stop)
    (hlimit : limit < 2 ^ 64) :
    centralRecord bytes start stop limit mirror walk =
      lift (Package.centralRecord bytes start stop limit mirror walk) := by
  unfold centralRecord Package.centralRecord
  simp (disch := omega) only [add_eq, pure_bind, get_add, u16At_checked, u32At_checked, lift_bind]
  apply lift_bind_congr
  intro _ _
  apply lift_bind_congr
  intro flags _
  apply lift_bind_congr
  intro method _
  apply lift_bind_congr
  intro compressed hcompressed
  have hcompressed := u32At_bounds hcompressed
  apply lift_bind_congr
  intro uncompressed _
  apply lift_bind_congr
  intro nameLen hnameLen
  have hnameLen := u16At_bounds hnameLen
  apply lift_bind_congr
  intro extra hextra
  have hextra := u16At_bounds hextra
  apply lift_bind_congr
  intro comment hcomment
  have hcomment := u16At_bounds hcomment
  simp (disch := omega) only [add_eq, checkedAdd_eq, pure_bind, get_add]
  apply lift_bind_congr
  intro disk _
  apply lift_bind_congr
  intro _ hinside
  simp only [refuseIf_eq_ok, not_or, not_lt] at hinside
  apply lift_bind_congr
  intro raw hraw
  rw [orInvalid_eq_ok] at hraw
  obtain ⟨rfl, _⟩ := slice_eq_some hraw
  have hshort : ((bytes.drop (walk.position + 46)).take nameLen).length < 2 ^ 16 := by
    rw [List.length_take]
    omega
  apply lift_bind_congr
  intro key _
  apply lift_bind_congr
  intro _ _
  rw [between_add (by omega), pure_bind, extras_checked (by
    rw [List.length_take]
    omega)]
  apply lift_bind_congr
  intro _ _
  apply lift_bind_congr
  intro attributes _
  apply lift_bind_congr
  intro _ _
  -- A sum beyond 64 bits is also beyond the limit.
  by_cases hsum : walk.expanded + uncompressed < 2 ^ 64
  · rw [checkedAdd_eq hsum, pure_bind]
    apply lift_bind_congr
    intro _ _
    rw [localRecord_checked hfits flags method mirror (by omega) hstart hshort hcompressed.2]
    rfl
  · have hbeyond : limit < walk.expanded + uncompressed := by omega
    rw [checkedAdd, if_neg hsum, refuseIf, refuseWith, if_pos hbeyond]
    rfl

theorem centralRecords_checked {start stop limit count : Nat} (mirror : Bool) {walk : Walk}
    (hstart : start ≤ bytes.length) (hstop : stop ≤ bytes.length) (hposition : walk.position ≤ stop)
    (hlimit : limit < 2 ^ 64) :
    centralRecords bytes start stop limit mirror count walk =
      lift (Package.centralRecords bytes start stop limit mirror count walk) := by
  induction count generalizing walk with
  | zero => rfl
  | succ count ih =>
    unfold centralRecords Package.centralRecords
    rw [centralRecord_checked hfits mirror hstart hstop hposition hlimit, lift_bind]
    apply lift_bind_congr
    intro walk' hrecord
    exact ih (centralRecord_position hrecord)

/-- On a buffer that fits in memory the scanner never panics, and its machine arithmetic is that
    of the natural numbers. -/
theorem layout_checked {limit : Nat} (mirror : Bool) (hlimit : limit < 2 ^ 64) :
    layout bytes limit mirror = lift (Package.layout bytes limit mirror) := by
  unfold layout Package.layout
  simp only [lift_bind]
  apply lift_bind_congr
  intro _ hroom
  rw [refuseIf_eq_ok, not_lt] at hroom
  rw [findEnd_checked hfits hroom, pure_bind]
  apply lift_bind_congr
  intro stop hstop
  rw [orInvalid_eq_ok] at hstop
  have hend : stop + 22 ≤ bytes.length := findEnd_room hroom hstop
  simp (disch := omega) only [add_eq, pure_bind, u16At_checked, u32At_checked]
  apply lift_bind_congr
  intro count _
  apply lift_bind_congr
  intro size hsize
  have hsize := u32At_bounds hsize
  apply lift_bind_congr
  intro start hstart
  have hstart := u32At_bounds hstart
  simp (disch := omega) only [checkedAdd_eq, pure_bind]
  apply lift_bind_congr
  intro disk _
  apply lift_bind_congr
  intro central _
  apply lift_bind_congr
  intro here _
  apply lift_bind_congr
  intro _ hlimits
  have hplace : start + size = stop := by
    simp only [refuseIf_eq_ok, not_or, ne_eq, not_not] at hlimits
    exact hlimits.2.2.2.2.2.2
  rw [centralRecords_checked hfits mirror (by omega) (by omega) (by simp only; omega) hlimit]
  apply lift_bind_congr
  intro walk _
  simp only [checkPaths_checked, lift_pure]

end Sound

end Checked

end Cirrove.Package
