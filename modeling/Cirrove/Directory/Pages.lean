import Cirrove.Library.Runs
import Cirrove.Directory.Building

/-!
# What a page reads

A page looks up where its entries begin in the index, measures how many of them fit, and
decodes their records. Over a backing that begins with what was published it answers exactly
the published entries from its offset on, and at least one of them (`page_published`). The
frontier and the bytes may be from different moments: bytes are only added.
-/

namespace Cirrove.Directory

open Cirrove.Library

/-! ## Records -/

theorem utf8ByteSize_lt {e : Entry} (h : e.Valid) : e.name.utf8ByteSize < 256 ^ 4 := by
  have hfits := h.fits
  simp only [pageBytes, headerBytes] at hfits
  omega

/-- A record is decoded to the entry it was made of. -/
theorem readRecord_record {e : Entry} (h : e.Valid) : Listing.readRecord e.record = .ok e := by
  have hsplit : e.record = littleEndian 8 e.inode.toNat ++
      ([UInt8.ofNat e.directory.toNat] ++
        (littleEndian 4 e.name.utf8ByteSize ++ textBytes e.name)) := rfl
  have hinode : fromLittleEndian (slice e.record 0 8) = e.inode.toNat := by
    have hslice : slice e.record 0 8 = littleEndian 8 e.inode.toNat := by
      rw [hsplit]
      exact List.take_left' (by simp)
    rw [hslice, fromLittleEndian_littleEndian e.inode.toNat_lt]
  have hkind : e.record.getD 8 0 = UInt8.ofNat e.directory.toNat := by
    rw [hsplit, List.getD_append_right _ _ _ _ (by simp)]
    simp
  have hsize : fromLittleEndian (slice e.record 9 4) = e.name.utf8ByteSize := by
    have hslice : slice e.record 9 4 = littleEndian 4 e.name.utf8ByteSize := by
      have hdrop : e.record.drop 9 = littleEndian 4 e.name.utf8ByteSize ++ textBytes e.name := by
        rw [hsplit, ← List.append_assoc]
        exact List.drop_left' (by simp)
      rw [slice, hdrop]
      exact List.take_left' (by simp)
    rw [hslice, fromLittleEndian_littleEndian (utf8ByteSize_lt h)]
  have hname : e.record.drop headerBytes = textBytes e.name := by
    rw [hsplit, ← List.append_assoc, ← List.append_assoc]
    exact List.drop_left' (by simp [headerBytes])
  have hgood : ¬ (e.name.utf8ByteSize ≠ e.name.utf8ByteSize ∨ e.inode = 0 ∨ Unnamed e.name) := by
    rintro (hsize | hzero | hunnamed)
    · exact hsize rfl
    · exact h.inode hzero
    · exact h.named hunnamed
  rw [Listing.readRecord, hinode, hkind, hsize, hname, fromUtf8_textBytes]
  cases hdirectory : e.directory with
  | false =>
    simp only [Bool.toNat_false, UInt64.ofNat_toNat, if_neg hgood]
    exact congrArg Except.ok (by rw [← hdirectory])
  | true =>
    simp only [Bool.toNat_true, UInt64.ofNat_toNat, if_neg hgood]
    exact congrArg Except.ok (by rw [← hdirectory])

/-! ## Positions -/

/-- Where the records of a listing begin. -/
abbrev beginning (xs : List Entry) (i : Nat) : Nat := position Entry.record xs i

variable {xs : List Entry} {backing : Backing} {state : Progress} {offset count : Nat}

/-- A record is a header and a name. -/
theorem beginning_succ (hvalid : ∀ e ∈ xs, e.Valid) {i : Nat} (hi : i < xs.length) :
    headerBytes ≤ beginning xs (i + 1) - beginning xs i ∧
      beginning xs (i + 1) - beginning xs i ≤ pageBytes ∧
      beginning xs i ≤ beginning xs (i + 1) := by
  have hsucc := position_succ Entry.record hi
  have hfits := (hvalid _ (List.getElem_mem hi)).fits
  rw [Entry.length_record] at hsucc
  simp only [beginning, hsucc, pageBytes, headerBytes] at hfits ⊢
  omega

/-- Positions are read as they were written. -/
theorem read_index (hbegins : backing.Begins xs) (hroom : (recorded xs).length ≤ maxBytes)
    (hle : offset + count ≤ xs.length) :
    ∃ index, backing.readAt .index (count * 8) (offset * indexBytes) = .ok index ∧
      (chunks 8 index).map fromLittleEndian = (List.range' offset count).map (beginning xs) := by
  have hstretch : ((positions Entry.record xs).drop offset).take count =
      (List.range' offset count).map (beginning xs) := by
    apply List.ext_getElem
    · simp
      omega
    · intro i hleft hright
      have hi : offset + i < xs.length := by simp at hright; omega
      rw [List.getElem_take, List.getElem_drop, getElem_positions Entry.record (by simpa using hi)]
      simp [beginning]
  have hlength : (framed (littleEndian 8) (((positions Entry.record xs).drop offset).take
      count)).length = count * 8 := by
    rw [length_framed_littleEndian, hstretch]
    simp [Nat.mul_comm]
  have hposition : position (littleEndian 8) (positions Entry.record xs) offset =
      offset * indexBytes := by
    rw [position_littleEndian (by rw [length_positions]; omega), Nat.mul_comm]
    rfl
  have hfits : offset * indexBytes + count * 8 ≤ (indexed xs).length := by
    rw [length_indexed]
    simp only [indexBytes]
    omega
  refine ⟨slice (backing.part .index) (offset * indexBytes) (count * 8), ?_, ?_⟩
  · exact if_pos (hfits.trans hbegins.index.length_le)
  · -- The stretch of the index is the stretch of the positions.
    have hslice := @slice_framed _ (littleEndian 8) (positions Entry.record xs) offset count
    rw [hlength, hposition] at hslice
    rw [slice_prefix_eq hbegins.index hfits, indexed, hslice, chunks_framed (by omega), hstretch,
      List.map_map, List.map_map]
    apply List.map_congr_left
    intro i hi
    obtain ⟨j, hj, rfl⟩ := List.mem_range'.mp hi
    have hmono : beginning xs (offset + 1 * j) ≤ beginning xs xs.length :=
      position_mono Entry.record (by omega)
    have hbound : beginning xs xs.length ≤ maxBytes := by
      rw [beginning, position_length]
      exact hroom
    apply fromLittleEndian_littleEndian
    simp only [maxBytes] at hbound
    omega

/-- The positions a page is measured by are those of its entries, and where the last one ends,
    whether that is looked up in the index or known from the frontier. -/
theorem readPositions_eq (hbegins : backing.Begins xs) (hroom : (recorded xs).length ≤ maxBytes)
    (hentries : state.entries = xs.length) (hdata : state.dataBytes = (recorded xs).length)
    (hoffset : offset < xs.length) :
    ∃ count, 0 < count ∧ count ≤ pageEntries ∧ offset + count ≤ xs.length ∧
      Listing.readPositions state backing offset =
        .ok ((List.range' offset (count + 1)).map (beginning xs)) := by
  refine ⟨min (xs.length - offset) pageEntries, ?_, min_le_right _ _, ?_, ?_⟩
  · simp only [pageEntries]
    omega
  · omega
  · generalize hcount : min (xs.length - offset) pageEntries = count
    have hle : offset + count ≤ xs.length := by omega
    unfold Listing.readPositions
    rw [hentries, hcount]
    by_cases hmore : offset + count < xs.length
    · -- The entry after the page says where the page ends.
      obtain ⟨index, hread, hpositions⟩ := @read_index xs backing offset (count + 1) hbegins hroom
        hmore
      simp only [if_pos hmore, hread]
      exact congrArg Except.ok hpositions
    · obtain ⟨index, hread, hpositions⟩ := read_index hbegins hroom hle
      have hlast : beginning xs (offset + 1 * count) = state.dataBytes := by
        have hend : offset + 1 * count = xs.length := by omega
        rw [hdata, hend]
        exact position_length Entry.record xs
      simp only [if_neg hmore, Nat.add_zero, hread]
      rw [List.range'_concat, List.map_append,
        List.map_singleton, hlast]
      exact congrArg (fun positions => Except.ok (positions ++ [state.dataBytes])) hpositions

/-- Neighbouring positions enclose a record. -/
theorem windows_beginning (offset count : Nat) :
    Listing.windows ((List.range' offset (count + 1)).map (beginning xs)) =
      (List.range' offset count).map fun i => (beginning xs i, beginning xs (i + 1)) := by
  apply List.ext_getElem
  · simp [Listing.windows]
  · intro i hleft hright
    simp [Listing.windows, Nat.add_assoc]

/-- As many records are taken as fit a page. -/
theorem measure_beginning (hvalid : ∀ e ∈ xs, e.Valid) {start : Nat}
    (hle : offset + count ≤ xs.length) (hstart : start ≤ beginning xs offset) (taken : Nat) :
    ∃ n ≤ count, Listing.measure (recorded xs).length start
        ((List.range' offset count).map fun i => (beginning xs i, beginning xs (i + 1))) taken =
        .ok (taken + n) ∧
      (0 < n → beginning xs (offset + n) - start ≤ pageBytes) ∧
      (n < count → pageBytes < beginning xs (offset + n + 1) - start) := by
  induction count generalizing offset taken with
  | zero => exact ⟨0, le_rfl, rfl, fun h => absurd h (lt_irrefl 0), fun h => absurd h (lt_irrefl 0)⟩
  | succ count ih =>
    obtain ⟨hheader, hpage, hmono⟩ := @beginning_succ xs hvalid offset (by omega)
    have hend : beginning xs (offset + 1) ≤ (recorded xs).length := by
      have hlast := @position_mono _ Entry.record xs (offset + 1) xs.length (by omega)
      rwa [position_length] at hlast
    rw [List.range'_succ, List.map_cons, Listing.measure, if_neg (by omega), if_neg (by omega),
      if_neg (by omega)]
    by_cases hfull : pageBytes < beginning xs (offset + 1) - start
    · rw [if_pos hfull]
      exact ⟨0, by omega, rfl, fun h => absurd h (lt_irrefl 0), fun _ => hfull⟩
    · rw [if_neg hfull]
      obtain ⟨n, hn, hmeasure, hfits, hover⟩ := @ih (offset + 1) (by omega) (hstart.trans hmono)
        (taken + 1)
      refine ⟨n + 1, by omega, ?_, ?_, ?_⟩
      · rw [hmeasure, Nat.add_assoc, Nat.add_comm 1 n]
      · intro _
        rcases Nat.eq_zero_or_pos n with rfl | hpos
        · simpa using hfull
        · have := hfits hpos
          rwa [Nat.add_assoc, Nat.add_comm 1 n] at this
      · intro hlt
        have := hover (by omega)
        rwa [show offset + 1 + n + 1 = offset + (n + 1) + 1 by omega] at this

/-- The bytes from where a record begins to where the next one does are the record. -/
theorem slice_record {i : Nat} (hi : i < xs.length) :
    slice (recorded xs) (beginning xs i) (beginning xs (i + 1) - beginning xs i) =
      xs[i].record := by
  have hone : (xs.drop i).take 1 = [xs[i]] := by
    rw [List.drop_eq_getElem_cons hi]
    rfl
  have hslice := @slice_framed _ Entry.record xs i 1
  rw [hone, framed_singleton] at hslice
  rw [beginning, beginning, position_succ Entry.record hi, Nat.add_sub_cancel_left]
  exact hslice

/-- The records between two positions are decoded to the entries between them. -/
theorem read_records (hvalid : ∀ e ∈ xs, e.Valid) {start len : Nat}
    (hle : offset + count ≤ xs.length) (hstart : start ≤ beginning xs offset)
    (hlen : beginning xs (offset + count) - start ≤ len) :
    ((List.range' offset count).map fun i => (beginning xs i, beginning xs (i + 1))).mapM
        (fun pair => Listing.readRecord
          (slice (slice (recorded xs) start len) (pair.1 - start) (pair.2 - pair.1))) =
      .ok ((xs.drop offset).take count) := by
  induction count generalizing offset with
  | zero => rfl
  | succ count ih =>
    have hoffset : offset < xs.length := by omega
    have hmono := (beginning_succ hvalid hoffset).2.2
    have hnext : beginning xs (offset + 1) ≤ beginning xs (offset + (count + 1)) :=
      position_mono Entry.record (by omega)
    -- The first record, as a stretch of what was read.
    have hrecord : slice (slice (recorded xs) start len) (beginning xs offset - start)
        (beginning xs (offset + 1) - beginning xs offset) = xs[offset].record := by
      rw [slice_slice (by omega), Nat.add_sub_cancel' hstart, slice_record hoffset]
    have hrest := @ih (offset + 1) (by omega) (hstart.trans hmono)
      (by rwa [Nat.add_assoc, Nat.add_comm 1 count])
    rw [List.range'_succ, List.map_cons, List.mapM_cons, hrecord,
      readRecord_record (hvalid _ (List.getElem_mem hoffset)), hrest,
      List.drop_eq_getElem_cons hoffset]
    rfl

/-! ## Pages -/

/-- A page below the frontier answers the published entries from its offset on, at least one,
    as many as there are and fit. -/
theorem page_published {closed : Bool} (hbegins : backing.Begins xs) (hvalid : ∀ e ∈ xs, e.Valid)
    (hroom : (recorded xs).length ≤ maxBytes) (hentries : state.entries = xs.length)
    (hdata : state.dataBytes = (recorded xs).length) (hoffset : offset < xs.length) :
    ∃ n, Listing.page state closed backing offset = .ok ((xs.drop offset).take n) ∧
      0 < n ∧ n ≤ pageEntries ∧ offset + n ≤ xs.length ∧
      (recorded ((xs.drop offset).take n)).length ≤ pageBytes := by
  obtain ⟨count, hcount, hpage, hle, hpositions⟩ :=
    readPositions_eq hbegins hroom hentries hdata hoffset
  obtain ⟨n, hn, hmeasure, hfits, hover⟩ :=
    measure_beginning hvalid hle (le_refl (beginning xs offset)) 0
  have hpos : 0 < n := by
    -- The first record fits, since it is not longer than a page.
    rcases Nat.eq_zero_or_pos n with rfl | hpos
    · have hfirst := (beginning_succ hvalid hoffset).2.1
      have := hover hcount
      rw [Nat.add_zero] at this
      omega
    · exact hpos
  have hstart : ((List.range' offset (count + 1)).map (beginning xs)).headD 0 =
      beginning xs offset := by
    rw [List.range'_succ]
    rfl
  have hend : ((List.range' offset (count + 1)).map (beginning xs)).getD n 0 =
      beginning xs (offset + n) := by
    rw [List.getD_eq_getElem _ _ (by simp; omega)]
    simp
  have htake : ((List.range' offset (count + 1)).map (beginning xs)).take (n + 1) =
      (List.range' offset (n + 1)).map (beginning xs) := by
    apply List.ext_getElem
    · simp
      omega
    · intro i hleft hright
      simp
  have hmono : beginning xs offset ≤ beginning xs (offset + n) :=
    position_mono Entry.record (by omega)
  have hlast : beginning xs (offset + n) ≤ (recorded xs).length := by
    have := @position_mono _ Entry.record xs (offset + n) xs.length (by omega)
    rwa [position_length] at this
  have hread : backing.readAt .data (beginning xs (offset + n) - beginning xs offset)
      (beginning xs offset) = .ok (slice (recorded xs) (beginning xs offset)
        (beginning xs (offset + n) - beginning xs offset)) := by
    have hbound : beginning xs offset + (beginning xs (offset + n) - beginning xs offset) ≤
        (recorded xs).length := by omega
    rw [Backing.readAt, if_pos (hbound.trans hbegins.data.length_le),
      slice_prefix_eq hbegins.data hbound]
  refine ⟨n, ?_, hpos, hn.trans hpage, by omega, ?_⟩
  · rw [Listing.page, if_neg (by omega), hpositions]
    have hrecords := @read_records xs offset n hvalid _ _ (by omega) (le_refl (beginning xs offset))
      (le_refl _)
    have htaken : ¬ n = 0 := by omega
    simp only [bind, Except.bind, hstart, windows_beginning, hdata, hmeasure, if_neg htaken,
      Nat.zero_add, hend, hread, htake]
    exact hrecords
  · have hbytes := @position_add _ Entry.record xs offset n
    have := hfits hpos
    simp only [beginning, recorded] at this ⊢
    omega

end Cirrove.Directory
