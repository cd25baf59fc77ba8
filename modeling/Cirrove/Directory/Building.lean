import Cirrove.Directory.Snapshot

/-!
# What a builder keeps

While a builder has not failed, the records and positions it was given lie partly in the
backing and partly in its pending bytes, and both parts together are exactly what was pushed
(`Builder.Holds`). A call that fails may leave a piece of a batch in the files; it lies past
what is stored, so that what was published stands (`Backing.Begins`).
-/

namespace Cirrove.Directory

open Cirrove.Library
open Std.Do

set_option mvcgen.warning false

/-! ## Bytes of a listing -/

/-- The records of some entries. -/
def recorded (xs : List Entry) : Bytes := framed Entry.record xs

/-- Their positions, as the index holds them. -/
def indexed (xs : List Entry) : Bytes := framed (littleEndian 8) (positions Entry.record xs)

@[simp]
theorem recorded_nil : recorded [] = [] := rfl

@[simp]
theorem indexed_nil : indexed [] = [] := rfl

@[simp]
theorem length_indexed (xs : List Entry) : (indexed xs).length = indexBytes * xs.length := by
  simp [indexed, indexBytes]

theorem recorded_concat (xs : List Entry) (e : Entry) :
    recorded (xs ++ [e]) = recorded xs ++ e.record := by
  simp [recorded]

theorem indexed_concat (xs : List Entry) (e : Entry) :
    indexed (xs ++ [e]) = indexed xs ++ littleEndian 8 (recorded xs).length := by
  simp [indexed, positions_concat, recorded]

theorem prefix_recorded_take (xs : List Entry) (n : Nat) :
    recorded (xs.take n) <+: recorded xs := by
  refine ⟨recorded (xs.drop n), ?_⟩
  rw [recorded, recorded, ← framed_append, List.take_append_drop, recorded]

theorem prefix_indexed_take (xs : List Entry) (n : Nat) :
    indexed (xs.take n) <+: indexed xs := by
  refine ⟨framed (littleEndian 8) ((positions Entry.record xs).drop n), ?_⟩
  rw [indexed, indexed, positions_take, ← framed_append, List.take_append_drop]

namespace Backing

/-- The listing was moved to files. -/
def isFiles : Backing → Bool
  | resident _ _ => false
  | files _ _ => true

/-- The backing holds the records and positions of some entries, and maybe more. -/
structure Begins (backing : Backing) (xs : List Entry) : Prop where
  data : recorded xs <+: backing.part .data
  index : indexed xs <+: backing.part .index

/-- And it holds nothing more. -/
structure Stores (backing : Backing) (xs : List Entry) : Prop where
  data : backing.part .data = recorded xs
  index : backing.part .index = indexed xs

theorem Stores.begins {backing : Backing} {xs : List Entry} (h : backing.Stores xs) :
    backing.Begins xs where
  data := h.data ▸ List.prefix_rfl
  index := h.index ▸ List.prefix_rfl

theorem Begins.take {backing : Backing} {xs : List Entry} (h : backing.Begins xs) (n : Nat) :
    backing.Begins (xs.take n) where
  data := (prefix_recorded_take xs n).trans h.data
  index := (prefix_indexed_take xs n).trans h.index

end Backing

/-- What lies before a write stays. -/
theorem prefix_writeAt {a file bytes : Bytes} {offset : Nat} (hbegin : a <+: file)
    (hle : a.length ≤ offset) : a <+: writeAt file bytes offset := by
  have htake : a <+: file.take offset := List.prefix_take_iff.mpr ⟨hbegin, hle⟩
  rw [writeAt, List.append_assoc, List.append_assoc]
  exact htake.trans (List.prefix_append _ _)

/-- A write at the end of a file appends to it. -/
theorem writeAt_end {file bytes : Bytes} {offset : Nat} (h : offset = file.length) :
    writeAt file bytes offset = file ++ bytes := by
  subst h
  simp [writeAt]

namespace Backing

@[simp]
theorem isFiles_write (part : Part) (bytes : Bytes) (offset : Nat) (backing : Backing) :
    (backing.write part bytes offset).isFiles = backing.isFiles := by
  cases backing <;> cases part <;> rfl

theorem part_write_self {part : Part} {bytes : Bytes} {offset : Nat} {backing : Backing}
    (h : backing.isFiles = true) :
    (backing.write part bytes offset).part part =
      writeAt (backing.part part) bytes offset := by
  cases backing with
  | resident data index => cases h
  | files data index => cases part <;> rfl

theorem part_write_of_ne {part other : Part} {bytes : Bytes} {offset : Nat} {backing : Backing}
    (h : other ≠ part) : (backing.write part bytes offset).part other = backing.part other := by
  cases backing <;> cases part <;> cases other <;> first | rfl | exact absurd rfl h

/-- A write past what is held leaves it. -/
theorem prefix_part_write {a : Bytes} {part other : Part} {bytes : Bytes} {offset : Nat}
    {backing : Backing} (hbegin : a <+: backing.part other)
    (hle : other = part → a.length ≤ offset) :
    a <+: (backing.write part bytes offset).part other := by
  cases hfiles : backing.isFiles with
  | false =>
    cases backing with
    | resident data index => exact hbegin
    | files data index => cases hfiles
  | true =>
    by_cases hpart : other = part
    · subst hpart
      rw [part_write_self hfiles]
      exact prefix_writeAt hbegin (hle rfl)
    · rw [part_write_of_ne hpart]
      exact hbegin

end Backing

/-! ## The builder -/

/-- What a builder that has not failed knows: `xs` is everything it was given, of which some
    is stored and the rest pending. -/
structure Builder.Holds (b : Builder) (backing : Backing) (xs : List Entry) : Prop where
  stored_le : b.storedEntries ≤ xs.length
  stored : backing.Stores (xs.take b.storedEntries)
  storedData : b.storedData = (recorded (xs.take b.storedEntries)).length
  data : recorded (xs.take b.storedEntries) ++ b.pendingData = recorded xs
  index : indexed (xs.take b.storedEntries) ++ b.pendingIndex = indexed xs
  writers : b.writers = backing.isFiles
  entries : b.entries = xs.length
  dataBytes : b.dataBytes = (recorded xs).length

/-- What a call that only stores leaves alone. -/
structure Building.Same (s s' : Building) : Prop where
  usage : s'.usage = s.usage
  progress : s'.listing.progress = s.listing.progress
  reserved : s'.listing.reserved = s.listing.reserved
  readers : s'.listing.readers = s.listing.readers
  snapshot : s'.builder.snapshot = s.builder.snapshot
  failed : s'.builder.failed = s.builder.failed

/-- The listing is where its pending bytes will go: in the files, without them yet, or in memory
    with them. -/
structure Builder.Placed (s₀ : Building) (xs : List Entry) (s : Building) : Prop where
  same : s₀.Same s
  builder : s.builder = { s₀.builder with writers := s.listing.backing.isFiles }
  backing : s.listing.backing.Stores
    (if s.listing.backing.isFiles then xs.take s₀.builder.storedEntries else xs)

/-- The pending bytes are in the backing. -/
structure Builder.Written (s₀ : Building) (xs : List Entry) (s : Building) : Prop where
  same : s₀.Same s
  builder : s.builder = { s₀.builder with writers := s.listing.backing.isFiles }
  backing : s.listing.backing.Stores xs

/-- Storing has failed; what was stored before is still there. -/
structure Builder.Broken (s₀ : Building) (xs : List Entry) (s : Building) : Prop where
  same : s₀.Same s
  backing : s.listing.backing.Begins (xs.take s₀.builder.storedEntries)

theorem Building.Same.refl (s : Building) : s.Same s := ⟨rfl, rfl, rfl, rfl, rfl, rfl⟩

theorem Building.Same.trans {s s' s'' : Building} (h : s.Same s') (h' : s'.Same s'') :
    s.Same s'' where
  usage := h'.usage.trans h.usage
  progress := h'.progress.trans h.progress
  reserved := h'.reserved.trans h.reserved
  readers := h'.readers.trans h.readers
  snapshot := h'.snapshot.trans h.snapshot
  failed := h'.failed.trans h.failed

namespace Builder

variable {s₀ s : Building} {device : Device} {xs : List Entry}

theorem Holds.broken (h : s₀.builder.Holds s₀.listing.backing xs) : Broken s₀ xs s₀ :=
  ⟨.refl s₀, h.stored.begins⟩

/-- A listing in memory takes the pending bytes. -/
theorem Holds.append (h : s₀.builder.Holds s₀.listing.backing xs)
    (hresident : s₀.listing.backing.isFiles = false) :
    ∃ backing, s₀.listing.backing.append s₀.builder.storedData s₀.builder.pendingData
        (s₀.builder.storedEntries * indexBytes) s₀.builder.pendingIndex = .ok backing ∧
      backing.isFiles = false ∧ backing.Stores xs := by
  have hdata := h.stored.data
  have hindex := h.stored.index
  have hlength : (xs.take s₀.builder.storedEntries).length = s₀.builder.storedEntries := by
    simp [h.stored_le]
  cases hbacking : s₀.listing.backing with
  | files data index =>
    rw [hbacking] at hresident
    cases hresident
  | resident data index =>
    rw [hbacking] at hdata hindex
    simp only [Backing.part] at hdata hindex
    have hindexAt : s₀.builder.storedEntries * indexBytes = index.length := by
      rw [hindex, length_indexed, hlength, Nat.mul_comm]
    refine ⟨_, if_neg ?_, rfl, ⟨?_, ?_⟩⟩
    · rw [h.storedData, hdata]
      simp [hindexAt]
    · simp only [Backing.part, hdata, h.data]
    · simp only [Backing.part, hindex, h.index]

theorem place_spec (h : s₀.builder.Holds s₀.listing.backing xs) :
    ⦃fun s => ⌜s = s₀⌝⦄ place device
    ⦃post⟨fun _ s => ⌜Placed s₀ xs s⌝, fun _ s => ⌜Broken s₀ xs s ∧ ¬ device.Works⌝⟩⦄ := by
  have hresident : s₀.builder.writers = false →
      ∃ data index, s₀.listing.backing = .resident data index := by
    intro hwriters
    rw [h.writers] at hwriters
    cases hbacking : s₀.listing.backing with
    | resident data index => exact ⟨data, index, rfl⟩
    | files data index => rw [hbacking] at hwriters; cases hwriters
  mvcgen [place]
  case vc1.isTrue hs _ hwriters =>
    subst hs
    have hfiles := h.writers.symm.trans hwriters
    refine ⟨.refl _, ?_, ?_⟩
    · rw [← h.writers]
    · simpa [hfiles] using h.stored
  case vc2.isFalse.isTrue.h_1 hs _ hwriters _ error herror =>
    -- The files cannot be made.
    subst hs
    obtain ⟨data, index, hbacking⟩ := hresident (by simpa using hwriters)
    refine ⟨h.broken, ?_⟩
    rintro ⟨hspill, _⟩
    rw [hbacking, Backing.spill, hspill] at herror
    cases herror
  case vc3.isFalse.isTrue.h_2 hs _ hwriters _ backing hok =>
    subst hs
    obtain ⟨data, index, hbacking⟩ := hresident (by simpa using hwriters)
    rw [hbacking, Backing.spill] at hok
    split at hok
    · cases hok
    · obtain rfl := Except.ok.inj hok
      have hstored := h.stored
      rw [hbacking] at hstored
      exact ⟨⟨rfl, rfl, rfl, rfl, rfl, rfl⟩, rfl, hstored.data, hstored.index⟩
  case vc4.isFalse.isFalse.h_1 hs _ hwriters _ error herror =>
    subst hs
    have hfiles := h.writers.symm.trans (by simpa using hwriters)
    obtain ⟨backing, hok, _⟩ := h.append hfiles
    rw [hok] at herror
    cases herror
  case vc5.isFalse.isFalse.h_2 hs _ hwriters _ backing hok =>
    subst hs
    have hfiles := h.writers.symm.trans (by simpa using hwriters)
    obtain ⟨backing', hok', hresident', hstores⟩ := h.append hfiles
    obtain rfl := Except.ok.inj (hok'.symm.trans hok)
    refine ⟨⟨rfl, rfl, rfl, rfl, rfl, rfl⟩, ?_, ?_⟩
    · simp only [hresident', ← hfiles, ← h.writers]
    · simpa [hresident'] using hstores

/-- A write does what the device lets it do. -/
theorem writeAll_spec {s₁ : Building} {part : Part} {bytes : Bytes} {offset : Nat}
    {cut : Option (Nat × Failure)} :
    ⦃fun s => ⌜s = s₁⌝⦄ writeAll part bytes offset cut
    ⦃post⟨fun _ s => ⌜cut = none ∧ s = { s₁ with listing := { s₁.listing with
          backing := s₁.listing.backing.write part bytes offset } }⌝,
      fun _ s => ⌜cut ≠ none ∧ ∃ written, s = { s₁ with listing := { s₁.listing with
          backing := s₁.listing.backing.write part (bytes.take written) offset } }⌝⟩⦄ := by
  mvcgen [writeAll]
  case vc1.h_1 hs hcut =>
    subst hs
    exact ⟨trivial, rfl⟩
  case vc2.h_2 hs hcut written error =>
    subst hs
    exact ⟨by simp, _, rfl⟩

/-- A piece of a batch lies past what is stored. -/
theorem Begins.write {backing : Backing} {ys : List Entry} (h : backing.Begins ys) {part : Part}
    {bytes : Bytes} {offset : Nat}
    (hoffset : match part with
      | .data => (recorded ys).length ≤ offset
      | .index => (indexed ys).length ≤ offset) :
    (backing.write part bytes offset).Begins ys where
  data := Backing.prefix_part_write h.data fun hpart => by subst hpart; exact hoffset
  index := Backing.prefix_part_write h.index fun hpart => by subst hpart; exact hoffset

theorem Placed.written (h : Placed s₀ xs s) (hresident : s.builder.writers = false) :
    Written s₀ xs s := by
  have hfiles : s.listing.backing.isFiles = false := by
    rw [h.builder] at hresident
    exact hresident
  refine ⟨h.same, h.builder, ?_⟩
  simpa [hfiles] using h.backing

/-- A listing in files has there what was stored before. -/
theorem Placed.stored (h : Placed s₀ xs s) (hwriters : s.builder.writers = true) :
    s.listing.backing.isFiles = true ∧
      s.listing.backing.Stores (xs.take s₀.builder.storedEntries) := by
  have hfiles : s.listing.backing.isFiles = true := by
    rw [h.builder] at hwriters
    exact hwriters
  refine ⟨hfiles, ?_⟩
  simpa [hfiles] using h.backing

theorem writeFiles_spec (h : s₀.builder.Holds s₀.listing.backing xs) :
    ⦃fun s => ⌜Placed s₀ xs s⌝⦄ writeFiles device
    ⦃post⟨fun _ s => ⌜Written s₀ xs s⌝, fun _ s => ⌜Broken s₀ xs s ∧ ¬ device.Works⌝⟩⦄ := by
  have hindexAt : (indexed (xs.take s₀.builder.storedEntries)).length =
      s₀.builder.storedEntries * indexBytes := by
    rw [length_indexed, List.length_take, min_eq_left h.stored_le, Nat.mul_comm]
  -- The records' write begins where the stored records end.
  have hdata : ∀ (s : Building) (bytes : Bytes), Placed s₀ xs s → s.builder.writers = true →
      (s.listing.backing.write .data bytes s.builder.storedData).Begins
        (xs.take s₀.builder.storedEntries) := by
    intro s bytes hplaced hwriters
    apply Begins.write (hplaced.stored hwriters).2.begins
    rw [hplaced.builder, ← h.storedData]
  have hindex : ∀ (s : Building) (data bytes : Bytes), Placed s₀ xs s →
      s.builder.writers = true →
      ((s.listing.backing.write .data data s.builder.storedData).write .index bytes
        (s.builder.storedEntries * indexBytes)).Begins (xs.take s₀.builder.storedEntries) := by
    intro s data bytes hplaced hwriters
    apply Begins.write (hdata s data hplaced hwriters)
    rw [hplaced.builder, hindexAt]
  mvcgen [writeFiles, writeAll_spec]
  case vc1.isTrue.post.success.post.success s₁ hplaced hwriters _ s₂ hfirst _ s₃ =>
    obtain ⟨_, rfl⟩ := hfirst
    rintro _ rfl
    obtain ⟨hfiles, hstored⟩ := hplaced.stored hwriters
    have hsecond := (Backing.isFiles_write .data s₁.builder.pendingData s₁.builder.storedData
      s₁.listing.backing).trans hfiles
    refine ⟨hplaced.same.trans ⟨rfl, rfl, rfl, rfl, rfl, rfl⟩, ?_, ?_, ?_⟩
    · simpa using hplaced.builder
    · rw [Backing.part_write_of_ne (by simp), Backing.part_write_self hfiles, hstored.data,
        hplaced.builder, writeAt_end h.storedData, h.data]
    · rw [Backing.part_write_self hsecond, Backing.part_write_of_ne (by simp), hstored.index,
        hplaced.builder, writeAt_end hindexAt.symm, h.index]
  case vc2.isTrue.post.success.post.except.handle s₁ hplaced hwriters _ s₂ hfirst _ s₃ =>
    obtain ⟨_, rfl⟩ := hfirst
    rintro hcut ⟨written, rfl⟩
    exact ⟨⟨hplaced.same.trans ⟨rfl, rfl, rfl, rfl, rfl, rfl⟩, hindex s₁ _ _ hplaced hwriters⟩,
      fun hworks => hcut hworks.2.2⟩
  case vc3.isTrue.post.except.handle s₁ hplaced hwriters _ s₂ =>
    rintro hcut ⟨written, rfl⟩
    exact ⟨⟨hplaced.same.trans ⟨rfl, rfl, rfl, rfl, rfl, rfl⟩, hdata s₁ _ hplaced hwriters⟩,
      fun hworks => hcut hworks.2.1⟩
  case vc4.isFalse s₁ hplaced hwriters =>
    exact hplaced.written (by simpa using hwriters)

/-- Once the pending bytes are in the backing, all that was pushed is stored. -/
theorem Written.advanced (h : s₀.builder.Holds s₀.listing.backing xs) (hw : Written s₀ xs s) :
    s.builder.advanced.storedEntries = xs.length ∧
      s.builder.advanced.Holds s.listing.backing xs := by
  have hpending : s₀.builder.pendingIndex.length =
      indexBytes * (xs.length - s₀.builder.storedEntries) := by
    have hlength := congrArg List.length h.index
    rw [List.length_append, length_indexed, length_indexed, List.length_take,
      min_eq_left h.stored_le] at hlength
    rw [Nat.mul_sub]
    omega
  have hentries : s₀.builder.storedEntries + s₀.builder.pendingIndex.length / indexBytes =
      xs.length := by
    rw [hpending, Nat.mul_div_cancel_left _ (by decide)]
    have := h.stored_le
    omega
  have hdata : s₀.builder.storedData + s₀.builder.pendingData.length =
      (recorded xs).length := by
    rw [h.storedData, ← h.data, List.length_append]
  rw [hw.builder]
  refine ⟨hentries, ?_⟩
  constructor <;>
    simp only [Builder.advanced, hentries, hdata, List.take_length, List.append_nil, le_refl]
  · exact hw.backing
  · exact h.entries
  · exact h.dataBytes

/-- A builder without pending bytes has stored all that was pushed. -/
theorem Holds.nothing_pending (h : s₀.builder.Holds s₀.listing.backing xs)
    (hindex : s₀.builder.pendingIndex = []) : s₀.builder.storedEntries = xs.length := by
  have hlength := congrArg List.length h.index
  rw [hindex, List.append_nil, length_indexed, length_indexed, List.length_take,
    min_eq_left h.stored_le] at hlength
  exact Nat.eq_of_mul_eq_mul_left (by decide) hlength

theorem store_spec (h : s₀.builder.Holds s₀.listing.backing xs) :
    ⦃fun s => ⌜s = s₀⌝⦄ store device
    ⦃post⟨fun _ s => ⌜s₀.Same s ∧ s.builder.storedEntries = xs.length ∧
        s.builder.Holds s.listing.backing xs⌝,
      fun _ s => ⌜Broken s₀ xs s ∧ ¬ device.Works⌝⟩⦄ := by
  have hplace := @place_spec s₀ device xs h
  have hwrite := @writeFiles_spec s₀ device xs h
  mvcgen [store, hplace, hwrite]
  case vc1.isTrue hs hpending =>
    subst hs
    exact ⟨.refl _, h.nothing_pending hpending.2, h⟩
  case vc4.isFalse.post.success.post.success hs _ _ _ _ _ s hwritten _ =>
    obtain ⟨hentries, hholds⟩ := hwritten.advanced h
    have hsame : s.Same { s with builder := s.builder.advanced } := ⟨rfl, rfl, rfl, rfl, rfl, rfl⟩
    exact ⟨hwritten.same.trans hsame, hentries, hholds⟩

end Builder

/-! ## Calls of the builder -/

/-- What readers rely on: the published entries are all in the backing. -/
structure Listing.Publishes (l : Listing) (xs : List Entry) : Prop where
  entries : l.progress.entries = xs.length
  dataBytes : l.progress.dataBytes = (recorded xs).length
  backing : l.backing.Begins xs
  valid : ∀ e ∈ xs, e.Valid
  room : (recorded xs).length ≤ maxBytes

/-- A builder that has taken `xs` and published the first `n` of them. -/
structure Building.Running (xs : List Entry) (n : Nat) (s : Building) : Prop where
  holds : s.builder.Holds s.listing.backing xs
  valid : ∀ e ∈ xs, e.Valid
  healthy : s.builder.failed = false
  published_le : n ≤ s.builder.storedEntries
  published : s.listing.Publishes (xs.take n)
  incomplete : s.listing.progress.complete = false
  noError : s.listing.progress.error = none
  reserved : (recorded xs).length + indexBytes * xs.length ≤ s.listing.reserved
  accounted : s.listing.reserved ≤ s.usage.bytes
  budget : s.usage.bytes ≤ maxBytes

/-- A builder that has failed after it had published `ys`. -/
structure Building.Stopped (ys : List Entry) (s : Building) : Prop where
  published : s.listing.Publishes ys
  failed : s.builder.failed = true
  incomplete : s.listing.progress.complete = false
  error : s.listing.progress.error ≠ none

/-- What a call may change for others: the bytes in use grow with the reservation. -/
structure Building.Pays (s s' : Building) : Prop where
  snapshots : s'.usage.snapshots = s.usage.snapshots
  bytes : s'.usage.bytes + s.listing.reserved = s.usage.bytes + s'.listing.reserved
  budget : s.usage.bytes ≤ maxBytes → s'.usage.bytes ≤ maxBytes

/-- A call that hands nothing over. -/
structure Building.Spends (s s' : Building) : Prop extends Building.Pays s s' where
  readers : s'.listing.readers = s.listing.readers
  snapshot : s'.builder.snapshot = s.builder.snapshot

section Calls

open Builder

variable {s₀ s : Building} {device : Device} {xs ys : List Entry} {n : Nat} {e : Entry}

/-- A builder that was given one more entry holds one more. -/
theorem Builder.Holds.accepted {b : Builder} {backing : Backing} (h : b.Holds backing xs) (e : Entry) :
    (b.accepted e).Holds backing (xs ++ [e]) := by
  have htake : (xs ++ [e]).take b.storedEntries = xs.take b.storedEntries :=
    List.take_append_of_le_length h.stored_le
  have hle := h.stored_le
  constructor <;> simp only [Builder.accepted, htake]
  · simp only [List.length_append, List.length_singleton]
    omega
  · exact h.stored
  · exact h.storedData
  · rw [← List.append_assoc, h.data, recorded_concat]
  · rw [← List.append_assoc, h.index, indexed_concat, h.dataBytes]
  · exact h.writers
  · simp [h.entries]
  · rw [recorded_concat, List.length_append, h.dataBytes, Entry.length_record]

/-- What is published of a listing that only grew behind the frontier. -/
theorem Listing.published_of_begins {l l' : Listing} (h : l.Publishes ys)
    (hprogress : l'.progress = l.progress) (hbegins : l'.backing.Begins ys) : l'.Publishes ys where
  entries := hprogress ▸ h.entries
  dataBytes := hprogress ▸ h.dataBytes
  backing := hbegins
  valid := h.valid
  room := h.room

theorem Building.Spends.of_same (h : s₀.Same s) : s₀.Spends s where
  snapshots := by rw [h.usage]
  bytes := by rw [h.usage, h.reserved]
  budget := by rw [h.usage]; exact id
  readers := h.readers
  snapshot := h.snapshot

/-- Storing keeps a builder running. -/
theorem Building.Running.stored (h : s₀.Running xs n) (hsame : s₀.Same s)
    (hentries : s.builder.storedEntries = xs.length)
    (hholds : s.builder.Holds s.listing.backing xs) : s.Running xs n where
  holds := hholds
  valid := h.valid
  healthy := hsame.failed.trans h.healthy
  published_le := by
    rw [hentries]
    exact h.published_le.trans h.holds.stored_le
  published := by
    apply Listing.published_of_begins h.published hsame.progress
    have hbegins := hholds.stored.begins
    rw [hentries, List.take_length] at hbegins
    exact hbegins.take n
  incomplete := by rw [hsame.progress]; exact h.incomplete
  noError := by rw [hsame.progress]; exact h.noError
  reserved := by rw [hsame.reserved]; exact h.reserved
  accounted := by rw [hsame.reserved, hsame.usage]; exact h.accounted
  budget := by rw [hsame.usage]; exact h.budget

/-- A batch that could not be stored leaves what was published. -/
theorem Builder.Broken.publishes (h : s₀.Running xs n) (hbroken : Broken s₀ xs s) :
    s.listing.Publishes (xs.take n) := by
  apply Listing.published_of_begins h.published hbroken.same.progress
  have hbegins := hbroken.backing.take n
  rwa [List.take_take, min_eq_left h.published_le] at hbegins

theorem Builder.store_running (h : s₀.Running xs n) :
    ⦃fun s => ⌜s = s₀⌝⦄ store device
    ⦃post⟨fun _ s => ⌜s₀.Same s ∧ s.builder.storedEntries = xs.length ∧ s.Running xs n⌝,
      fun _ s => ⌜Broken s₀ xs s ∧ ¬ device.Works⌝⟩⦄ := by
  have hstore := @store_spec s₀ device xs h.holds
  mvcgen [hstore]
  case vc2.post.success =>
    intro hsame hentries hholds
    exact ⟨hsame, hentries, h.stored hsame hentries hholds⟩

theorem Builder.storeBatch_spec (h : s₀.Running xs n) :
    ⦃fun s => ⌜s = s₀⌝⦄ storeBatch device
    ⦃post⟨fun _ s => ⌜s₀.Same s ∧ s.Running xs n⌝,
      fun _ s => ⌜Broken s₀ xs s ∧ ¬ device.Works⌝⟩⦄ := by
  have hstore := @store_running s₀ device xs n h
  mvcgen [storeBatch, hstore]
  case vc2.isTrue.post.success =>
    intro hsame _ hrunning
    exact ⟨hsame, hrunning⟩
  case vc3.isFalse hs _ =>
    subst hs
    exact ⟨.refl _, h⟩

theorem Builder.grow_spec {bytes : Nat} :
    ⦃fun s => ⌜s = s₀⌝⦄ grow bytes
    ⦃post⟨fun _ s => ⌜s₀.usage.bytes + bytes ≤ maxBytes ∧ s = { s₀ with
          usage := { s₀.usage with bytes := s₀.usage.bytes + bytes }
          listing := { s₀.listing with reserved := s₀.listing.reserved + bytes } }⌝,
      fun _ s => ⌜s = s₀ ∧ ¬ s₀.usage.bytes + bytes ≤ maxBytes⌝⟩⦄ := by
  mvcgen [grow]
  case vc1.isTrue hs hfits =>
    subst hs
    exact ⟨hfits, rfl⟩
  case vc2.isFalse hs hfull =>
    subst hs
    exact ⟨rfl, hfull⟩

/-- The state in which an entry has been accepted. -/
def Building.accept (s : Building) (e : Entry) : Building :=
  { usage := { s.usage with bytes := s.usage.bytes + e.cost }
    listing := { s.listing with reserved := s.listing.reserved + e.cost }
    builder := s.builder.accepted e }

theorem Building.spends_accept (hfits : s₀.usage.bytes + e.cost ≤ maxBytes) :
    s₀.Spends (s₀.accept e) where
  snapshots := rfl
  bytes := by
    simp only [Building.accept]
    omega
  budget _ := hfits
  readers := rfl
  snapshot := rfl

/-- An accepted entry keeps a builder running. -/
theorem Building.Running.accept (h : s₀.Running xs n) (hvalid : e.Valid)
    (hfits : s₀.usage.bytes + e.cost ≤ maxBytes) :
    (s₀.accept e).Running (xs ++ [e]) n where
  holds := h.holds.accepted e
  valid := by
    intro x hx
    rcases List.mem_append.mp hx with hx | hx
    · exact h.valid x hx
    · exact List.mem_singleton.mp hx ▸ hvalid
  healthy := h.healthy
  published_le := h.published_le
  published := by
    rw [List.take_append_of_le_length (h.published_le.trans h.holds.stored_le)]
    exact Listing.published_of_begins h.published rfl h.published.backing
  incomplete := h.incomplete
  noError := h.noError
  reserved := by
    have hreserved := h.reserved
    simp only [Building.accept, recorded_concat, List.length_append, Entry.length_record, Entry.cost,
      List.length_singleton, Nat.mul_add]
    omega
  accounted := Nat.add_le_add_right h.accounted _
  budget := hfits

theorem Building.Spends.trans {s₁ : Building} (h : s₀.Spends s₁) (h' : s₁.Spends s) : s₀.Spends s where
  snapshots := h'.snapshots.trans h.snapshots
  bytes := by
    have := h.bytes
    have := h'.bytes
    omega
  budget hbudget := h'.budget (h.budget hbudget)
  readers := h'.readers.trans h.readers
  snapshot := h'.snapshot.trans h.snapshot

/-- A call that could not do its work, but harmed nothing. -/
structure Building.Harmless (s₀ : Building) (ys : List Entry) (s : Building) : Prop where
  published : s.listing.Publishes ys
  progress : s.listing.progress = s₀.listing.progress
  spends : s₀.Spends s

theorem Builder.Broken.harmless (h : s₀.Running xs n) (hbroken : Broken s₀ xs s) :
    s₀.Harmless (xs.take n) s where
  published := hbroken.publishes h
  progress := hbroken.same.progress
  spends := .of_same hbroken.same

theorem Building.Running.harmless (h : s₀.Running xs n) : s₀.Harmless (xs.take n) s₀ where
  published := h.published
  progress := rfl
  spends := .of_same (.refl s₀)

/-- The batch with a new entry is stored when it has grown to a page. -/
theorem Builder.storeAccepted_spec (h : s₀.Running xs n) (hvalid : e.Valid) :
    ⦃fun s => ⌜s = s₀.accept e ∧ s₀.usage.bytes + e.cost ≤ maxBytes⌝⦄ storeBatch device
    ⦃post⟨fun _ s => ⌜s.Running (xs ++ [e]) n ∧ s₀.Spends s⌝,
      fun _ s => ⌜s₀.Harmless (xs.take n) s ∧ ¬ device.Works⌝⟩⦄ := by
  by_cases hfits : s₀.usage.bytes + e.cost ≤ maxBytes
  · have hrunning := h.accept hvalid hfits
    have hbatch := @storeBatch_spec (s₀.accept e) device (xs ++ [e]) n hrunning
    have htake : (xs ++ [e]).take n = xs.take n :=
      List.take_append_of_le_length (h.published_le.trans h.holds.stored_le)
    mvcgen [hbatch]
    case vc1.pos.pre hs => exact hs.1
    case vc2.pos.post.success =>
      intro hsame hrunning'
      exact ⟨hrunning', (Building.spends_accept hfits).trans (.of_same hsame)⟩
    case vc3.pos.post.except.handle =>
      intro hbroken hworks
      have hharmless := hbroken.harmless hrunning
      rw [htake] at hharmless
      exact ⟨⟨hharmless.published, hharmless.progress, (Building.spends_accept hfits).trans hharmless.spends⟩,
        hworks⟩
  · mvcgen
    rintro _ _ hfits'
    exact absurd hfits' hfits

theorem Builder.append_spec (h : s₀.Running xs n) :
    ⦃fun s => ⌜s = s₀⌝⦄ append device e
    ⦃post⟨fun _ s => ⌜s.Running (xs ++ [e]) n ∧ s₀.Spends s⌝,
      fun _ s => ⌜s₀.Harmless (xs.take n) s ∧
        ¬ (e.Valid ∧ s₀.usage.bytes + e.cost ≤ maxBytes ∧ device.Works)⌝⟩⦄ := by
  by_cases hvalid : e.Valid
  · have hbatch := @storeAccepted_spec s₀ device xs n e h hvalid
    have hgrow := @grow_spec s₀ e.cost
    mvcgen [append, hgrow, hbatch]
    case vc1.pos.isTrue hlong _ _ => exact absurd hvalid.fits (Nat.not_le_of_lt hlong)
    case vc2.pos.isFalse.isTrue hbad _ _ =>
      rcases hbad with hinode | hunnamed
      · exact absurd hinode hvalid.inode
      · exact absurd hunnamed hvalid.named
    case vc4.pos.isFalse.isFalse.post.success.pre hgrown _ =>
      obtain ⟨hfits, rfl⟩ := hgrown
      exact ⟨rfl, hfits⟩
    case vc5.pos.isFalse.isFalse.post.success.post.success =>
      intro hrunning hspends
      exact ⟨hrunning, hspends⟩
    case vc6.pos.isFalse.isFalse.post.success.post.except.handle =>
      intro hharmless hbroken
      exact ⟨hharmless, fun hall => hbroken hall.2.2⟩
    case vc7.pos.isFalse.isFalse.post.except.handle =>
      rintro rfl hfull
      exact ⟨h.harmless, fun hall => hfull hall.2.1⟩
  · have hrefused : s₀.Harmless (xs.take n) s₀ ∧
        ¬ (e.Valid ∧ s₀.usage.bytes + e.cost ≤ maxBytes ∧ device.Works) :=
      ⟨h.harmless, fun hall => hvalid hall.1⟩
    mvcgen [append]
    case vc1.neg.isTrue hs => exact hs ▸ hrefused
    case vc2.neg.isFalse.isTrue hs => exact hs ▸ hrefused
    case vc3.neg.isFalse.isFalse hfits hnamed _ _ =>
      exact absurd ⟨fun hinode => hnamed (.inl hinode), fun hunnamed => hnamed (.inr hunnamed),
        Nat.le_of_not_lt hfits⟩ hvalid

theorem Building.Harmless.stopped (h : s₀.Harmless ys s)
    (hincomplete : s₀.listing.progress.complete = false) (errno : Int) :
    (s.broken errno).Stopped ys ∧ s₀.Spends (s.broken errno) where
  left := {
    published := ⟨h.published.entries, h.published.dataBytes, h.published.backing,
      h.published.valid, h.published.room⟩
    failed := rfl
    incomplete := (congrArg Progress.complete h.progress).trans hincomplete
    error := by simp [broken] }
  right := h.spends.trans ⟨⟨rfl, rfl, id⟩, rfl, rfl⟩

theorem Builder.push_spec (h : s₀.Running xs n) :
    ⦃fun s => ⌜s = s₀⌝⦄ push device e
    ⦃post⟨fun _ s => ⌜s.Running (xs ++ [e]) n ∧ s₀.Spends s⌝,
      fun _ s => ⌜(s.Stopped (xs.take n) ∧ s₀.Spends s) ∧
        ¬ (e.Valid ∧ s₀.usage.bytes + e.cost ≤ maxBytes ∧ device.Works)⌝⟩⦄ := by
  have happend := @append_spec s₀ device xs n e h
  mvcgen [push, orFail, fail, happend]
  case vc1.isTrue hs hfailed =>
    subst hs
    rw [h.healthy] at hfailed
    cases hfailed
  case vc3.isFalse.post.success =>
    intro hrunning hspends
    exact ⟨hrunning, hspends⟩
  case vc4.isFalse.post.except.handle hrefused _ =>
    exact ⟨hrefused.1.stopped h.incomplete _, hrefused.2⟩

/-- The batch was stored, and then the frontier moved. -/
def Building.Flushed (s₀ : Building) (xs : List Entry) (n : Nat) (complete : Bool)
    (s : Building) : Prop :=
  ∃ s₁ : Building, s₀.Same s₁ ∧ s₁.builder.storedEntries = xs.length ∧ s₁.Running xs n ∧
    s = s₁.announced complete

theorem Builder.flush_spec (h : s₀.Running xs n) {complete : Bool} :
    ⦃fun s => ⌜s = s₀⌝⦄ flush device complete
    ⦃post⟨fun _ s => ⌜s₀.Flushed xs n complete s ∧ cancelled s₀ = false⌝,
      fun _ s => ⌜(s.Stopped (xs.take n) ∧ s₀.Spends s ∧ ¬ device.Works) ∨
        (s = s₀ ∧ cancelled s₀ = true)⌝⟩⦄ := by
  have hstore := @store_running s₀ device xs n h
  mvcgen [flush, orFail, fail, hstore]
  case vc1.isTrue hs hfailed =>
    subst hs
    rw [h.healthy] at hfailed
    cases hfailed
  case vc2.isFalse.isTrue hs _ hcancelled =>
    subst hs
    exact .inr ⟨rfl, hcancelled⟩
  case vc4.isFalse.isFalse.post.success hs _ hopen _ s hstored _ =>
    subst hs
    exact ⟨⟨s, hstored.1, hstored.2.1, hstored.2.2, rfl⟩, by simpa using hopen⟩
  case vc5.isFalse.isFalse.post.except.handle hbroken _ =>
    obtain ⟨hstopped, hspends⟩ := (hbroken.1.harmless h).stopped h.incomplete _
    exact .inl ⟨hstopped, hspends, hbroken.2⟩

/-- Everything that is stored is published. -/
theorem Building.Running.announced (h : s.Running xs n)
    (hentries : s.builder.storedEntries = xs.length) (complete : Bool) :
    (s.announced complete).listing.Publishes xs where
  entries := h.holds.entries
  dataBytes := h.holds.dataBytes
  backing := by
    have hstored := h.holds.stored
    rw [hentries, List.take_length] at hstored
    exact hstored.begins
  valid := h.valid
  room := by
    have := h.reserved
    have := h.accounted
    have := h.budget
    omega

/-- After a batch was published the builder goes on. -/
theorem Building.Flushed.running (h : s₀.Flushed xs n false s) :
    s.taken.Running xs xs.length ∧ s₀.Spends s := by
  obtain ⟨s₁, hsame, hentries, hrunning, rfl⟩ := h
  have hpublished := hrunning.announced hentries false
  refine ⟨?_, (Spends.of_same hsame).trans ⟨⟨rfl, rfl, id⟩, rfl, rfl⟩⟩
  constructor
  · exact { hrunning.holds with }
  · exact hrunning.valid
  · exact hrunning.healthy
  · exact hentries.ge
  · rw [List.take_length]
    exact { hpublished with }
  · rfl
  · rfl
  · exact hrunning.reserved
  · exact hrunning.accounted
  · exact hrunning.budget

theorem Building.Pays.taken (h : s₀.Pays s) : s₀.Pays s.taken := ⟨h.snapshots, h.bytes, h.budget⟩

theorem Builder.publish_spec (h : s₀.Running xs n) :
    ⦃fun s => ⌜s = s₀⌝⦄ publish device
    ⦃post⟨fun _ s => ⌜s₀.Pays s ∧ s.Running xs xs.length ∧ cancelled s₀ = false⌝,
      fun _ s => ⌜(s.Stopped (xs.take n) ∧ s₀.Spends s ∧ ¬ device.Works) ∨
        (s = s₀ ∧ cancelled s₀ = true)⌝⟩⦄ := by
  have hflush := @flush_spec s₀ device xs n h false
  mvcgen [publish, hflush]
  case vc2.post.success hflushed _ =>
    obtain ⟨hrunning, hspends⟩ := hflushed.1.running
    exact ⟨hspends.toPays.taken, hrunning, hflushed.2⟩

/-- A listing all of whose entries are published, and that says so. -/
structure Listing.Completed (l : Listing) (xs : List Entry) : Prop where
  published : l.Publishes xs
  complete : l.progress.complete = true
  noError : l.progress.error = none

theorem Builder.complete_spec (h : s₀.Running xs n) :
    ⦃fun s => ⌜s = s₀⌝⦄ complete device
    ⦃post⟨fun _ s => ⌜s₀.Pays s ∧ s.listing.Completed xs ∧ cancelled s₀ = false⌝,
      fun _ s => ⌜(s.Stopped (xs.take n) ∧ s₀.Spends s ∧ ¬ device.Works) ∨
        (s = s₀ ∧ cancelled s₀ = true)⌝⟩⦄ := by
  have hflush := @flush_spec s₀ device xs n h true
  mvcgen [complete, hflush]
  case vc2.post.success hflushed _ =>
    obtain ⟨s₁, hsame, hentries, hrunning, rfl⟩ := hflushed.1
    have hpublished := hrunning.announced hentries true
    have hspends : s₁.Spends (s₁.announced true) := ⟨⟨rfl, rfl, id⟩, rfl, rfl⟩
    exact ⟨((Building.Spends.of_same hsame).trans hspends).toPays.taken, ⟨{ hpublished with }, rfl, rfl⟩,
      hflushed.2⟩

end Calls

end Cirrove.Directory
