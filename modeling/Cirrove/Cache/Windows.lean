import Cirrove.Cache.Content
import Cirrove.Google.Files
import Cirrove.Library.Bytes
import Cirrove.Library.Patches

/-!
# Staged windows

`cirrove-service/src/content/windows.rs`: a window is streamed into a private file in chunks of any
size, and a digest is kept for every block. Whatever the chunks were, the digests are those of the
blocks (`stream_ready`), and a complete block is read back as it was staged (`Window.read_block`).

SHA-256 is a parameter. The file is its bytes; that the service cannot create, write or read it is
left to the callers, which see `Unavailable`.
-/

namespace Cirrove.Cache

open Cirrove.Library
open Cirrove.Google (ProviderError)

def maxWindow : Nat := 64 * 1024 * 1024
def chunkLimit : Nat := 64 * 1024

/-- `Staging::reserve`, with what is left of the capacity. -/
def Staging.reserve (capacity available wanted : Nat) : Option Nat :=
  let length := min (min wanted maxWindow) capacity
  if length ≤ blockSize ∨ available < length then none else some length

/-! ## Writing -/

structure Writer (Digest : Type) where
  file : Bytes
  length : Nat
  written : Nat
  hash : Bytes
  hashes : List Digest

structure Window (Digest : Type) where
  file : Bytes
  start : Nat
  length : Nat
  hashes : List Digest

variable {Digest : Type} (digest : Bytes → Digest)

namespace Writer

/-- `Staging::writer` -/
def new (length : Nat) : Writer Digest := ⟨[], length, 0, [], []⟩

/-- The loop of `write_chunk`, over what remains of a chunk. -/
def hashLoop (w : Writer Digest) (remaining : Bytes) : Writer Digest :=
  if _h : remaining = [] then w
  else
    let count := min remaining.length (blockSize - w.written % blockSize)
    let hash := w.hash ++ remaining.take count
    let written := w.written + count
    if written % blockSize = 0 then
      hashLoop { w with written, hash := [], hashes := w.hashes ++ [digest hash] }
        (remaining.drop count)
    else hashLoop { w with written, hash } (remaining.drop count)
termination_by remaining.length
decreasing_by
  all_goals
    have hpos : 0 < remaining.length := List.length_pos_iff.mpr _h
    have hroom : w.written % blockSize < blockSize := Nat.mod_lt _ (by decide)
    rw [List.length_drop]
    omega

def writeChunk (w : Writer Digest) (bytes : Bytes) : Except ProviderError (Writer Digest) :=
  if chunkLimit < bytes.length ∨ w.length - w.written < bytes.length then
    .error (.protocol "staged window exceeds its reservation")
  else .ok (hashLoop digest { w with file := writeAt bytes w.file w.written } bytes)

def finish (w : Writer Digest) (start : Nat) : Except ProviderError (Window Digest) :=
  if w.written ≠ w.length then .error (.protocol "incomplete staged window")
  else
    .ok
      { file := w.file
        start
        length := w.length
        hashes := if w.written % blockSize = 0 then w.hashes else w.hashes ++ [digest w.hash] }

/-- A window streamed in chunks. -/
def stream (length start : Nat) (chunks : List Bytes) : Except ProviderError (Window Digest) := do
  let w ← chunks.foldlM (writeChunk digest) (new length)
  finish digest w start

end Writer

/-- `Window::read` -/
def Window.read [DecidableEq Digest] (w : Window Digest) (offset length : Nat) : Except ProviderError Bytes :=
  if offset < w.start then .error .unavailable
  else
    let within := offset - w.start
    if within % blockSize ≠ 0 ∨ w.length ≤ within then .error .unavailable
    else
      let count := min (w.length - within) blockSize
      if length ≠ count then .error (.protocol "staged window read is not one complete block")
      else
        match w.hashes[within / blockSize]? with
        | none => .error .unavailable
        | some hash =>
          if w.file.length < within + count then .error .unavailable
          else
            let bytes := (w.file.drop within).take count
            if digest bytes ≠ hash then .error (.protocol "staged window checksum mismatch")
            else .ok bytes

/-! ## Digests of blocks -/

/-- The `k`-th block. -/
def blockAt (bytes : Bytes) (k : Nat) : Bytes := (bytes.drop (k * blockSize)).take blockSize

/-- A digest for each of the first blocks. -/
def digests (bytes : Bytes) (n : Nat) : List Digest :=
  (List.range n).map fun k => digest (blockAt bytes k)

/-- The writer has a digest for every whole block so far, and hashes the bytes behind them. -/
structure Writer.Hashed (all : Bytes) (w : Writer Digest) : Prop where
  file : w.file = all
  written : w.written ≤ all.length
  hash : w.hash = (all.take w.written).drop (w.written / blockSize * blockSize)
  hashes : w.hashes = digests digest all (w.written / blockSize)

section

variable {digest} {w : Writer Digest} {all : Bytes}

theorem blockSize_eq : blockSize = 4194304 := rfl

/-- What is hashed goes on to the end of a prefix. -/
theorem hash_append {i j k : Nat} (hk : k ≤ i) (hi : i ≤ all.length) :
    (all.take i).drop k ++ (all.drop i).take j = (all.take (i + j)).drop k := by
  rw [List.take_add, List.drop_append_of_le_length]
  rw [List.length_take]
  omega

theorem Writer.hashLoop_hashed (h : w.Hashed digest all) :
    (hashLoop digest w (all.drop w.written)).Hashed digest all ∧
      (hashLoop digest w (all.drop w.written)).written = all.length ∧
      (hashLoop digest w (all.drop w.written)).length = w.length := by
  generalize hn : all.length - w.written = n
  induction n using Nat.strong_induction_on generalizing w with
  | _ n ih =>
    have hwritten := h.written
    rw [hashLoop]
    by_cases hrest : all.drop w.written = []
    · rw [dif_pos hrest]
      rw [List.drop_eq_nil_iff] at hrest
      exact ⟨h, by omega, rfl⟩
    rw [dif_neg hrest]
    have hlt : w.written < all.length := by
      rw [List.drop_eq_nil_iff] at hrest
      omega
    generalize hcount : min (all.drop w.written).length (blockSize - w.written % blockSize) = count
    have hroom : w.written % blockSize < blockSize := Nat.mod_lt _ (by decide)
    have hsplit := Nat.div_add_mod' w.written blockSize
    have hle : w.written + count ≤ all.length := by
      rw [List.length_drop] at hcount
      omega
    have hpos : 0 < count := by
      rw [List.length_drop] at hcount
      omega
    have hhash : w.hash ++ (all.drop w.written).take count =
        (all.take (w.written + count)).drop (w.written / blockSize * blockSize) := by
      rw [h.hash, hash_append (by omega) hwritten]
    simp only [hhash, List.drop_drop]
    split
    · -- the chunk reaches the end of the block
      next hwhole =>
      have hnext : (w.written + count) / blockSize = w.written / blockSize + 1 := by
        rw [blockSize_eq] at *
        omega
      have hend : w.written + count = w.written / blockSize * blockSize + blockSize := by
        rw [blockSize_eq] at *
        omega
      have hblock : blockAt all (w.written / blockSize) =
          (all.take (w.written + count)).drop (w.written / blockSize * blockSize) := by
        rw [List.drop_take, hend, Nat.add_sub_cancel_left]
        rfl
      apply ih (all.length - (w.written + count)) (by omega) _ rfl
      refine ⟨h.file, hle, ?_, ?_⟩
      · rw [hnext, Nat.succ_mul, ← hend]
        refine (List.drop_eq_nil_of_le ?_).symm
        rw [List.length_take]
        exact Nat.min_le_left _ _
      · rw [hnext, digests, List.range_succ, List.map_append, h.hashes, List.map_singleton, hblock]
        rfl
    · -- the block goes on
      next hpart =>
      have hsame : (w.written + count) / blockSize = w.written / blockSize := by
        rw [blockSize_eq] at *
        omega
      apply ih (all.length - (w.written + count)) (by omega) _ rfl
      refine ⟨h.file, hle, ?_, ?_⟩
      · rw [hsame]
      · rw [hsame]
        exact h.hashes

/-- A chunk that fits goes behind the others. -/
theorem Writer.writeChunk_hashed {chunk : Bytes} (h : w.Hashed digest all)
    (hwritten : w.written = all.length) (hlimit : chunk.length ≤ chunkLimit)
    (hfits : all.length + chunk.length ≤ w.length) :
    ∃ w', writeChunk digest w chunk = .ok w' ∧ w'.Hashed digest (all ++ chunk) ∧
      w'.written = (all ++ chunk).length ∧ w'.length = w.length := by
  rw [writeChunk, if_neg (by omega)]
  refine ⟨_, rfl, ?_⟩
  have hfile : writeAt chunk w.file w.written = all ++ chunk := by
    rw [h.file, hwritten, writeAt, List.take_length, List.drop_eq_nil_of_le (Nat.le_add_right _ _),
      List.append_nil]
  have hstart : ({ w with file := writeAt chunk w.file w.written } : Writer Digest).Hashed digest
      (all ++ chunk) := by
    have hquot := Nat.div_mul_le_self w.written blockSize
    constructor
    · exact hfile
    · show w.written ≤ _
      rw [List.length_append]
      omega
    · show w.hash = _
      rw [h.hash, List.take_append_of_le_length hwritten.le]
    · show w.hashes = _
      rw [h.hashes]
      apply List.map_congr_left
      intro k hk
      rw [List.mem_range] at hk
      -- a whole block lies before the chunk
      have hblock : k * blockSize + blockSize ≤ all.length := by
        have := Nat.mul_le_mul_right blockSize hk
        rw [Nat.succ_mul] at this
        omega
      rw [blockAt, blockAt, List.drop_append_of_le_length (by omega),
        List.take_append_of_le_length (by rw [List.length_drop]; omega)]
  have hrest : (all ++ chunk).drop w.written = chunk := by
    rw [hwritten, List.drop_left]
  have hloop := hashLoop_hashed hstart
  rw [show ({ w with file := writeAt chunk w.file w.written } : Writer Digest).written =
    w.written from rfl, hrest] at hloop
  exact hloop

theorem Writer.foldlM_hashed {chunks : List Bytes} (h : w.Hashed digest all)
    (hwritten : w.written = all.length) (hlimit : ∀ c ∈ chunks, c.length ≤ chunkLimit)
    (hfits : all.length + chunks.flatten.length ≤ w.length) :
    ∃ w', chunks.foldlM (writeChunk digest) w = .ok w' ∧ w'.Hashed digest (all ++ chunks.flatten) ∧
      w'.written = (all ++ chunks.flatten).length ∧ w'.length = w.length := by
  induction chunks generalizing w all with
  | nil =>
    rw [List.flatten_nil, List.append_nil]
    exact ⟨w, rfl, h, hwritten, rfl⟩
  | cons chunk rest ih =>
    rw [List.flatten_cons, List.length_append] at hfits
    obtain ⟨w', hchunk, hashed, hwritten', hlength⟩ :=
      writeChunk_hashed h hwritten (hlimit chunk List.mem_cons_self) (by omega)
    obtain ⟨w'', hrest, hw''⟩ := ih hashed hwritten'
      (fun c hc => hlimit c (List.mem_cons_of_mem _ hc)) (by rw [List.length_append]; omega)
    refine ⟨w'', ?_, ?_⟩
    · rw [List.foldlM_cons, hchunk]
      exact hrest
    · rw [List.flatten_cons, ← List.append_assoc, ← hlength]
      exact hw''

/-- The blocks of a length, the last of which may be short. -/
def blockCount (length : Nat) : Nat := (length + blockSize - 1) / blockSize

/-- A window that holds these bytes and a digest of every block. -/
def Window.of (digest : Bytes → Digest) (start : Nat) (bytes : Bytes) : Window Digest :=
  ⟨bytes, start, bytes.length, digests digest bytes (blockCount bytes.length)⟩

/-- The digests do not depend on the chunks. -/
theorem stream_ready {chunks : List Bytes} {length start : Nat}
    (hlimit : ∀ c ∈ chunks, c.length ≤ chunkLimit) (hlength : chunks.flatten.length = length) :
    Writer.stream digest length start chunks = .ok (Window.of digest start chunks.flatten) := by
  have hnew : (Writer.new length : Writer Digest).Hashed digest [] := by
    refine ⟨rfl, le_rfl, ?_, ?_⟩
    · exact List.drop_nil.symm
    · show [] = digests digest [] (0 / blockSize)
      rw [Nat.zero_div]
      rfl
  obtain ⟨w, hfold, hashed, hwritten, hw⟩ := Writer.foldlM_hashed hnew rfl hlimit
    (by rw [List.length_nil, hlength]; exact (Nat.zero_add _).le)
  rw [List.nil_append] at hashed hwritten
  have hlast := Nat.div_add_mod' w.written blockSize
  have hmod : w.written % blockSize < blockSize := Nat.mod_lt _ (by decide)
  rw [Writer.stream, hfold, show (Except.ok w >>= fun w => Writer.finish digest w start) =
    Writer.finish digest w start from rfl, Writer.finish,
    if_neg (by rw [hw, hwritten, hlength]; exact not_not_intro rfl)]
  congr 1
  rw [Window.of, ← hlength, hashed.file, hw, ← hlength] at *
  congr 1
  rw [← hwritten]
  split
  · next hwhole =>
    have hcount : blockCount w.written = w.written / blockSize := by
      rw [blockCount, blockSize_eq] at *
      omega
    rw [hashed.hashes, hcount]
  · next hpart =>
    have hcount : blockCount w.written = w.written / blockSize + 1 := by
      rw [blockCount, blockSize_eq] at *
      omega
    have hblock : blockAt chunks.flatten (w.written / blockSize) = w.hash := by
      rw [hashed.hash, hwritten, List.take_length, blockAt, ← hwritten, List.take_of_length_le]
      rw [List.length_drop]
      omega
    rw [hcount, digests, List.range_succ, List.map_append, hashed.hashes, List.map_singleton,
      hblock]
    rfl

theorem Window.read_eq [DecidableEq Digest] {w : Window Digest} {offset count : Nat}
    (hle : w.start ≤ offset) (hwithin : (offset - w.start) % blockSize = 0)
    (hlt : offset - w.start < w.length)
    (hcount : min (w.length - (offset - w.start)) blockSize = count)
    (hfits : offset - w.start + count ≤ w.file.length)
    (hhash : w.hashes[(offset - w.start) / blockSize]? =
      some (digest ((w.file.drop (offset - w.start)).take count))) :
    w.read digest offset count = .ok ((w.file.drop (offset - w.start)).take count) := by
  have hinside : ¬ ((offset - w.start) % blockSize ≠ 0 ∨ w.length ≤ offset - w.start) :=
    not_or.mpr ⟨not_not_intro hwithin, hlt.not_ge⟩
  subst hcount
  rw [Window.read, if_neg hle.not_gt]
  dsimp only
  rw [if_neg hinside, if_neg (not_not_intro rfl), hhash]
  dsimp only
  rw [if_neg hfits.not_gt, if_neg (not_not_intro rfl)]

/-- A complete block of a window is read as it was staged. -/
theorem Window.read_block [DecidableEq Digest] {start offset count : Nat}
    (hstart : start % blockSize = 0) (hoffset : offset % blockSize = 0) (hle : start ≤ offset)
    (hcount : count = min (start + all.length - offset) blockSize) (hpos : 0 < count) :
    (Window.of digest start all).read digest offset count =
      .ok ((all.drop (offset - start)).take count) := by
  have hlt : offset - start < all.length := by omega
  have hwithin : (offset - start) % blockSize = 0 := by
    rw [blockSize_eq] at *
    omega
  have hblock := Nat.div_mul_cancel (Nat.dvd_of_mod_eq_zero hwithin)
  have hindex : (offset - start) / blockSize < blockCount all.length := by
    rw [blockCount, blockSize_eq] at *
    omega
  have hexact : min (all.length - (offset - start)) blockSize = count := by omega
  have hbytes : blockAt all ((offset - start) / blockSize) =
      (all.drop (offset - start)).take count := by
    rw [blockAt, hblock, ← hexact, ← List.length_drop, List.take_eq_take_min, Nat.min_comm]
  refine Window.read_eq (w := Window.of digest start all) hle hwithin hlt hexact ?_ ?_
  · show offset - start + count ≤ all.length
    omega
  · show (digests digest all (blockCount all.length))[(offset - start) / blockSize]? = _
    rw [digests, List.getElem?_map, List.getElem?_range hindex, Option.map_some, hbytes]
    rfl

/-- Nothing is read at the end of a window. -/
theorem Window.read_end [DecidableEq Digest] {w : Window Digest} :
    w.read digest (w.start + w.length) 0 = .error .unavailable := by
  rw [Window.read, if_neg (Nat.le_add_right _ _).not_gt]
  dsimp only
  rw [Nat.add_sub_cancel_left, if_pos (Or.inr le_rfl)]

end

end Cirrove.Cache
