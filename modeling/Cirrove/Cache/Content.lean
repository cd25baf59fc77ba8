import Mathlib.Data.List.Sort
import Cirrove.Library.Table
import Cirrove.Core

/-!
# The content cache

`cirrove-service/src/content.rs` and the block index of `cirrove-store/src/blocks.rs`. Blocks of
file content are files in one directory, and an index knows their sizes and when they were used.
What pins claim is kept beside the cache (`Reservations`): `reserved` shrinks the budget,
`protected` names the blocks no pass may take.

A pass over the index (`evictPass`) removes blocks, oldest first, until what the index adds up to
is within the budget. Two functions of the source run it: `evict` after a download, sparing the
block that was just published, and `reconcile` at mount time. Each keeps a log of what it removed,
which the source does not return.

A file is its length and whether the digest in front of it is right. Sums of sizes are exact: they
are lengths of files in one directory. Locks, gates and the retry times of failed keys are left
out.
-/

namespace Cirrove.Cache

open Cirrove.Library

/-- The hexadecimal name of a block. -/
abbrev Key := String

def blockSize : Nat := 4 * 1024 * 1024

/-- Every cached block carries its own digest ahead of the body. -/
def blockDigest : Nat := 32

/-- What a file of this size occupies in the cache once it is fetched. -/
def storedBytes (size : Nat) : Nat := size + (size + blockSize - 1) / blockSize * blockDigest

/-! ## The block index -/

/-- A row of `cache_blocks`. -/
structure BlockRow where
  key : Key
  size : Nat
  touched : Int
  deriving DecidableEq, Repr

/-- The table `cache_blocks`, in the order of its row ids. -/
structure BlockIndex where
  rows : List BlockRow
  distinct : (rows.map BlockRow.key).Nodup

namespace BlockIndex

def empty : BlockIndex := ⟨[], List.nodup_nil⟩

/-- Insert a block, or update its size and age in place. -/
def touch (index : BlockIndex) (key : Key) (size : Nat) (now : Int) : BlockIndex where
  rows :=
    if key ∈ index.rows.map BlockRow.key then
      index.rows.map fun row => if row.key = key then { row with size, touched := now } else row
    else index.rows ++ [{ key, size, touched := now }]
  distinct := by
    split
    · have hkeys : (index.rows.map fun row =>
          if row.key = key then { row with size, touched := now } else row).map BlockRow.key =
            index.rows.map BlockRow.key := by
        rw [List.map_map]
        refine List.map_congr_left fun row _ => ?_
        by_cases h : row.key = key <;> simp [h]
      rw [hkeys]
      exact index.distinct
    · next hnew =>
      rw [List.map_append, List.nodup_append']
      refine ⟨index.distinct, List.nodup_singleton _, ?_⟩
      simpa using hnew

def forget (index : BlockIndex) (key : Key) : BlockIndex where
  rows := index.rows.filter fun row => row.key ≠ key
  distinct := index.distinct.sublist (List.filter_sublist.map _)

/-- The blocks with their sizes, oldest first. -/
def oldest (index : BlockIndex) : List (Key × Nat) :=
  (index.rows.insertionSort fun a b => a.touched ≤ b.touched).map fun row => (row.key, row.size)

end BlockIndex

/-! ## The cache directory -/

/-- A regular file: its length, and whether the digest ahead of the body is right. -/
structure BlockFile where
  length : Nat
  intact : Bool
  deriving DecidableEq, Repr

/-- The cache directory and the index over it. -/
structure Disk where
  index : BlockIndex
  files : Table String BlockFile

namespace Disk

def present (d : Disk) (key : Key) : Prop := d.files.get key ≠ none

instance (d : Disk) (key : Key) : Decidable (d.present key) :=
  inferInstanceAs (Decidable (_ ≠ _))

/-- `read_verified`: the file has the expected length and the digest of its body. -/
def verified (d : Disk) (key : Key) (expected : Nat) : Bool :=
  match d.files.get key with
  | some file => file.length = expected + blockDigest && file.intact
  | none => false

/-- A downloaded block is renamed into the directory. -/
def publish (d : Disk) (key : Key) (expected : Nat) : Disk :=
  { d with files := d.files.set key { length := expected + blockDigest, intact := true } }

def removeFile (d : Disk) (key : Key) : Disk := { d with files := d.files.erase key }

def touch (d : Disk) (key : Key) (size : Nat) (now : Int) : Disk :=
  { d with index := d.index.touch key size now }

def forget (d : Disk) (key : Key) : Disk := { d with index := d.index.forget key }

end Disk

/-! ## One pass over the index -/

/-- What becomes of one removal: it works (also when there was no file), the file cannot be
    removed, or the file is gone and the index cannot be written. -/
inductive Removal where
  | done
  | failed
  | unindexed
  deriving DecidableEq, Repr

/-- What a pass leaves, the blocks whose files it removed in order, and whether it came to its
    end. -/
structure Eviction where
  disk : Disk
  removed : List Key
  finished : Bool

/-- Remove blocks in the given order until the running total is within the budget, passing over
    those that are spared. -/
def evictPass (removal : Key → Removal) (spared : Key → Bool) (budget : Nat) :
    Nat → List (Key × Nat) → Disk → List Key → Eviction
  | _, [], disk, removed => { disk, removed, finished := true }
  | total, (key, size) :: rest, disk, removed =>
    if total ≤ budget then { disk, removed, finished := true }
    else if spared key then evictPass removal spared budget total rest disk removed
    else
      match removal key with
      | .failed => { disk, removed, finished := false }
      | .unindexed =>
        { disk := disk.removeFile key, removed := removed ++ [key], finished := false }
      | .done =>
        evictPass removal spared budget (total - size) rest ((disk.removeFile key).forget key)
          (removed ++ [key])

def sizes (blocks : List (Key × Nat)) : Nat := (blocks.map Prod.snd).sum

/-! ## What pins claim -/

/-- What pinning claims from the cache. -/
structure Reservations where
  protectedKeys : List Key
  reserved : Nat
  deriving DecidableEq, Repr

/-- The cache of one account. The view of the reservations is absent once its lock is poisoned.
    `memory` are the blocks held in memory, the one used last at the end. -/
structure ContentCache where
  quota : Nat
  reservations : Option Reservations
  disk : Disk
  memory : List Key

namespace ContentCache

/-- What a pass reads of the reservations. Once the lock is poisoned the source falls back to the
    whole quota and protects nothing, and what is said of a pass is then said of that fallback. -/
def view (c : ContentCache) : Reservations :=
  match c.reservations with
  | some view => view
  | none => { protectedKeys := [], reserved := c.quota }

/-- What pins leave of the quota. -/
def budget (c : ContentCache) : Nat := c.quota - c.view.reserved

/-- Bring the cache back within its budget, without taking `keep`. -/
def evict (c : ContentCache) (removal : Key → Removal) (keep : Key) : Eviction :=
  let blocks := c.disk.index.oldest
  evictPass removal (fun key => key = keep || key ∈ c.view.protectedKeys) c.budget (sizes blocks)
    blocks c.disk []

/-- The same, keeping nothing back. -/
def reclaim (c : ContentCache) (removal : Key → Removal) : Eviction := c.evict removal ""

end ContentCache

/-! ## The mount-time pass -/

/-- A block name: 64 lower-case hexadecimal digits. -/
def validKey (key : String) : Bool :=
  key.length = 64 && key.toList.all fun c => ('0' ≤ c && c ≤ '9') || ('a' ≤ c && c ≤ 'f')

/-- Index every block file that the index does not know, at its length. -/
def indexFiles (now : Int) (files : List (String × BlockFile)) (index : BlockIndex) : BlockIndex :=
  files.foldl (fun acc file =>
    if validKey file.1 ∧ file.1 ∉ index.rows.map BlockRow.key then
      acc.touch file.1 file.2.length now
    else acc) index

/-- Forget every block whose file is missing. -/
def forgetMissing (index : BlockIndex) (files : Table String BlockFile) : List Key → BlockIndex
  | [] => index
  | key :: rest =>
    if validKey key ∧ (files.get key).isSome then forgetMissing index files rest
    else forgetMissing (index.forget key) files rest

/-- The directory and the index brought in line, before anything is evicted. `temporary` says
    which names are those of interrupted publications. -/
def realign (temporary : String → Bool) (now : Int) (d : Disk) : Disk where
  index := forgetMissing (indexFiles now d.files.rows d.index) d.files
    (d.index.rows.map BlockRow.key)
  files := d.files.deleteWhere fun name _ => !validKey name && temporary name

/-- Reconcile the index with the directory, and bring it within the budget. -/
def reconcile (temporary : String → Bool) (now : Int) (removal : Key → Removal) (quota : Nat)
    (reservations : Reservations) (d : Disk) : Eviction :=
  let d := realign temporary now d
  let blocks := d.index.oldest
  evictPass removal (fun key => key ∈ reservations.protectedKeys) (quota - reservations.reserved)
    (sizes blocks) blocks d []

/-! ## Budgets -/

def maxStaging : Nat := 128 * 1024 * 1024

/-- What streamed windows take from the quota. -/
def Staging.capacity (quota : Nat) : Nat :=
  let capacity := min (quota / 4) maxStaging / blockSize * blockSize
  if 2 * blockSize ≤ capacity then capacity else 0

/-- Build a cache that knows what pinning claims. It is refused when it cannot hold a block. -/
def newReserving (temporary : String → Bool) (now : Int) (removal : Key → Removal) (quota : Nat)
    (reservations : Reservations) (d : Disk) : Option ContentCache :=
  if quota < blockSize + blockDigest then none
  else
    let quota := quota - Staging.capacity quota
    let pass := reconcile temporary now removal quota reservations d
    if pass.finished then
      some { quota, reservations := some reservations, disk := pass.disk, memory := [] }
    else none

/-- How much of the cache pins may claim: all but a tenth, and all but eight blocks. -/
def pinnableBudget (cacheBytes : Nat) : Nat :=
  cacheBytes - min (max (cacheBytes / 10) (8 * blockSize)) cacheBytes

end Cirrove.Cache
