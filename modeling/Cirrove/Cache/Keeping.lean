import Cirrove.Cache.Eviction
import Cirrove.Cache.Pins

/-!
# Keeping files offline

`ContentCache::block` and `Engine::keep_files_offline`: every block of every file is read through
the cache, and then the blocks are protected. Until then they are ordinary blocks, in a budget
from which their own reservation is taken off already. What is kept in the end is decided block by
block (`pin_kept_iff`).

A request for one aligned block is one call of `block`. Cancellation, what the provider delivers,
the clock and failures of the directory and of the index are inputs (`Fetch`).
-/

namespace Cirrove.Cache

open Cirrove.Library

/-! ## One block -/

/-- What happens around one block. -/
structure Fetch where
  cancelled : Bool
  now : Int
  /-- The provider returns the bytes that were asked for. -/
  delivered : Bool
  /-- The index can be written. -/
  indexed : Bool
  removal : Key → Removal

def memoryBlocks : Nat := 8

namespace ContentCache

/-- A block that is held in memory is used. -/
def recalled (c : ContentCache) (key : Key) : ContentCache :=
  { c with memory := c.memory.erase key ++ [key] }

/-- Hold a block in memory, at the expense of the one that was used longest ago. -/
def remember (c : ContentCache) (key : Key) : ContentCache :=
  if memoryBlocks ≤ c.memory.length ∧ key ∉ c.memory then
    { c with memory := c.memory.drop 1 ++ [key] }
  else { c with memory := c.memory.erase key ++ [key] }

/-- A downloaded block is published, indexed, and makes room for itself. -/
def download (c : ContentCache) (key : Key) (expected : Nat) (f : Fetch) : ContentCache × Bool :=
  let c := { c with disk := c.disk.publish key expected }
  if !f.indexed then (c, false)
  else
    let c := { c with disk := c.disk.touch key (expected + blockDigest) f.now }
    let pass := c.evict f.removal key
    let c := { c with disk := pass.disk }
    if pass.finished then (c.remember key, true) else (c, false)

/-- Read one block, and tell whether it was read. -/
def block (c : ContentCache) (key : Option Key) (expected : Nat) (f : Fetch) :
    ContentCache × Bool :=
  match key with
  | none => (c, false)
  | some key =>
    if key ∈ c.memory then (c.recalled key, true)
    else if c.disk.verified key expected then
      let c := c.remember key
      if !f.indexed then (c, false)
      else ({ c with disk := c.disk.touch key (expected + blockDigest) f.now }, true)
    else if !f.delivered then (c, false)
    else c.download key expected f

end ContentCache

/-! ## The files of a pin -/

/-- The blocks of a file: the key of each, if the file has a version to name it by, and its
    length. -/
def fileBlocks (blockKey : Node → Nat → Option Key) (file : Node) : List (Option Key × Nat) :=
  (List.range ((file.size + blockSize - 1) / blockSize)).map fun i =>
    (blockKey file (i * blockSize), min (file.size - i * blockSize) blockSize)

/-- Every block key a file's content occupies, in order. -/
def blockKeys (blockKey : Node → Nat → Option Key) (file : Node) : Option (List Key) :=
  (fileBlocks blockKey file).mapM Prod.fst

/-- How far the job is: the cache, how many blocks were asked for, and the keys it has kept. -/
structure Keeping where
  cache : ContentCache
  asked : Nat
  keys : List Key

/-- How a loop of the job ends. -/
inductive LoopEnd where
  | finished
  | stopped
  | failed
  deriving DecidableEq, Repr

/-- Fetch the blocks of one file. -/
def keepBlocks (env : Nat → Fetch) : List (Option Key × Nat) → Keeping → Keeping × LoopEnd
  | [], k => (k, .finished)
  | (key, expected) :: rest, k =>
    if (env k.asked).cancelled then (k, .stopped)
    else
      let read := k.cache.block key expected (env k.asked)
      let k := { k with cache := read.1, asked := k.asked + 1 }
      if read.2 then keepBlocks env rest k else (k, .failed)

/-- Fetch every block of every file. A file whose blocks have all arrived adds its keys. -/
def keepFiles (blockKey : Node → Nat → Option Key) (env : Nat → Fetch) :
    List Node → Keeping → Keeping × LoopEnd
  | [], k => (k, .finished)
  | file :: rest, k =>
    let read := keepBlocks env (fileBlocks blockKey file) k
    if read.2 = .finished then
      keepFiles blockKey env rest
        { read.1 with keys := read.1.keys ++ (blockKeys blockKey file).getD [] }
    else read

/-! ## The engine -/

/-- The parts of an engine that pinning uses. -/
structure Engine where
  cacheBytes : Nat
  cache : ContentCache
  pins : PinStore

/-- What the job answers. -/
inductive KeptOffline where
  | kept (blocks : Nat)
  | stopped (blocks : Nat)
  | failed
  deriving DecidableEq, Repr

namespace Engine

/-- Publish what pinning claims to the cache. A view whose lock is poisoned stays so, and nothing
    is published when the database fails. -/
def refreshReservations (e : Engine) : Engine :=
  match e.pins.reservedBytes with
  | none => e
  | some reserved =>
    { e with cache := { e.cache with
        reservations := e.cache.reservations.map fun _ =>
          { protectedKeys := e.pins.protectedBlocks, reserved } } }

/-- Record a pin and put it into effect. -/
def pin (e : Engine) (id : PinId) (recursive : Bool) (reserved : UInt64) (now : Int) :
    Engine × Option (Except PinRefusal Pin) :=
  let outcome := e.pins.pin id recursive reserved (pinnableBudget e.cacheBytes) now
  match outcome.2 with
  | some (.ok _) => (({ e with pins := outcome.1 } : Engine).refreshReservations, outcome.2)
  | _ => (e, outcome.2)

/-- Fetch every block of every file listed, and protect what was kept. -/
def keepFilesOffline (e : Engine) (blockKey : Node → Nat → Option Key) (env : Nat → Fetch)
    (id : PinId) (files : List Node) : Engine × KeptOffline :=
  let loop := keepFiles blockKey env files { cache := e.cache, asked := 0, keys := [] }
  let e := { e with cache := loop.1.cache }
  if loop.2 = .stopped ∨ (env loop.1.asked).cancelled then (e, .stopped loop.1.keys.length)
  else
    let e := ({ e with pins := (e.pins.protectBlocks id loop.1.keys).1 } :
      Engine).refreshReservations
    if loop.2 = .failed then (e, .failed) else (e, .kept loop.1.keys.length)

end Engine

/-! ## Room for the next block -/

/-- Whether the next block can be had without losing one of the pin. A block held in memory has to
    be on disk as well. A block that has to be downloaded makes room for itself, and has to find
    enough of it without the blocks the pin has so far: either none of them can be taken, or the
    index fits into the budget once every removable block before the first of them is gone. -/
def Room (c : ContentCache) (done : List Key) (key : Key) (expected : Nat) (now : Int) : Prop :=
  if key ∈ c.memory then c.disk.present key
  else if c.disk.verified key expected then True
  else
    let index := c.disk.index.touch key (expected + blockDigest) now
    let blocks := removable index c.view.protectedKeys (some key)
    (∀ b ∈ blocks, b.1 ∉ done) ∨
      sizes index.oldest - sizes (blocks.takeWhile fun b => b.1 ∉ done) ≤ c.budget

section Step

variable {c : ContentCache} {key : Key} {expected : Nat} {f : Fetch} {done : List Key}

@[simp]
theorem ContentCache.remember_disk (c : ContentCache) (key : Key) :
    (c.remember key).disk = c.disk := by
  unfold ContentCache.remember
  split <;> rfl

theorem Disk.present_of_verified {d : Disk} (h : d.verified key expected = true) :
    d.present key := by
  intro hnone
  simp [Disk.verified, hnone] at h

/-- The blocks a download goes on to remove. -/
def downloadVictims (c : ContentCache) (key : Key) (expected : Nat) (now : Int) : List (Key × Nat) :=
  victims (Spared c.view.protectedKeys (some key)) c.budget
    (c.disk.index.touch key (expected + blockDigest) now).oldest

/-- What is on disk after a download: what was there and the block, less what made room. -/
theorem download_present (h : (c.download key expected f).2 = true) (name : Key) :
    (c.download key expected f).1.disk.present name ↔
      (name = key ∨ c.disk.present name) ∧
        name ∉ (downloadVictims c key expected f.now).map Prod.fst := by
  unfold ContentCache.download at h ⊢
  dsimp only at h ⊢
  split at h
  · cases h
  · next hindexed =>
    rw [if_neg hindexed]
    split at h
    · next hfinished =>
      rw [if_pos hfinished]
      rw [evict_eq, evictPass_eq] at hfinished ⊢
      obtain ⟨-, -, hfiles⟩ := removeAll_finished hfinished
      rw [ContentCache.remember_disk]
      unfold Disk.present
      dsimp only at hfiles ⊢
      rw [hfiles name]
      have hget : ((c.disk.publish key expected).touch key (expected + blockDigest) f.now).files.get
          name = if name = key then some { length := expected + blockDigest, intact := true }
            else c.disk.files.get name := Table.get_set _ _ _ _
      rw [hget]
      show (if name ∈ (downloadVictims c key expected f.now).map Prod.fst then none else _) ≠ none ↔
        _
      by_cases hvictim : name ∈ (downloadVictims c key expected f.now).map Prod.fst
      · simp only [hvictim, if_true, ne_eq, not_true, and_false]
      · by_cases hname : name = key <;> simp [hvictim, hname]
    · cases h

/-- The block that is downloaded stays. -/
theorem key_not_mem_victims (c : ContentCache) (key : Key) (expected : Nat) (now : Int) :
    key ∉ (downloadVictims c key expected now).map Prod.fst := by
  intro hmem
  obtain ⟨b, hb, hkey⟩ := List.mem_map.mp hmem
  have hremovable := (victims_initial _ _ _ _).subset hb
  have hspared := (List.mem_filter.mp hremovable).2
  simp [Spared, hkey] at hspared

/-- A download takes no block of the pin exactly when there is room. -/
theorem room_iff_victims (hmemory : key ∉ c.memory) (hdisk : c.disk.verified key expected = false)
    (now : Int) :
    Room c done key expected now ↔
      ∀ name ∈ (downloadVictims c key expected now).map Prod.fst, name ∉ done := by
  have hspares := shed_spares_iff Prod.snd c.budget
    (sizes (c.disk.index.touch key (expected + blockDigest) now).oldest)
    (removable (c.disk.index.touch key (expected + blockDigest) now) c.view.protectedKeys
      (some key)) fun b : Key × Nat => decide (b.1 ∈ done)
  simp only [decide_eq_false_iff_not] at hspares
  simp only [Room, hmemory, hdisk, if_false, Bool.false_eq_true, List.forall_mem_map]
  refine Iff.trans ?_ hspares.symm
  simp only [sizes, decide_not]

/-- One block that is read leaves the whole pin on disk exactly when there was room for it. -/
theorem block_present_iff (hdone : ∀ name ∈ done, c.disk.present name)
    (h : (c.block (some key) expected f).2 = true) :
    (∀ name ∈ done ++ [key], (c.block (some key) expected f).1.disk.present name) ↔
      Room c done key expected f.now := by
  have hboth : ∀ d : Disk, (∀ name ∈ done ++ [key], d.present name) ↔
      (∀ name ∈ done, d.present name) ∧ d.present key := by
    intro d
    simp only [List.mem_append, List.mem_singleton, or_imp, forall_and, forall_eq]
  rw [hboth]
  simp only [ContentCache.block] at h ⊢
  by_cases hmemory : key ∈ c.memory
  · simp only [hmemory, if_true, Room, ContentCache.recalled]
    exact ⟨fun hall => hall.2, fun hkey => ⟨hdone, hkey⟩⟩
  · simp only [hmemory, if_false] at h ⊢
    cases hdisk : c.disk.verified key expected with
    | true =>
      simp only [hdisk, if_true] at h ⊢
      split at h
      · cases h
      · next hindexed =>
        rw [if_neg hindexed]
        simp only [Room, hmemory, hdisk, if_true, if_false, iff_true]
        rw [ContentCache.remember_disk]
        exact ⟨hdone, Disk.present_of_verified hdisk⟩
    | false =>
      simp only [hdisk, Bool.false_eq_true, if_false] at h ⊢
      split at h
      · cases h
      · next hdelivered =>
        rw [if_neg hdelivered, room_iff_victims hmemory hdisk]
        simp only [download_present h]
        constructor
        · rintro ⟨hall, -⟩ name hname hmem
          exact (hall name hmem).2 hname
        · intro hspares
          refine ⟨fun name hname => ⟨.inr (hdone name hname), fun hmem => hspares name hmem hname⟩,
            .inl trivial, key_not_mem_victims c key expected f.now⟩

end Step

/-! ## All blocks of a job -/

/-- The cache after some blocks were read. -/
def fetchBlocks (env : Nat → Fetch) : List (Option Key × Nat) → Nat → ContentCache → ContentCache
  | [], _, c => c
  | (key, expected) :: rest, n, c => fetchBlocks env rest (n + 1) (c.block key expected (env n)).1

/-- Every block is read. -/
def ReadAll (env : Nat → Fetch) : List (Option Key × Nat) → Nat → ContentCache → Prop
  | [], _, _ => True
  | (key, expected) :: rest, n, c =>
    (c.block key expected (env n)).2 = true ∧
      ReadAll env rest (n + 1) (c.block key expected (env n)).1

/-- The keys of some blocks. -/
def keysOf (blocks : List (Option Key × Nat)) : List Key := blocks.filterMap Prod.fst

section Job

variable {env : Nat → Fetch} {blocks : List (Option Key × Nat)} {n : Nat} {c : ContentCache}

theorem fetchBlocks_append (blocks' : List (Option Key × Nat)) :
    fetchBlocks env (blocks ++ blocks') n c =
      fetchBlocks env blocks' (n + blocks.length) (fetchBlocks env blocks n c) := by
  induction blocks generalizing n c with
  | nil => rfl
  | cons b rest ih =>
    simp only [List.cons_append, fetchBlocks, ih, List.length_cons]
    congr 1
    omega

theorem readAll_append (blocks' : List (Option Key × Nat)) :
    ReadAll env (blocks ++ blocks') n c ↔ ReadAll env blocks n c ∧
      ReadAll env blocks' (n + blocks.length) (fetchBlocks env blocks n c) := by
  induction blocks generalizing n c with
  | nil => simp [ReadAll, fetchBlocks]
  | cons b rest ih =>
    have hn : n + 1 + rest.length = n + (rest.length + 1) := by omega
    simp only [List.cons_append, ReadAll, fetchBlocks, ih, List.length_cons, and_assoc, hn]

/-- A block that was read has a key. -/
theorem key_of_read {key : Option Key} {expected : Nat} {f : Fetch}
    (h : (c.block key expected f).2 = true) : ∃ k, key = some k := by
  cases key with
  | none => cases h
  | some k => exact ⟨k, rfl⟩

theorem mapM_of_readAll (h : ReadAll env blocks n c) : blocks.mapM Prod.fst = some (keysOf blocks) := by
  induction blocks generalizing n c with
  | nil => rfl
  | cons b rest ih =>
    obtain ⟨key, expected⟩ := b
    obtain ⟨k, rfl⟩ := key_of_read h.1
    rw [List.mapM_cons, ih h.2]
    rfl

/-- Which blocks of a job are lost is decided block by block. -/
theorem kept_iff_room {done : List Key} (h : ReadAll env blocks n c)
    (hdone : ∀ name ∈ done, c.disk.present name) :
    (∀ before after, blocks = before ++ after →
      ∀ name ∈ done ++ keysOf before, (fetchBlocks env before n c).disk.present name) ↔
      ∀ before key expected after, blocks = before ++ (some key, expected) :: after →
        Room (fetchBlocks env before n c) (done ++ keysOf before) key expected
          (env (n + before.length)).now := by
  induction blocks generalizing n c done with
  | nil =>
    refine iff_of_true ?_ ?_
    · intro before after hsplit
      rw [(List.append_eq_nil_iff.mp hsplit.symm).1]
      simpa [keysOf, fetchBlocks] using hdone
    · intro before key expected after hsplit
      simp at hsplit
  | cons b rest ih =>
    obtain ⟨key, expected⟩ := b
    obtain ⟨k, rfl⟩ := key_of_read h.1
    have hstep := block_present_iff hdone h.1
    by_cases hroom : Room c done k expected (env n).now
    · have hih := ih h.2 (hstep.mpr hroom)
      -- behind the first block, the job goes on with one more block to keep
      constructor
      · intro hall before key expected' after hsplit
        cases before with
        | nil =>
          obtain ⟨hhead, -⟩ := List.cons.inj hsplit
          obtain ⟨hkey, hexpected⟩ := Prod.mk.inj hhead
          obtain rfl := Option.some.inj hkey
          subst hexpected
          simpa [keysOf, fetchBlocks] using hroom
        | cons b before =>
          obtain ⟨rfl, hrest⟩ := List.cons.inj hsplit
          have hlater := hih.mp (fun before after hsplit => by
            have := hall ((some k, expected) :: before) after (by rw [hsplit]; rfl)
            simpa [keysOf, fetchBlocks] using this) before key expected' after hrest
          have hn : n + 1 + before.length = n + (before.length + 1) := by omega
          simpa [keysOf, fetchBlocks, hn] using hlater
      · intro hall before after hsplit
        cases before with
        | nil => simpa [keysOf, fetchBlocks] using hdone
        | cons b before =>
          obtain ⟨rfl, hrest⟩ := List.cons.inj hsplit
          have hlater := hih.mpr (fun before key expected' after hsplit => by
            have := hall ((some k, expected) :: before) key expected' after (by rw [hsplit]; rfl)
            have hn : n + 1 + before.length = n + (before.length + 1) := by omega
            simpa [keysOf, fetchBlocks, hn] using this) before after hrest
          simpa [keysOf, fetchBlocks] using hlater
    · refine iff_of_false (fun hall => hroom (hstep.mp ?_)) fun hall => hroom ?_
      · have := hall [(some k, expected)] rest rfl
        simpa [keysOf, fetchBlocks] using this
      · have := hall [] k expected rest rfl
        simpa [keysOf, fetchBlocks] using this

end Job

section Engine

variable {blockKey : Node → Nat → Option Key} {env : Nat → Fetch}

theorem keepBlocks_finished {blocks : List (Option Key × Nat)} {k : Keeping}
    (h : (keepBlocks env blocks k).2 = .finished) :
    ReadAll env blocks k.asked k.cache ∧
      (keepBlocks env blocks k).1 =
        { cache := fetchBlocks env blocks k.asked k.cache, asked := k.asked + blocks.length,
          keys := k.keys } := by
  induction blocks generalizing k with
  | nil => exact ⟨trivial, rfl⟩
  | cons b rest ih =>
    obtain ⟨key, expected⟩ := b
    simp only [keepBlocks] at h ⊢
    split at h
    · cases h
    · next hcancelled =>
      rw [if_neg hcancelled]
      split at h
      · next hread =>
        rw [if_pos hread]
        obtain ⟨hrest, hend⟩ := ih h
        refine ⟨⟨hread, hrest⟩, ?_⟩
        rw [hend]
        simp only [fetchBlocks, List.length_cons, Keeping.mk.injEq, true_and, and_true]
        omega
      · cases h

/-- A job that comes to its end has come to the end of its first file, and goes on. -/
theorem keepFiles_cons_finished {file : Node} {rest : List Node} {k : Keeping}
    (h : (keepFiles blockKey env (file :: rest) k).2 = .finished) :
    (keepBlocks env (fileBlocks blockKey file) k).2 = .finished ∧
      keepFiles blockKey env (file :: rest) k = keepFiles blockKey env rest
        { (keepBlocks env (fileBlocks blockKey file) k).1 with
          keys := (keepBlocks env (fileBlocks blockKey file) k).1.keys ++
            (blockKeys blockKey file).getD [] } := by
  simp only [keepFiles] at h ⊢
  split at h
  · next hfirst => exact ⟨hfirst, if_pos hfirst⟩
  · next hfirst => exact absurd h hfirst

/-- A job that comes to its end has read every block, and hands over all of their keys. -/
theorem keepFiles_finished {files : List Node} {k : Keeping}
    (h : (keepFiles blockKey env files k).2 = .finished) :
    ReadAll env (files.flatMap (fileBlocks blockKey)) k.asked k.cache ∧
      (keepFiles blockKey env files k).1.cache =
        fetchBlocks env (files.flatMap (fileBlocks blockKey)) k.asked k.cache ∧
      (keepFiles blockKey env files k).1.keys =
        k.keys ++ keysOf (files.flatMap (fileBlocks blockKey)) := by
  induction files generalizing k with
  | nil => exact ⟨trivial, rfl, (List.append_nil _).symm⟩
  | cons file rest ih =>
    obtain ⟨hfirst, hgoes⟩ := keepFiles_cons_finished h
    obtain ⟨hread, hcache⟩ := keepBlocks_finished hfirst
    have hkeys : (blockKeys blockKey file).getD [] = keysOf (fileBlocks blockKey file) := by
      rw [blockKeys, mapM_of_readAll hread, Option.getD_some]
    rw [hgoes, hcache, hkeys] at h ⊢
    obtain ⟨hrest, hcache', hkeys'⟩ := ih h
    refine ⟨?_, ?_, ?_⟩
    · rw [List.flatMap_cons, readAll_append]
      exact ⟨hread, hrest⟩
    · rw [hcache', List.flatMap_cons, fetchBlocks_append]
    · rw [hkeys', List.flatMap_cons, keysOf, keysOf, keysOf, List.filterMap_append,
        List.append_assoc]

/-- Publishing reservations touches no file. -/
theorem refreshReservations_disk (e : Engine) : e.refreshReservations.cache.disk = e.cache.disk := by
  unfold Engine.refreshReservations
  split <;> rfl

/-- A job that keeps its files has come to its end. -/
theorem keepFilesOffline_kept {e : Engine} {id : PinId} {files : List Node} {count : Nat}
    (h : (e.keepFilesOffline blockKey env id files).2 = .kept count) :
    (keepFiles blockKey env files { cache := e.cache, asked := 0, keys := [] }).2 = .finished ∧
      (e.keepFilesOffline blockKey env id files).1.cache.disk =
        (keepFiles blockKey env files { cache := e.cache, asked := 0, keys := [] }).1.cache.disk := by
  unfold Engine.keepFilesOffline at h ⊢
  dsimp only at h ⊢
  split at h
  · cases h
  · next hgoing =>
    rw [if_neg hgoing]
    split at h
    · cases h
    · next hok =>
      rw [if_neg hok]
      refine ⟨?_, refreshReservations_disk _⟩
      rw [not_or] at hgoing
      cases hend : (keepFiles blockKey env files
          { cache := e.cache, asked := 0, keys := [] }).2 with
      | finished => rfl
      | stopped => exact absurd hend hgoing.1
      | failed => exact absurd hend hok

/-- After a job that kept its files, every block it hands over to be protected is on disk and none
    was lost on the way, exactly when there was room for each of its blocks. -/
theorem pin_kept_iff (e : Engine) (id : PinId) (files : List Node) (count : Nat)
    (hkept : (e.keepFilesOffline blockKey env id files).2 = .kept count) :
    ((∀ key ∈ (keepFiles blockKey env files { cache := e.cache, asked := 0, keys := [] }).1.keys,
        (e.keepFilesOffline blockKey env id files).1.cache.disk.present key) ∧
      ∀ before after, files.flatMap (fileBlocks blockKey) = before ++ after →
        ∀ key ∈ keysOf before, (fetchBlocks env before 0 e.cache).disk.present key) ↔
      ∀ before key expected after,
        files.flatMap (fileBlocks blockKey) = before ++ (some key, expected) :: after →
        Room (fetchBlocks env before 0 e.cache) (keysOf before) key expected
          (env before.length).now := by
  obtain ⟨hfinished, hdisk⟩ := keepFilesOffline_kept hkept
  obtain ⟨hread, hcache, hkeys⟩ := keepFiles_finished hfinished
  have hnone : ∀ name ∈ ([] : List Key), e.cache.disk.present name := by simp
  have hiff := kept_iff_room hread hnone
  simp only [List.nil_append, Nat.zero_add] at hiff hkeys
  rw [hkeys, hdisk, hcache, ← hiff]
  exact ⟨fun h => h.2, fun h => ⟨h _ [] (List.append_nil _).symm, h⟩⟩

end Engine

/-! A cache of 64 MiB, of which 48 MiB are enforced, and a file of six blocks. -/

def sampleKeys : List Key :=
  ["6498f48bf4ed2a2047127083bb9f9b665d7ccf0a21b3a4482b761e8db61cbbb1",
   "f43e36bdd064671946f372508d6ff5975d2393c368f580fe0ce86f7d48136e54",
   "6ad6496e6d93fdf8d7c5b97227e7b5c3934e44680c23373d078df2600a62fdd3",
   "b8713540d83af77b553bbbbe05b49a3c26a883ea9b918a04410cd0e082abc29a",
   "8a89f9f049eea66e5508117bbbe9e1b11cc0f4cd4ad059e188bee60e8bad2eac",
   "e3480d43f26c62c00dd7a3e84efda0b7c0fbc05e5982b2a643ca968bd1c6e042"]

def shortKey : Key := "ee9aaf06a80732c66617d1d64c794fcc56a563c4371b88beec61082dd3fcd9b1"

/-- The keys of a second file. -/
def otherKeys : List Key :=
  ["4d5743c3e8194cc59e7cc77c9ec0376cc42d72c5e959b54a4d7a5a273b600827",
   "1da3fa408a568b8fa95d0581c92dd3c8c63f34bacd90d5de0e33681fdc395edd",
   "6ac0a93c9de31333c3fa1208721de1f2641b06f893fee0a84c00cdbb99213d18"]

def sampleKey (file : Node) (start : Nat) : Option Key :=
  if file.id = "g" then otherKeys[start / blockSize]?
  else if file.size = blockSize then some shortKey
  else sampleKeys[start / blockSize]?

def sampleFile (size : Nat) : Node where
  id := "f"
  parentId := none
  name := "f"
  kind := .file
  size
  modifiedUnix := 0
  etag := none
  contentVersion := some "1"
  target := none
  package := false

/-- A file that goes one byte into its third block. -/
def otherFile : Node := { sampleFile (2 * blockSize + 1) with id := "g", name := "g" }

/-- Nothing goes wrong. -/
def smoothly (n : Nat) : Fetch :=
  { cancelled := false, now := n, delivered := true, indexed := true, removal := fun _ => .done }

def samplePin : PinId := ("scope", "f")

def sampleEngine : Engine where
  cacheBytes := 64 * 1024 * 1024
  cache :=
    { quota := 48 * 1024 * 1024
      reservations := some { protectedKeys := [], reserved := 0 }
      disk := { index := .empty, files := Table.empty }
      memory := [] }
  pins := .empty

/-- The engine once a file was pinned. -/
def pinnedEngine (size : Nat) : Engine :=
  (sampleEngine.pin samplePin false (UInt64.ofNat (storedBytes size)) 0).1

/-- The files of a folder of four blocks, and the engine once it was pinned. -/
def folderFiles : List Node := [sampleFile blockSize, otherFile]

def folderEngine : Engine :=
  (sampleEngine.pin ("scope", "d") true
    (UInt64.ofNat (storedBytes blockSize + storedBytes (2 * blockSize + 1))) 0).1

/-- Every block of that folder finds room. -/
theorem folder_room : ∀ i < 4, ∀ block ∈ (folderFiles.flatMap (fileBlocks sampleKey))[i]?,
    Room (fetchBlocks smoothly ((folderFiles.flatMap (fileBlocks sampleKey)).take i) 0
      folderEngine.cache) (keysOf ((folderFiles.flatMap (fileBlocks sampleKey)).take i))
      (block.1.getD "") block.2 (smoothly i).now := by
  unfold Room
  decide +kernel

/-- A pin of two files, of one block and of three, is kept. -/
theorem pin_kept_folder :
    (folderEngine.keepFilesOffline sampleKey smoothly ("scope", "d") folderFiles).2 = .kept 4 ∧
      ∀ key ∈ (keepFiles sampleKey smoothly folderFiles
          { cache := folderEngine.cache, asked := 0, keys := [] }).1.keys,
        (folderEngine.keepFilesOffline sampleKey smoothly ("scope", "d")
          folderFiles).1.cache.disk.present key := by
  have hkept : (folderEngine.keepFilesOffline sampleKey smoothly ("scope", "d")
      folderFiles).2 = .kept 4 := by
    decide +kernel
  have hlength : (folderFiles.flatMap (fileBlocks sampleKey)).length = 4 := by decide +kernel
  refine ⟨hkept, ((pin_kept_iff _ _ _ _ hkept).mpr fun before key expected after hsplit => ?_).1⟩
  have htake : (folderFiles.flatMap (fileBlocks sampleKey)).take before.length = before := by
    rw [hsplit, List.take_left]
  have hget : (folderFiles.flatMap (fileBlocks sampleKey))[before.length]? =
      some (some key, expected) := by
    rw [hsplit, List.getElem?_append_right le_rfl, Nat.sub_self]
    rfl
  have hlt : before.length < 4 := by
    rw [← hlength]
    exact (List.getElem?_eq_some_iff.mp hget).1
  have hroom := folder_room before.length hlt _ hget
  rwa [htake] at hroom

/-- A pin of six blocks is admitted and reported as kept, but its first block is gone. -/
theorem pin_loses_its_first_block :
    storedBytes (6 * blockSize) ≤ pinnableBudget sampleEngine.cacheBytes ∧
      (pinnedEngine (6 * blockSize)).pins.total = storedBytes (6 * blockSize) ∧
      ((pinnedEngine (6 * blockSize)).keepFilesOffline sampleKey smoothly samplePin
        [sampleFile (6 * blockSize)]).2 = .kept 6 ∧
      sampleKeys.headD "" ∈ (keepFiles sampleKey smoothly [sampleFile (6 * blockSize)]
        { cache := (pinnedEngine (6 * blockSize)).cache, asked := 0, keys := [] }).1.keys ∧
      ¬ ((pinnedEngine (6 * blockSize)).keepFilesOffline sampleKey smoothly samplePin
        [sampleFile (6 * blockSize)]).1.cache.disk.present (sampleKeys.headD "") := by
  decide +kernel

end Cirrove.Cache
