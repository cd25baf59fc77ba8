import Cirrove.Library.Shedding
import Cirrove.Cache.Content

/-!
# What eviction leaves

A pass drops the shortest prefix of the removable blocks, oldest first, that brings the sum over
the whole index within the budget (`evictPass_eq`). The sum counts the protected blocks that are
resident, and the budget has their reservation taken off already. So a pass takes no more than it
may (`LawfulPass`) exactly when, as soon as the unprotected bytes fit into the budget, they fit
there together with the resident protected ones (`CountsOnce`).
-/

namespace Cirrove.Cache

open Cirrove.Library

variable {removal : Key → Removal} {spared : Key → Bool} {budget : Nat}

/-! ## The pass as shedding -/

/-- Remove the files of some blocks and forget them, until one removal fails. -/
def removeAll (removal : Key → Removal) : List Key → Disk → List Key → Eviction
  | [], disk, removed => { disk, removed, finished := true }
  | key :: rest, disk, removed =>
    match removal key with
    | .failed => { disk, removed, finished := false }
    | .unindexed =>
      { disk := disk.removeFile key, removed := removed ++ [key], finished := false }
    | .done => removeAll removal rest ((disk.removeFile key).forget key) (removed ++ [key])

/-- The blocks a pass goes on to remove. -/
def victims (spared : Key → Bool) (budget : Nat) (blocks : List (Key × Nat)) : List (Key × Nat) :=
  shed Prod.snd budget (sizes blocks) (blocks.filter fun b => !spared b.1)

theorem evictPass_eq_removeAll (total : Nat) (blocks : List (Key × Nat)) (disk : Disk)
    (removed : List Key) :
    evictPass removal spared budget total blocks disk removed =
      removeAll removal
        ((shed Prod.snd budget total (blocks.filter fun b => !spared b.1)).map Prod.fst)
        disk removed := by
  induction blocks generalizing total disk removed with
  | nil => rfl
  | cons b rest ih =>
    obtain ⟨key, size⟩ := b
    rw [evictPass]
    by_cases hsmall : total ≤ budget
    · -- nothing is dropped any more
      have hnone : ∀ l : List (Key × Nat), shed Prod.snd budget total l = [] := by
        intro l
        cases l <;> simp [shed, hsmall]
      rw [if_pos hsmall, hnone]
      rfl
    · rw [if_neg hsmall]
      by_cases hspared : spared key = true
      · rw [if_pos hspared, ih, List.filter_cons_of_neg (by simp [hspared])]
      · rw [if_neg hspared, List.filter_cons_of_pos (by simpa using hspared), shed,
          if_neg hsmall, List.map_cons, removeAll]
        cases removal key with
        | done => exact ih _ _ _
        | failed => rfl
        | unindexed => rfl

theorem evictPass_eq (blocks : List (Key × Nat)) (disk : Disk) :
    evictPass removal spared budget (sizes blocks) blocks disk [] =
      removeAll removal ((victims spared budget blocks).map Prod.fst) disk [] :=
  evictPass_eq_removeAll _ _ _ _

/-- What is removed are the first of the blocks. -/
theorem removeAll_removed (removal : Key → Removal) (keys : List Key) (disk : Disk) (removed : List Key) :
    ∃ rest, removed ++ keys = (removeAll removal keys disk removed).removed ++ rest := by
  induction keys generalizing disk removed with
  | nil => exact ⟨[], by simp [removeAll]⟩
  | cons key keys ih =>
    rw [removeAll]
    cases removal key with
    | done =>
      obtain ⟨rest, hrest⟩ := ih ((disk.removeFile key).forget key) (removed ++ [key])
      exact ⟨rest, by rw [← hrest]; simp⟩
    | failed => exact ⟨key :: keys, rfl⟩
    | unindexed => exact ⟨keys, by simp⟩

/-- A pass that comes to its end has removed all of the blocks. -/
theorem removeAll_finished {keys : List Key} {disk : Disk} {removed : List Key}
    (h : (removeAll removal keys disk removed).finished = true) :
    (removeAll removal keys disk removed).removed = removed ++ keys ∧
      (removeAll removal keys disk removed).disk.index.rows =
        disk.index.rows.filter (fun row => row.key ∉ keys) ∧
      ∀ name, (removeAll removal keys disk removed).disk.files.get name =
        if name ∈ keys then none else disk.files.get name := by
  induction keys generalizing disk removed with
  | nil => simp [removeAll]
  | cons key keys ih =>
    rw [removeAll] at h ⊢
    cases hremoval : removal key with
    | done =>
      rw [hremoval] at h
      obtain ⟨hremoved, hrows, hfiles⟩ := ih h
      refine ⟨?_, ?_, ?_⟩
      · rw [hremoved]
        simp
      · rw [hrows]
        simp only [Disk.forget, Disk.removeFile, BlockIndex.forget, List.filter_filter]
        refine List.filter_congr fun row _ => ?_
        by_cases hkey : row.key = key <;> simp [hkey]
      · intro name
        rw [hfiles]
        simp only [Disk.forget, Disk.removeFile, Table.get_erase, List.mem_cons]
        by_cases hname : name = key <;> simp [hname]
    | failed => simp [hremoval] at h
    | unindexed => simp [hremoval] at h

/-- When every removal works, a pass comes to its end. -/
theorem removeAll_done (keys : List Key) (disk : Disk) (removed : List Key) :
    (removeAll (fun _ => .done) keys disk removed).finished = true := by
  induction keys generalizing disk removed with
  | nil => rfl
  | cons key keys ih => exact ih _ _

/-! ## Bytes of an index -/

/-- The bytes of the blocks whose keys satisfy a predicate. -/
def BlockIndex.bytes (index : BlockIndex) (p : Key → Bool) : Nat :=
  sizes (index.oldest.filter fun b => p b.1)

theorem oldest_perm (index : BlockIndex) :
    index.oldest.Perm (index.rows.map fun row => (row.key, row.size)) :=
  (List.perm_insertionSort _ _).map _

theorem oldest_keys (index : BlockIndex) : (index.oldest.map Prod.fst).Nodup := by
  have hperm := (oldest_perm index).map Prod.fst
  refine hperm.nodup_iff.mpr ?_
  simpa [Function.comp_def] using index.distinct

theorem sizes_perm {l l' : List (Key × Nat)} (h : l.Perm l') : sizes l = sizes l' :=
  (h.map _).sum_eq

theorem sizes_append (l l' : List (Key × Nat)) : sizes (l ++ l') = sizes l + sizes l' := by
  simp [sizes]

/-- The bytes of an index, read from its rows. -/
theorem bytes_eq_rows (index : BlockIndex) (p : Key → Bool) :
    index.bytes p = ((index.rows.filter fun row => p row.key).map BlockRow.size).sum := by
  have hperm := (oldest_perm index).filter fun b => p b.1
  rw [BlockIndex.bytes, sizes_perm hperm, List.filter_map, sizes, List.map_map]
  rfl

/-- An index from which some blocks are gone. -/
theorem bytes_of_rows {index index' : BlockIndex} {keys : List Key}
    (h : index'.rows = index.rows.filter fun row => row.key ∉ keys) (p : Key → Bool) :
    index'.bytes p = index.bytes fun key => p key && key ∉ keys := by
  rw [bytes_eq_rows, bytes_eq_rows, h, List.filter_filter]

/-- The bytes of the blocks that satisfy a predicate, once some of them are gone. -/
theorem bytes_without {index : BlockIndex} {p q : Key → Bool} {before after : List (Key × Nat)}
    (hsplit : (index.oldest.filter fun b => q b.1) = before ++ after)
    (hpq : ∀ key, q key = true → p key = true) :
    index.bytes (fun key => p key && key ∉ before.map Prod.fst) + sizes before = index.bytes p := by
  have hperm : index.oldest.Perm (before ++ after ++ index.oldest.filter fun b => !q b.1) := by
    rw [← hsplit]
    exact (List.filter_append_perm _ _).symm
  have hq : ∀ b ∈ before, q b.1 = true := by
    intro b hb
    have hmem : b ∈ index.oldest.filter fun b => q b.1 := by
      rw [hsplit]
      exact List.mem_append_left _ hb
    exact (List.mem_filter.mp hmem).2
  have hnodup : ((before ++ after ++ index.oldest.filter fun b => !q b.1).map Prod.fst).Nodup :=
    (hperm.map _).nodup_iff.mp (oldest_keys index)
  -- behind the blocks that are gone, no block has one of their keys
  have hother : ∀ b ∈ after ++ index.oldest.filter fun b => !q b.1,
      b.1 ∉ before.map Prod.fst := by
    intro b hb hmem
    rw [List.append_assoc, List.map_append, List.nodup_append'] at hnodup
    exact hnodup.2.2 hmem (List.mem_map_of_mem hb)
  have hfilter : ∀ r : Key → Bool, index.bytes r =
      sizes (before.filter fun b => r b.1) +
        sizes ((after ++ index.oldest.filter fun b => !q b.1).filter fun b => r b.1) := by
    intro r
    have hall := hperm.filter fun b => r b.1
    rw [List.append_assoc, List.filter_append] at hall
    rw [BlockIndex.bytes, sizes_perm hall, sizes_append]
  have hgone : (before.filter fun b => p b.1 && b.1 ∉ before.map Prod.fst) = [] := by
    refine List.filter_eq_nil_iff.mpr fun b hb => ?_
    simp only [Bool.and_eq_true, decide_eq_true_eq, not_and, not_not]
    exact fun _ => List.mem_map_of_mem hb
  have hall : (before.filter fun b => p b.1) = before :=
    List.filter_eq_self.mpr fun b hb => hpq _ (hq b hb)
  have hrest : ((after ++ index.oldest.filter fun b => !q b.1).filter fun b =>
      p b.1 && b.1 ∉ before.map Prod.fst) =
        (after ++ index.oldest.filter fun b => !q b.1).filter fun b => p b.1 := by
    refine List.filter_congr fun b hb => ?_
    simp [hother b hb]
  rw [hfilter, hfilter, hgone, hall, hrest]
  simp only [sizes, List.map_nil, List.sum_nil]
  omega

/-! ## Lawful passes -/

/-- A pass takes a block only while the unprotected bytes that are still there exceed the budget,
    it takes neither a protected block nor the one that is kept, and when it comes to its end the
    unprotected bytes beside the kept block fit. -/
structure LawfulPass (index : BlockIndex) (protectedKeys : List Key) (keep : Option Key)
    (budget : Nat) (pass : Eviction) : Prop where
  needed : ∀ before key after, pass.removed = before ++ key :: after →
    budget < index.bytes fun k => k ∉ protectedKeys && k ∉ before
  spares : ∀ key ∈ pass.removed, key ∉ protectedKeys ∧ keep ≠ some key
  fits : pass.finished = true →
    pass.disk.index.bytes (fun k => k ∉ protectedKeys && keep ≠ some k) ≤ budget

/-- The blocks a pass passes over. -/
def Spared (protectedKeys : List Key) (keep : Option Key) (key : Key) : Bool :=
  keep = some key || key ∈ protectedKeys

/-- The blocks a pass may take, oldest first. -/
def removable (index : BlockIndex) (protectedKeys : List Key) (keep : Option Key) :
    List (Key × Nat) :=
  index.oldest.filter fun b => !Spared protectedKeys keep b.1

/-- Wherever a pass may stop because the unprotected bytes fit, they fit together with the
    resident protected ones. -/
def CountsOnce (index : BlockIndex) (protectedKeys : List Key) (keep : Option Key)
    (budget : Nat) : Prop :=
  ∀ before b after, removable index protectedKeys keep = before ++ b :: after →
    (index.bytes fun k => k ∉ protectedKeys) - sizes before ≤ budget →
    (index.bytes fun k => k ∉ protectedKeys) + (index.bytes fun k => k ∈ protectedKeys) -
      sizes before ≤ budget

section Pass

variable {index : BlockIndex} {protectedKeys : List Key} {keep : Option Key} {disk : Disk}

theorem not_spared {key : Key} :
    (!Spared protectedKeys keep key) = (key ∉ protectedKeys && keep ≠ some key : Bool) := by
  by_cases hkeep : keep = some key <;> by_cases hkey : key ∈ protectedKeys <;>
    simp [Spared, hkeep, hkey]

/-- The whole index is its unprotected and its protected bytes. -/
theorem sizes_oldest (index : BlockIndex) (protectedKeys : List Key) :
    sizes index.oldest = (index.bytes fun k => k ∉ protectedKeys) +
      (index.bytes fun k => k ∈ protectedKeys) := by
  have hperm := List.filter_append_perm (fun b : Key × Nat => (b.1 ∉ protectedKeys : Bool))
    index.oldest
  rw [← sizes_perm hperm, sizes_append]
  simp [BlockIndex.bytes]

/-- What is taken so far, off the unprotected bytes. -/
theorem bytes_before {before after : List (Key × Nat)}
    (hsplit : removable index protectedKeys keep = before ++ after) :
    (index.bytes fun k => k ∉ protectedKeys && k ∉ before.map Prod.fst) + sizes before =
      index.bytes fun k => k ∉ protectedKeys := by
  refine bytes_without (q := fun key => !Spared protectedKeys keep key) hsplit fun key hkey => ?_
  rw [not_spared] at hkey
  simp only [Bool.and_eq_true] at hkey
  exact hkey.1

/-- The blocks that were taken, of which the log has the keys. -/
theorem removed_split {before after : List Key} {key : Key}
    (h : (removeAll removal ((victims (Spared protectedKeys keep) budget index.oldest).map Prod.fst)
      disk []).removed = before ++ key :: after) :
    ∃ taken b rest, victims (Spared protectedKeys keep) budget index.oldest = taken ++ b :: rest ∧
      taken.map Prod.fst = before ∧ b.1 = key := by
  obtain ⟨rest, hrest⟩ := removeAll_removed removal
    ((victims (Spared protectedKeys keep) budget index.oldest).map Prod.fst) disk []
  rw [h, List.nil_append, List.append_assoc, List.cons_append] at hrest
  obtain ⟨taken, l, hsplit, htaken, hl⟩ := List.map_eq_append_iff.mp hrest
  obtain ⟨b, rest', rfl, hb, -⟩ := List.map_eq_cons_iff.mp hl
  exact ⟨taken, b, rest', hsplit, htaken, hb⟩

theorem victims_initial (index : BlockIndex) (protectedKeys : List Key) (keep : Option Key)
    (budget : Nat) :
    victims (Spared protectedKeys keep) budget index.oldest <+:
      removable index protectedKeys keep :=
  shed_prefix _ _ _ _

theorem pass_spares {key : Key}
    (h : key ∈ (removeAll removal
      ((victims (Spared protectedKeys keep) budget index.oldest).map Prod.fst) disk []).removed) :
    key ∉ protectedKeys ∧ keep ≠ some key := by
  obtain ⟨before, after, hsplit⟩ := List.append_of_mem h
  obtain ⟨taken, b, rest, hvictims, -, rfl⟩ := removed_split hsplit
  have hmem : b ∈ removable index protectedKeys keep := by
    refine (victims_initial index protectedKeys keep budget).subset ?_
    rw [hvictims]
    simp
  have hspared := (List.mem_filter.mp hmem).2
  rw [not_spared] at hspared
  simpa using hspared

theorem pass_fits
    (h : (removeAll removal ((victims (Spared protectedKeys keep) budget disk.index.oldest).map
      Prod.fst) disk []).finished = true) :
    (removeAll removal ((victims (Spared protectedKeys keep) budget disk.index.oldest).map
      Prod.fst) disk []).disk.index.bytes (fun k => k ∉ protectedKeys && keep ≠ some k) ≤
        budget := by
  obtain ⟨-, hrows, -⟩ := removeAll_finished h
  rw [bytes_of_rows hrows]
  obtain ⟨rest, hrest⟩ := victims_initial disk.index protectedKeys keep budget
  -- what is left are the removable blocks that were not taken
  have hleft := bytes_without (p := fun k => k ∉ protectedKeys && keep ≠ some k)
    (q := fun key => !Spared protectedKeys keep key) hrest.symm
    (fun key hkey => by rwa [not_spared] at hkey)
  have hremovable : (disk.index.bytes fun k => k ∉ protectedKeys && keep ≠ some k) =
      sizes (removable disk.index protectedKeys keep) := by
    rw [BlockIndex.bytes, removable]
    simp only [not_spared]
  have htotal : sizes (removable disk.index protectedKeys keep) ≤ sizes disk.index.oldest := by
    have hperm := List.filter_append_perm (fun b : Key × Nat => !Spared protectedKeys keep b.1)
      disk.index.oldest
    rw [← sizes_perm hperm, sizes_append]
    exact Nat.le_add_right _ _
  rcases shed_end Prod.snd budget (sizes disk.index.oldest)
    (removable disk.index protectedKeys keep) with hend | hall
  · have hend' : sizes disk.index.oldest -
        sizes (victims (Spared protectedKeys keep) budget disk.index.oldest) ≤ budget := hend
    omega
  · have hall' : victims (Spared protectedKeys keep) budget disk.index.oldest =
        removable disk.index protectedKeys keep := hall
    rw [hall'] at hleft ⊢
    omega

/-- A pass over an index is lawful, whatever becomes of its removals, exactly when the resident
    protected bytes do not count twice. -/
theorem lawful_iff_countsOnce (disk : Disk) :
    (∀ removal, LawfulPass disk.index protectedKeys keep budget
      (evictPass removal (Spared protectedKeys keep) budget (sizes disk.index.oldest)
        disk.index.oldest disk [])) ↔
      CountsOnce disk.index protectedKeys keep budget := by
  simp only [evictPass_eq]
  constructor
  · intro hlawful before b after hsplit hfits
    by_contra hover
    rw [← sizes_oldest, not_le] at hover
    -- the block whose turn it is goes, though the unprotected bytes fit
    obtain ⟨after', hvictims⟩ := shed_of_split hsplit hover
    have hvictims' : victims (Spared protectedKeys keep) budget disk.index.oldest =
        before ++ b :: after' := hvictims
    obtain ⟨hremoved, -⟩ := removeAll_finished (removeAll_done
      ((victims (Spared protectedKeys keep) budget disk.index.oldest).map Prod.fst) disk [])
    have hneeded := (hlawful fun _ => .done).needed (before.map Prod.fst) b.1
      (after'.map Prod.fst) (by rw [hremoved, hvictims']; simp)
    have hbytes := bytes_before hsplit
    omega
  · intro honce removal
    refine ⟨?_, fun _ => pass_spares, pass_fits⟩
    intro before key after hremoved
    obtain ⟨taken, b, rest, hvictims, rfl, -⟩ := removed_split hremoved
    have hover : budget < sizes disk.index.oldest - sizes taken := shed_split hvictims
    obtain ⟨others, hothers⟩ := victims_initial disk.index protectedKeys keep budget
    have hsplit : removable disk.index protectedKeys keep = taken ++ b :: (rest ++ others) := by
      rw [← hothers, hvictims]
      simp
    have hbytes := bytes_before hsplit
    by_contra hfits
    have honce' := honce taken b (rest ++ others) hsplit (by omega)
    rw [← sizes_oldest] at honce'
    omega

end Pass

/-! ## The two passes -/

theorem evict_eq (c : ContentCache) (removal : Key → Removal) (keep : Key) :
    c.evict removal keep = evictPass removal (Spared c.view.protectedKeys (some keep)) c.budget
      (sizes c.disk.index.oldest) c.disk.index.oldest c.disk [] := by
  have hspared : (fun key => decide (key = keep) || decide (key ∈ c.view.protectedKeys)) =
      Spared c.view.protectedKeys (some keep) := by
    funext key
    simp [Spared, eq_comm]
  rw [ContentCache.evict, hspared]

theorem reconcile_eq (temporary : String → Bool) (now : Int) (removal : Key → Removal)
    (quota : Nat) (reservations : Reservations) (d : Disk) :
    reconcile temporary now removal quota reservations d =
      evictPass removal (Spared reservations.protectedKeys none) (quota - reservations.reserved)
        (sizes (realign temporary now d).index.oldest) (realign temporary now d).index.oldest
        (realign temporary now d) [] := by
  have hspared : (fun key => decide (key ∈ reservations.protectedKeys)) =
      Spared reservations.protectedKeys none := by
    funext key
    simp [Spared]
  rw [reconcile, hspared]

/-- Eviction and the mount-time pass take no more than they may exactly when, wherever the
    unprotected bytes fit, they fit together with the resident protected ones. -/
theorem eviction_lawful_iff (c : ContentCache) (keep : Key) (temporary : String → Bool) (now : Int)
    (quota : Nat) (reservations : Reservations) (d : Disk) :
    ((∀ removal, LawfulPass c.disk.index c.view.protectedKeys (some keep) c.budget
        (c.evict removal keep)) ↔
      CountsOnce c.disk.index c.view.protectedKeys (some keep) c.budget) ∧
    ((∀ removal, LawfulPass (realign temporary now d).index reservations.protectedKeys none
        (quota - reservations.reserved)
        (reconcile temporary now removal quota reservations d)) ↔
      CountsOnce (realign temporary now d).index reservations.protectedKeys none
        (quota - reservations.reserved)) := by
  simp only [evict_eq, reconcile_eq]
  exact ⟨lawful_iff_countsOnce _, lawful_iff_countsOnce _⟩

/-! A cache of 16 MiB with two pinned blocks, resident and reserved, and one ordinary block, which
fits into what the reservation leaves. -/

def pinnedKey : Key := "aaaaaaaaaaaaaaaaaaaaaaaaaaaaaaaaaaaaaaaaaaaaaaaaaaaaaaaaaaaaaaaa"
def otherPinnedKey : Key := "bbbbbbbbbbbbbbbbbbbbbbbbbbbbbbbbbbbbbbbbbbbbbbbbbbbbbbbbbbbbbbbb"
def ordinaryKey : Key := "cccccccccccccccccccccccccccccccccccccccccccccccccccccccccccccccc"

def fullFile : BlockFile := { length := blockSize + blockDigest, intact := true }

def pinnedDisk : Disk where
  index :=
    { rows := [{ key := pinnedKey, size := blockSize + blockDigest, touched := 1 },
        { key := otherPinnedKey, size := blockSize + blockDigest, touched := 2 },
        { key := ordinaryKey, size := blockSize + blockDigest, touched := 3 }]
      distinct := by decide }
  files := Table.empty.setRows
    [(pinnedKey, fullFile), (otherPinnedKey, fullFile), (ordinaryKey, fullFile)]

def pinnedCache : ContentCache where
  quota := 16 * 1024 * 1024
  reservations := some
    { protectedKeys := [pinnedKey, otherPinnedKey], reserved := storedBytes (2 * blockSize) }
  disk := pinnedDisk
  memory := []

/-- The pass takes the ordinary block, though it fits. -/
theorem ordinary_block_taken :
    (pinnedCache.evict (fun _ => .done) "").removed = [ordinaryKey] ∧
      (pinnedCache.disk.index.bytes fun k => k ∉ pinnedCache.view.protectedKeys) ≤
        pinnedCache.budget ∧
      ¬ LawfulPass pinnedCache.disk.index pinnedCache.view.protectedKeys (some "")
        pinnedCache.budget (pinnedCache.evict (fun _ => .done) "") := by
  have hremoved : (pinnedCache.evict (fun _ => .done) "").removed = [ordinaryKey] := by
    decide +kernel
  have hfits : (pinnedCache.disk.index.bytes fun k => k ∉ pinnedCache.view.protectedKeys) ≤
      pinnedCache.budget := by
    decide +kernel
  refine ⟨hremoved, hfits, fun hlawful => ?_⟩
  have hneeded := hlawful.needed [] ordinaryKey [] hremoved
  simp only [List.not_mem_nil, not_false_eq_true, decide_true, Bool.and_true] at hneeded
  exact absurd hfits (not_le.mpr hneeded)

end Cirrove.Cache
