import Cirrove.Library.Descent
import Cirrove.Store.Serving

/-!
# The files below a folder

`Engine::subtree_files` walks the cached listings from a folder with a stack and no record
of where it has been. A listing is a view of one directory at one time, and two of them can
disagree: each of two folders may show the other one. `subtree_files_sound_iff` says in
which states the walk ends and counts each file once.
-/

namespace Cirrove.Store

open Cirrove.Library

variable {s : Store} {scope : Scope} {parent root : String} {pending : List String}

/-! ## The walk -/

/-- What the walk has found so far. -/
structure Walked where
  files : List Node
  bytes : Nat
  complete : Bool

/-- `u64::saturating_add` -/
def saturatingAdd (a b : Nat) : Nat := min (a + b) (2 ^ 64 - 1)

/-- One child of the directory at hand: a folder goes on the stack, anything else is counted. -/
def visitChild (state : List String × Walked) (child : Node) : List String × Walked :=
  match child.kind with
  | .folder => (child.id :: state.1, state.2)
  | _ => (state.1, { state.2 with
      files := state.2.files ++ [child]
      bytes := saturatingAdd state.2.bytes child.size })

/-- The loop of `subtree_files`; the head of the list is the top of `pending`. -/
def subtreeLoop (s : Store) (scope : Scope) : Nat → List String → Walked → Option Walked
  | _, [], walked => some walked
  | 0, _ :: _, _ => none
  | fuel + 1, parent :: pending, walked =>
    match s.childrenOn scope parent with
    | some children =>
      let next := children.foldl visitChild (pending, walked)
      s.subtreeLoop scope fuel next.1 next.2
    | none => s.subtreeLoop scope fuel pending { walked with complete := false }

/-- `Engine::subtree_files` on one state of the store, for as many directories as `fuel`. -/
def subtreeFiles (s : Store) (scope : Scope) (root : String) (fuel : Nat) : Option Walked :=
  s.subtreeLoop scope fuel [root] ⟨[], 0, true⟩

/-! ## The walk as a descent -/

/-- The folders a known directory shows, the one that is walked first in front. -/
def subfolders (s : Store) (scope : Scope) (parent : String) : List String :=
  ((((s.childrenOn scope parent).getD []).filter fun n => n.kind = .folder).map Node.id).reverse

/-- The other items a known directory shows. -/
def filesIn (s : Store) (scope : Scope) (parent : String) : List Node :=
  ((s.childrenOn scope parent).getD []).filter fun n => n.kind ≠ .folder

theorem mem_subfolders {q : String} :
    q ∈ s.subfolders scope parent ↔ ∃ n, Lists s scope parent n ∧ n.kind = .folder ∧ n.id = q := by
  simp only [subfolders, List.mem_reverse, List.mem_map, List.mem_filter, mem_getD_childrenOn,
    decide_eq_true_eq, and_assoc]

theorem mem_filesIn {f : Node} :
    f ∈ s.filesIn scope parent ↔ Lists s scope parent f ∧ f.kind ≠ .folder := by
  simp only [filesIn, List.mem_filter, mem_getD_childrenOn, decide_eq_true_eq]

theorem foldl_visitChild (children : List Node) (pending : List String) (walked : Walked) :
    children.foldl visitChild (pending, walked) =
      (((children.filter fun n => n.kind = .folder).map Node.id).reverse ++ pending,
        { walked with
          files := walked.files ++ children.filter fun n => n.kind ≠ .folder
          bytes := (children.filter fun n => n.kind ≠ .folder).foldl
            (fun bytes f => saturatingAdd bytes f.size) walked.bytes }) := by
  induction children generalizing pending walked with
  | nil => simp
  | cons child children ih =>
    rw [List.foldl_cons, ih]
    by_cases hfolder : child.kind = .folder
    · simp [visitChild, hfolder]
    · have hvisit : visitChild (pending, walked) child = (pending, { walked with
          files := walked.files ++ [child]
          bytes := saturatingAdd walked.bytes child.size }) := by
        unfold visitChild
        split
        · next hkind => exact absurd hkind hfolder
        · rfl
      simp [hvisit, hfolder]

/-- What one round of the loop does, whether the directory is known or not. -/
theorem subtreeLoop_succ (fuel : Nat) (walked : Walked) :
    ∃ complete, s.subtreeLoop scope (fuel + 1) (parent :: pending) walked =
      s.subtreeLoop scope fuel (s.subfolders scope parent ++ pending)
        { files := walked.files ++ s.filesIn scope parent
          bytes := (s.filesIn scope parent).foldl (fun bytes f => saturatingAdd bytes f.size)
            walked.bytes
          complete := complete } := by
  cases hchildren : s.childrenOn scope parent with
  | none =>
    refine ⟨false, ?_⟩
    simp [subtreeLoop, subfolders, filesIn, hchildren]
  | some children =>
    refine ⟨walked.complete, ?_⟩
    simp only [subtreeLoop, hchildren, foldl_visitChild]
    simp [subfolders, filesIn, hchildren]

/-- A loop that ends has visited the directories in the order of the walk. -/
theorem visits_of_subtreeLoop {fuel : Nat} {walked walked' : Walked}
    (h : s.subtreeLoop scope fuel pending walked = some walked') :
    ∃ order, Visits (s.subfolders scope) pending order ∧
      walked'.files = walked.files ++ order.flatMap (s.filesIn scope) := by
  induction fuel generalizing pending walked with
  | zero =>
    cases pending with
    | nil =>
      cases h
      exact ⟨[], .done, by simp⟩
    | cons parent pending => cases h
  | succ fuel ih =>
    cases pending with
    | nil =>
      cases h
      exact ⟨[], .done, by simp⟩
    | cons parent pending =>
      obtain ⟨complete, hround⟩ := subtreeLoop_succ (s := s) fuel walked
      rw [hround] at h
      obtain ⟨order, horder, hfiles⟩ := ih h
      refine ⟨parent :: order, .visit horder, ?_⟩
      rw [hfiles, List.flatMap_cons, List.append_assoc]

/-- A walk that ends is a loop that ends. -/
theorem subtreeLoop_of_visits {order : List String}
    (h : Visits (s.subfolders scope) pending order) (walked : Walked) :
    ∃ walked', s.subtreeLoop scope order.length pending walked = some walked' ∧
      walked'.files = walked.files ++ order.flatMap (s.filesIn scope) := by
  induction h generalizing walked with
  | done => exact ⟨walked, rfl, by simp⟩
  | @visit parent pending order _ ih =>
    obtain ⟨complete, hround⟩ := subtreeLoop_succ order.length walked
    obtain ⟨walked', hrest, hfiles⟩ := ih _
    refine ⟨walked', hround.trans hrest, ?_⟩
    rw [hfiles, List.flatMap_cons, List.append_assoc]

/-! ## Finitely many folders -/

/-- Whatever a directory shows is in one of three tables. -/
theorem finite_lists (s : Store) (scope : Scope) :
    {n | ∃ parent, Lists s scope parent n}.Finite := by
  have hrows : {n | ∃ parent, Lists s scope parent n} ⊆
      {n | n ∈ s.directoryEntries.rows.map Prod.snd ++ (s.observed.rows.map fun row => row.2.body) ++
        s.nodes.rows.map Prod.snd} := by
    rintro n ⟨parent, hlists⟩
    simp only [Set.mem_ofPred_eq, List.mem_append, List.mem_map]
    rcases lists_cases.mp hlists with ⟨r, _, hmem⟩ | ⟨_, hmem⟩
    · rcases mem_snapshotRows.mp hmem with ⟨id, hget, _⟩ | ⟨id, row, hget, rfl, _⟩
      · exact .inl (.inl ⟨_, (Table.mem_rows _ _ _).mpr hget, rfl⟩)
      · exact .inl (.inr ⟨_, (Table.mem_rows _ _ _).mpr hget, rfl⟩)
    · rcases mem_indexedRows.mp hmem with ⟨id, hget, _⟩ | ⟨id, row, hget, rfl, _⟩
      · exact .inr ⟨_, (Table.mem_rows _ _ _).mpr hget, rfl⟩
      · exact .inl (.inr ⟨_, (Table.mem_rows _ _ _).mpr hget, rfl⟩)
  exact (List.finite_toSet _).subset hrows

theorem finite_descends (s : Store) (scope : Scope) (root : String) :
    {q | Descends (s.subfolders scope) root q}.Finite := by
  apply (((finite_lists s scope).image Node.id).insert root).subset
  intro q hq
  rcases hq.cases_tail with rfl | ⟨p, _, hstep⟩
  · exact Set.mem_insert _ _
  · obtain ⟨n, hlists, _, rfl⟩ := mem_subfolders.mp hstep
    exact Set.mem_insert_of_mem _ ⟨n, ⟨p, hlists⟩, rfl⟩

/-! ## When the walk ends and counts each file once -/

/-- The files found are distinct, and each lies under the root through cached listings. -/
structure CountsOnce (s : Store) (scope : Scope) (root : String) (walked : Walked) : Prop where
  distinct : (walked.files.map Node.id).Nodup
  under : ∀ f ∈ walked.files, f.kind ≠ .folder ∧
    ∃ parent, Descends (s.subfolders scope) root parent ∧ Lists s scope parent f

/-- Below the root no folder is below itself, no file is shown by two folders, and no folder
    with a file below it is shown by two. -/
structure Walkable (s : Store) (scope : Scope) (root : String) : Prop where
  acyclic : ∀ q, Descends (s.subfolders scope) root q → ¬ DescendsBelow (s.subfolders scope) q q
  unambiguous : Unambiguous (s.subfolders scope)
    (fun parent => (s.filesIn scope parent).map Node.id) root

theorem subfolders_nodup (hkeys : WellKeyed s) : (s.subfolders scope parent).Nodup := by
  have hdistinct : (((s.childrenOn scope parent).getD []).map Node.id).Nodup :=
    childrenOn_nodup hkeys
  unfold subfolders
  rw [List.nodup_reverse]
  exact hdistinct.sublist (List.filter_sublist.map Node.id)

theorem filesIn_nodup (hkeys : WellKeyed s) : ((s.filesIn scope parent).map Node.id).Nodup := by
  have hdistinct : (((s.childrenOn scope parent).getD []).map Node.id).Nodup :=
    childrenOn_nodup hkeys
  exact hdistinct.sublist (List.filter_sublist.map Node.id)

/-- The files of a walk, whichever folders it visits. -/
theorem countsOnce_iff (hkeys : WellKeyed s) {order : List String}
    (h : Visits (s.subfolders scope) [root] order) {walked : Walked}
    (hfiles : walked.files = order.flatMap (s.filesIn scope)) :
    CountsOnce s scope root walked ↔ Unambiguous (s.subfolders scope)
      (fun parent => (s.filesIn scope parent).map Node.id) root := by
  have hids : walked.files.map Node.id =
      order.flatMap fun parent => (s.filesIn scope parent).map Node.id := by
    rw [hfiles, List.map_flatMap]
  rw [← h.nodup_iff_unambiguous (fun _ => subfolders_nodup hkeys) (fun _ => filesIn_nodup hkeys),
    ← hids]
  constructor
  · intro hcounts
    exact hcounts.distinct
  · intro hdistinct
    refine ⟨hdistinct, ?_⟩
    intro f hf
    rw [hfiles] at hf
    obtain ⟨parent, hparent, hf⟩ := List.mem_flatMap.mp hf
    obtain ⟨hlists, hkind⟩ := mem_filesIn.mp hf
    obtain ⟨_, hroot, hdescends⟩ := h.mem_iff.mp hparent
    cases List.mem_singleton.mp hroot
    exact ⟨hkind, parent, hdescends, hlists⟩

/-- In every reachable state: the walk ends and counts each file once exactly when the cached
    listings below the root form a tree, apart from folders without files. -/
theorem subtree_files_sound_iff {w : World} (hw : Reachable w) (scope : Scope) (root : String) :
    (∃ fuel walked, w.store.subtreeFiles scope root fuel = some walked ∧
      CountsOnce w.store scope root walked) ↔ Walkable w.store scope root := by
  have hkeys := hw.inv.sound.keyed
  have hfinite := finite_descends w.store scope root
  constructor
  · rintro ⟨fuel, walked, hended, hcounts⟩
    obtain ⟨order, hvisits, hfiles⟩ := visits_of_subtreeLoop hended
    rw [List.nil_append] at hfiles
    exact ⟨(acc_iff_acyclic hfinite).mp (hvisits.acc root List.mem_cons_self),
      (countsOnce_iff hkeys hvisits hfiles).mp hcounts⟩
  · rintro ⟨hacyclic, hunambiguous⟩
    have hacc := (acc_iff_acyclic hfinite).mpr hacyclic
    obtain ⟨order, hvisits⟩ := exists_visits (List.forall_mem_singleton.mpr hacc)
    obtain ⟨walked, hended, hfiles⟩ := subtreeLoop_of_visits hvisits ⟨[], 0, true⟩
    rw [List.nil_append] at hfiles
    exact ⟨order.length, walked, hended, (countsOnce_iff hkeys hvisits hfiles).mpr hunambiguous⟩

def folderAt (id parent : String) : Node := { fileAt id parent with kind := .folder }

/-- A folder with a file and a folder that is not listed yet. -/
def listedFolder : List Op :=
  [.observeDirectory drive "top" [folderAt "sub" "top", fileAt "x" "top"]]

/-- Its walk ends with the one file. -/
theorem subtree_files_sound_iff_listedFolder :
    Walkable (listedFolder.foldl World.step (World.create "db")).store drive "top" := by
  have hreachable : Reachable (listedFolder.foldl World.step (World.create "db")) := by
    refine ⟨"db", listedFolder, Run.extend .start ?_⟩
    refine ⟨.of_ticketless rfl ?_, trivial⟩
    intro n hn
    simp only [List.mem_cons, List.not_mem_nil, or_false] at hn
    rcases hn with rfl | rfl
    · rfl
    · rfl
  refine (subtree_files_sound_iff hreachable drive "top").mp
    ⟨2, ⟨[fileAt "x" "top"], 0, false⟩, rfl, ?_⟩
  refine ⟨by simp, ?_⟩
  intro f hf
  cases List.mem_singleton.mp hf
  exact ⟨by decide, "top", .refl, [folderAt "sub" "top", fileAt "x" "top"], rfl, by simp⟩

/-! ### Two folders that show each other -/

/-- A folder `b` is listed in `a`. Later `b` is listed too, and by then `a` is in it. -/
def movedAround : List Op :=
  [.directoryObservation drive "a",
    .publishDirectory ⟨drive, .directory "a", "db", 1⟩ [folderAt "b" "a"],
    .directoryObservation drive "b",
    .publishDirectory ⟨drive, .directory "b", "db", 3⟩ [folderAt "a" "b"]]

theorem movedAround_reachable : Reachable (movedAround.foldl World.step (World.create "db")) := by
  refine ⟨"db", movedAround, Run.extend .start ?_⟩
  refine ⟨.of_ticketless rfl trivial, .of_granted rfl ?_ ?_, .of_ticketless rfl trivial,
    .of_granted rfl ?_ ?_, trivial⟩
  · exact ⟨.directoryObservation drive "a", List.mem_of_mem_getLast? rfl⟩
  · intro parent hparent n hn
    cases hparent
    rw [List.mem_singleton.mp hn]
    rfl
  · exact ⟨.directoryObservation drive "b", List.mem_of_mem_getLast? rfl⟩
  · intro parent hparent n hn
    cases hparent
    rw [List.mem_singleton.mp hn]
    rfl

/-- The walk from `a` comes back to `a` and never ends. -/
theorem subtree_files_never_ends :
    ¬ ∀ w, Reachable w → ∀ scope root, ∃ fuel walked,
      w.store.subtreeFiles scope root fuel = some walked ∧
        CountsOnce w.store scope root walked := by
  intro hclaim
  obtain ⟨fuel, walked, hended, _⟩ := hclaim _ movedAround_reachable drive "a"
  obtain ⟨order, hvisits, _⟩ := visits_of_subtreeLoop hended
  apply not_descendsBelow_of_acc (hvisits.acc "a" List.mem_cons_self)
  have hab : "b" ∈ (movedAround.foldl World.step (World.create "db")).store.subfolders drive "a" :=
    mem_subfolders.mpr ⟨folderAt "b" "a", ⟨[folderAt "b" "a"], rfl, by simp⟩, rfl, rfl⟩
  have hba : "a" ∈ (movedAround.foldl World.step (World.create "db")).store.subfolders drive "b" :=
    mem_subfolders.mpr ⟨folderAt "a" "b", ⟨[folderAt "a" "b"], rfl, by simp⟩, rfl, rfl⟩
  exact Relation.TransGen.head hab (Relation.TransGen.single hba)

end Cirrove.Store
