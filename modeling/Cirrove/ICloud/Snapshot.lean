import Cirrove.ICloud.Traversal
import Mathlib.Data.List.Forall2

/-!
# Whole snapshots

A snapshot calls `changes` without a cursor and then with every cursor it was handed. Over a tree of
folders the calls pass the states of a depth-first traversal and no others, or one of them ends with
a protocol error (`snapshot_cases`).
-/

namespace Cirrove.ICloud

open Cirrove.Library
open Cirrove.Google (ProviderError)

/-- How a snapshot stands. -/
inductive Standing where
  | waiting (cursor : Option Cursor)
  | complete
  | failed (e : ProviderError)
  deriving DecidableEq, Repr

/-- What the service answers to the two requests of a call. -/
abbrev Answer := Listing × Listing

/-- One more call of a snapshot that waits for one. -/
def ICloudDrive.call (drive : ICloudDrive) (answer : Answer) :
    List ChangePage × Standing → List ChangePage × Standing
  | (pages, .waiting cursor) =>
    match drive.changes drive.scope cursor answer.1 answer.2 with
    | .error e => (pages, .failed e)
    | .ok page =>
      match page.checkpoint with
      | .continue cursor => (pages ++ [page], .waiting (some cursor))
      | .complete _ => (pages ++ [page], .complete)
  | ended => ended

/-- The pages of the first calls and how the snapshot stands after them. -/
def ICloudDrive.snapshot (drive : ICloudDrive) (calls : Nat → Answer) :
    Nat → List ChangePage × Standing
  | 0 => ([], .waiting none)
  | n + 1 => drive.call (calls n) (drive.snapshot calls n)

section

variable {drive : ICloudDrive} {calls : Nat → Answer} {n : Nat} {pages : List ChangePage}

theorem snapshot_page {cursor : Option Cursor} {page : ChangePage} {next : Cursor}
    (h : drive.snapshot calls n = (pages, .waiting cursor))
    (hcall : drive.changes drive.scope cursor (calls n).1 (calls n).2 = .ok page)
    (hnext : page.checkpoint = .continue next) :
    drive.snapshot calls (n + 1) = (pages ++ [page], .waiting (some next)) := by
  rw [ICloudDrive.snapshot, h]
  simp only [ICloudDrive.call, hcall, hnext]

theorem snapshot_last {cursor : Option Cursor} {page : ChangePage} {last : Cursor}
    (h : drive.snapshot calls n = (pages, .waiting cursor))
    (hcall : drive.changes drive.scope cursor (calls n).1 (calls n).2 = .ok page)
    (hlast : page.checkpoint = .complete last) :
    drive.snapshot calls (n + 1) = (pages ++ [page], .complete) := by
  rw [ICloudDrive.snapshot, h]
  simp only [ICloudDrive.call, hcall, hlast]

theorem snapshot_failed {cursor : Option Cursor} {e : ProviderError}
    (h : drive.snapshot calls n = (pages, .waiting cursor))
    (hcall : drive.changes drive.scope cursor (calls n).1 (calls n).2 = .error e) :
    drive.snapshot calls (n + 1) = (pages, .failed e) := by
  rw [ICloudDrive.snapshot, h]
  simp only [ICloudDrive.call, hcall]

/-- A snapshot that ended stays as it is. -/
theorem snapshot_ended {ended : Standing} (hended : ∀ cursor, ended ≠ .waiting cursor)
    (h : drive.snapshot calls n = (pages, ended)) (m : Nat) :
    drive.snapshot calls (n + m) = (pages, ended) := by
  induction m with
  | zero => exact h
  | succ m ih =>
    rw [← Nat.add_assoc, ICloudDrive.snapshot, ih]
    cases ended with
    | waiting cursor => exact absurd rfl (hended cursor)
    | complete => rfl
    | failed e => rfl

theorem failed_ne_complete {e : ProviderError} (h : drive.snapshot calls n = (pages, .failed e))
    (m : Nat) : (drive.snapshot calls m).2 ≠ .complete := by
  intro hcomplete
  rcases Nat.le_total n m with hle | hle
  · have hstays := snapshot_ended (by simp) h (m - n)
    rw [Nat.add_sub_cancel' hle] at hstays
    rw [hstays] at hcomplete
    cases hcomplete
  · have hended : drive.snapshot calls m = ((drive.snapshot calls m).1, .complete) := by
      rw [← hcomplete]
    have hstays := snapshot_ended (by simp) hended (n - m)
    rw [Nat.add_sub_cancel' hle, h] at hstays
    cases hstays

end

/-! ## Snapshots of a tree -/

/-- A folder below another. -/
abbrev Child (tree : String → List DriveEntry) (f g : String) : Prop := g ∈ children tree f

/-- Every listing of a folder of the tree has its entries, in some order. -/
def Serves (tree : String → List DriveEntry) (calls : Nat → Answer) : Prop :=
  ∀ n f, Reached tree f → Answers tree (calls n).1 f ∧ Answers tree (calls n).2 f

/-- The page of a state of the traversal: it goes on from there, and shows the folder it enters. -/
structure ICloudDrive.Shows (drive : ICloudDrive) (tree : String → List DriveEntry)
    (page : ChangePage) (visit : List (Place String) × Option String) : Prop where
  checkpoint : page.checkpoint = .continue (drive.cursor tree visit.1)
  changes : page.changes.Perm (visit.2.elim [] (shown tree))

section

variable (drive : ICloudDrive) (tree : String → List DriveEntry) (calls : Nat → Answer)

/-- The snapshot comes to a path. -/
def ICloudDrive.Meets (path : List (Place String)) : Prop :=
  ∃ n pages, drive.snapshot calls n = (pages, .waiting (some (drive.cursor tree path)))

/-- From a path the calls show some states and come to another path. -/
def ICloudDrive.Passes (path : List (Place String))
    (visits : List (List (Place String) × Option String)) (stop : List (Place String)) : Prop :=
  ∀ n pages, drive.snapshot calls n = (pages, .waiting (some (drive.cursor tree path))) →
    ∃ more, List.Forall₂ (drive.Shows tree) more visits ∧
      drive.snapshot calls (n + visits.length) =
        (pages ++ more, .waiting (some (drive.cursor tree stop)))

/-- A call ends with a protocol error. -/
def ICloudDrive.Breaks : Prop :=
  ∃ n pages message, drive.snapshot calls n = (pages, .failed (.protocol message))

/-- The traversal below a folder has an end, and the walk can go on from all of its states. -/
structure ICloudDrive.Good (depth : Nat) (path : List (Place String)) (f : String) : Prop where
  shallow : Shallow (children tree) depth f
  sound : ∀ v ∈ visits (children tree) depth path f, drive.Sound tree v.1

end

section

variable {drive : ICloudDrive} {tree : String → List DriveEntry} {calls : Nat → Answer}
  {path pre mid stop : List (Place String)} {vs ws : List (List (Place String) × Option String)}

theorem ICloudDrive.Passes.refl : drive.Passes tree calls path [] path := by
  intro n pages h
  exact ⟨[], .nil, by rw [List.append_nil]; exact h⟩

theorem ICloudDrive.Passes.trans (h : drive.Passes tree calls path vs mid)
    (h' : drive.Passes tree calls mid ws stop) : drive.Passes tree calls path (vs ++ ws) stop := by
  intro n pages hstart
  obtain ⟨more, hmore, hmid⟩ := h n pages hstart
  obtain ⟨rest, hrest, hstop⟩ := h' _ _ hmid
  refine ⟨more ++ rest, List.rel_append hmore hrest, ?_⟩
  rw [List.length_append, ← Nat.add_assoc, hstop, List.append_assoc]

theorem ICloudDrive.Passes.meets (h : drive.Passes tree calls path vs stop)
    (hpath : drive.Meets tree calls path) : drive.Meets tree calls stop := by
  obtain ⟨n, pages, hpath⟩ := hpath
  obtain ⟨more, -, hstop⟩ := h n pages hpath
  exact ⟨_, _, hstop⟩

/-- One call that goes on. -/
theorem passes_one {entered : Option String}
    (hchanges : ∀ n, ∃ changes, changes.Perm (entered.elim [] (shown tree)) ∧
      drive.changes drive.scope (some (drive.cursor tree path)) (calls n).1 (calls n).2 =
        .ok ⟨changes, .continue (drive.cursor tree stop)⟩) :
    drive.Passes tree calls path [(stop, entered)] stop := by
  intro n pages h
  obtain ⟨changes, hperm, hcall⟩ := hchanges n
  exact ⟨[⟨changes, .continue (drive.cursor tree stop)⟩], .cons ⟨rfl, hperm⟩ .nil,
    snapshot_page h hcall rfl⟩

/-! ## One folder -/

variable {f g : String} {i j : Nat}

theorem enter_cases (hserves : Serves tree calls) (hids : ∀ f, Reached tree f → ListableId f)
    (hsound : drive.Sound tree (pre ++ [⟨f, i⟩])) (hreached : Reached tree f)
    (hchild : (children tree f)[i]? = some g) :
    (drive.Sound tree (pre ++ [⟨f, i + 1⟩] ++ [⟨g, 0⟩]) ∧
        drive.Passes tree calls (pre ++ [⟨f, i⟩])
          [(pre ++ [⟨f, i + 1⟩] ++ [⟨g, 0⟩], some g)] (pre ++ [⟨f, i + 1⟩] ++ [⟨g, 0⟩])) ∨
    (¬ drive.Sound tree (pre ++ [⟨f, i + 1⟩] ++ [⟨g, 0⟩]) ∧
        (drive.Meets tree calls (pre ++ [⟨f, i⟩]) → drive.Breaks calls)) := by
  have hg : Reached tree g := hreached.tail (List.mem_of_getElem? hchild)
  have hcall := fun n => changes_enter hsound (hids g hg) (hserves n f hreached).1
    (hserves n g hg).2 hchild
  by_cases hthere : drive.Sound tree (pre ++ [⟨f, i + 1⟩] ++ [⟨g, 0⟩])
  · refine .inl ⟨hthere, passes_one fun n => ?_⟩
    rcases hcall n with ⟨-, changes, hperm, hpage⟩ | ⟨hbad, -⟩
    · exact ⟨changes, hperm, hpage⟩
    · exact absurd hthere hbad
  · refine .inr ⟨hthere, ?_⟩
    rintro ⟨n, pages, hmeets⟩
    rcases hcall n with ⟨hgood, -⟩ | ⟨-, message, herror⟩
    · exact absurd hgood hthere
    · exact ⟨n + 1, pages, message, snapshot_failed hmeets herror⟩

theorem leave_cases (hserves : Serves tree calls)
    (hsound : drive.Sound tree (pre ++ [⟨f, i⟩] ++ [⟨g, j⟩])) (hreached : Reached tree g)
    (hdone : (children tree g).length = j) :
    (drive.Sound tree (pre ++ [⟨f, i⟩]) ∧
        drive.Passes tree calls (pre ++ [⟨f, i⟩] ++ [⟨g, j⟩])
          [(pre ++ [⟨f, i⟩], none)] (pre ++ [⟨f, i⟩])) ∨
    (¬ drive.Sound tree (pre ++ [⟨f, i⟩]) ∧
        (drive.Meets tree calls (pre ++ [⟨f, i⟩] ++ [⟨g, j⟩]) → drive.Breaks calls)) := by
  have hnil : pre ++ [(⟨f, i⟩ : Place String)] ≠ [] := by simp
  have hcall := fun n => @changes_leave drive tree (pre ++ [⟨f, i⟩]) g j (calls n).1 (calls n).2
    hsound (hserves n g hreached).1 hdone
  simp only [if_neg hnil] at hcall
  by_cases hfits : drive.Fits tree (pre ++ [⟨f, i⟩])
  · simp only [continuePage_fits [] hfits] at hcall
    exact .inl ⟨hsound.leave hfits, passes_one fun n => ⟨[], .nil, hcall n⟩⟩
  · simp only [continuePage_long [] hfits] at hcall
    refine .inr ⟨fun hback => hfits hback.fits, ?_⟩
    rintro ⟨n, pages, hmeets⟩
    exact ⟨n + 1, pages, _, snapshot_failed hmeets (hcall n)⟩

/-- What is left of a folder, when its folders are traversed as they should be. -/
theorem turns_cases (hserves : Serves tree calls) (hids : ∀ f, Reached tree f → ListableId f)
    {depth : Nat} (hvisit : ∀ (pre : List (Place String)) c, Reached tree c →
      pre.length + 1 + depth = maxDepth → drive.Sound tree (pre ++ [⟨c, 0⟩]) →
      (drive.Good tree depth pre c ∧ drive.Sound tree (pre ++ [⟨c, (children tree c).length⟩]) ∧
        drive.Passes tree calls (pre ++ [⟨c, 0⟩]) (visits (children tree) depth pre c)
          (pre ++ [⟨c, (children tree c).length⟩])) ∨
      (¬ drive.Good tree depth pre c ∧
        (drive.Meets tree calls (pre ++ [⟨c, 0⟩]) → drive.Breaks calls)))
    (hreached : Reached tree f) (hdepth : pre.length + 1 + (depth + 1) = maxDepth)
    (rest : List String) (hrest : (children tree f).drop i = rest)
    (hi : i ≤ (children tree f).length) (hsound : drive.Sound tree (pre ++ [⟨f, i⟩])) :
    (((∀ c ∈ rest, Shallow (children tree) depth c) ∧
          ∀ v ∈ turns (visits (children tree) depth) pre f i rest, drive.Sound tree v.1) ∧
        drive.Sound tree (pre ++ [⟨f, (children tree f).length⟩]) ∧
        drive.Passes tree calls (pre ++ [⟨f, i⟩]) (turns (visits (children tree) depth) pre f i rest)
          (pre ++ [⟨f, (children tree f).length⟩])) ∨
    (¬ ((∀ c ∈ rest, Shallow (children tree) depth c) ∧
          ∀ v ∈ turns (visits (children tree) depth) pre f i rest, drive.Sound tree v.1) ∧
        (drive.Meets tree calls (pre ++ [⟨f, i⟩]) → drive.Breaks calls)) := by
  induction rest generalizing i with
  | nil =>
    have hend : i = (children tree f).length := by
      rw [List.drop_eq_nil_iff] at hrest
      omega
    rw [← hend]
    exact .inl ⟨⟨by simp, by simp [turns]⟩, hsound, .refl⟩
  | cons c rest ih =>
    have hchild : (children tree f)[i]? = some c := by
      rw [← List.head?_drop, hrest]
      rfl
    have hrest' : (children tree f).drop (i + 1) = rest := by
      rw [← List.tail_drop, hrest]
      rfl
    have hi' : i + 1 ≤ (children tree f).length := (List.getElem?_eq_some_iff.mp hchild).1
    have hc : Reached tree c := hreached.tail (List.mem_of_getElem? hchild)
    have hinside : (pre ++ [(⟨f, i + 1⟩ : Place String)]).length + 1 + depth = maxDepth := by
      rw [List.length_append, List.length_singleton]
      omega
    simp only [turns, List.mem_cons, List.mem_append]
    -- entering the folder
    rcases enter_cases hserves hids hsound hreached hchild with ⟨hthere, henter⟩ | ⟨hbad, hbreaks⟩
    swap
    · exact .inr ⟨fun hgood => hbad (hgood.2 _ (.inl rfl)), hbreaks⟩
    -- below it
    rcases hvisit _ c hc hinside hthere with ⟨hgood, hlast, hbelow⟩ | ⟨hbad, hbreaks⟩
    swap
    · refine .inr ⟨fun hgood => hbad ⟨hgood.1 c (.inl rfl), fun v hv => ?_⟩, ?_⟩
      · exact hgood.2 v (.inr (.inl hv))
      · exact fun hmeets => hbreaks (henter.meets hmeets)
    -- leaving it
    rcases leave_cases hserves hlast hc rfl with ⟨hhere, hleave⟩ | ⟨hbad, hbreaks⟩
    swap
    · refine .inr ⟨fun hgood => hbad (hgood.2 _ (.inr (.inr (.inl rfl)))), ?_⟩
      exact fun hmeets => hbreaks (hbelow.meets (henter.meets hmeets))
    -- the others
    rcases ih hrest' hi' hhere with ⟨⟨hshallow, hothers⟩, hend, hpasses⟩ | ⟨hbad, hbreaks⟩
    · refine .inl ⟨⟨?_, ?_⟩, hend, henter.trans (hbelow.trans (hleave.trans hpasses))⟩
      · rintro x (rfl | hx)
        · exact hgood.shallow
        · exact hshallow x hx
      · rintro v (rfl | hv | rfl | hv)
        · exact hthere
        · exact hgood.sound v hv
        · exact hhere
        · exact hothers v hv
    · refine .inr ⟨fun hgood => hbad ⟨fun x hx => hgood.1 x (.inr hx), fun v hv => ?_⟩, ?_⟩
      · exact hgood.2 v (.inr (.inr (.inr hv)))
      · exact fun hmeets => hbreaks (hleave.meets (hbelow.meets (henter.meets hmeets)))

/-- The calls traverse what is below a folder, or one of them ends with a protocol error. -/
theorem visits_cases (hserves : Serves tree calls) (hids : ∀ f, Reached tree f → ListableId f)
    (depth : Nat) (pre : List (Place String)) (f : String) (hreached : Reached tree f)
    (hdepth : pre.length + 1 + depth = maxDepth) (hsound : drive.Sound tree (pre ++ [⟨f, 0⟩])) :
    (drive.Good tree depth pre f ∧ drive.Sound tree (pre ++ [⟨f, (children tree f).length⟩]) ∧
      drive.Passes tree calls (pre ++ [⟨f, 0⟩]) (visits (children tree) depth pre f)
        (pre ++ [⟨f, (children tree f).length⟩])) ∨
    (¬ drive.Good tree depth pre f ∧
      (drive.Meets tree calls (pre ++ [⟨f, 0⟩]) → drive.Breaks calls)) := by
  induction depth generalizing pre f with
  | zero =>
    cases hchildren : children tree f with
    | nil => exact .inl ⟨⟨hchildren, by simp [visits]⟩, hsound, .refl⟩
    | cons g rest =>
      have hdeep : ¬ drive.Sound tree (pre ++ [⟨f, 0 + 1⟩] ++ [⟨g, 0⟩]) := by
        intro hthere
        have hle := hthere.depth
        simp only [List.length_append, List.length_singleton] at hle
        omega
      refine .inr ⟨fun hgood => ?_, ?_⟩
      · have hnone : children tree f = [] := hgood.shallow
        rw [hchildren] at hnone
        cases hnone
      · rcases enter_cases (i := 0) hserves hids hsound hreached (by rw [hchildren]; rfl) with
          ⟨hthere, -⟩ | ⟨-, hbreaks⟩
        · exact absurd hthere hdeep
        · exact hbreaks
  | succ depth ih =>
    have hturns := turns_cases (i := 0) hserves hids (fun pre c hc hlen => ih pre c hc hlen) hreached
      hdepth (children tree f) rfl (Nat.zero_le _) hsound
    rcases hturns with ⟨⟨hshallow, hstates⟩, hend, hpasses⟩ | ⟨hbad, hbreaks⟩
    · exact .inl ⟨⟨hshallow, hstates⟩, hend, hpasses⟩
    · exact .inr ⟨fun hgood => hbad ⟨hgood.shallow, hgood.sound⟩, hbreaks⟩

/-! ## From the root -/

/-- A tree that can be traversed with the cursors there is room for. -/
structure ICloudDrive.Traversable (drive : ICloudDrive) (tree : String → List DriveEntry) : Prop where
  start : drive.Sound tree [⟨rootId, 0⟩]
  good : drive.Good tree 127 [] rootId

theorem changes_first {items : List DriveEntry} {first second : Listing}
    (hlist : listFolder first rootId = .ok items) :
    drive.changes drive.scope none first second = (nodes rootId items >>= fun shown =>
      continuePage (.upsert rootNode :: shown) (drive.newWalk drive.scope items)) := by
  unfold ICloudDrive.changes
  rw [if_neg (not_not_intro rfl), hlist]
  rfl

theorem first_cases (hserves : Answers tree (calls 0).1 rootId) (hid : ListableId rootId) :
    (drive.Sound tree [⟨rootId, 0⟩] ∧ ∃ changes, changes.Perm (shown tree rootId) ∧
        drive.snapshot calls 1 = ([⟨.upsert rootNode :: changes,
          .continue (drive.cursor tree [⟨rootId, 0⟩])⟩],
          .waiting (some (drive.cursor tree [⟨rootId, 0⟩])))) ∨
    (¬ drive.Sound tree [⟨rootId, 0⟩] ∧ drive.Breaks calls) := by
  obtain ⟨items, hitems, hperm⟩ := hserves
  have hlist : listFolder (calls 0).1 rootId = .ok items := by rw [listFolder_eq _ hid, hitems]
  have hcall := @changes_first drive items (calls 0).1 (calls 0).2 hlist
  have hnone : drive.snapshot calls 0 = ([], .waiting none) := rfl
  rcases nodes_cases rootId items with ⟨hshow, hnodes⟩ | ⟨hshow, message, hnodes⟩
  · have hshow : Showable (tree rootId) := hshow.of_perm hperm.symm
    have hwalk : drive.newWalk drive.scope items = drive.walk tree [⟨rootId, 0⟩] := by
      have hsame := fingerprint_eq_of_perm drive hshow.distinct hperm
      simp [ICloudDrive.newWalk, ICloudDrive.walk, ICloudDrive.frames, hsame]
    simp only [hnodes, hwalk, bind, Except.bind] at hcall
    by_cases hfits : drive.Fits tree [⟨rootId, 0⟩]
    · rw [continuePage_fits _ hfits] at hcall
      refine .inl ⟨⟨rfl, by simp, ?_, ?_, by decide, hfits⟩, _, hperm.map _,
        snapshot_page hnone hcall rfl⟩
      · simpa using hid
      · simpa using hshow
    · rw [continuePage_long _ hfits] at hcall
      exact .inr ⟨fun h => hfits h.fits, 1, [], _, snapshot_failed hnone hcall⟩
  · simp only [hnodes, bind, Except.bind] at hcall
    refine .inr ⟨fun h => hshow ?_, 1, [], message, snapshot_failed hnone hcall⟩
    exact (h.showable ⟨rootId, 0⟩ (by simp)).of_perm hperm

/-- A snapshot of a tree traverses it, or one of its calls ends with a protocol error. -/
theorem snapshot_cases (hserves : Serves tree calls) (hids : ∀ f, Reached tree f → ListableId f) :
    (drive.Traversable tree ∧ ∃ changes more,
        changes.Perm (shown tree rootId) ∧
        List.Forall₂ (drive.Shows tree) more (visits (children tree) 127 [] rootId) ∧
        drive.snapshot calls (2 * (below (children tree) 127 rootId).length + 2) =
          (⟨.upsert rootNode :: changes, .continue (drive.cursor tree [⟨rootId, 0⟩])⟩ ::
            (more ++ [⟨[], .complete ⟨"snapshot-complete"⟩⟩]), .complete)) ∨
    (¬ drive.Traversable tree ∧ drive.Breaks calls) := by
  have hroot : Reached tree rootId := .refl
  rcases first_cases (hserves 0 rootId hroot).1 (hids rootId hroot) with
    ⟨hstart, changes, hperm, hfirst⟩ | ⟨hbad, hbreaks⟩
  swap
  · exact .inr ⟨fun h => hbad h.start, hbreaks⟩
  rcases visits_cases hserves hids 127 [] rootId hroot rfl hstart with
    ⟨hgood, hend, hpasses⟩ | ⟨hbad, hbreaks⟩
  swap
  · exact .inr ⟨fun h => hbad h.good, hbreaks ⟨1, _, hfirst⟩⟩
  obtain ⟨more, hmore, hstop⟩ := hpasses 1 _ hfirst
  rw [length_visits] at hstop
  have hlast := fun n => @changes_leave drive tree [] rootId _ (calls n).1 (calls n).2 hend
    (hserves n rootId hroot).1 rfl
  simp only [if_pos] at hlast
  have hcomplete := snapshot_last hstop (hlast _) rfl
  refine .inl ⟨⟨hstart, hgood⟩, changes, more, hperm, hmore, ?_⟩
  rw [show ∀ n, 2 * n + 2 = 1 + 2 * n + 1 by omega, hcomplete]
  simp

end

end Cirrove.ICloud
