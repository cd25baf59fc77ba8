import Cirrove.Views.Retirement

/-!
# The ceiling stays enforceable

A mount with a ceiling offers its oldest file views to the kernel. `shed_batch` takes slots from
the front of the resolution queue and does not return the slot of a view that is busy: it relies on
the next resolution of that view to queue it again. `insert` does so only for an inode that was not
resident. So the promise is kept in the runs in which a resident file is resolved again only while
its slot is still queued (`Requeues`), and broken otherwise.
-/

namespace Cirrove.Views

open Cirrove.Library

variable {v v' : NamespaceViews} {m : Memory} {w : World}

/-! ## What is taken from the queue -/

/-- The slots `shed_batch` takes are the first of the queue, and it offers those it can. -/
theorem shedLoop_taken (turns budget excess : Nat) (slots : List Slot) :
    (v.shedLoop m turns budget excess slots).2 <+: slots ∧
      ∀ slot ∈ (v.shedLoop m turns budget excess slots).2, ∀ shed, v.shedding m slot = some shed →
        shed ∈ (v.shedLoop m turns budget excess slots).1 := by
  fun_induction NamespaceViews.shedLoop v m turns budget excess slots with
  | case1 => simp
  | case2 => simp
  | case3 => simp
  | case4 => simp
  | case5 turns budget excess slot rest hshed batch taken heq ih =>
    rw [heq] at ih
    refine ⟨List.cons_prefix_cons.mpr ⟨rfl, ih.1⟩, ?_⟩
    intro slot' hslot shed hshed'
    rcases List.mem_cons.mp hslot with rfl | hrest
    · rw [hshed] at hshed'
      cases hshed'
    · exact ih.2 slot' hrest shed hshed'
  | case6 turns budget excess slot rest shed hshed batch taken heq ih =>
    rw [heq] at ih
    refine ⟨List.cons_prefix_cons.mpr ⟨rfl, ih.1⟩, ?_⟩
    intro slot' hslot shed' hshed'
    rcases List.mem_cons.mp hslot with rfl | hrest
    · rw [hshed] at hshed'
      cases hshed'
      exact List.mem_cons_self
    · exact List.mem_cons_of_mem _ (ih.2 slot' hrest shed' hshed')

/-- As long as there is something to do, a slot is taken. -/
theorem shedLoop_takes {turns budget excess : Nat} {slot : Slot} {rest : List Slot}
    (hturns : 0 < turns) (hbudget : 0 < budget) (hover : 0 < excess) :
    (v.shedLoop m turns budget excess (slot :: rest)).2 ≠ [] := by
  obtain ⟨turns, rfl⟩ := Nat.exists_eq_succ_of_ne_zero hturns.ne'
  obtain ⟨budget, rfl⟩ := Nat.exists_eq_succ_of_ne_zero hbudget.ne'
  obtain ⟨excess, rfl⟩ := Nat.exists_eq_succ_of_ne_zero hover.ne'
  unfold NamespaceViews.shedLoop
  split <;> simp

/-- The queue is what `shed_batch` takes and what it leaves. -/
theorem shedBatch_resolved (v : NamespaceViews) (m : Memory) (budget : Nat) :
    ∃ taken, v.resolved = taken ++ (v.shedBatch m budget).2.resolved ∧
      (∀ slot ∈ taken, ∀ shed, v.shedding m slot = some shed → shed ∈ (v.shedBatch m budget).1) ∧
      (0 < budget → 0 < v.overCeiling → v.resolved ≠ [] → taken ≠ []) := by
  obtain ⟨⟨rest, hrest⟩, hoffered⟩ := shedLoop_taken (v := v) (m := m) (budget * 8) budget
    v.overCeiling v.resolved
  refine ⟨(v.shedLoop m (budget * 8) budget v.overCeiling v.resolved).2, ?_, hoffered, ?_⟩
  · have hdrop := congrArg (List.drop
      (v.shedLoop m (budget * 8) budget v.overCeiling v.resolved).2.length) hrest
    rw [List.drop_left] at hdrop
    rw [hdrop] at hrest
    exact hrest.symm
  · intro hbudget hover hne
    cases hresolved : v.resolved with
    | nil => exact absurd hresolved hne
    | cons slot rest => exact shedLoop_takes (by omega) hbudget hover

/-! ## Runs -/

/-- The ceiling of the mount is not taken away. -/
def Capped : Event → Prop
  | .setCeiling ceiling => 0 < ceiling
  | _ => True

/-- A resident inode that is resolved again, as a file and below a parent that takes it, still has
    its slot in the queue. -/
def Requeues (w : World) : Event → Prop
  | .insert _ inode parent kind _ => kind ≠ .folder →
      (∃ lease, w.views.parentLease inode parent = .ok lease) →
        ∀ e, w.views.entries.get inode = some e → (inode, e.generation) ∈ w.views.resolved
  | _ => True

/-- Every resident file view that was resolved since `shed_batch` last took its slot is queued. -/
def Queued (w : World) : Prop :=
  ∀ i e, w.views.entries.get i = some e → e.view.kind ≠ .folder → w.due (i, e.generation) = true →
    (i, e.generation) ∈ w.views.resolved

/-- The property depends on the entries only through their views and generations. -/
theorem Queued.of_within {w' : World} (h : Queued w) (hwithin : Within w.views w'.views)
    (hdue : w'.due = w.due) (hresolved : w'.views.resolved = w.views.resolved) : Queued w' := by
  intro i e he hkind hslot
  obtain ⟨e₀, he₀, hview, hgeneration⟩ := hwithin i e he
  rw [hdue, ← hgeneration] at hslot
  rw [hresolved, ← hgeneration]
  exact h i e₀ he₀ (by rw [hview]; exact hkind) hslot

theorem Within.of_shape (h : v.SameShape v') : Within v v' := fun _ _ he => h.get he

/-- A view that was resolved has a parent that took it. -/
theorem lease_of_insert {view view' : View} (h : v.insert m view = .ok (view', v')) :
    ∃ lease, v.parentLease view.inode view.parent = .ok lease := by
  unfold NamespaceViews.insert at h
  obtain ⟨lease, hlease, -⟩ := bind_eq_ok h
  exact ⟨lease, hlease⟩

/-- Resolving a view queues it, or finds it queued. -/
theorem Queued.insert (h : Queued w) (hceiling : 0 < w.views.ceiling) {source : Source}
    {inode parent : Nat} {kind : NodeKind} {name : String}
    (hrequeues : Requeues w (.insert source inode parent kind name)) :
    Queued (step w (.insert source inode parent kind name)) := by
  simp only [step]
  cases hinsert : w.views.insert { w.memory with allocated := w.memory.allocated + 1 }
      (w.input source inode parent kind name) with
  | error error => exact h
  | ok answer =>
    obtain ⟨view, views⟩ := answer
    obtain ⟨generation, hinserted⟩ := insert_spec hinsert
    have hinode : view.inode = inode := hinserted.inode
    have hkind : view.kind = kind := hinserted.kind
    -- Nothing is taken from the queue.
    have hkept : ∀ slot ∈ w.views.resolved, slot ∈ views.resolved := by
      intro slot hslot
      rcases hinserted.entry with ⟨_, _, _, _, _, hresolved⟩ | ⟨_, _, _, _, hresolved⟩
      · rw [hresolved]
        exact hslot
      · rw [hresolved, if_pos hceiling]
        exact List.mem_append_left _ hslot
    intro i e he hfile hdue
    rcases hinserted.placed.get he with ⟨hi, hview, hg⟩ | ⟨hi, e₀, he₀, hview, hg⟩
    · rcases hinserted.entry with ⟨e₀, he₀, _, hold, _, _⟩ | ⟨_, _, _, _, hresolved⟩
      · -- The inode was resident: its slot must still be there.
        have hslot := hrequeues (by rw [← hkind, ← hview]; exact hfile) (lease_of_insert hinsert) e₀
          (hinode ▸ he₀)
        rw [hi, hg, hold, hinode]
        exact hkept _ hslot
      · rw [hi, hg]
        simp only [hresolved, if_pos hceiling]
        exact List.mem_append_right _ List.mem_cons_self
    · simp only [Bool.or_eq_true, decide_eq_true_eq] at hdue
      rcases hdue with hdue | hslot
      · rw [← hg] at hdue ⊢
        exact hkept _ (h i e₀ he₀ (by rw [hview]; exact hfile) hdue)
      · unfold World.slot at hslot
        obtain ⟨_, _, heq⟩ := Option.map_eq_some_iff.mp hslot
        exact absurd (hinode.trans (congrArg Prod.fst heq)).symm hi

/-- `shed_batch` takes what it takes. -/
theorem Queued.shedBatch (h : Queued w) (budget : Nat) : Queued (step w (.shedBatch budget)) := by
  obtain ⟨taken, hresolved, _, _⟩ := shedBatch_resolved w.views w.memory budget
  intro i e he hkind hdue
  have hrest : (step w (.shedBatch budget)).views.resolved =
      (w.views.shedBatch w.memory budget).2.resolved := rfl
  simp only [step, Bool.and_eq_true, Bool.not_eq_true'] at hdue
  have hmem := h i e he hkind hdue.1
  rw [hresolved] at hmem
  rw [hrest]
  refine (List.mem_append.mp hmem).resolve_left ?_
  intro htaken
  have hlength : w.views.resolved.length - (w.views.shedBatch w.memory budget).2.resolved.length =
      taken.length := by
    rw [hresolved, List.length_append]
    omega
  have hnot := hdue.2
  rw [hlength, hresolved, List.take_left] at hnot
  rw [List.contains_eq_mem, decide_eq_false_iff_not] at hnot
  exact hnot htaken

theorem examine_ceiling (v : NamespaceViews) (m : Memory) (slot : Slot) :
    (v.examine m slot).1.ceiling = v.ceiling := by
  unfold NamespaceViews.examine
  split
  · rfl
  · simp only
    split
    · rfl
    · split
      · exact (NamespaceViews.queue_rest _ m slot.1).2.1
      · rfl

theorem collectLoop_ceiling (limit unchanged removed : Nat) :
    (NamespaceViews.collectLoop m limit unchanged removed v).1.ceiling = v.ceiling := by
  fun_induction NamespaceViews.collectLoop m limit unchanged removed v with
  | case1 => rfl
  | case2 => rfl
  | case3 => rfl
  | case4 limit unchanged removed v _ slot rest _ v₁ hexamine ih =>
    have hceiling := examine_ceiling { v with candidates := rest } m slot
    rw [hexamine] at hceiling
    exact ih.trans hceiling
  | case5 limit unchanged removed v _ slot rest _ v₁ hexamine ih =>
    have hceiling := examine_ceiling { v with candidates := rest } m slot
    rw [hexamine] at hceiling
    exact ih.trans hceiling

/-- One event keeps the ceiling and the queue. -/
theorem Queued.step (hinv : Inv w) (h : Queued w) (hceiling : 0 < w.views.ceiling) {e : Event}
    (hcapped : Capped e) (hrequeues : Requeues w e) :
    Queued (Views.step w e) ∧ 0 < (Views.step w e).views.ceiling := by
  cases e with
  | insert source inode parent kind name =>
    refine ⟨h.insert hceiling hrequeues, ?_⟩
    simp only [Views.step]
    cases hinsert : w.views.insert { w.memory with allocated := w.memory.allocated + 1 }
        (w.input source inode parent kind name) with
    | error error => exact hceiling
    | ok answer =>
      obtain ⟨generation, hinserted⟩ := insert_spec hinsert
      simp only [hinserted.ceiling]
      exact hceiling
  | forget inode count =>
    have hcases := forget_cases w.views w.memory inode count
    simp only [Views.step]
    generalize w.views.forget w.memory inode count = outcome at hcases ⊢
    obtain ⟨answer, v', m'⟩ := outcome
    cases hcases with
    | ignored => exact ⟨h, hceiling⟩
    | unknown => exact ⟨h, hceiling⟩
    | excess => exact ⟨h, hceiling⟩
    | kept => exact ⟨h, hceiling⟩
    | retired =>
      refine ⟨h.of_within ?_ rfl rfl, hceiling⟩
      intro i e he
      simp only [Table.get_erase] at he
      split at he
      · cases he
      · exact ⟨e, he, rfl, rfl⟩
    | @listed e refs _ _ _ =>
      have hrest := NamespaceViews.queue_rest w.views (w.memory.store e.view.residency refs) inode
      refine ⟨h.of_within (.of_shape (NamespaceViews.sameShape_queue _ _ _)) rfl hrest.2.2, ?_⟩
      show 0 < (w.views.queue (w.memory.store e.view.residency refs) inode).ceiling
      rw [hrest.2.1]
      exact hceiling
  | collect limit =>
    obtain ⟨_, _, _, hresolved, _⟩ := collectLoop_spec limit w.views.candidates.length 0 hinv.sound
      hinv.listed le_rfl (hinv.listed.covered hinv.sound)
    refine ⟨h.of_within (collectLoop_within limit _ 0 hinv.sound hinv.listed) rfl hresolved, ?_⟩
    show 0 < (NamespaceViews.collectLoop w.memory limit _ 0 w.views).1.ceiling
    rw [collectLoop_ceiling]
    exact hceiling
  | acquireLookup inode =>
    simp only [Views.step]
    split <;> exact ⟨h, hceiling⟩
  | get inode =>
    simp only [Views.step]
    split <;> exact ⟨h, hceiling⟩
  | clone view => exact ⟨h, hceiling⟩
  | drop view => exact ⟨h, hceiling⟩
  | setCeiling ceiling =>
    have hpositive : 0 < ceiling := hcapped
    refine ⟨h.of_within (.of_shape (fun _ => rfl)) rfl ?_, hpositive⟩
    simp only [Views.step, NamespaceViews.setCeiling, if_neg hpositive.ne']
  | shedBatch budget => exact ⟨h.shedBatch budget, hceiling⟩

/-! ## Repeated calls -/

/-- What so many calls of `shed_batch`, one after the other, offer. -/
def NamespaceViews.shedCalls (m : Memory) (budget : Nat) : Nat → NamespaceViews → List Shed
  | 0, _ => []
  | n + 1, v => (v.shedBatch m budget).1 ++ shedCalls m budget n (v.shedBatch m budget).2

/-- Over the ceiling every call takes a slot, so a queued view is reached. -/
theorem shedCalls_offers {budget : Nat} (hbudget : 0 < budget) {slot : Slot} {shed : Shed} (n : Nat)
    (hover : 0 < v.overCeiling) (hslot : slot ∈ v.resolved) (hshed : v.shedding m slot = some shed)
    (hn : v.resolved.length ≤ n) : shed ∈ NamespaceViews.shedCalls m budget n v := by
  induction n generalizing v with
  | zero =>
    rw [List.length_eq_zero_iff.mp (Nat.le_zero.mp hn)] at hslot
    cases hslot
  | succ n ih =>
    obtain ⟨taken, hresolved, hoffered, htakes⟩ := shedBatch_resolved v m budget
    have htaken := htakes hbudget hover (List.ne_nil_of_mem hslot)
    rw [hresolved] at hslot
    unfold NamespaceViews.shedCalls
    apply List.mem_append.mpr
    rcases List.mem_append.mp hslot with hfirst | hlater
    · exact .inl (hoffered slot hfirst shed hshed)
    · right
      -- The next call sees the same entries and a shorter queue.
      apply ih (v := (v.shedBatch m budget).2) hover hlater hshed
      have hlength := congrArg List.length hresolved
      rw [List.length_append] at hlength
      have := List.length_pos_iff.mpr htaken
      omega

/-- Only the kernel holds the view: no clone of it is open and no child leases it. -/
def OnlyKernel (w : World) (e : Entry) : Prop :=
  (w.memory.refs e.view.residency).kernel ≠ 0 ∧
    (w.memory.refs e.view.residency).quarantine = false ∧
    w.views.strongCount w.memory e.view.residency = 1

/-- Repeated calls offer every file view that only the kernel holds and that was resolved since its
    slot was last taken, as long as the index is over its ceiling. -/
def Enforceable (w : World) : Prop :=
  ∀ budget, 0 < budget → 0 < w.views.overCeiling → ∀ i e, w.views.entries.get i = some e →
    e.view.kind ≠ .folder → w.due (i, e.generation) = true → OnlyKernel w e →
      ∃ n, ⟨i, e.view.parent, e.view.name⟩ ∈ NamespaceViews.shedCalls w.memory budget n w.views

theorem shedding_of_onlyKernel {i : Nat} {e : Entry} (he : w.views.entries.get i = some e)
    (hkind : e.view.kind ≠ .folder) (h : OnlyKernel w e) :
    w.views.shedding w.memory (i, e.generation) = some ⟨i, e.view.parent, e.view.name⟩ := by
  obtain ⟨hkernel, hquarantine, hcount⟩ := h
  have hfilter : (w.views.entries.get i).filter (fun entry => entry.generation = e.generation) =
      some e := by
    rw [he, Option.filter_some, if_pos (decide_eq_true rfl)]
  unfold NamespaceViews.shedding
  simp [hfilter, hkind, hkernel, hquarantine, hcount]

theorem Queued.enforceable (h : Queued w) : Enforceable w := by
  intro budget hbudget hover i e he hkind hdue honly
  refine ⟨w.views.resolved.length, ?_⟩
  exact shedCalls_offers hbudget _ hover (h i e he hkind hdue)
    (shedding_of_onlyKernel he hkind honly) le_rfl

/-- In every run that resolves a resident file again only while its slot is queued, the ceiling of
    the mount stays enforceable. A resolution that fails is not restricted. -/
theorem ceiling_stays_enforceable {name : String} {ceiling : Nat} (hceiling : 0 < ceiling)
    {events : List Event}
    (hrun : Run step (fun w e => Permitted w e ∧ Capped e ∧ Requeues w e)
      (World.create name ceiling) events w) : Queued w ∧ Enforceable w := by
  have hqueued : Queued w := by
    refine (hrun.invariant (fun w => Inv w ∧ Queued w ∧ 0 < w.views.ceiling)
      ⟨.create name ceiling, ?_, hceiling⟩ ?_).2.1
    · intro i e _ _ hdue
      cases hdue
    · intro w e h hallowed
      exact ⟨h.1.step hallowed.1, h.2.1.step h.1 h.2.2 hallowed.2.1 hallowed.2.2⟩
  exact ⟨hqueued, hqueued.enforceable⟩

/-- The view of the file of the runs below, as `insert` returns it. -/
def openedFile : View := ⟨⟨1⟩, some ⟨0⟩, 2, 1, .file, "file"⟩

/-- A file is looked up twice, once more below a parent that is not there, and is offered when a
    second file is over the ceiling. It comes back under another name. -/
def lookedUp : List Event :=
  [.insert .fresh 2 1 .file "file", .acquireLookup 2, .insert .fresh 2 1 .file "file",
    .acquireLookup 2, .drop openedFile, .drop openedFile, .shedBatch 1,
    .insert .fresh 2 9 .file "file", .forget 2 2, .insert .fresh 3 1 .file "other",
    .acquireLookup 3, .drop ⟨⟨4⟩, some ⟨0⟩, 3, 1, .file, "other"⟩,
    .insert .fresh 2 1 .file "again", .acquireLookup 2]

theorem lookedUp_enforceable :
    0 < (lookedUp.foldl step (World.create "mount" 1)).views.overCeiling ∧
      Queued (lookedUp.foldl step (World.create "mount" 1)) ∧
      Enforceable (lookedUp.foldl step (World.create "mount" 1)) := by
  have hrun : Run step (fun w e => Permitted w e ∧ Capped e ∧ Requeues w e)
      (World.create "mount" 1) lookedUp (lookedUp.foldl step (World.create "mount" 1)) := by
    refine Run.extend .start ⟨⟨trivial, trivial, ?_⟩, ⟨trivial, trivial, trivial⟩,
      ⟨trivial, trivial, ?_⟩, ⟨trivial, trivial, trivial⟩, ⟨trivial, trivial, trivial⟩,
      ⟨trivial, trivial, trivial⟩, ⟨trivial, trivial, trivial⟩, ⟨trivial, trivial, ?_⟩,
      ⟨trivial, trivial, trivial⟩, ⟨trivial, trivial, ?_⟩, ⟨trivial, trivial, trivial⟩,
      ⟨trivial, trivial, trivial⟩, ⟨trivial, trivial, ?_⟩, ⟨trivial, trivial, trivial⟩, trivial⟩
    · -- the file is new
      rintro - - e he
      cases he
    · -- it is resolved again while its slot is queued
      rintro - - e he
      cases he
      decide
    · -- its slot was taken, and the other parent does not take it
      rintro - ⟨lease, hlease⟩
      cases hlease
    · rintro - - e he
      cases he
    · -- it was retired in between
      rintro - - e he
      cases he
  exact ⟨by decide, ceiling_stays_enforceable Nat.one_pos hrun⟩

/-- Without a queue nothing is offered. -/
theorem shedCalls_nil (hempty : v.resolved = []) (budget n : Nat) :
    NamespaceViews.shedCalls m budget n v = [] := by
  induction n generalizing v with
  | zero => rfl
  | succ n ih =>
    obtain ⟨taken, hresolved, _, _⟩ := shedBatch_resolved v m budget
    rw [hempty] at hresolved
    have hbatch : (v.shedBatch m budget).1 = [] := by
      unfold NamespaceViews.shedBatch
      simp only [hempty]
      unfold NamespaceViews.shedLoop
      split <;> simp_all
    unfold NamespaceViews.shedCalls
    rw [hbatch, ih (List.append_eq_nil_iff.mp hresolved.symm).2, List.append_nil]

/-- The file is open when `shed_batch` comes to it, is looked up again and is closed. -/
def passedOver : List Event :=
  [.insert .fresh 2 1 .file "file", .acquireLookup 2, .shedBatch 4,
    .insert .fresh 2 1 .file "file", .acquireLookup 2, .drop openedFile, .drop openedFile]

/-- The second resolution does not queue the view again, so it is never offered. -/
theorem passedOver_lost :
    ∃ w, Run step Permitted (World.create "mount" 1) passedOver w ∧ 0 < w.views.overCeiling ∧
      ¬ Queued w ∧ ¬ Enforceable w := by
  have hrun : Run step Permitted (World.create "mount" 1) passedOver
      (passedOver.foldl step (World.create "mount" 1)) :=
    Run.extend .start ⟨trivial, trivial, trivial, trivial, trivial, trivial, trivial, trivial⟩
  refine ⟨_, hrun, by decide, ?_, ?_⟩
  · intro h
    have hmem := h 2 ⟨openedFile, 1, true⟩ rfl (by decide) rfl
    cases hmem
  · intro h
    obtain ⟨n, hmem⟩ := h 1 Nat.one_pos (by decide) 2 ⟨openedFile, 1, true⟩ rfl (by decide) rfl
      ⟨by decide, rfl, rfl⟩
    rw [shedCalls_nil rfl] at hmem
    cases hmem

end Cirrove.Views
