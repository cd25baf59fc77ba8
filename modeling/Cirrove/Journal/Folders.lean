import Cirrove.Journal.Ordering

/-!
# Removing a folder

The order of two operations comes from the keys they share. The removal of a folder holds the item of
the folder and the name of the folder, and an operation on something inside the folder holds
neither. `Watched` records the folders every operation was queued in. `removesLast_of_run` is what
holds over the runs in which whatever is queued in a folder stays in order with its removal.
-/

namespace Cirrove.Journal

open Cirrove.Library

variable {ok : String → Prop} {w : World} {j j' : UploadJournal}

/-! ## What is queued in a folder -/

/-- The folders an operation is queued in: where it puts something, where it takes something from,
    and where its object is. A save of a file that is there names no folder itself. -/
def Operation.folders (names : Namespace) (op : Operation) : List String :=
  let named := match op with
    | .upload r =>
      match r.intent with
      | .create parent _ => [parent]
      | .replace _ _ => []
    | .mutation r => r.request.intent.destination.toList ++
        (r.request.intent.before.bind Node.parentId).toList
  named ++ ((names.forOperation op.id).bind (fun o => o.node.parentId)).toList

/-- The identities of the folder of a removal: those of the cloud and the local one. -/
def folderNames (names : Namespace) (removal : Uuid) (before : Node) : List String :=
  before.id :: ((names.forOperation removal).map
    (fun o => o.node.id :: o.remote.toList.map Node.id)).getD []

/-- A run, and the folders the operations of the queue were queued in. -/
structure Watched where
  world : World
  queuedIn : Uuid → List String

def Watched.create (settings : Settings) : Watched := ⟨World.create settings, fun _ => []⟩

/-- An operation is queued by the event before which there was none with its number. -/
def Watched.step (s : Watched) (e : Event) : Watched where
  world := Journal.step s.world e
  queuedIn := fun id =>
    match (Journal.step s.world e).journal.queue.find id with
    | none => []
    | some op =>
      if (s.world.journal.queue.find id).any (fun old => old.sequence = op.sequence) then
        s.queuedIn id
      else op.folders (Journal.step s.world e).journal.names

/-- The removal `n` is the one of a folder that the operation `m` was queued in. -/
def Watched.Inside (s : Watched) (removal : Uuid) (n : Nat) (other : Uuid) (m : Nat) : Prop :=
  ∃ x before y, s.world.journal.queue.find removal = some (.mutation x) ∧ x.sequence = n ∧
    x.request.intent = .removeFolder before ∧ s.world.journal.queue.find other = some y ∧
    y.sequence = m ∧ y.scope = x.request.scope ∧
    ∃ folder ∈ s.queuedIn other, folder ∈ folderNames s.world.journal.names removal before

/-- A folder is removed last. -/
structure RemovesLast (s : Watched) : Prop where
  /-- What was queued in a folder before its removal is over when the removal is handed out. -/
  handed : ∀ env x, Permitted (fun _ => True) s.world (.call env .claimMutation) →
    handedOut (exec env .claimMutation s.world.journal).result = some (.mutation x) →
    ∀ other m, s.Inside x.id x.sequence other m → m < x.sequence →
      ∀ y, (Journal.step s.world (.call env .claimMutation)).journal.queue.find other = some y →
        y.sequence = m → y.isComplete = true
  /-- No upload waits to be sent to a folder that was removed. -/
  deleted : ∀ removal n other m, s.Inside removal n other m → ∀ x r,
    s.world.journal.queue.find removal = some (.mutation x) → x.state = .applied →
      s.world.journal.queue.find other = some (.upload r) → r.state.isComplete = true

/-! ## Order by keys -/

/-- The operation is over, or it is older and holds a removal back that is neither in flight nor
    done, or it is younger and no upload. -/
def InOrder (j : UploadJournal) (removal other : Uuid) (x y : Operation) : Prop :=
  y.isComplete = true ∨
    (y.sequence < x.sequence ∧ x.begun = false ∧
      ∃ k ∈ j.queue.resources other, k ∈ j.queue.resources removal) ∨
    (x.sequence < y.sequence ∧ y.isUpload = false)

/-- What an event puts inside a folder with a removal is in order with the removal: an operation
    that is queued in the folder, the removal itself, or another identity of the folder. -/
def QueuedBehind (s : Watched) (e : Event) : Prop :=
  ∀ removal n other m, (s.step e).Inside removal n other m → ¬ s.Inside removal n other m →
    ∀ x y, (s.step e).world.journal.queue.find removal = some x →
      (s.step e).world.journal.queue.find other = some y →
      InOrder (s.step e).world.journal removal other x y

/-- The removal `n` and the operation `m` are in order as long as they are in the queue. -/
structure Behind (removal : Uuid) (n : Nat) (other : Uuid) (m : Nat) (j : UploadJournal) : Prop where
  removal_le : n ≤ j.queue.lastSequence
  other_le : m ≤ j.queue.lastSequence
  order : ∀ x y, j.queue.find removal = some x → x.sequence = n →
    j.queue.find other = some y → y.sequence = m → InOrder j removal other x y

/-- An operation with an old number was there before. -/
theorem Queue.Evolves.before {q q' : Queue} {claimed : Uuid → Uuid → Prop}
    {gained : Uuid → Resource → Prop} (h : q.Evolves claimed gained q') {id : Uuid} {op : Operation}
    (hop : q'.find id = some op) (hle : op.sequence ≤ q.lastSequence) :
    ∃ old, q.find id = some old ∧ old.Continues op := by
  cases hold : q.find id with
  | none => exact absurd (h.fresh id op hop hold) (Nat.not_lt.mpr hle)
  | some old =>
    obtain ⟨_, hlater, hcont⟩ := h.kept id old hold
    rw [hop] at hlater
    cases hlater
    exact ⟨old, rfl, hcont⟩

/-- Two operations stay in order when the removal is claimed after everything it shares a key
    with. -/
theorem Behind.evolves {removal other : Uuid} {n m : Nat} {claimed : Uuid → Uuid → Prop}
    {gained : Uuid → Resource → Prop} (h : Behind removal n other m j)
    (hevolves : j.queue.Evolves claimed gained j'.queue)
    (hfirst : ∀ token x y, claimed removal token → j.queue.find removal = some x →
      x.isUpload = false → j.queue.find other = some y → y.sequence < x.sequence →
      (∃ k ∈ j.queue.resources other, k ∈ j.queue.resources removal) → y.isComplete = true) :
    Behind removal n other m j' := by
  refine ⟨h.removal_le.trans hevolves.lastSequence, h.other_le.trans hevolves.lastSequence, ?_⟩
  intro x y hx hn hy hm
  obtain ⟨x₀, hx₀, hcontx⟩ := hevolves.before hx (hn.trans_le h.removal_le)
  obtain ⟨y₀, hy₀, hconty⟩ := hevolves.before hy (hm.trans_le h.other_le)
  have hover : y₀.isComplete = true → y.isComplete = true := by
    intro hcomplete
    rw [hconty.frozen hcomplete]
    exact hcomplete
  rcases h.order x₀ y₀ hx₀ (hcontx.sequence.symm.trans hn) hy₀ (hconty.sequence.symm.trans hm) with
    hcomplete | ⟨holder, hidle, hshared⟩ | ⟨hyounger, hmutation⟩
  · exact .inl (hover hcomplete)
  · cases hbegun : x.begun with
    | false =>
      obtain ⟨k, hk, hk'⟩ := hshared
      refine .inr (.inl ⟨?_, hbegun, k, hevolves.held _ _ hk, hevolves.held _ _ hk'⟩)
      rw [hcontx.sequence, hconty.sequence]
      exact holder
    | true =>
      -- The removal was not begun before, so this commit hands it out.
      rcases hevolves.begun removal x hx hbegun with ⟨old, hold, hwas⟩ | ⟨token, htoken⟩
      · rw [hx₀] at hold
        cases hold
        rw [hidle] at hwas
        cases hwas
      · have hchange := hcontx.isUpload.symm.trans (Operation.isUpload_of_begun hbegun)
        exact .inl (hover (hfirst token x₀ y₀ htoken hx₀ hchange hy₀ holder hshared))
  · refine .inr (.inr ⟨?_, hconty.isUpload.trans hmutation⟩)
    rw [hcontx.sequence, hconty.sequence]
    exact hyounger

theorem step_behind {e : Event} {removal other : Uuid} {n m : Nat} (hpermitted : Permitted ok w e)
    (hinv : Inv ok [] w.journal) (h : Behind removal n other m w.journal) :
    Behind removal n other m (step w e).journal := by
  refine step_invariant hpermitted hinv h ?_ ?_
  · intro env op j j' _ _ hmove hbehind
    cases hmove with
    | quiet _ hleads =>
      exact hbehind.evolves hleads.evolves (fun _ _ _ hfalse => hfalse.elim)
    | bind _ _ hbinds =>
      exact hbehind.evolves (@Binds.reaches _ _ _ _ _ hbinds.2 (fun _ _ => False)).evolves
        (fun _ _ _ hfalse => hfalse.elim)
    | claim hinv _ hold hfree hleads =>
      refine hbehind.evolves hleads.evolves ?_
      rintro _ x y ⟨rfl, _⟩ hx hchange hy holder ⟨k, hk, hk'⟩
      -- Only a direct verification overlooks the older operations, and it is the one of an upload.
      rw [hold.stored] at hx
      obtain rfl := Option.some.inj hx
      have hunblocked := hfree.resolve_left (fun hdirect => by simp_all)
      by_contra hopen
      exact (blocked_eq_false hinv.tidy).mp hunblocked other y hy holder (by simpa using hopen) k
        hk hk'
    | discard _ _ _ hdiscarded _ _ =>
      refine ⟨hdiscarded.lastSequence ▸ hbehind.removal_le,
        hdiscarded.lastSequence ▸ hbehind.other_le, ?_⟩
      intro x y hx hn hy hm
      obtain ⟨hxid, hx⟩ := hdiscarded.mem hx
      obtain ⟨hyid, hy⟩ := hdiscarded.mem hy
      refine (hbehind.order x y hx hn hy hm).imp_right (Or.imp_left ?_)
      rintro ⟨holder, hidle, k, hk, hk'⟩
      exact ⟨holder, hidle, k, (hdiscarded.resources _ _).mpr ⟨hyid, hk⟩,
        (hdiscarded.resources _ _).mpr ⟨hxid, hk'⟩⟩
  · intro j hopening
    exact h.evolves hopening.evolves (fun _ _ _ hfalse => hfalse.elim)

/-- Whatever is inside a folder is in order with the removal of the folder. -/
structure Watched.Sound (s : Watched) : Prop where
  inv : Inv (fun _ => True) [] s.world.journal
  behind : ∀ removal n other m, s.Inside removal n other m →
    Behind removal n other m s.world.journal

theorem Watched.Sound.step {s : Watched} {e : Event} (h : s.Sound)
    (hpermitted : Permitted (fun _ => True) s.world e) (hbehind : QueuedBehind s e) :
    (s.step e).Sound := by
  have hinv := step_inv hpermitted h.inv
  refine ⟨hinv, ?_⟩
  intro removal n other m hinside
  by_cases hbefore : s.Inside removal n other m
  · exact step_behind hpermitted h.inv (h.behind _ _ _ _ hbefore)
  · have hordered := hbehind _ _ _ _ hinside hbefore
    obtain ⟨x, _, y, hx, rfl, _, hy, rfl, _⟩ := hinside
    exact ⟨(hinv.queue.sequence hx).2, (hinv.queue.sequence hy).2,
      fun x y hx _ hy _ => hordered x y hx hy⟩

/-- A folder is removed last in every run that keeps what is inside in order with the removal. -/
theorem removesLast_of_run {settings : Settings} {events : List Event} {s : Watched}
    (h : Run Watched.step (fun s e => Permitted (fun _ => True) s.world e ∧ QueuedBehind s e)
      (Watched.create settings) events s) : RemovesLast s := by
  have hsound : s.Sound := by
    refine h.invariant Watched.Sound ⟨.create settings, ?_⟩ (fun s e hs he => hs.step he.1 he.2)
    rintro removal n other m ⟨_, _, _, _, _, _, _, _, _, folder, hfolder, _⟩
    cases hfolder
  refine ⟨?_, ?_⟩
  · intro env x hpermitted hx other m hinside holder y hy hm
    have hbehind := step_behind hpermitted hsound.inv (hsound.behind _ _ _ _ hinside)
    have hfirst := handedOut_first hpermitted hsound.inv (.inr (.inr rfl)) hx
    have hstored := (answered_of_call hpermitted hsound.inv _ hx).1.claimable.stored
    rcases hbehind.order (.mutation x) y hstored rfl hy hm with
      hcomplete | ⟨_, _, hshared⟩ | ⟨hyounger, _⟩
    · exact hcomplete
    · exact hfirst.older other y hy (hm.trans_lt holder) hshared
    · exact absurd (hm.trans_lt holder) hyounger.not_gt
  · intro removal n other m hinside x r hx happlied hr
    obtain ⟨x', _, y, hx', rfl, _, hy, rfl, _⟩ := id hinside
    rw [hx] at hx'
    cases hx'
    rw [hr] at hy
    cases hy
    rcases (hsound.behind _ _ _ _ hinside).order (.mutation x) _ hx rfl hr rfl with
      hcomplete | ⟨_, hidle, _⟩ | ⟨_, hmutation⟩
    · exact hcomplete
    · simp [Operation.begun, happlied] at hidle
    · cases hmutation

/-- Watching does not change what may happen. -/
theorem Watched.follows {allowed : World → Event → Prop} {events : List Event} {s : Watched}
    (h : Run.Follows Journal.step allowed s.world events) :
    Run.Follows Watched.step (fun s e => allowed s.world e) s events := by
  induction events generalizing s with
  | nil => trivial
  | cons e rest ih => exact ⟨h.1, ih h.2⟩

/-! ## Runs of calls -/

/-- The folder a removal removes. -/
def Operation.removedNode : Operation → Option Node
  | .upload _ => none
  | .mutation r =>
    match r.request.intent with
    | .removeFolder before => some before
    | _ => none

theorem Operation.removedNode_eq_some {op : Operation} {before : Node} :
    op.removedNode = some before ↔ ∃ r, op = .mutation r ∧ r.request.intent = .removeFolder before := by
  constructor
  · intro h
    cases op with
    | upload r => cases h
    | mutation r =>
      cases hintent : r.request.intent with
      | removeFolder node =>
        simp only [removedNode, hintent, Option.some.injEq] at h
        exact ⟨r, rfl, h ▸ hintent⟩
      | _ => simp [removedNode, hintent] at h
  · rintro ⟨r, rfl, hintent⟩
    simp only [removedNode, hintent]

/-- Is the removal the one of a folder that the operation was queued in? -/
def Watched.inside (s : Watched) (removal : Uuid) (n : Nat) (other : Uuid) (m : Nat) : Bool :=
  (s.world.journal.queue.find removal).any fun x => x.sequence = n && x.removedNode.any fun before =>
    (s.world.journal.queue.find other).any fun y => y.sequence = m && y.scope = x.scope &&
      (s.queuedIn other).any (folderNames s.world.journal.names removal before).contains

theorem Watched.inside_iff {s : Watched} {removal other : Uuid} {n m : Nat} :
    s.inside removal n other m = true ↔ s.Inside removal n other m := by
  simp only [Watched.inside, Option.any_eq_true, Bool.and_eq_true, decide_eq_true_eq,
    Operation.removedNode_eq_some, List.any_eq_true, List.contains_iff_mem]
  constructor
  · rintro ⟨_, hx, hn, before, ⟨x, rfl, hintent⟩, y, hy, ⟨hm, hscope⟩, folder, hin, hname⟩
    exact ⟨x, before, y, hx, hn, hintent, hy, hm, hscope, folder, hin, hname⟩
  · rintro ⟨x, before, y, hx, hn, hintent, hy, hm, hscope, folder, hin, hname⟩
    exact ⟨_, hx, hn, before, ⟨x, rfl, hintent⟩, y, hy, ⟨hm, hscope⟩, folder, hin, hname⟩

instance {s : Watched} {removal other : Uuid} {n m : Nat} :
    Decidable (s.Inside removal n other m) := decidable_of_iff _ Watched.inside_iff

instance {j : UploadJournal} {removal other : Uuid} {x y : Operation} :
    Decidable (InOrder j removal other x y) := inferInstanceAs (Decidable (_ ∨ _ ∨ _))

/-- Everything that is inside a folder is in order with its removal, by a look at all rows. -/
def Watched.ordered (s : Watched) : Bool :=
  s.world.journal.queue.operations.all fun removal =>
    s.world.journal.queue.operations.all fun other =>
      !s.inside removal.1 removal.2.sequence other.1 other.2.sequence ||
        decide (InOrder s.world.journal removal.1 other.1 removal.2 other.2)

theorem QueuedBehind.of_ordered (s : Watched) (e : Event) (h : (s.step e).ordered = true) :
    QueuedBehind s e := by
  intro removal n other m hinside _ x y hx hy
  have hpair := List.all_eq_true.mp (List.all_eq_true.mp h _ (Queue.mem_operations hx)) _
    (Queue.mem_operations hy)
  obtain ⟨x', _, y', hx', hn, _, hy', hm, _⟩ := id hinside
  rw [hx] at hx'
  rw [hy] at hy'
  obtain rfl := Option.some.inj hx'
  obtain rfl := Option.some.inj hy'
  subst hn hm
  have hin : (s.step e).inside removal (Operation.mutation x').sequence other y.sequence = true :=
    Watched.inside_iff.mpr hinside
  dsimp only at hpair
  rw [hin, Bool.not_true, Bool.false_or] at hpair
  exact of_decide_eq_true hpair

/-- A new journal after a script that is watched. -/
def watchedScript (settings : Settings) (ops : List Op) : Watched :=
  (script 1 ops).foldl Watched.step (.create settings)

/-- A script that keeps everything in order with the removals is a run under the condition. -/
theorem run_of_ordered {settings : Settings} {ops : List Op}
    (h : scripted 1 (World.create settings) ops = true)
    (hordered : Run.passes Watched.step (fun s e => (s.step e).ordered) (.create settings)
      (script 1 ops) = true) :
    Run Watched.step (fun s e => Permitted (fun _ => True) s.world e ∧ QueuedBehind s e)
      (Watched.create settings) (script 1 ops) (watchedScript settings ops) := by
  have hevents : Run.Follows Journal.step (Permitted fun _ => True) (World.create settings)
      (script 1 ops) := follows_script h (fun _ _ _ _ => trivial)
  have hpermitted := Watched.follows (s := .create settings) hevents
  have hrun := Run.start.extend (hpermitted.and (.of_passes QueuedBehind.of_ordered hordered))
  rw [List.nil_append] at hrun
  exact hrun

def sampleFolder (item parent name : String) : Node :=
  { sampleFile item parent name with kind := .folder, size := 0 }

/-- A drive whose names differ in case, on a service that ignores the case of one of them. -/
def Settings.folding : Settings :=
  ⟨"account", fun name => if name = "Letters" then "letters" else name⟩

/-- A file is uploaded into a folder, another one is moved out of it, to a name that the service
    takes for the one of the folder, and the folder is removed. -/
def emptied : List Op :=
  [.configureNamespace sampleDrive .sensitive,
    .observeNamespaceFile sampleDrive (sampleFolder "folder" "root" "letters"),
    .enqueue sampleDrive (.create "folder" "notes"), .claimNext,
    .acknowledge ⟨21⟩ ⟨31⟩ (sampleFile "notes" "folder" "notes"),
    .observeNamespaceFile sampleDrive (sampleFile "item" "folder" "draft"),
    .relocateNamespaceItem ⟨51⟩ 0 "root" "Letters", .removeNamespaceDirectory ⟨11⟩ 0,
    .claimMutation,
    .acknowledgeMutation ⟨62⟩ ⟨81⟩ (.upsert (sampleFile "item" "root" "Letters")) none,
    .claimMutation, .acknowledgeMutation ⟨71⟩ ⟨101⟩ (.removed "folder") none]

/-- The removal waits for the move out of the folder, and comes after the upload into it. -/
theorem removesLast_emptied :
    [(⟨21⟩, 1), (⟨62⟩, 2)].all (fun other =>
        (watchedScript .folding (emptied.take 8)).inside ⟨71⟩ 3 other.1 other.2) = true ∧
      (handedOut (exec (.numbered 81) .claimMutation
        (watchedScript .folding (emptied.take 8)).world.journal).result).map Operation.id =
          some ⟨62⟩ ∧
      (handedOut (exec (.numbered 101) .claimMutation
        (watchedScript .folding (emptied.take 10)).world.journal).result).map Operation.id =
          some ⟨71⟩ ∧
      RemovesLast (watchedScript .folding (emptied.take 10)) ∧
      RemovesLast (watchedScript .folding emptied) := by
  refine ⟨by decide +kernel, by decide +kernel, by decide +kernel, ?_, ?_⟩
  · exact removesLast_of_run (run_of_ordered (by decide +kernel) (by decide +kernel))
  · exact removesLast_of_run (run_of_ordered (by decide +kernel) (by decide +kernel))

/-- A file is created in a folder, and the folder is removed before the file is uploaded. -/
def overtaken : List Op :=
  [.observeNamespaceFile sampleDrive (sampleFolder "folder" "root" "letters"),
    .enqueue sampleDrive (.create "folder" "notes"), .removeNamespaceDirectory ⟨1⟩ 0]

theorem overtaken_not_removesLast :
    Run Watched.step (fun s e => Permitted (fun _ => True) s.world e) (Watched.create .sample)
        (script 1 overtaken) (watchedScript .sample overtaken) ∧
      ¬ RemovesLast (watchedScript .sample overtaken) := by
  have hscripted : scripted 1 (World.create .sample) overtaken = true := by decide +kernel
  have hfollows : Run.Follows step (Permitted fun _ => True) (World.create .sample)
      (script 1 overtaken) := follows_script hscripted (fun _ _ _ _ => trivial)
  refine ⟨?_, ?_⟩
  · have hrun := Run.start.extend (Watched.follows (s := .create .sample) hfollows)
    rw [List.nil_append] at hrun
    exact hrun
  · intro h
    have hinside : (watchedScript .sample overtaken).Inside ⟨21⟩ 2 ⟨11⟩ 1 := by decide +kernel
    -- The removal is handed out while the upload is open.
    have hhanded : (handedOut (exec (.numbered 31) .claimMutation
        (watchedScript .sample overtaken).world.journal).result).map
          (fun op => (op.id, op.sequence, op.isUpload)) = some (⟨21⟩, 2, false) := by decide +kernel
    have hopen : ((step (watchedScript .sample overtaken).world
        (.call (.numbered 31) .claimMutation)).journal.queue.find ⟨11⟩).map
          (fun op => (op.sequence, op.isComplete)) = some (1, false) := by decide +kernel
    obtain ⟨x, hx, hids⟩ := Option.map_eq_some_iff.mp hhanded
    obtain ⟨later, hlater, hstate⟩ := Option.map_eq_some_iff.mp hopen
    simp only [Prod.mk.injEq] at hids hstate
    cases x with
    | upload r => cases hids.2.2
    | mutation x =>
      obtain ⟨hid, hsequence, _⟩ : x.id = ⟨21⟩ ∧ x.sequence = 2 ∧ _ := hids
      have hpermitted : Permitted (fun _ => True) (watchedScript .sample overtaken).world
          (.call (.numbered 31) .claimMutation) :=
        ⟨by decide +kernel, World.fresh_of_below (by decide +kernel) rfl rfl, fun _ _ => trivial⟩
      rw [← hid, ← hsequence] at hinside
      have hcomplete := h.handed (.numbered 31) x hpermitted hx ⟨11⟩ 1 hinside
        (by rw [hsequence]; decide) later hlater hstate.1
      rw [hstate.2] at hcomplete
      cases hcomplete

end Cirrove.Journal
