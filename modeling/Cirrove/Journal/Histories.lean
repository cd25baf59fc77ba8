import Cirrove.Journal.Calls

/-!
# Whole runs

A run is any sequence of calls, of deaths between two commits of a call, and of openings. What every
move and the opening keep is kept by every event (`step_invariant`), so the invariant of the journal
holds after every run (`inv_of_run`).
-/

namespace Cirrove.Journal

open Cirrove.Library

variable {ok : String → Prop} {w : World}

/-! ## A new journal -/

/-- All tables are empty. -/
theorem Inv.create (settings : Settings) : Inv ok [] (UploadJournal.create settings) where
  queue := {
    tidy := ⟨fun h => (by cases h), fun h => (by cases h), fun h => (by cases h), fun _ => rfl⟩
    attempt := fun h => (by cases h)
    sequence := fun h => (by cases h)
    unique := fun h => (by cases h)
    wellFormed := fun h => (by cases h)
    lineage := fun h => (by cases h)
    successor := fun h => (by cases h)
    bound := fun h => (by cases h)
    failed := fun h => (by cases h) }
  covered := fun h => (by cases h)
  objects := fun h => (by cases h)
  files := fun h => (by cases h)
  destinations := fun h => (by cases h)
  parents := fun h => (by cases h)
  replacements := fun h => (by cases h)
  index := {
    key := fun h => (by cases h)
    names := fun h => (by cases h)
    entries := fun _ _ => ⟨fun h => (by cases h), fun ⟨_, h, _⟩ => (by cases h)⟩
    remote := fun _ _ => ⟨fun h => (by cases h), fun ⟨_, _, h, _⟩ => (by cases h)⟩
    operations := fun h => (by cases h)
    owned := fun h => (by cases h)
    follows := fun h => (by cases h)
    working := fun h => (by cases h)
    placed := fun h => (by cases h) }
  latest := fun h => (by cases h)
  cleanups := fun h => (by cases h)
  held := fun h => (by cases h)
  detached := fun h => (by cases h)
  unsealed := fun h => (by cases h)

/-! ## What a step does to the journal -/

/-- Every state a call commits is on a path of moves. -/
theorem performs_states {start : UploadJournal} {env : Env} {op : Op}
    (h : Performs ok start env op (exec env op)) :
    ∀ m ∈ (exec env op start).states, Path ok start env op m := (h.1 start rfl).1

/-- The journal after some of the commits of a computation. -/
theorem taken_of_states {α : Type} {K : UploadJournal → Prop} {start : UploadJournal}
    {x : Commits UploadJournal JournalError α} (hstart : K start) (h : ∀ m ∈ (x start).states, K m)
    (commits : Nat) : K (((x start).states.take commits).getLastD start) := by
  rw [List.getLastD_eq_getLast?]
  cases hlast : ((x start).states.take commits).getLast? with
  | none => exact hstart
  | some m => exact h m (List.mem_of_mem_take (List.mem_of_getLast? hlast))

/-- The journal after a call. -/
theorem step_call_journal (env : Env) (op : Op) :
    (step w (.call env op)).journal = (exec env op w.journal).final w.journal := by
  show (World.learn _ _).journal = _
  unfold World.learn
  split <;> rfl

/-- The call of an event, whether it ends or not. -/
def Event.request : Event → Option (Env × Op)
  | .call env op => some (env, op)
  | .die env op _ => some (env, op)
  | .start _ => none
  | .startDies _ _ => none

/-- What holds of the journal and is kept by every move and by the opening is kept by every
    event. -/
theorem step_invariant {K : UploadJournal → Prop} {e : Event} (hpermitted : Permitted ok w e)
    (hinv : Inv ok [] w.journal) (hK : K w.journal)
    (hmove : ∀ env op j j', e.request = some (env, op) → Fresh w env op →
      Move ok w.journal env op j j' → K j → K j')
    (hopen : ∀ j, Opening ok w.journal j → K j) : K (step w e).journal := by
  have hpath : ∀ {env op j}, e.request = some (env, op) → Fresh w env op →
      Path ok w.journal env op j → K j := by
    intro env op j hrequest hfresh hpath
    exact hpath.invariant K hK (fun a b hab => hmove env op a b hrequest hfresh hab)
  cases e with
  | call env op =>
    obtain ⟨_, hfresh, htags⟩ := hpermitted
    have hperforms := exec_path hinv hfresh.injective hfresh.unused op hfresh.parent hfresh.captured
      htags
    rw [step_call_journal]
    exact Commits.final_of_states hK
      (fun m hm => hpath rfl hfresh (performs_states hperforms m hm))
  | die env op commits =>
    obtain ⟨_, hfresh, htags⟩ := hpermitted
    have hperforms := exec_path hinv hfresh.injective hfresh.unused op hfresh.parent hfresh.captured
      htags
    exact taken_of_states hK (fun m hm => hpath rfl hfresh (performs_states hperforms m hm)) commits
  | start size =>
    exact Commits.final_of_states hK (fun m hm => hopen m ((reopen_path hinv size _ rfl).1 m hm))
  | startDies size commits =>
    exact taken_of_states hK (fun m hm => hopen m ((reopen_path hinv size _ rfl).1 m hm)) commits

theorem step_inv {e : Event} (hpermitted : Permitted ok w e) (hinv : Inv ok [] w.journal) :
    Inv ok [] (step w e).journal :=
  step_invariant hpermitted hinv hinv (fun _ _ _ _ _ _ hmove _ => hmove.inv) (fun _ h => h.inv)

/-- What a call hands out can be relied on in the journal it leaves behind. -/
theorem answered_of_call {env : Env} {op : Op} (hpermitted : Permitted ok w (.call env op))
    (hinv : Inv ok [] w.journal) :
    Answered env op (step w (.call env op)).journal (handedOut (exec env op w.journal).result) := by
  obtain ⟨_, hfresh, htags⟩ := hpermitted
  have hperforms := exec_path hinv hfresh.injective hfresh.unused op hfresh.parent hfresh.captured
      htags
  rw [step_call_journal]
  intro x hx
  cases hresult : (exec env op w.journal).result with
  | error e =>
    rw [hresult] at hx
    cases hx
  | ok reply =>
    rw [hresult] at hx
    exact ((hperforms.1 _ rfl).2 reply hresult).2.1 x hx

/-- The invariant holds after every run. -/
theorem inv_of_run {settings : Settings} {events : List Event}
    (h : Run step (Permitted ok) (World.create settings) events w) : Inv ok [] w.journal :=
  h.invariant (fun w => Inv ok [] w.journal) (.create settings)
    (fun _ _ hinv hpermitted => step_inv hpermitted hinv)

/-! ## Scripted runs -/

/-- This is not the name of a folder that was created here. -/
def foreign (parent : String) : Bool := parent.toList.head? ≠ some 'l'

theorem foreign.ne {parent : String} (h : foreign parent = true) (id : Uuid) :
    parent ≠ localDirectory id := by
  rintro rfl
  have hhead : (localDirectory id).toList.head? = some 'l' := by
    unfold localDirectory
    rw [String.toList_append, String.toList_ofList]
    rfl
  simp [foreign, hhead] at h

/-- Every identity of an operation is below `n`. -/
def Operation.below (n : Nat) (op : Operation) : Bool :=
  op.attempt.all (·.value < n) && op.destination.all foreign

/-- Every identity of the world is below `n`. -/
def World.below (w : World) (n : Nat) : Bool :=
  w.journal.queue.uploads.rows.all (fun row =>
      row.1.value < n && (Operation.upload row.2.body).below n) &&
    w.journal.queue.mutations.rows.all (fun row =>
      row.1.value < n && (Operation.mutation row.2.body).below n) &&
    w.journal.queue.writeQueue.rows.all (fun row => row.1.value < n) &&
    w.journal.queue.writeResources.rows.all (fun row => row.1.1.value < n) &&
    w.journal.queue.writeSuccessors.rows.all (fun row => row.1.value < n && row.2.value < n) &&
    w.journal.queue.writePrerequisites.rows.all (fun row =>
      row.1.1.value < n && row.1.2.value < n) &&
    w.journal.queue.writeDestinations.rows.all (fun row => row.1.value < n) &&
    w.journal.names.objects.rows.all (fun row => row.1.value < n) &&
    w.journal.names.operations.rows.all (fun row => row.1.value < n) &&
    w.journal.workingFiles.rows.all (fun row => row.1.value < n) &&
    w.journal.fileReplacements.rows.all (fun row => row.1.value < n) &&
    w.issued.all (fun token => token.2.value < n)

/-- A table has no row with a key outside of what all its keys satisfy. -/
theorem get_eq_none_of_all {K V : Type} [DecidableEq K] {t : Table K V} {p : K × V → Bool}
    (h : t.rows.all p = true) {k : K} (hk : ∀ v, p (k, v) = false) : t.get k = none := by
  cases hget : t.get k with
  | none => rfl
  | some v =>
    have hp := List.all_eq_true.mp h (k, v) ((t.mem_rows k v).mpr hget)
    rw [hk v] at hp
    cases hp

/-- What the rows say about all operations. -/
theorem Operation.of_rows {j : UploadJournal} {p : Operation → Bool}
    (huploads : j.queue.uploads.rows.all (fun row => p (.upload row.2.body)) = true)
    (hmutations : j.queue.mutations.rows.all (fun row => p (.mutation row.2.body)) = true)
    {id : Uuid} {op : Operation} (h : j.queue.find id = some op) : p op = true := by
  unfold Queue.find at h
  split at h
  · next row hrow =>
    cases h
    exact List.all_eq_true.mp huploads (id, row) ((Table.mem_rows _ _ _).mpr hrow)
  · obtain ⟨row, hrow, rfl⟩ := Option.map_eq_some_iff.mp h
    exact List.all_eq_true.mp hmutations (id, row) ((Table.mem_rows _ _ _).mpr hrow)

/-- What is not below is unused. -/
theorem World.unused_of_below {n m : Nat} (h : w.below n = true) (hm : n ≤ m) :
    Unused w.journal ⟨m⟩ := by
  have hlt : decide (m < n) = false := decide_eq_false (Nat.not_lt.mpr hm)
  simp only [World.below, Bool.and_eq_true] at h
  obtain ⟨⟨⟨⟨⟨⟨⟨⟨⟨⟨⟨huploads, hmutations⟩, hqueue⟩, hresources⟩, hsuccessors⟩, hprerequisites⟩,
    hdestinations⟩, hobjects⟩, hoperations⟩, hworking⟩, hreplacements⟩, _⟩ := h
  have hop : ∀ {id : Uuid} {op : Operation}, w.journal.queue.find id = some op →
      op.below n = true := by
    intro id op hfind
    refine Operation.of_rows ?_ ?_ hfind
    · exact List.all_eq_true.mpr (fun row hrow =>
        (Bool.and_eq_true_iff.mp (List.all_eq_true.mp huploads row hrow)).2)
    · exact List.all_eq_true.mpr (fun row hrow =>
        (Bool.and_eq_true_iff.mp (List.all_eq_true.mp hmutations row hrow)).2)
  refine ⟨get_eq_none_of_all huploads ?_, get_eq_none_of_all hmutations ?_,
    get_eq_none_of_all hqueue ?_, ?_, ?_, fun key => get_eq_none_of_all hresources ?_,
    get_eq_none_of_all hsuccessors ?_, ?_, fun other => get_eq_none_of_all hprerequisites ?_,
    fun other => get_eq_none_of_all hprerequisites ?_, get_eq_none_of_all hdestinations ?_,
    get_eq_none_of_all hobjects ?_, get_eq_none_of_all hoperations ?_,
    get_eq_none_of_all hworking ?_, get_eq_none_of_all hreplacements ?_⟩
  case refine_4 =>
    intro other op hfind hattempt
    have hbelow := (Bool.and_eq_true_iff.mp (hop hfind)).1
    rw [hattempt] at hbelow
    exact absurd (of_decide_eq_true hbelow) (Nat.not_lt.mpr hm)
  case refine_5 =>
    intro other op hfind hdestination
    have hforeign := (Bool.and_eq_true_iff.mp (hop hfind)).2
    rw [hdestination] at hforeign
    exact foreign.ne hforeign ⟨m⟩ rfl
  case refine_8 =>
    intro other hother
    have hrow := List.all_eq_true.mp hsuccessors (other, ⟨m⟩) ((Table.mem_rows _ _ _).mpr hother)
    exact absurd (of_decide_eq_true (Bool.and_eq_true_iff.mp hrow).2) (Nat.not_lt.mpr hm)
  all_goals
    intro v
    simp only [hlt, Bool.false_and, Bool.and_false]

/-- The surroundings of a call that draws its identities from `n` on. -/
def Env.numbered (n : Nat) : Env where
  uuid i := ⟨n + i⟩
  now := 0
  snapshot _ := .ok (1, "0000000000000000000000000000000000000000000000000000000000000000")
  payload _ := .ok ()
  snapshot_digest := by
    intro _ _ _ h
    cases h
    rfl

/-- Calls one after the other, with identities that grow. -/
def script (n : Nat) : List Op → List Event
  | [] => []
  | op :: rest => .call (.numbered n) op :: script (n + 10) rest

/-- Every call of a script can be made when it is its turn. -/
def scripted (n : Nat) (w : World) : List Op → Bool
  | [] => true
  | op :: rest => w.running && w.below n && op.parent.all foreign &&
    op.captured.all (fun entry => !isLocalDirectory entry.2.id) &&
    scripted (n + 10) (step w (.call (.numbered n) op)) rest

theorem World.fresh_of_below {n : Nat} {op : Op} (h : w.below n = true)
    (hparent : op.parent.all foreign = true)
    (hcaptured : op.captured.all (fun entry => !isLocalDirectory entry.2.id) = true) :
    Fresh w (.numbered n) op where
  injective := by
    intro a b heq
    have heq := congrArg Uuid.value heq
    exact Nat.add_left_cancel heq
  unused i := World.unused_of_below h (Nat.le_add_right n i)
  unissued := by
    intro i id hmem
    simp only [World.below, Bool.and_eq_true] at h
    have hbelow := of_decide_eq_true (List.all_eq_true.mp h.2 _ hmem)
    exact absurd hbelow (Nat.not_lt.mpr (Nat.le_add_right n i))
  parent := by
    intro i heq
    rw [heq] at hparent
    exact foreign.ne hparent _ rfl
  captured := by
    intro scope node hmem hlocal
    have hforeign := List.all_eq_true.mp hcaptured _ hmem
    rw [hlocal] at hforeign
    cases hforeign

/-- A script that passes its check is a run. -/
theorem follows_script {n : Nat} {ops : List Op} (h : scripted n w ops = true)
    (htags : ∀ op ∈ ops, ∀ tag ∈ op.tags, ok tag) :
    Run.Follows step (Permitted ok) w (script n ops) := by
  induction ops generalizing n w with
  | nil => trivial
  | cons op rest ih =>
    unfold scripted at h
    simp only [Bool.and_eq_true] at h
    obtain ⟨⟨⟨⟨hrunning, hbelow⟩, hparent⟩, hcaptured⟩, hrest⟩ := h
    refine ⟨⟨hrunning, World.fresh_of_below hbelow hparent hcaptured,
      htags op List.mem_cons_self⟩, ?_⟩
    exact ih hrest (fun op hop => htags op (List.mem_cons_of_mem _ hop))

/-- An account whose names are compared as they are, and a drive of it. -/
def Settings.sample : Settings := ⟨"account", id⟩

def sampleDrive : Scope := ⟨"account", "onedrive", "drive"⟩

def sampleFile (item parent name : String) : Node where
  id := item
  parentId := some parent
  name := name
  kind := .file
  size := 1
  modifiedUnix := 0
  etag := some "v1"
  contentVersion := none
  target := none
  package := false

/-- A new journal after a script. -/
def scriptWorld (settings : Settings) (ops : List Op) : World :=
  (script 1 ops).foldl step (World.create settings)

theorem run_of_script {settings : Settings} {ops : List Op}
    (h : scripted 1 (World.create settings) ops = true)
    (htags : ∀ op ∈ ops, ∀ tag ∈ op.tags, ok tag) :
    Run step (Permitted ok) (World.create settings) (script 1 ops) (scriptWorld settings ops) := by
  have hrun := Run.start.extend (follows_script h htags)
  rw [List.nil_append] at hrun
  exact hrun

/-- A script that also passes the check of a condition is a run under the condition. -/
theorem run_of_checked {settings : Settings} {ops : List Op} {allowed : World → Event → Prop}
    {check : World → Event → Bool} (hcheck : ∀ w e, check w e = true → allowed w e)
    (h : scripted 1 (World.create settings) ops = true)
    (hchecked : Run.passes step check (World.create settings) (script 1 ops) = true)
    (htags : ∀ op ∈ ops, ∀ tag ∈ op.tags, ok tag) :
    Run step (fun w e => Permitted ok w e ∧ allowed w e) (World.create settings) (script 1 ops)
      (scriptWorld settings ops) := by
  have hrun := Run.start.extend ((follows_script h htags).and (.of_passes hcheck hchecked))
  rw [List.nil_append] at hrun
  exact hrun

end Cirrove.Journal
