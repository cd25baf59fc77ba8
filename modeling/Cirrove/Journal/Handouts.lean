import Cirrove.Journal.Settling

/-!
# Handing an operation out

The four claims. Each stores one operation with a fresh token, and `HandedOut` is what the worker
that gets it can rely on: the operation is bound to its receipts, and nothing it was declared to
wait for is open. All but a direct `claim_verification` also make sure that no older operation
that is not complete holds one of its keys.
-/

namespace Cirrove.Journal

open Cirrove.Library

variable {ok : String → Prop} {start j j' : UploadJournal} {env : Env} {op : Op}
  {gained : Uuid → Resource → Prop}

/-- What a worker is handed. -/
structure HandedOut (env : Env) (j : UploadJournal) (op : Operation) : Prop where
  claimable : Claimable j.queue op
  attempt : op.attempt = some (env.uuid 0)
  flight : op.inFlight = true

/-! ## The row of the query -/

/-- No older open operation holds a key of this one. -/
theorem blocked_eq_false (ht : j.queue.Tidy) {id : Uuid} {sequence : Nat} :
    j.queue.blocked id sequence = false ↔
      ∀ a x, j.queue.find a = some x → x.sequence < sequence → x.isComplete = false →
        ∀ k, k ∈ j.queue.resources a → k ∉ j.queue.resources id := by
  unfold Queue.blocked
  simp only [List.any_eq_false, Bool.and_eq_true, decide_eq_true_eq, Bool.not_eq_true',
    List.any_eq_true, List.contains_iff_mem, not_and, not_exists]
  constructor
  · intro h a x hx hlt hincomplete k hk
    have hrow : (a, (⟨x.sequence, x.isComplete⟩ : QueueRow)) ∈ j.queue.writeQueue.rows := by
      rw [Table.mem_rows, ht.queue a, hx]
      rfl
    exact h _ hrow ⟨hlt, hincomplete⟩ k hk
  · rintro h ⟨a, row⟩ hrow ⟨hlt, hincomplete⟩ k hk
    rw [Table.mem_rows, ht.queue a] at hrow
    obtain ⟨x, hx, rfl⟩ := Option.map_eq_some_iff.mp hrow
    exact h a x hx hlt hincomplete k hk

/-- The upload a claim chooses. -/
theorem nextUpload_spec (hinv : Inv ok [] j) {state : UploadState} {now : Nat} {id : Uuid}
    {row : UploadRow} (hstate : state.isComplete = false)
    (h : j.nextUpload state now = some (id, row)) :
    row.body.id = id ∧ row.body.state = state ∧ Claimable j.queue (.upload row.body) ∧
      j.queue.blocked id row.body.sequence = false ∧ j.locallyReady id = true := by
  unfold UploadJournal.nextUpload at h
  obtain ⟨hmem, _⟩ := head_orderBy h
  rw [Table.mem_select] at hmem
  obtain ⟨id', row', hrow, hselect⟩ := hmem
  split at hselect
  · next heligible =>
    cases hselect
    obtain ⟨hcolumns, rfl⟩ := hinv.tidy.upload hrow
    have hsequence : row.sequence = row.body.sequence := congrArg UploadRow.sequence hcolumns
    have hsame : row.state = row.body.state := congrArg UploadRow.state hcolumns
    unfold UploadJournal.uploadEligible at heligible
    simp only [Bool.and_eq_true, decide_eq_true_eq, Bool.not_eq_true'] at heligible
    obtain ⟨⟨⟨⟨⟨⟨hpending, hdestination⟩, hbound⟩, hlocal⟩, hsatisfied⟩, _⟩, hfree⟩ := heligible
    rw [hsame] at hpending
    rw [hsequence] at hfree
    have hfind := Queue.find_of_upload hrow
    refine ⟨rfl, hpending, ⟨hfind, ?_, hbound, hdestination, hsatisfied⟩, hfree, hlocal⟩
    rw [Operation.isComplete, hpending]
    exact hstate
  · cases hselect

/-- The change a claim chooses. -/
theorem nextMutation_spec (hinv : Inv ok [] j) {now : Nat} {row : MutationRow}
    (h : j.nextMutation now = some row) :
    (row.body.state = .pending ∨ row.body.state = .verifyRequired) ∧ row.body.localReady = true ∧
      Claimable j.queue (.mutation row.body) ∧
      j.queue.blocked row.body.id row.body.sequence = false := by
  unfold UploadJournal.nextMutation at h
  obtain ⟨hmem, _⟩ := head_orderBy h
  rw [Table.mem_select] at hmem
  obtain ⟨id, row', hrow, hselect⟩ := hmem
  split at hselect
  · next heligible =>
    cases hselect
    obtain ⟨hcolumns, rfl⟩ := hinv.tidy.mutation hrow
    have hsequence : row.sequence = row.body.sequence := congrArg MutationRow.sequence hcolumns
    have hsame : row.state = row.body.state := congrArg MutationRow.state hcolumns
    unfold UploadJournal.mutationEligible at heligible
    simp only [Bool.and_eq_true, Bool.or_eq_true, decide_eq_true_eq, Bool.not_eq_true'] at heligible
    obtain ⟨⟨⟨⟨⟨⟨hstate, hdestination⟩, hlocal⟩, hbound⟩, hsatisfied⟩, _⟩, hfree⟩ := heligible
    rw [hsame] at hstate
    rw [hsequence] at hfree
    have hfind : j.queue.find row.body.id = some (.mutation row.body) := by
      rw [Queue.find_mutation_iff hinv.tidy, ← hcolumns]
      exact hrow
    refine ⟨hstate, hlocal, ⟨hfind, ?_, hbound, hdestination, hsatisfied⟩, hfree⟩
    rcases hstate with hstate | hstate <;> rw [Operation.isComplete, hstate] <;> rfl
  · cases hselect

/-! ## Storing the token -/

theorem satisfied_iff {q : Queue} {id : Uuid} :
    q.satisfied id = true ↔ ∀ p, (q.writePrerequisites.get (id, p)).isSome = true →
      q.completed p = true := by
  unfold Queue.satisfied
  simp only [List.all_eq_true, Bool.or_eq_true, decide_eq_true_eq]
  constructor
  · intro h p hp
    obtain ⟨u, hu⟩ := Option.isSome_iff_exists.mp hp
    exact (h ((id, p), u) ((Table.mem_rows _ _ _).mpr hu)).resolve_left (fun hne => hne rfl)
  · rintro h ⟨⟨a, p⟩, u⟩ hrow
    rw [Table.mem_rows] at hrow
    by_cases ha : a = id
    · subst ha
      exact .inr (h p (by rw [hrow]; rfl))
    · exact .inl ha

/-- Complete operations stay complete. -/
theorem Queue.Evolves.completed {q q' : Queue} {claimed : Uuid → Uuid → Prop}
    (h : q.Evolves claimed gained q') (ht : q.Tidy) (ht' : q'.Tidy) {p : Uuid}
    (hp : q.completed p = true) : q'.completed p = true := by
  obtain ⟨x, hx, hcomplete⟩ := (Queue.completed_iff ht).mp hp
  obtain ⟨x', hx', hcont⟩ := h.kept p x hx
  rw [hcont.frozen hcomplete] at hx'
  exact (Queue.completed_iff ht').mpr ⟨x, hx', hcomplete⟩

/-- An operation that is stored with a token can still be claimed by the same conditions. -/
theorem Claimable.revised {q q' : Queue} {old new : Operation} {claimed : Uuid → Uuid → Prop}
    (h : Claimable q old) (hrevised : q.Revised q' new [] false)
    (hevolves : q.Evolves claimed gained q') (ht : q.Tidy) (hid : new.id = old.id)
    (hbase : new.base = old.base) (hincomplete : new.isComplete = false) : Claimable q' new where
  stored := hrevised.find_self
  incomplete := hincomplete
  bound := hbase ▸ h.bound
  destination := Revised.ready_self hrevised (.inr (hid ▸ h.destination))
  prerequisites := by
    rw [satisfied_iff]
    intro p hp
    rw [hrevised.prerequisites, hid] at hp
    exact hevolves.completed ht hrevised.tidy (satisfied_iff.mp h.prerequisites p hp)

theorem blocked_revised {old new : Operation} (ht : j.queue.Tidy)
    (hrevised : j.queue.Revised j'.queue new [] false) (hid : new.id = old.id)
    (hsequence : new.sequence = old.sequence)
    (h : j.queue.blocked old.id old.sequence = false) :
    j'.queue.blocked new.id new.sequence = false := by
  have hkeys : ∀ a k, k ∈ j'.queue.resources a → k ∈ j.queue.resources a := by
    intro a k hk
    rw [Queue.mem_resources, hrevised.resources] at hk
    rcases hk with hk | ⟨_, hk⟩
    · exact Queue.mem_resources.mpr hk
    · cases hk
  rw [blocked_eq_false ht] at h
  rw [blocked_eq_false hrevised.tidy]
  intro a x hx hlt hincomplete k hk hk'
  by_cases ha : a = new.id
  · subst ha
    rw [hrevised.find_self] at hx
    cases hx
    exact absurd hlt (lt_irrefl _)
  · rw [hrevised.find_of_ne ha] at hx
    exact h a x hx (hsequence ▸ hlt) hincomplete k (hkeys a k hk) (hid ▸ hkeys _ k hk')

/-- An upload that can be claimed has its bytes. -/
theorem digest_of_idle (hinv : Inv ok [] j) {id : Uuid} {r : UploadRecord}
    (hfind : j.queue.find id = some (.upload r))
    (hidle : r.state = .pending ∨ r.state = .verifyRequired) : r.sha256.utf8ByteSize = 64 := by
  have hwell : r.WellFormed ok := hinv.queue.wellFormed hfind
  rcases hwell.digest with hdigest | hstate | ⟨hstate, _⟩
  · exact hdigest
  all_goals rcases hidle with hidle | hidle <;> rw [hidle] at hstate <;> cases hstate

/-- An upload is handed out. -/
theorem save_claims (hinv : Inv ok [] j) {r : UploadRecord} {state : UploadState}
    (h : j.save { r with state := state, attempt := some (env.uuid 0) } = .ok j')
    (hclaimable : Claimable j.queue (.upload r)) (hflight : state.inFlight = true)
    (hidle : r.state = .pending ∨ r.state = .verifyRequired)
    (hlocal : j.locallyReady r.id = true) :
    Leads ok (fun x token => x = r.id ∧ token = env.uuid 0) gained [] j j' ∧
      HandedOut env j' (.upload { r with state := state, attempt := some (env.uuid 0) }) ∧
      (j.queue.blocked r.id r.sequence = false → j'.queue.blocked r.id r.sequence = false) := by
  have hincomplete := UploadState.not_isComplete_of_inFlight hflight
  have hnot : ∀ s : UploadState, s.inFlight = false → state ≠ s := by
    rintro s hs rfl
    rw [hs] at hflight
    cases hflight
  have hrevises : Revises ok j (.upload r)
      (.upload { r with state := state, attempt := some (env.uuid 0) }) [] false := by
    have hdigest : r.sha256.utf8ByteSize = 64 := digest_of_idle hinv hclaimable.stored hidle
    refine .of_upload hinv hclaimable.stored ⟨rfl, rfl, rfl, rfl, rfl, rfl, rfl⟩
      hclaimable.incomplete ?_ ?_ (.inl hdigest) (fun _ => hlocal) ?_ ?_
    · simp [hflight]
    · intro huploaded
      exact absurd huploaded (hnot _ rfl)
    · intro _ _
      exact ⟨hclaimable.bound, hclaimable.destination⟩
    · intro _ _
      exact hclaimable.destination
  obtain ⟨hleads, hrevised⟩ :
      Leads ok (fun x token => x = r.id ∧ token = env.uuid 0) gained [] j j' ∧ _ :=
    save_leads hinv h hrevises (hnot _ rfl) (fun _ => .inr ⟨env.uuid 0, ⟨rfl, rfl⟩, rfl⟩)
  refine ⟨hleads, ⟨?_, rfl, hflight⟩, ?_⟩
  · exact hclaimable.revised hrevised hleads.evolves hinv.tidy rfl rfl hincomplete
  · intro hfree
    exact blocked_revised hinv.tidy hrevised rfl rfl hfree

/-- A change is handed out. -/
theorem saveMutation_claims (hinv : Inv ok [] j) {r : MutationRecord} {state : MutationState}
    (h : j.saveMutation { r with state := state, attempt := some (env.uuid 0) } = .ok j')
    (hclaimable : Claimable j.queue (.mutation r)) (hflight : state.inFlight = true)
    (hready : r.localReady = true) (hfree : j.queue.blocked r.id r.sequence = false) :
    Leads ok (fun x token => x = r.id ∧ token = env.uuid 0) gained [] j j' ∧
      HandedOut env j' (.mutation { r with state := state, attempt := some (env.uuid 0) }) ∧
      j'.queue.blocked r.id r.sequence = false := by
  have hincomplete := MutationState.not_isComplete_of_inFlight hflight
  have hnot : ∀ s : MutationState, s.inFlight = false → state ≠ s := by
    rintro s hs rfl
    rw [hs] at hflight
    cases hflight
  have hrevises : Revises ok j (.mutation r)
      (.mutation { r with state := state, attempt := some (env.uuid 0) }) [] false := by
    refine .of_mutation hinv hclaimable.stored ⟨rfl, rfl, rfl, rfl, fun h => h⟩ hclaimable.incomplete
      (.inr hclaimable.bound) (fun hresolved => absurd hresolved (hnot _ rfl)) ?_ ?_ ?_ ?_
      (fun hheld => absurd (hready.symm.trans hheld) (by decide))
    · simp [hflight]
    · intro happlied
      exact absurd happlied (hnot _ rfl)
    · intro _ _
      exact ⟨hclaimable.bound, hclaimable.destination⟩
    · intro _ _
      exact hclaimable.destination
  obtain ⟨hleads, hrevised⟩ :
      Leads ok (fun x token => x = r.id ∧ token = env.uuid 0) gained [] j j' ∧ _ :=
    saveMutation_leads hinv h hrevises (hnot _ rfl) (fun _ => .inr ⟨env.uuid 0, ⟨rfl, rfl⟩, rfl⟩)
    (fun hheld => absurd (hready.symm.trans hheld) (by decide))
  refine ⟨hleads, ⟨?_, rfl, hflight⟩, ?_⟩
  · exact hclaimable.revised hrevised hleads.evolves hinv.tidy rfl rfl hincomplete
  · exact blocked_revised hinv.tidy hrevised rfl rfl hfree

/-! ## The claims -/

/-- What a claim answers: nothing, or an operation that no older one blocks. -/
def Offered (env : Env) (j : UploadJournal) (answer : Option Operation) : Prop :=
  ∀ x, answer = some x → HandedOut env j x ∧ j.queue.blocked x.id x.sequence = false

/-- Nobody holds an operation but those who held it before, and the worker that gets the answer. -/
def Granted (start j : UploadJournal) (answer : Option Operation) : Prop :=
  ∀ id x, j.queue.find id = some x → x.inFlight = true →
    (∃ old, start.queue.find id = some old ∧ old.inFlight = true ∧ x.attempt = old.attempt) ∨
      ∃ y, answer = some y ∧ y.id = id ∧ x.attempt = y.attempt

theorem Granted.refl (start : UploadJournal) : Granted start start none := by
  intro id x hx hflight
  exact .inl ⟨x, hx, hflight, rfl⟩

theorem Granted.evolves (h : Granted start j none)
    (hevolves : j.queue.Evolves (fun _ _ => False) gained j'.queue) : Granted start j' none := by
  intro id x hx hflight
  rcases hevolves.flight id x hx hflight with ⟨old, hold, hin, heq⟩ | ⟨_, hfalse, _⟩
  · rw [heq]
    exact h id old hold hin
  · cases hfalse

/-- Binding an operation hands nothing out. -/
theorem Granted.kept : KeptByBinding ok (fun j => Granted start j none) :=
  fun hbinds h => h.evolves hbinds.reaches.evolves

theorem Granted.claim {id : Uuid} {x : Operation} (h : Granted start j none)
    (hleads : Leads ok (fun y token => y = id ∧ token = env.uuid 0) gained [] j j')
    (hid : x.id = id) (hattempt : x.attempt = some (env.uuid 0)) : Granted start j' (some x) := by
  intro y op hop hflight
  rcases hleads.evolves.flight y op hop hflight with ⟨old, hold, hin, heq⟩ | ⟨_, ⟨rfl, rfl⟩, heq⟩
  · rcases h y old hold hin with hbefore | ⟨_, hnone, _⟩
    · rw [heq]
      exact .inl hbefore
    · cases hnone
  · exact .inr ⟨x, rfl, hid, heq.trans hattempt.symm⟩

/-- The state before a claim, and before it hands something out. -/
def Unclaimed (ok : String → Prop) (start : UploadJournal) (env : Env) (op : Op)
    (j : UploadJournal) : Prop := Path ok start env op j ∧ Granted start j none

/-- What a claim leaves. -/
def Claimed (ok : String → Prop) (start : UploadJournal) (env : Env) (op : Op)
    (answer : Option Operation) (j : UploadJournal) : Prop :=
  Path ok start env op j ∧ Offered env j answer ∧ Granted start j answer

theorem Unclaimed.claimed (h : Unclaimed ok start env op j) : Claimed ok start env op none j := by
  refine ⟨h.1, ?_, h.2⟩
  intro x hx
  cases hx

/-- Everything that can be bound is bound before a claim. -/
theorem resolveReadyGenerations_contract (hstart : Inv ok [] start) (hop : op.resolves = true) :
    Commits.Contract (fun j => j = start) UploadJournal.resolveReadyGenerations
      (Path ok start env op) (fun _ => Unclaimed ok start env op) (fun j => Granted start j none) := by
  have hunclaimed : ∀ j, Bound ok start j ∧ Granted start j none → Unclaimed ok start env op j :=
    fun _ h => ⟨h.1.path hop, h.2⟩
  have hkeeps : Commits.Triple (fun j => j = start) UploadJournal.resolveReadyGenerations
      (Unclaimed ok start env op) (fun _ => Unclaimed ok start env op) := by
    refine Commits.triple_consequence (resolveReadyGenerations_keeps Granted.kept hstart)
      ?_ hunclaimed ?_
    · rintro j rfl
      exact ⟨.refl, .refl j⟩
    · rintro _ j ⟨hbound, hgranted, _⟩
      exact hunclaimed j ⟨hbound, hgranted⟩
  refine ⟨?_, (hkeeps.contract ?_ (fun _ h => h.2)).2⟩
  · exact Commits.triple_consequence hkeeps (fun _ h => h) (fun _ h => h.1) (fun _ _ h => h)
  · rintro j rfl
    exact .refl j

/-- The next upload is put off when its bytes cannot be opened. -/
theorem failUpload_unclaimed (hstart : Inv ok [] start) {id : Uuid} {row : UploadRow}
    (hunclaimed : Unclaimed ok start env op j)
    (hnext : j.nextUpload .pending env.now = some (id, row))
    (h : j.save { row.body with state := .failed } = .ok j') : Unclaimed ok start env op j' := by
  obtain ⟨hpath, hgranted⟩ := hunclaimed
  have hinv := hpath.inv hstart
  obtain ⟨_, hpending, hclaimable, _, _⟩ := nextUpload_spec hinv rfl hnext
  have hattempt := hinv.queue.attempt hclaimable.stored
  have hrevises : Revises ok j (.upload row.body)
      (.upload { row.body with state := .failed }) [] false := by
    refine .of_upload hinv hclaimable.stored ⟨rfl, rfl, rfl, rfl, rfl, rfl, rfl⟩
      hclaimable.incomplete ?_ ?_
      (.inl (digest_of_idle hinv hclaimable.stored (.inl hpending))) ?_ ?_
      (fun _ _ => hclaimable.destination)
    · simpa [Operation.attempt, Operation.inFlight, hpending, UploadState.inFlight]
        using hattempt
    · simp
    · simp [UploadState.inFlight, UploadState.isComplete]
    · simp [Operation.waiting]
  have hleads : Leads ok (fun _ _ => False) (fun _ _ => False) [] j j' :=
    (save_leads hinv h hrevises (by simp) (by simp [UploadState.inFlight])).1
  exact ⟨hpath.quiet hinv hleads, hgranted.evolves hleads.evolves⟩

/-- `UploadJournal::claim_next` hands the oldest upload out that may be sent. -/
theorem claimNext_path (hstart : Inv ok [] start) (hop : op = .claimNext) :
    Commits.Contract (fun j => j = start) (UploadJournal.claimNext env) (Path ok start env op)
      (fun r => Claimed ok start env op (r.map .upload)) (fun j => Granted start j none) := by
  have hend : ∀ j, Unclaimed ok start env op j → Granted start j none := fun _ h => h.2
  have hresolves : op.resolves = true := by
    rw [hop]
    rfl
  unfold UploadJournal.claimNext
  refine Commits.contract_bind (resolveReadyGenerations_contract hstart hresolves) ?_
  intro settled
  split
  · exact Commits.contract_pure (fun _ h => h.claimed)
  refine Commits.contract_bind (Q := fun next j => Unclaimed ok start env op j ∧
    next = j.nextUpload .pending env.now) ?_ ?_
  · refine Commits.contract_read ?_ hend
    intro j hunclaimed next hnext
    cases hnext
    exact ⟨hunclaimed, rfl⟩
  intro next
  cases next with
  | none => exact Commits.contract_pure (fun _ h => h.1.claimed)
  | some chosen =>
    obtain ⟨id, row⟩ := chosen
    refine Commits.contract_bind (Q := fun _ j => Unclaimed ok start env op j ∧
      some (id, row) = j.nextUpload .pending env.now) ?_ ?_
    · exact Commits.contract_read (fun j h _ _ => h) (fun j h => hend j h.1)
    intro payload
    cases payload with
    | error error =>
      -- The bytes cannot be opened: the upload fails, and so does the call.
      refine Commits.contract_bind (Q := fun _ => Unclaimed ok start env op) ?_
        (fun _ => Commits.contract_fail hend)
      refine Commits.contract_commit ?_ (fun j h => hend j h.1)
      rintro j ⟨hunclaimed, hnext⟩ j' h
      have hlater := failUpload_unclaimed hstart hunclaimed hnext.symm h
      exact ⟨hlater.1, hlater⟩
    | ok _ =>
      refine Commits.contract_bind (Q := fun _ => Claimed ok start env op (some (.upload { row.body with
        state := .uploading, attempt := some (env.uuid 0) }))) ?_ ?_
      · refine Commits.contract_commit ?_ (fun j h => hend j h.1)
        rintro j ⟨⟨hpath, hgranted⟩, hnext⟩ j' h
        have hinv := hpath.inv hstart
        obtain ⟨rfl, hpending, hclaimable, hfree, hlocal⟩ := nextUpload_spec hinv rfl hnext.symm
        obtain ⟨hleads, hhanded, hfree'⟩ := save_claims hinv h hclaimable rfl (.inl hpending) hlocal
        have hpath' : Path ok start env op j' := hpath.tail
          (.claim hinv (by rw [hop]; rfl) hclaimable (.inr hfree) hleads)
        refine ⟨hpath', hpath', ?_, hgranted.claim hleads rfl rfl⟩
        intro x hx
        cases hx
        exact ⟨hhanded, hfree' hfree⟩
      · intro _
        exact Commits.contract_pure (fun _ h => h)

/-- A direct verification checks everything but the older operations. -/
theorem claimVerification_spec (hinv : Inv ok [] j) {id : Uuid} {r : UploadRecord}
    (h : j.claimVerification env id = .ok (r, j')) :
    ∃ old : UploadRecord, old.id = id ∧ Claimable j.queue (.upload old) ∧
      r = { old with state := .verifying, attempt := some (env.uuid 0) } ∧
      Leads ok (fun x token => x = id ∧ token = env.uuid 0) gained [] j j' ∧
      HandedOut env j' (.upload r) ∧
      (j.queue.blocked id old.sequence = false → j'.queue.blocked id old.sequence = false) := by
  unfold UploadJournal.claimVerification at h
  obtain ⟨old, hold, h⟩ := bind_eq_ok h
  obtain ⟨hfind, rfl⟩ := upload_eq_ok hinv hold
  obtain ⟨_, hcheck, h⟩ := bind_eq_ok h
  rw [check_eq_ok] at hcheck
  simp only [Bool.and_eq_true, decide_eq_true_eq] at hcheck
  obtain ⟨⟨⟨⟨hstate, hbound⟩, hsatisfied⟩, hlocal⟩, hdestination⟩ := hcheck
  obtain ⟨j₁, hsave, h⟩ := bind_eq_ok h
  cases h
  have hclaimable : Claimable j.queue (.upload old) :=
    ⟨hfind, by rw [Operation.isComplete, hstate]; rfl, hbound, hdestination, hsatisfied⟩
  obtain ⟨hleads, hhanded, hfree⟩ := save_claims hinv hsave hclaimable rfl (.inr hstate) hlocal
  exact ⟨old, rfl, hclaimable, rfl, hleads, hhanded, hfree⟩

/-- `UploadJournal::claim_next_verification` hands the oldest upload out that is to be verified. -/
theorem claimNextVerification_path (hstart : Inv ok [] start) (hop : op = .claimNextVerification) :
    Commits.Contract (fun j => j = start) (UploadJournal.claimNextVerification env)
      (Path ok start env op) (fun r => Claimed ok start env op (r.map .upload))
      (fun j => Granted start j none) := by
  have hend : ∀ j, Unclaimed ok start env op j → Granted start j none := fun _ h => h.2
  have hresolves : op.resolves = true := by
    rw [hop]
    rfl
  unfold UploadJournal.claimNextVerification
  refine Commits.contract_bind (resolveReadyGenerations_contract hstart hresolves) ?_
  intro settled
  split
  · exact Commits.contract_pure (fun _ h => h.claimed)
  refine Commits.contract_bind (Q := fun next j => Unclaimed ok start env op j ∧
    next = j.nextUpload .verifyRequired env.now) ?_ ?_
  · refine Commits.contract_read ?_ hend
    intro j hunclaimed next hnext
    cases hnext
    exact ⟨hunclaimed, rfl⟩
  intro next
  cases next with
  | none => exact Commits.contract_pure (fun _ h => h.1.claimed)
  | some chosen =>
    obtain ⟨id, row⟩ := chosen
    refine Commits.contract_bind (Q := fun r => Claimed ok start env op (some (.upload r))) ?_ ?_
    · refine Commits.contract_transaction ?_ (fun j h => hend j h.1)
      rintro j ⟨⟨hpath, hgranted⟩, hnext⟩ r j' h
      have hinv := hpath.inv hstart
      obtain ⟨rfl, _, hstored, hfree, _⟩ := nextUpload_spec hinv rfl hnext.symm
      obtain ⟨old, hid, hclaimable, rfl, hleads, hhanded, hfree'⟩ :=
        claimVerification_spec hinv h
      -- The row of the query is the record that is claimed.
      have hsame : row.body = old := by
        have heq := hstored.stored.symm.trans
          ((congrArg j.queue.find hid.symm).trans hclaimable.stored)
        cases heq
        rfl
      rw [hsame] at hfree hfree' hleads
      have hpath' : Path ok start env op j' := hpath.tail
        (.claim hinv (by rw [hop]; rfl) hclaimable (.inr hfree) hleads)
      refine ⟨hpath', hpath', ?_, hgranted.claim hleads rfl rfl⟩
      intro x hx
      cases hx
      exact ⟨hhanded, hfree' hfree⟩
    · intro r
      exact Commits.contract_pure (fun _ h => h)

/-- `UploadJournal::claim_mutation` hands the oldest namespace change out that may be sent. -/
theorem claimMutation_path (hstart : Inv ok [] start) (hop : op = .claimMutation) :
    Commits.Contract (fun j => j = start) (UploadJournal.claimMutation env)
      (Path ok start env op) (fun r => Claimed ok start env op (r.map .mutation))
      (fun j => Granted start j none) := by
  have hend : ∀ j, Unclaimed ok start env op j → Granted start j none := fun _ h => h.2
  have hresolves : op.resolves = true := by
    rw [hop]
    rfl
  unfold UploadJournal.claimMutation
  refine Commits.contract_bind (resolveReadyGenerations_contract hstart hresolves) ?_
  intro settled
  split
  · exact Commits.contract_pure (fun _ h => h.claimed)
  refine Commits.contract_bind (Q := fun next j => Unclaimed ok start env op j ∧
    next = j.nextMutation env.now) ?_ ?_
  · refine Commits.contract_read ?_ hend
    intro j hunclaimed next hnext
    cases hnext
    exact ⟨hunclaimed, rfl⟩
  intro next
  cases next with
  | none => exact Commits.contract_pure (fun _ h => h.1.claimed)
  | some row =>
    refine Commits.contract_bind (Q := fun _ => Claimed ok start env op
      (some (.mutation { row.body with
        state := if row.body.state = .pending then .applying else .verifying
        attempt := some (env.uuid 0) }))) ?_ ?_
    · refine Commits.contract_commit ?_ (fun j h => hend j h.1)
      rintro j ⟨⟨hpath, hgranted⟩, hnext⟩ j' h
      have hinv := hpath.inv hstart
      obtain ⟨_, hready, hclaimable, hfree⟩ := nextMutation_spec hinv hnext.symm
      obtain ⟨hleads, hhanded, hfree'⟩ :=
        saveMutation_claims hinv h hclaimable (by split <;> rfl) hready hfree
      have hpath' : Path ok start env op j' := hpath.tail
        (.claim hinv (by rw [hop]; rfl) hclaimable (.inr hfree) hleads)
      refine ⟨hpath', hpath', ?_, hgranted.claim hleads rfl rfl⟩
      intro x hx
      cases hx
      exact ⟨hhanded, hfree'⟩
    · intro _
      exact Commits.contract_pure (fun _ h => h)

end Cirrove.Journal
