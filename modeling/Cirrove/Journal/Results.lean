import Cirrove.Journal.Outcomes

/-!
# Claims and results keep the invariant

Each function of `Claims` that stores one operation again. The results of a worker need the token
of the claim (`activeAttempt_eq_ok`, `mutationAttempt_eq_ok`); what is in flight is bound, so a
result cannot leave an operation that waits for a receipt behind it.
-/

namespace Cirrove.Journal

open Cirrove.Library

variable {ok : String → Prop} {j j' : UploadJournal} {claimed : Uuid → Uuid → Prop}
  {gained : Uuid → Resource → Prop}

/-! ## What is known of an operation by its state -/

theorem Operation.not_waiting_of_inFlight {op : Operation} (h : op.inFlight = true) :
    op.waiting = false := by
  cases op with
  | upload r => cases hstate : r.state <;> simp_all [inFlight, waiting, UploadState.inFlight]
  | mutation r => cases hstate : r.state <;> simp_all [inFlight, waiting, MutationState.inFlight]

/-- What is in flight waits for nothing. -/
theorem Inv.ready_of_inFlight {underway : List Uuid} (hinv : Inv ok underway j) {id : Uuid}
    {op : Operation} (hfind : j.queue.find id = some op) (hflight : op.inFlight = true) :
    baseBound op.base = true ∧ j.queue.destinationReady id = true :=
  hinv.queue.bound hfind (Operation.not_isComplete_of_inFlight hflight)
    (Operation.not_waiting_of_inFlight hflight)

theorem UploadState.not_isComplete_of_inFlight {s : UploadState} (h : s.inFlight = true) :
    s.isComplete = false := by
  cases s <;> simp_all [inFlight, isComplete]

theorem MutationState.not_isComplete_of_inFlight {s : MutationState} (h : s.inFlight = true) :
    s.isComplete = false := by
  cases s <;> simp_all [inFlight, isComplete]

theorem upload_eq_ok {underway : List Uuid} (hinv : Inv ok underway j) {id : Uuid} {r : UploadRecord}
    (h : j.queue.upload id = .ok r) : j.queue.find r.id = some (.upload r) ∧ r.id = id := by
  have hfind := (Queue.upload_ok hinv.tidy).mp h
  have hid : r.id = id := hinv.tidy.id_of_find hfind
  exact ⟨hid ▸ hfind, hid⟩

theorem mutation_eq_ok {underway : List Uuid} (hinv : Inv ok underway j) {id : Uuid}
    {r : MutationRecord} (h : j.queue.mutation id = .ok r) :
    j.queue.find r.id = some (.mutation r) ∧ r.id = id := by
  have hfind := (Queue.mutation_ok hinv.tidy).mp h
  have hid : r.id = id := hinv.tidy.id_of_find hfind
  exact ⟨hid ▸ hfind, hid⟩

/-! ## Results of uploads -/

/-- Only the holder of the token gets the record. -/
theorem activeAttempt_eq_ok {underway : List Uuid} (hinv : Inv ok underway j) {id attempt : Uuid}
    {r : UploadRecord} (h : j.activeAttempt id attempt = .ok r) :
    j.queue.find r.id = some (.upload r) ∧ r.id = id ∧ r.state.inFlight = true ∧
      r.attempt = some attempt := by
  unfold UploadJournal.activeAttempt at h
  obtain ⟨r', hr', h⟩ := bind_eq_ok h
  obtain ⟨_, hcheck, h⟩ := bind_eq_ok h
  cases h
  rw [check_eq_ok, Bool.and_eq_true, decide_eq_true_eq] at hcheck
  obtain ⟨hfind, hid⟩ := upload_eq_ok hinv hr'
  exact ⟨hfind, hid, hcheck.1, hcheck.2⟩

/-- What is in flight has its bytes and no readers to wait for. -/
theorem Inv.upload_of_inFlight (hinv : Inv ok [] j) {r : UploadRecord}
    (hfind : j.queue.find r.id = some (.upload r)) (hflight : r.state.inFlight = true) :
    r.sha256.utf8ByteSize = 64 ∧ j.locallyReady r.id = true := by
  have hwell : r.WellFormed ok := hinv.queue.wellFormed hfind
  refine ⟨?_, ?_⟩
  · rcases hwell.digest with hdigest | hstate | ⟨hstate, _⟩
    · exact hdigest
    all_goals
      rw [hstate] at hflight
      cases hflight
  · unfold UploadJournal.locallyReady
    cases hrecord : j.fileReplacements.get r.id with
    | none => rfl
    | some record =>
      cases hready : record.localReady with
      | true => exact hready
      | false =>
        have hidle := ((hinv.replacements hrecord).unready hready _ hfind).1
        rw [Operation.inFlight, hflight] at hidle
        cases hidle

theorem recordSession_leads (hinv : Inv ok [] j) {id attempt key : Uuid} {transferred : Nat}
    (h : j.recordSession id attempt key transferred = .ok j') :
    Leads ok claimed gained [] j j' := by
  unfold UploadJournal.recordSession at h
  obtain ⟨r, hr, h⟩ := bind_eq_ok h
  obtain ⟨_, _, h⟩ := bind_eq_ok h
  obtain ⟨hfind, _, hflight, hattempt⟩ := activeAttempt_eq_ok hinv hr
  have hready := hinv.ready_of_inFlight hfind hflight
  obtain ⟨hdigest, hlocal⟩ := hinv.upload_of_inFlight hfind hflight
  refine (save_leads hinv h (.of_upload hinv hfind ⟨rfl, rfl, rfl, rfl, rfl, rfl, rfl⟩
    (UploadState.not_isComplete_of_inFlight hflight) ?_ ?_ (.inl hdigest) (fun _ => hlocal)
    (fun _ _ => hready) (fun _ _ => hready.2)) ?_ (fun _ => .inl ⟨hflight, rfl⟩)).1
  · simp [hattempt, UploadState.inFlight]
  all_goals simp

theorem deferAttempt_leads (hinv : Inv ok [] j) {env : Env} {id attempt : Uuid}
    {state : UploadState} {delay : Nat} (h : j.deferAttempt env id attempt state delay = .ok j') :
    Leads ok claimed gained [] j j' := by
  unfold UploadJournal.deferAttempt at h
  obtain ⟨_, hstopped, h⟩ := bind_eq_ok h
  obtain ⟨r, hr, h⟩ := bind_eq_ok h
  rw [check_eq_ok] at hstopped
  obtain ⟨hfind, _, hflight, _⟩ := activeAttempt_eq_ok hinv hr
  have hready := hinv.ready_of_inFlight hfind hflight
  obtain ⟨hdigest, hlocal⟩ := hinv.upload_of_inFlight hfind hflight
  refine (save_leads hinv h (.of_upload hinv hfind ⟨rfl, rfl, rfl, rfl, rfl, rfl, rfl⟩
    (UploadState.not_isComplete_of_inFlight hflight) ?_ ?_ (.inl hdigest) (fun _ => hlocal)
    (fun _ _ => hready) (fun _ _ => hready.2)) ?_ ?_).1
  all_goals cases state <;> simp_all [UploadState.stopped, UploadState.inFlight]

/-- A receipt that is recorded is the one of the upload in flight. -/
theorem acknowledge_eq_ok {id attempt : Uuid} {remote : Node}
    (h : j.acknowledge id attempt remote = .ok j') :
    ∃ r name, j.activeAttempt id attempt = .ok r ∧
      UploadJournal.acceptsReceipt r remote = true ∧ j.save { r with
        remote := some { remote with name := name }
        state := .uploaded
        transferredBytes := r.size
        attempt := none } = .ok j' := by
  unfold UploadJournal.acknowledge at h
  obtain ⟨r, hr, h⟩ := bind_eq_ok h
  obtain ⟨_, haccepts, h⟩ := bind_eq_ok h
  rw [check_eq_ok] at haccepts
  have hsave : ∃ name : String, j.save { r with
      remote := some { remote with name := name }
      state := .uploaded
      transferredBytes := r.size
      attempt := none } = .ok j' := by
    cases hintent : r.intent with
    | create parent name =>
      simp only [hintent] at h
      obtain ⟨name, _, h⟩ := bind_eq_ok h
      exact ⟨name.getD remote.name, h⟩
    | replace item etag =>
      simp only [hintent] at h
      obtain ⟨name, _, h⟩ := bind_eq_ok h
      exact ⟨name.getD remote.name, h⟩
  obtain ⟨name, hsave⟩ := hsave
  exact ⟨r, name, hr, haccepts, hsave⟩

theorem acknowledge_leads (hinv : Inv ok [] j) {id attempt : Uuid} {remote : Node}
    (htags : ∀ tag ∈ nodeTags remote, ok tag) (h : j.acknowledge id attempt remote = .ok j') :
    Leads ok claimed gained [] j j' := by
  obtain ⟨r, name, hr, haccepts, hsave⟩ := acknowledge_eq_ok h
  obtain ⟨hfind, _, hflight, _⟩ := activeAttempt_eq_ok hinv hr
  have hready := hinv.ready_of_inFlight hfind hflight
  have hshape : remote.id ≠ "" ∧ remote.kind = .file ∧ remote.target = none := by
    unfold UploadJournal.acceptsReceipt at haccepts
    simp only [Bool.and_eq_true, decide_eq_true_eq, Option.isNone_iff_eq_none] at haccepts
    exact ⟨haccepts.1.1.1.1.1.2, haccepts.1.1.1.1.2, haccepts.1.1.2⟩
  obtain ⟨hdigest, hlocal⟩ := hinv.upload_of_inFlight hfind hflight
  refine (save_leads hinv hsave (.of_upload hinv hfind ⟨rfl, rfl, rfl, rfl, rfl, rfl, rfl⟩
    (UploadState.not_isComplete_of_inFlight hflight) ?_ ?_ (.inl hdigest) (fun _ => hlocal)
    (fun _ _ => hready) (fun _ _ => hready.2)) ?_ ?_).1
  · simp [UploadState.inFlight]
  · intro _
    exact ⟨_, rfl, hshape.1, hshape.2.1, hshape.2.2, htags⟩
  all_goals simp [UploadState.inFlight]

/-- The bytes of a payload are there and have a digest. -/
theorem payload_eq_ok {underway : List Uuid} (hinv : Inv ok underway j) {env : Env} {id : Uuid}
    {r : UploadRecord} (hfind : j.queue.find id = some (.upload r)) {u : Unit}
    (h : j.payload env id = .ok u) : r.sha256.utf8ByteSize = 64 := by
  unfold UploadJournal.payload at h
  obtain ⟨r', hr', h⟩ := bind_eq_ok h
  obtain ⟨_, hcheck, _⟩ := bind_eq_ok h
  rw [(Queue.upload_ok hinv.tidy).mpr hfind] at hr'
  cases hr'
  rw [check_eq_ok, Bool.and_eq_true, decide_eq_true_eq, decide_eq_true_eq] at hcheck
  exact hcheck.2

theorem retryVerifiedUncommitted_leads (hinv : Inv ok [] j) {env : Env} {id : Uuid}
    (h : j.retryVerifiedUncommitted env id = .ok j') : Leads ok claimed gained [] j j' := by
  unfold UploadJournal.retryVerifiedUncommitted at h
  obtain ⟨r, hr, h⟩ := bind_eq_ok h
  obtain ⟨_, hcheck, h⟩ := bind_eq_ok h
  obtain ⟨_, hpayload, h⟩ := bind_eq_ok h
  rw [check_eq_ok, Bool.or_eq_true, decide_eq_true_eq, decide_eq_true_eq] at hcheck
  obtain ⟨hfind, hid⟩ := upload_eq_ok hinv hr
  have hdigest := payload_eq_ok hinv (hid ▸ hfind) hpayload
  refine (save_leads hinv h (.of_upload hinv hfind ⟨rfl, rfl, rfl, rfl, rfl, rfl, rfl⟩ ?_ ?_ ?_
    (.inl hdigest) ?_ ?_ ?_) ?_ ?_).1
  · rcases hcheck with hstate | hstate <;> rw [hstate] <;> rfl
  all_goals simp [UploadState.inFlight, UploadState.isComplete, Operation.waiting]

theorem requestRetry_leads (hinv : Inv ok [] j) {id : Uuid} (h : j.requestRetry id = .ok j') :
    Leads ok claimed gained [] j j' := by
  unfold UploadJournal.requestRetry at h
  obtain ⟨r, hr, h⟩ := bind_eq_ok h
  obtain ⟨_, hbound, h⟩ := bind_eq_ok h
  obtain ⟨_, hcheck, h⟩ := bind_eq_ok h
  rw [check_eq_ok] at hbound
  rw [check_eq_ok, Bool.or_eq_true, decide_eq_true_eq, decide_eq_true_eq] at hcheck
  obtain ⟨hfind, _⟩ := upload_eq_ok hinv hr
  have hattempt := hinv.queue.attempt hfind
  -- A failed upload that waits for nothing has its destination.
  have hready : j.queue.destinationReady r.id = true := by
    rcases hcheck with hstate | hstate
    · exact hinv.queue.failed hfind (by simp [Operation.failed, hstate]) hbound
    · exact (hinv.queue.bound hfind (by simp [Operation.isComplete, hstate, UploadState.isComplete])
        (by simp [Operation.waiting, hstate])).2
  -- An upload without bytes waits for a receipt.
  have hdigest : r.sha256.utf8ByteSize = 64 := by
    have hwell : r.WellFormed ok := hinv.queue.wellFormed hfind
    rcases hwell.digest with hdigest | hpreparing | ⟨_, hunbound⟩
    · exact hdigest
    · rcases hcheck with hstate | hstate <;> rw [hstate] at hpreparing <;> cases hpreparing
    · rw [hbound] at hunbound
      cases hunbound
  refine (save_leads hinv h (.of_upload hinv hfind ⟨rfl, rfl, rfl, rfl, rfl, rfl, rfl⟩ ?_ ?_ ?_
    (.inl hdigest) ?_ (fun _ _ => ⟨hbound, hready⟩) (fun _ _ => hready)) ?_ ?_).1
  · rcases hcheck with hstate | hstate <;> rw [hstate] <;> rfl
  · rcases hcheck with hstate | hstate <;>
      simpa [Operation.attempt, Operation.inFlight, hstate, UploadState.inFlight] using hattempt
  all_goals simp [UploadState.inFlight, UploadState.isComplete]

theorem releaseReplacementReaders_leads (hinv : Inv ok [] j) {id : Uuid}
    (h : j.releaseReplacementReaders id = .ok j') : Leads ok claimed gained [] j j' := by
  unfold UploadJournal.releaseReplacementReaders at h
  split at h
  · cases h
  · next record hrecord =>
    split at h
    · cases h
      exact .refl hinv
    · obtain ⟨r, _, h⟩ := bind_eq_ok h
      obtain ⟨source, _, h⟩ := bind_eq_ok h
      obtain ⟨_, _, h⟩ := bind_eq_ok h
      obtain ⟨victim, _, h⟩ := bind_eq_ok h
      obtain ⟨_, _, h⟩ := bind_eq_ok h
      cases h
      have hsound := hinv.replacements hrecord
      refine .of_inv (hinv.setReplacement ⟨hsound.key, hsound.upload, ?_, hsound.cleanup,
        hsound.rescuedDone, fun hfalse => (Bool.false_ne_true hfalse.symm).elim, hsound.awaits,
        hsound.done⟩ ?_) rfl rfl (.of_same rfl rfl rfl)
      · intro hunderway hincomplete
        obtain ⟨howner, hsource, hvictim⟩ := hsound.running hunderway hincomplete
        exact ⟨howner, hsource, hvictim⟩
      · intro other x hne hx heq
        exact hne (hinv.cleanups hx hrecord heq)

/-! ## Results of namespace changes -/

/-- Only the holder of the token gets the record. -/
theorem mutationAttempt_eq_ok {underway : List Uuid} (hinv : Inv ok underway j) {id attempt : Uuid}
    {r : MutationRecord} (h : j.mutationAttempt id attempt = .ok r) :
    j.queue.find r.id = some (.mutation r) ∧ r.id = id ∧ r.state.inFlight = true ∧
      r.attempt = some attempt := by
  unfold UploadJournal.mutationAttempt at h
  obtain ⟨r', hr', h⟩ := bind_eq_ok h
  obtain ⟨_, hcheck, h⟩ := bind_eq_ok h
  cases h
  rw [check_eq_ok, Bool.and_eq_true, decide_eq_true_eq] at hcheck
  obtain ⟨hfind, hid⟩ := mutation_eq_ok hinv hr'
  exact ⟨hfind, hid, hcheck.1, hcheck.2⟩

/-- What has been tried waits for no readers. -/
theorem Inv.localReady_of_tried (hinv : Inv ok [] j) {r : MutationRecord}
    (hfind : j.queue.find r.id = some (.mutation r)) (hpending : r.state ≠ .pending)
    (hfailed : r.state ≠ .failed ∨ baseBound r.base = true) : r.localReady = true := by
  cases hready : r.localReady with
  | true => rfl
  | false =>
    rcases (hinv.held hfind hready List.not_mem_nil).state with hstate | ⟨hstate, hunbound⟩
    · exact absurd hstate hpending
    · rcases hfailed with hfailed | hbound
      · exact absurd hstate hfailed
      · rw [hbound] at hunbound
        cases hunbound

theorem Inv.localReady_of_inFlight (hinv : Inv ok [] j) {r : MutationRecord}
    (hfind : j.queue.find r.id = some (.mutation r)) (hflight : r.state.inFlight = true) :
    r.localReady = true := by
  refine hinv.localReady_of_tried hfind ?_ (.inl ?_) <;>
  · intro hstate
    rw [hstate] at hflight
    cases hflight

theorem recordPreparedMutation_leads (hinv : Inv ok [] j) {id attempt : Uuid} {item : String}
    (h : j.recordPreparedMutation id attempt item = .ok j') : Leads ok claimed gained [] j j' := by
  unfold UploadJournal.recordPreparedMutation at h
  obtain ⟨_, _, h⟩ := bind_eq_ok h
  obtain ⟨r, hr, h⟩ := bind_eq_ok h
  obtain ⟨_, hcheck, h⟩ := bind_eq_ok h
  rw [check_eq_ok, Bool.and_eq_true, decide_eq_true_eq] at hcheck
  obtain ⟨hfind, _, hflight, hattempt⟩ := mutationAttempt_eq_ok hinv hr
  have hready := hinv.ready_of_inFlight hfind hflight
  have hlocal := hinv.localReady_of_inFlight hfind hflight
  refine (saveMutation_leads hinv h (.of_mutation hinv hfind ⟨rfl, rfl, rfl, rfl, fun h => h⟩
    (MutationState.not_isComplete_of_inFlight hflight) (.inr hready.1) ?_ ?_ ?_ (fun _ _ => hready)
    (fun _ _ => hready.2) (fun hheld => absurd (hlocal.symm.trans hheld) (by decide))) ?_
    (fun _ => .inl ⟨hflight, rfl⟩) (fun hheld => absurd (hlocal.symm.trans hheld) (by decide))).1
  all_goals simp_all [MutationState.inFlight]

/-- A receipt that is stored was accepted. -/
theorem acknowledgeMutation_leads (hinv : Inv ok [] j) {id attempt : Uuid}
    {receipt : MutationReceipt} {proof : Option VerifiedMutationContent} {state : MutationState}
    (htags : ∀ n, receipt = .upsert n → ∀ tag ∈ nodeTags n, ok tag)
    (h : j.acknowledgeMutation id attempt receipt proof = .ok (state, j')) :
    Leads ok claimed gained [] j j' := by
  unfold UploadJournal.acknowledgeMutation at h
  obtain ⟨r, hr, h⟩ := bind_eq_ok h
  obtain ⟨_, _, h⟩ := bind_eq_ok h
  obtain ⟨_, haccepts, h⟩ := bind_eq_ok h
  obtain ⟨_, _, h⟩ := bind_eq_ok h
  obtain ⟨j₁, hsave, h⟩ := bind_eq_ok h
  rw [check_eq_ok] at haccepts
  obtain ⟨rfl, rfl⟩ : _ = state ∧ j₁ = j' := by
    injection h with h
    exact ⟨congrArg Prod.fst h, congrArg Prod.snd h⟩
  obtain ⟨hfind, _, hflight, _⟩ := mutationAttempt_eq_ok hinv hr
  have hready := hinv.ready_of_inFlight hfind hflight
  have hlocal := hinv.localReady_of_inFlight hfind hflight
  have houtcome : ∀ s : MutationState, s = (if proof.isSome = true then MutationState.applied
      else UploadJournal.reconciledState r receipt) →
      s = .applied ∨ s = .conflict ∨ s = .needsReview := by
    rintro s rfl
    unfold UploadJournal.reconciledState
    repeat' split
    all_goals simp
  have hcase := houtcome _ rfl
  refine (saveMutation_leads hinv hsave (.of_mutation hinv hfind ⟨rfl, rfl, rfl, rfl, fun h => h⟩
    (MutationState.not_isComplete_of_inFlight hflight) (.inr hready.1) ?_ ?_ ?_ (fun _ _ => hready)
    (fun _ _ => hready.2) (fun hheld => absurd (hlocal.symm.trans hheld) (by decide))) ?_ ?_
    (fun hheld => absurd (hlocal.symm.trans hheld) (by decide))).1
  · rcases hcase with hstate | hstate | hstate <;> simp [hstate]
  · rcases hcase with hstate | hstate | hstate <;> simp [hstate, MutationState.inFlight]
  · intro _
    exact ⟨hflight, receipt, rfl, haccepts, htags⟩
  · rcases hcase with hstate | hstate | hstate <;> simp [hstate]
  · rcases hcase with hstate | hstate | hstate <;> simp [hstate, MutationState.inFlight]

theorem deferMutation_leads (hinv : Inv ok [] j) {env : Env} {id attempt : Uuid}
    {state : MutationState} {delay : Nat}
    (h : j.deferMutation env id attempt state delay = .ok j') : Leads ok claimed gained [] j j' := by
  unfold UploadJournal.deferMutation at h
  obtain ⟨_, hstopped, h⟩ := bind_eq_ok h
  obtain ⟨r, hr, h⟩ := bind_eq_ok h
  rw [check_eq_ok] at hstopped
  obtain ⟨hfind, _, hflight, _⟩ := mutationAttempt_eq_ok hinv hr
  have hready := hinv.ready_of_inFlight hfind hflight
  have hlocal := hinv.localReady_of_inFlight hfind hflight
  refine (saveMutation_leads hinv h (.of_mutation hinv hfind ⟨rfl, rfl, rfl, rfl, fun h => h⟩
    (MutationState.not_isComplete_of_inFlight hflight) (.inr hready.1) ?_ ?_ ?_ (fun _ _ => hready)
    (fun _ _ => hready.2) (fun hheld => absurd (hlocal.symm.trans hheld) (by decide))) ?_ ?_
    (fun hheld => absurd (hlocal.symm.trans hheld) (by decide))).1
  all_goals cases state <;>
    simp_all [UploadJournal.deferred, MutationState.stopped, MutationState.inFlight]

theorem deferMutationPreparation_leads (hinv : Inv ok [] j) {env : Env} {id attempt : Uuid}
    {delay : Nat} (h : j.deferMutationPreparation env id attempt delay = .ok j') :
    Leads ok claimed gained [] j j' := by
  unfold UploadJournal.deferMutationPreparation at h
  obtain ⟨r, hr, h⟩ := bind_eq_ok h
  obtain ⟨_, _, h⟩ := bind_eq_ok h
  obtain ⟨hfind, _, hflight, _⟩ := mutationAttempt_eq_ok hinv hr
  have hready := hinv.ready_of_inFlight hfind hflight
  have hlocal := hinv.localReady_of_inFlight hfind hflight
  refine (saveMutation_leads hinv h (.of_mutation hinv hfind ⟨rfl, rfl, rfl, rfl, fun h => h⟩
    (MutationState.not_isComplete_of_inFlight hflight) (.inr hready.1) ?_ ?_ ?_ (fun _ _ => hready)
    (fun _ _ => hready.2) (fun hheld => absurd (hlocal.symm.trans hheld) (by decide))) ?_ ?_
    (fun hheld => absurd (hlocal.symm.trans hheld) (by decide))).1
  all_goals simp [UploadJournal.deferred, MutationState.inFlight]

theorem retryUncommittedMutation_leads (hinv : Inv ok [] j) {id attempt : Uuid}
    (h : j.retryUncommittedMutation id attempt = .ok j') : Leads ok claimed gained [] j j' := by
  unfold UploadJournal.retryUncommittedMutation at h
  obtain ⟨r, hr, h⟩ := bind_eq_ok h
  obtain ⟨_, _, h⟩ := bind_eq_ok h
  obtain ⟨hfind, _, hflight, _⟩ := mutationAttempt_eq_ok hinv hr
  have hready := hinv.ready_of_inFlight hfind hflight
  have hlocal := hinv.localReady_of_inFlight hfind hflight
  refine (saveMutation_leads hinv h (.of_mutation hinv hfind ⟨rfl, rfl, rfl, rfl, fun h => h⟩
    (MutationState.not_isComplete_of_inFlight hflight) (.inr hready.1) ?_ ?_ ?_ (fun _ _ => hready)
    (fun _ _ => hready.2) (fun hheld => absurd (hlocal.symm.trans hheld) (by decide))) ?_ ?_
    (fun hheld => absurd (hlocal.symm.trans hheld) (by decide))).1
  all_goals simp [MutationState.inFlight]

theorem requestMutationRetry_leads (hinv : Inv ok [] j) {id : Uuid}
    (h : j.requestMutationRetry id = .ok j') : Leads ok claimed gained [] j j' := by
  unfold UploadJournal.requestMutationRetry at h
  obtain ⟨r, hr, h⟩ := bind_eq_ok h
  obtain ⟨_, hbound, h⟩ := bind_eq_ok h
  obtain ⟨_, hcheck, h⟩ := bind_eq_ok h
  rw [check_eq_ok] at hbound
  simp only [check_eq_ok, Bool.or_eq_true, decide_eq_true_eq] at hcheck
  obtain ⟨hfind, _⟩ := mutation_eq_ok hinv hr
  have hattempt := hinv.queue.attempt hfind
  have hready : j.queue.destinationReady r.id = true := by
    rcases hcheck with (hstate | hstate) | hstate
    · exact hinv.queue.failed hfind (by simp [Operation.failed, hstate]) hbound
    all_goals exact (hinv.queue.bound hfind
      (by simp [Operation.isComplete, hstate, MutationState.isComplete])
      (by simp [Operation.waiting, hstate])).2
  have hlocal : r.localReady = true := hinv.localReady_of_tried hfind
    (by rcases hcheck with (hstate | hstate) | hstate <;> simp [hstate]) (.inr hbound)
  refine (saveMutation_leads hinv h (.of_mutation hinv hfind ⟨rfl, rfl, rfl, rfl, fun h => h⟩ ?_
    (.inr hbound) ?_ ?_ ?_ (fun _ _ => ⟨hbound, hready⟩) (fun _ _ => hready)
    (fun hheld => absurd (hlocal.symm.trans hheld) (by decide))) ?_ ?_
    (fun hheld => absurd (hlocal.symm.trans hheld) (by decide))).1
  · rcases hcheck with (hstate | hstate) | hstate <;> rw [hstate] <;> rfl
  · simp
  · rcases hcheck with (hstate | hstate) | hstate <;>
      simpa [Operation.attempt, Operation.inFlight, hstate, MutationState.inFlight] using hattempt
  all_goals simp [MutationState.inFlight]

theorem releaseUnlinkedReaders_leads (hinv : Inv ok [] j) {id : Uuid}
    (h : j.releaseUnlinkedReaders id = .ok j') : Leads ok claimed gained [] j j' := by
  unfold UploadJournal.releaseUnlinkedReaders at h
  obtain ⟨r, hr, h⟩ := bind_eq_ok h
  obtain ⟨hfind, hid⟩ := mutation_eq_ok hinv hr
  split at h
  · cases h
    exact .refl hinv
  · cases howner : j.names.forOperation id with
    | none =>
      simp only [howner] at h
      cases h
    | some o =>
      simp only [howner] at h
      obtain ⟨_, hcheck, h⟩ := bind_eq_ok h
      rw [check_eq_ok] at hcheck
      simp only [Bool.and_eq_true, Bool.or_eq_true, decide_eq_true_eq] at hcheck
      have hstate := hcheck.1.2
      have hattempt := hinv.queue.attempt hfind
      refine (saveMutation_leads hinv h (.of_mutation hinv hfind ⟨rfl, rfl, rfl, rfl, fun _ => rfl⟩
        ?_ ?_ ?_ hattempt ?_ ?_ ?_ (fun hheld => (Bool.false_ne_true hheld.symm).elim)) ?_
        (fun hflight => .inl ⟨hflight, rfl⟩) (fun hheld => (Bool.false_ne_true hheld.symm).elim)).1
      · rcases hstate with hstate | hstate <;> rw [hstate] <;> rfl
      · rcases hstate with hstate | hstate <;> simp [hstate]
      · rcases hstate with hstate | hstate <;> simp [hstate]
      · rcases hstate with hstate | hstate <;> simp [hstate]
      · intro hincomplete hwaiting
        exact hinv.queue.bound hfind hincomplete hwaiting
      · intro hfailed hbound
        exact hinv.queue.failed hfind (decide_eq_true hfailed) hbound
      · rcases hstate with hstate | hstate <;> simp [hstate]

end Cirrove.Journal
