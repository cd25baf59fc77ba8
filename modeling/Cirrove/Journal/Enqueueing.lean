import Cirrove.Journal.Binding

/-!
# New operations

Every way an operation enters the queue: a sealed upload (`enqueue_generation`), a namespace change
(`enqueue_mutation_transaction`) and a change that is committed with its object (`enqueueChange`).
A caller may commit more in the same transaction; the specification gives it the journal in which
only the queue has changed.
-/

namespace Cirrove.Journal

open Cirrove.Library

variable {ok : String → Prop} {underway : List Uuid} {j j' : UploadJournal}
  {claimed : Uuid → Uuid → Prop} {gained : Uuid → Resource → Prop}

/-- The journal in which one operation is new. -/
structure Enters (ok : String → Prop) (underway : List Uuid) (j j' : UploadJournal)
    (op : Operation) (prerequisites : List Uuid) : Prop where
  inv : Inv ok underway j'
  rest : j' = { j with queue := j'.queue }
  admitted : ∃ keys destination,
    j.queue.Admitted j'.queue j.names op keys destination prerequisites
  evolves : j.queue.Quiet j'.queue
  failed : op.failed = false

theorem Enters.find {op : Operation} {prerequisites : List Uuid}
    (h : Enters ok underway j j' op prerequisites) (id : Uuid) :
    j'.queue.find id = if id = op.id then some op else j.queue.find id := by
  obtain ⟨keys, destination, hadmitted⟩ := h.admitted
  exact hadmitted.find id

theorem Enters.find_self {op : Operation} {prerequisites : List Uuid}
    (h : Enters ok underway j j' op prerequisites) : j'.queue.find op.id = some op := by
  rw [h.find, if_pos rfl]

theorem Enters.find_of_ne {op : Operation} {prerequisites : List Uuid} {id : Uuid}
    (h : Enters ok underway j j' op prerequisites) (hne : id ≠ op.id) :
    j'.queue.find id = j.queue.find id := by
  rw [h.find, if_neg hne]

theorem Enters.leads {op : Operation} {prerequisites : List Uuid}
    (h : Enters ok underway j j' op prerequisites) : Leads ok claimed gained underway j j' := by
  refine ⟨⟨h.inv, h.evolves.evolves, by rw [h.rest],
    .of_same (by rw [h.rest]) (by rw [h.rest]) (by rw [h.rest])⟩, ?_⟩
  intro id r hr hready hstate
  rw [h.find] at hr
  split at hr
  · cases hr
    have hfailed := h.failed
    simp [Operation.failed, hstate] at hfailed
  · exact ⟨r, hr, hready, hstate⟩

/-- What was not there before is not there after, but the new operation. -/
theorem Enters.absent {op : Operation} {prerequisites : List Uuid}
    (h : Enters ok underway j j' op prerequisites) {id : Uuid} (hid : id ≠ op.id)
    (habsent : j.queue.Absent id) : j'.queue.Absent id := by
  obtain ⟨keys, destination, hadmitted⟩ := h.admitted
  have hnone : j'.queue.find id = none := by
    rw [hadmitted.find, if_neg hid]
    exact habsent.find
  unfold Queue.find at hnone
  constructor
  · cases hupload : j'.queue.uploads.get id with
    | none => rfl
    | some row =>
      rw [hupload] at hnone
      cases hnone
  · cases hupload : j'.queue.uploads.get id with
    | none =>
      rw [hupload] at hnone
      exact Option.map_eq_none_iff.mp hnone
    | some row =>
      rw [hupload] at hnone
      cases hnone
  · intro other
    rw [hadmitted.successors]
    split
    · intro heq
      exact hid (Option.some.inj heq).symm
    · exact habsent.successors other
  · intro other
    cases hrow : j'.queue.writePrerequisites.get (id, other) with
    | none => rfl
    | some u =>
      have hsome := (hadmitted.prerequisites id other).mp (by rw [hrow]; rfl)
      rcases hsome with hold | ⟨heq, _⟩
      · rw [habsent.prerequisites other] at hold
        cases hold
      · exact absurd heq hid
  · rw [hadmitted.destinations id hid]
    exact habsent.destinations

/-- An admissible operation enters the queue. -/
theorem Enters.of_admission (hinv : Inv ok underway j) {op : Operation} {keys : List Resource}
    {prerequisites : List Uuid} {q' : Queue}
    (h : j.queue.admitOperation j.names op keys op.destination prerequisites = .ok q')
    (hadmissible : Admissible ok underway j op keys) :
    Enters ok underway j { j with queue := q' } op prerequisites := by
  have hadmitted := Queue.admit_spec hinv.tidy hadmissible.unqueued hadmissible.incomplete h
  exact ⟨hinv.admitted hadmissible hadmitted, rfl, ⟨keys, _, hadmitted⟩,
    hadmitted.evolves hadmissible.flight hadmissible.incomplete hadmissible.absent.prerequisites,
    hadmissible.failed⟩

/-! ## Uploads -/

/-- The order of a new upload is one the queue can keep. -/
structure Orderly (j : UploadJournal) (base : Option WriteBase) : Prop where
  unresolved : ∀ b, base = some b → b.resolved = false
  kind : ∀ b, base = some b → ∀ p, j.queue.find b.predecessor = some p → p.kind.isSome = true

theorem Orderly.none (j : UploadJournal) : Orderly j none :=
  ⟨fun _ h => (Option.some_ne_none _ h.symm).elim, fun _ h => (Option.some_ne_none _ h.symm).elim⟩

theorem Orderly.baseBound {base : Option WriteBase} (h : Orderly j base)
    (hbound : baseBound base = true) : base = .none := by
  cases base with
  | none => rfl
  | some b =>
    have hresolved : b.resolved = true := hbound
    rw [h.unresolved b rfl] at hresolved
    cases hresolved

/-- A new upload fits its place in the queue. -/
theorem Admissible.of_upload {r : UploadRecord} (habsent : j.queue.Absent r.id)
    (hsequence : r.sequence = j.queue.nextSequence)
    (hstate : r.state = .pending ∨ r.state = .preparing) (hattempt : r.attempt = none)
    (horder : Orderly j r.base)
    (hsource : r.base = none → ∀ item etag, r.intent = .replace item etag → ok item ∧ ok etag)
    (hdigest : r.sha256.utf8ByteSize = 64 ∨ (r.state = .preparing ∧ r.id ∈ underway)) :
    Admissible ok underway j (.upload r) (uploadResources j.settings.lowercase r.scope r.intent) where
  absent := habsent
  sequence := hsequence
  incomplete := by
    rcases hstate with hstate | hstate <;> rw [Operation.isComplete, hstate] <;> rfl
  waiting := by
    rcases hstate with hstate | hstate <;> simp [Operation.waiting, hstate]
  failed := by
    rcases hstate with hstate | hstate <;> simp [Operation.failed, hstate]
  flight := by
    rcases hstate with hstate | hstate <;> rw [Operation.inFlight, hstate] <;> rfl
  attempt := hattempt
  wellFormed := by
    refine ⟨?_, ?_, hdigest.imp_right (fun hpreparing => .inl hpreparing.1)⟩
    · intro huploaded
      rcases hstate with hstate | hstate <;> rw [hstate] at huploaded <;> cases huploaded
    · intro hbound
      exact hsource (horder.baseBound hbound)
  base := horder.kind
  keys := fun _ hk => hk
  ready := .inl rfl
  bytes := by
    intro x hx
    cases hx
    exact hdigest.imp_right And.right

theorem enqueueGeneration_spec (hinv : Inv ok underway j) {env : Env} {id : Uuid} {scope : Scope}
    {intent : UploadIntent} {order : WriteOrder} {workingFile : Option Uuid}
    {commit : UploadJournal.UploadCommit} {record : UploadRecord}
    (h : j.enqueueGeneration env id scope intent order workingFile commit = .ok (record, j'))
    (habsent : j.queue.Absent id) (horder : Orderly j order.base)
    (hsource : order.base = none → ∀ item etag, intent = .replace item etag → ok item ∧ ok etag) :
    ∃ j₁ size sha256, env.snapshot id = .ok (size, sha256) ∧
      record = UploadRecord.new env id j.queue.nextSequence scope intent order.base workingFile size
        sha256 ∧
      Enters ok underway j j₁ (.upload record) order.prerequisites ∧ commit j₁ record = .ok j' := by
  unfold UploadJournal.enqueueGeneration at h
  obtain ⟨_, _, h⟩ := bind_eq_ok h
  obtain ⟨_, _, h⟩ := bind_eq_ok h
  obtain ⟨_, _, h⟩ := bind_eq_ok h
  obtain ⟨base, prerequisites⟩ := order
  replace h : (do
      j.queue.validateBarriers scope prerequisites
      let snapshot ← env.snapshot id
      let record := UploadRecord.new env id j.queue.nextSequence scope intent base workingFile
        snapshot.1 snapshot.2
      let queue ← j.queue.admitOperation j.names (.upload record)
        (uploadResources j.settings.lowercase scope intent) (Operation.upload record).destination
        prerequisites
      let j ← commit { j with queue := queue } record
      return (record, j)) = .ok (record, j') := by
    cases base with
    | none => exact h
    | some b =>
      obtain ⟨_, _, h⟩ := bind_eq_ok h
      exact h
  obtain ⟨_, _, h⟩ := bind_eq_ok h
  obtain ⟨⟨size, sha256⟩, hsnapshot, h⟩ := bind_eq_ok h
  obtain ⟨q', hadmit, h⟩ := bind_eq_ok h
  obtain ⟨j₂, hcommit, h⟩ := bind_eq_ok h
  cases h
  refine ⟨_, size, sha256, hsnapshot, rfl, .of_admission hinv hadmit ?_, hcommit⟩
  exact .of_upload habsent rfl (.inl rfl) rfl horder hsource
    (.inl (env.snapshot_digest id size sha256 hsnapshot))

/-! ## Namespace changes -/

/-- What a new change must say about its source. -/
structure Sourced (ok : String → Prop) (request : MutationRequest) (base : Option WriteBase) :
    Prop where
  named : ∀ b, request.intent.before = some b → b.id ≠ ""
  tags : base = none → ∀ b, request.intent.before = some b → ∀ tag ∈ nodeTags b, ok tag
  preview : base.isSome = true → request.intent.preview.isSome = true

theorem Admissible.of_mutation {r : MutationRecord} {keys : List Resource}
    (habsent : j.queue.Absent r.id) (hsequence : r.sequence = j.queue.nextSequence)
    (hstate : r.state = .pending) (hattempt : r.attempt = none) (horder : Orderly j r.base)
    (hsourced : Sourced ok r.request r.base) (hready : r.localReady = true ∨ r.id ∈ underway)
    (hkeys : mutationResources j.settings.lowercase r.request = .ok keys) :
    Admissible ok underway j (.mutation r) keys where
  absent := habsent
  sequence := hsequence
  incomplete := by rw [Operation.isComplete, hstate]; rfl
  waiting := by simp [Operation.waiting, hstate]
  failed := by simp [Operation.failed, hstate]
  flight := by rw [Operation.inFlight, hstate]; rfl
  attempt := hattempt
  wellFormed := by
    refine ⟨?_, ?_, ?_, ?_, hsourced.preview⟩
    · intro b hb
      exact ⟨hsourced.named b hb, .inl (parent_of_mutationResources hkeys b hb)⟩
    · intro hresolved
      rw [hstate] at hresolved
      cases hresolved
    · intro happlied
      rw [hstate] at happlied
      cases happlied
    · intro hbound
      exact hsourced.tags (horder.baseBound hbound)
  base := horder.kind
  keys := by
    intro k hk
    simp only [Operation.keys, hkeys] at hk
    exact hk
  ready := hready
  bytes := fun _ hx => by cases hx

/-- The steps of `enqueue_mutation_transaction`. -/
theorem enqueueMutationTransaction_eq_ok {id : Uuid} {request : MutationRequest} {order : WriteOrder}
    {workingFile : Option Uuid} {attached : Bool} {commit : UploadJournal.MutationCommit}
    {record : MutationRecord}
    (h : j.enqueueMutationTransaction id request order workingFile attached commit =
      .ok (record, j')) :
    ∃ keys q', record = MutationRecord.new id j.queue.nextSequence request order.base workingFile
        true ∧
      mutationResources j.settings.lowercase request = .ok keys ∧
      j.queue.admitOperation j.names (.mutation record) keys request.intent.destination
        order.prerequisites = .ok q' ∧
      commit { j with queue := q' } record = .ok j' := by
  unfold UploadJournal.enqueueMutationTransaction at h
  obtain ⟨_, _, h⟩ := bind_eq_ok h
  replace h : (do
      j.queue.validateBarriers request.scope order.prerequisites
      let record := MutationRecord.new id j.queue.nextSequence request order.base workingFile true
      let keys ← mutationResources j.settings.lowercase request
      let queue ← j.queue.admitOperation j.names (.mutation record) keys request.intent.destination
        order.prerequisites
      let j ← commit { j with queue := queue } record
      return (record, j)) = .ok (record, j') := by
    simp only at h
    split at h
    · obtain ⟨_, _, h⟩ := bind_eq_ok h
      exact h
    · exact h
  obtain ⟨_, _, h⟩ := bind_eq_ok h
  obtain ⟨keys, hkeys, h⟩ := bind_eq_ok h
  obtain ⟨q', hadmit, h⟩ := bind_eq_ok h
  obtain ⟨j₂, hcommit, h⟩ := bind_eq_ok h
  cases h
  exact ⟨keys, q', rfl, hkeys, hadmit, hcommit⟩

theorem enqueueMutationTransaction_spec (hinv : Inv ok underway j) {id : Uuid}
    {request : MutationRequest} {order : WriteOrder} {workingFile : Option Uuid} {attached : Bool}
    {commit : UploadJournal.MutationCommit} {record : MutationRecord}
    (h : j.enqueueMutationTransaction id request order workingFile attached commit =
      .ok (record, j'))
    (habsent : j.queue.Absent id) (horder : Orderly j order.base)
    (hsourced : Sourced ok request order.base) :
    ∃ j₁, record = MutationRecord.new id j.queue.nextSequence request order.base workingFile true ∧
      Enters ok underway j j₁ (.mutation record) order.prerequisites ∧ commit j₁ record = .ok j' := by
  obtain ⟨keys, q', hrecord, hkeys, hadmit, hcommit⟩ := enqueueMutationTransaction_eq_ok h
  subst hrecord
  exact ⟨_, rfl, .of_admission hinv hadmit (.of_mutation habsent rfl rfl rfl horder hsourced (.inl rfl) hkeys),
    hcommit⟩

/-- A change without a destination enters the queue. -/
theorem enqueueChange_spec (hinv : Inv ok underway j) {r : MutationRecord}
    {prerequisites : List Uuid} (h : j.enqueueChange r prerequisites = .ok j')
    (habsent : j.queue.Absent r.id) (hsequence : r.sequence = j.queue.nextSequence)
    (hstate : r.state = .pending) (hattempt : r.attempt = none) (horder : Orderly j r.base)
    (hsourced : Sourced ok r.request r.base) (hready : r.localReady = true ∨ r.id ∈ underway)
    (hplace : r.request.intent.destination = none) :
    Enters ok underway j j' (.mutation r) prerequisites := by
  unfold UploadJournal.enqueueChange at h
  obtain ⟨keys, hkeys, h⟩ := bind_eq_ok h
  obtain ⟨q', hadmit, h⟩ := bind_eq_ok h
  cases h
  have hdestination : (Operation.mutation r).destination = none := hplace
  rw [← hdestination] at hadmit
  exact .of_admission hinv hadmit
    (.of_mutation habsent hsequence hstate hattempt horder hsourced hready hkeys)

/-! ## The requests of callers -/

theorem Unused.absent {id : Uuid} (h : Unused j id) : j.queue.Absent id :=
  ⟨h.uploads, h.mutations, h.successors, h.prerequisites, h.destinations⟩

theorem validText_ne {value : String} (h : validText value = true) : value ≠ "" := by
  unfold validText at h
  simp only [Bool.and_eq_true, decide_eq_true_eq] at h
  exact h.1.1

/-- The source of a valid request has an identity. -/
theorem named_of_validate {request : MutationRequest} (h : request.validate = true) :
    ∀ b, request.intent.before = some b → b.id ≠ "" :=
  fun b hb => (parent_of_validate h b hb).1

/-- An upload can follow a save or the move of a file, and nothing else. -/
theorem uploadIntentAfter_kind {p : Uuid} {scope : Scope} {intent : UploadIntent}
    (h : j.uploadIntentAfter p = .ok (scope, intent)) :
    ∃ op, j.queue.find p = some op ∧ op.kind = some .file ∧ op.scope = scope := by
  unfold UploadJournal.uploadIntentAfter at h
  obtain ⟨op, hop, h⟩ := bind_eq_ok h
  refine ⟨op, Queue.operation_ok.mp hop, ?_⟩
  cases op with
  | upload r =>
    cases h
    exact ⟨rfl, rfl⟩
  | mutation r =>
    simp only at h
    split at h
    · next before _ _ hintent =>
      split at h
      · next hkind =>
        cases h
        simp only [Operation.kind, hintent]
        exact ⟨congrArg some hkind, rfl⟩
      · cases h
    · cases h

/-- A preview names the same source. -/
theorem named_of_preview {request : MutationRequest} {preview : MutationIntent}
    (hpreview : request.intent.preview = some preview)
    (h : ({ request with intent := preview } : MutationRequest).validate = true) :
    ∀ b, request.intent.before = some b → b.id ≠ "" := by
  intro b hb
  have hnamed := named_of_validate h
  cases hintent : request.intent with
  | relocate before parent name =>
    rw [hintent] at hpreview hb
    cases hpreview
    cases hb
    exact hnamed { b with etag := some pendingReceipt } rfl
  | removeFile before =>
    rw [hintent] at hpreview hb
    cases hpreview
    cases hb
    exact hnamed { b with etag := some pendingReceipt } rfl
  | createFolder parent name => rw [hintent] at hpreview; cases hpreview
  | removeFolder before => rw [hintent] at hpreview; cases hpreview
  | trashNativeDocument before => rw [hintent] at hpreview; cases hpreview

/-- A change can follow what leaves something behind. -/
theorem validateMutationBase_eq_ok {p : Uuid} {request : MutationRequest} {u : Unit}
    (h : j.validateMutationBase p request = .ok u) :
    (∃ op before, j.queue.find p = some op ∧ op.scope = request.scope ∧
      request.intent.before = some before ∧ op.kind = some before.kind) ∧
      request.intent.preview.isSome = true ∧
      ∀ b, request.intent.before = some b → b.id ≠ "" := by
  unfold UploadJournal.validateMutationBase at h
  obtain ⟨op, hop, h⟩ := bind_eq_ok h
  obtain ⟨_, hscope, h⟩ := bind_eq_ok h
  rw [check_eq_ok] at hscope
  simp only [Bool.and_eq_true, decide_eq_true_eq] at hscope
  cases hbefore : request.intent.before with
  | none =>
    simp only [hbefore] at h
    cases h
  | some before =>
    simp only [hbefore] at h
    obtain ⟨_, hkind, h⟩ := bind_eq_ok h
    rw [check_eq_ok] at hkind
    simp only [Bool.and_eq_true, decide_eq_true_eq] at hkind
    cases hpreview : request.intent.preview with
    | none =>
      simp only [hpreview] at h
      cases h
    | some preview =>
      simp only [hpreview] at h
      rw [check_eq_ok] at h
      refine ⟨⟨op, before, Queue.operation_ok.mp hop, hscope.1, rfl, hkind.1⟩, rfl, ?_⟩
      rw [← hbefore]
      exact named_of_preview hpreview h

/-- The base of a change follows the last operation, if there is one. -/
theorem followLatest_spec {latest : Option Uuid} {request : MutationRequest}
    {base : Option WriteBase} (h : j.followLatest latest request = .ok base) :
    Orderly j base ∧ base.map WriteBase.predecessor = latest ∧
      (base.isSome = true → request.intent.preview.isSome = true) ∧
      (∀ b, request.intent.before = some b → b.id ≠ "") ∧
      (latest = none → request.validate = true) ∧
      (∀ p, latest = some p → ∃ op before, j.queue.find p = some op ∧ op.scope = request.scope ∧
        request.intent.before = some before ∧ op.kind = some before.kind) := by
  unfold UploadJournal.followLatest at h
  cases latest with
  | some p =>
    obtain ⟨_, hvalid, h⟩ := bind_eq_ok h
    obtain ⟨_, _, h⟩ := bind_eq_ok h
    cases h
    obtain ⟨⟨op, before, hop, hscope, hbefore, hkind⟩, hpreview, hnamed⟩ :=
      validateMutationBase_eq_ok hvalid
    refine ⟨⟨?_, ?_⟩, rfl, fun _ => hpreview, hnamed, ?_, ?_⟩
    · intro b hb
      cases hb
      rfl
    · intro b hb x hx
      cases hb
      rw [hop] at hx
      cases hx
      rw [hkind]
      rfl
    · intro hnone
      cases hnone
    · intro q hq
      cases hq
      exact ⟨op, before, hop, hscope, hbefore, hkind⟩
  | none =>
    obtain ⟨_, hvalid, h⟩ := bind_eq_ok h
    cases h
    rw [check_eq_ok] at hvalid
    refine ⟨.none j, rfl, ?_, named_of_validate hvalid, fun _ => hvalid, ?_⟩
    · intro hsome
      cases hsome
    · intro p hp
      cases hp

/-! ## Plain requests -/

section Plain

variable {env : Env}

theorem enqueue_leads (hinv : Inv ok [] j) {scope : Scope} {intent : UploadIntent}
    {record : UploadRecord} (h : j.enqueue env scope intent = .ok (record, j'))
    (hunused : Unused j (env.uuid 0))
    (htags : ∀ item etag, intent = .replace item etag → ok item ∧ ok etag) :
    Leads ok claimed gained [] j j' := by
  obtain ⟨j₁, _, _, _, _, henters, hcommit⟩ := enqueueGeneration_spec hinv h hunused.absent
    (.none j) (fun _ => htags)
  cases hcommit
  exact henters.leads

theorem enqueueAfterAll_leads (hinv : Inv ok [] j) {predecessor : Uuid} {prerequisites : List Uuid}
    {record : UploadRecord} (h : j.enqueueAfterAll env predecessor prerequisites = .ok (record, j'))
    (hunused : Unused j (env.uuid 0)) : Leads ok claimed gained [] j j' := by
  unfold UploadJournal.enqueueAfterAll at h
  obtain ⟨⟨scope, intent⟩, hintent, h⟩ := bind_eq_ok h
  obtain ⟨_, _, h⟩ := bind_eq_ok h
  obtain ⟨op, hop, hkind, _⟩ := uploadIntentAfter_kind hintent
  have horder : Orderly j (some ⟨predecessor, false⟩) := by
    refine ⟨fun b hb => by cases hb; rfl, ?_⟩
    intro b hb p hp
    cases hb
    rw [hop] at hp
    cases hp
    rw [hkind]
    rfl
  obtain ⟨j₁, _, _, _, _, henters, hcommit⟩ := enqueueGeneration_spec hinv h hunused.absent horder
    (fun hnone => by cases hnone)
  cases hcommit
  exact henters.leads

theorem enqueueMutation_leads (hinv : Inv ok [] j) {request : MutationRequest}
    {record : MutationRecord} (h : j.enqueueMutation env request = .ok (record, j'))
    (hunused : Unused j (env.uuid 0))
    (htags : ∀ b, request.intent.before = some b → ∀ tag ∈ nodeTags b, ok tag) :
    Leads ok claimed gained [] j j' := by
  unfold UploadJournal.enqueueMutation at h
  obtain ⟨_, hvalid, h⟩ := bind_eq_ok h
  rw [check_eq_ok] at hvalid
  obtain ⟨j₁, _, henters, hcommit⟩ := enqueueMutationTransaction_spec hinv h hunused.absent (.none j)
    ⟨named_of_validate hvalid, fun _ => htags, fun hsome => by cases hsome⟩
  cases hcommit
  exact henters.leads

theorem enqueueMutationAfterAll_leads (hinv : Inv ok [] j) {predecessor : Uuid}
    {prerequisites : List Uuid} {request : MutationRequest} {record : MutationRecord}
    (h : j.enqueueMutationAfterAll env predecessor prerequisites request = .ok (record, j'))
    (hunused : Unused j (env.uuid 0)) : Leads ok claimed gained [] j j' := by
  unfold UploadJournal.enqueueMutationAfterAll at h
  obtain ⟨_, hvalid, h⟩ := bind_eq_ok h
  obtain ⟨_, _, h⟩ := bind_eq_ok h
  obtain ⟨⟨op, before, hop, _, hbefore, hkind⟩, hpreview, hnamed⟩ := validateMutationBase_eq_ok hvalid
  have horder : Orderly j (some ⟨predecessor, false⟩) := by
    refine ⟨fun b hb => by cases hb; rfl, ?_⟩
    intro b hb p hp
    cases hb
    rw [hop] at hp
    cases hp
    rw [hkind]
    rfl
  obtain ⟨j₁, _, henters, hcommit⟩ := enqueueMutationTransaction_spec hinv h hunused.absent horder
    ⟨hnamed, fun hnone => (Option.some_ne_none _ hnone).elim, fun _ => hpreview⟩
  cases hcommit
  exact henters.leads

end Plain

end Cirrove.Journal
