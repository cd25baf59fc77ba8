import Cirrove.Journal.Fencing
import Cirrove.Journal.Retaining

/-!
# What is sent without a look at the cloud

Every call of the journal and every opening keeps what was tried tried (`step_follows`), but for the
three reports that say of an operation that nothing of it is under way (`Op.returnsUpload`,
`Op.returnsChange`). So an operation is handed out to be sent at once only when it is new or such a
report was made since (`reported_of_run`).
-/

namespace Cirrove.Journal

open Cirrove.Library

variable {apart : Apart} {start j j' : UploadJournal} {env : Env}

/-! ## Working files -/

theorem writeWorkingRow_queue {slot : Option Slot} {w : WorkingFile} {absent : JournalError}
    (h : j.writeWorkingRow slot w absent = .ok j') : j'.queue = j.queue := by
  unfold UploadJournal.writeWorkingRow at h
  split at h
  · cases h
  · obtain ⟨_, _, h⟩ := bind_eq_ok h
    cases h
    rfl

theorem saveWorking_queue {w : WorkingFile} (h : j.saveWorking w = .ok j') :
    j'.queue = j.queue := by
  unfold UploadJournal.saveWorking at h
  obtain ⟨_, _, h⟩ := bind_eq_ok h
  obtain ⟨j₁, hrow, h⟩ := bind_eq_ok h
  obtain ⟨_, _, h⟩ := bind_eq_ok h
  have hsame := writeWorkingRow_queue hrow
  cases h
  exact hsame

theorem moveWorking_queue {w : Option WorkingFile} {change : WorkingFile → WorkingFile}
    (h : j.moveWorking w change = .ok j') : j'.queue = j.queue := by
  unfold UploadJournal.moveWorking at h
  split at h
  · cases h
    rfl
  · obtain ⟨_, _, h⟩ := bind_eq_ok h
    obtain ⟨_, _, h⟩ := bind_eq_ok h
    exact writeWorkingRow_queue h

theorem publishWorking_queue {scope : Scope} {node : Node} {new truncate : Bool} {w : WorkingFile}
    (h : j.publishWorking env scope node new truncate = .ok (w, j')) : j'.queue = j.queue := by
  unfold UploadJournal.publishWorking at h
  obtain ⟨_, _, h⟩ := bind_eq_ok h
  obtain ⟨_, _, h⟩ := bind_eq_ok h
  obtain ⟨_, _, h⟩ := bind_eq_ok h
  obtain ⟨_, _, h⟩ := bind_eq_ok h
  split at h
  · cases new with
    | true =>
      obtain ⟨_, _, h⟩ := bind_eq_ok h
      obtain ⟨_, _, h⟩ := bind_eq_ok h
      obtain ⟨_, _, h⟩ := bind_eq_ok h
      obtain ⟨_, _, h⟩ := bind_eq_ok h
      obtain ⟨_, _, h⟩ := bind_eq_ok h
      obtain ⟨_, _, h⟩ := bind_eq_ok h
      obtain ⟨_, _, h⟩ := bind_eq_ok h
      cases h
      rfl
    | false =>
      simp only [Bool.false_eq_true, if_false] at h
      split at h
      · obtain ⟨_, _, h⟩ := bind_eq_ok h
        obtain ⟨_, _, h⟩ := bind_eq_ok h
        obtain ⟨_, _, h⟩ := bind_eq_ok h
        obtain ⟨_, _, h⟩ := bind_eq_ok h
        obtain ⟨_, _, h⟩ := bind_eq_ok h
        obtain ⟨_, _, h⟩ := bind_eq_ok h
        obtain ⟨_, _, h⟩ := bind_eq_ok h
        cases h
        rfl
      · obtain ⟨_, hnone, _⟩ := bind_eq_ok h
        cases hnone
  · cases h

theorem markDirty_queue {id : Uuid} {w : WorkingFile} (h : j.markDirty id = .ok (w, j')) :
    j'.queue = j.queue := by
  unfold UploadJournal.markDirty at h
  obtain ⟨_, _, h⟩ := bind_eq_ok h
  obtain ⟨_, _, h⟩ := bind_eq_ok h
  obtain ⟨j₁, hsave, h⟩ := bind_eq_ok h
  cases h
  exact saveWorking_queue hsave

theorem commitGeneration_queue {id : Uuid} {generation : Nat} {previous : Option Uuid}
    {r : UploadRecord} (h : UploadJournal.commitGeneration id generation previous j r = .ok j') :
    j'.queue = j.queue := by
  unfold UploadJournal.commitGeneration at h
  split at h
  · cases h
  · obtain ⟨_, _, h⟩ := bind_eq_ok h
    obtain ⟨_, _, h⟩ := bind_eq_ok h
    cases h
    rfl

theorem commitRelocationOf_queue {w : WorkingFile} {r : MutationRecord}
    (h : UploadJournal.commitRelocationOf w j r = .ok j') : j'.queue = j.queue := by
  unfold UploadJournal.commitRelocationOf at h
  split at h
  · cases h
  · obtain ⟨_, _, h⟩ := bind_eq_ok h
    split at h
    · obtain ⟨_, _, h⟩ := bind_eq_ok h
      obtain ⟨_, _, h⟩ := bind_eq_ok h
      obtain ⟨_, _, h⟩ := bind_eq_ok h
      obtain ⟨j₁, hrow, h⟩ := bind_eq_ok h
      obtain ⟨_, _, h⟩ := bind_eq_ok h
      have hsame := writeWorkingRow_queue hrow
      cases h
      exact hsame
    · cases h

theorem sealWorking_retains {upload id : Uuid} {r : Option UploadRecord} (hid : apart.new upload)
    (h : j.sealWorking env upload id = .ok (r, j')) : j.queue.Retains apart j'.queue := by
  unfold UploadJournal.sealWorking at h
  obtain ⟨w, _, h⟩ := bind_eq_ok h
  have hcommit : ∀ j (r : UploadRecord) j',
      UploadJournal.commitGeneration id w.generation w.latest j r = .ok j' →
        j.queue.Retains apart j'.queue :=
    fun _ _ _ h => commitGeneration_queue h ▸ .refl _
  split at h
  · cases h
    exact .refl _
  · split at h
    · obtain ⟨_, _, h⟩ := bind_eq_ok h
      obtain ⟨_, _, h⟩ := bind_eq_ok h
      obtain ⟨⟨record, j₁⟩, hsealed, h⟩ := bind_eq_ok h
      have hretains := enqueueGeneration_retains hid hcommit hsealed
      cases h
      exact hretains
    · obtain ⟨_, _, h⟩ := bind_eq_ok h
      obtain ⟨⟨record, j₁⟩, hsealed, h⟩ := bind_eq_ok h
      have hretains := enqueueGeneration_retains hid hcommit hsealed
      cases h
      exact hretains

theorem relocateSealed_retains {id : Uuid} {parent name : String} {r : MutationRecord}
    (hid : apart.new (env.uuid 1)) (h : j.relocateSealed env id parent name = .ok (r, j')) :
    j.queue.Retains apart j'.queue := by
  unfold UploadJournal.relocateSealed at h
  obtain ⟨_, _, h⟩ := bind_eq_ok h
  obtain ⟨_, _, h⟩ := bind_eq_ok h
  obtain ⟨_, _, h⟩ := bind_eq_ok h
  exact enqueueMutationTransaction_retains hid
    (fun _ _ _ h => commitRelocationOf_queue h ▸ .refl _) h

/-! ## Names -/

theorem adoptItem_queue {scope : Scope} {node : Node} {o : NamespaceObject}
    (h : j.adoptItem env scope node = .ok (o, j')) : j'.queue = j.queue := by
  unfold UploadJournal.adoptItem at h
  split at h
  · obtain ⟨_, _, h⟩ := bind_eq_ok h
    split at h
    · cases h
      rfl
    · obtain ⟨_, _, h⟩ := bind_eq_ok h
      obtain ⟨_, _, h⟩ := bind_eq_ok h
      obtain ⟨j₁, hsave, h⟩ := bind_eq_ok h
      have hsame := saveObject_queue hsave
      cases h
      exact hsame
  · obtain ⟨_, _, h⟩ := bind_eq_ok h
    obtain ⟨_, _, h⟩ := bind_eq_ok h
    obtain ⟨j₁, hsave, h⟩ := bind_eq_ok h
    have hsame := saveObject_queue hsave
    cases h
    exact hsame

theorem observeNamespaceFile_queue {scope : Scope} {node : Node} {o : NamespaceObject}
    (h : j.observeNamespaceFile env scope node = .ok (o, j')) : j'.queue = j.queue := by
  unfold UploadJournal.observeNamespaceFile at h
  obtain ⟨_, _, h⟩ := bind_eq_ok h
  split at h
  · obtain ⟨_, _, h⟩ := bind_eq_ok h
    obtain ⟨_, _, h⟩ := bind_eq_ok h
    exact adoptItem_queue h
  · obtain ⟨_, _, h⟩ := bind_eq_ok h
    obtain ⟨_, _, h⟩ := bind_eq_ok h
    exact adoptItem_queue h
  · obtain ⟨_, hnone, _⟩ := bind_eq_ok h
    cases hnone

theorem captureAncestor_queue {retained : RetainedAncestors} {drawn drawn' : Nat} {scope : Scope}
    {node : Node} (h : j.captureAncestor env retained drawn scope node = .ok (drawn', j')) :
    j'.queue = j.queue := by
  unfold UploadJournal.captureAncestor at h
  obtain ⟨_, _, h⟩ := bind_eq_ok h
  obtain ⟨_, _, h⟩ := bind_eq_ok h
  split at h
  · obtain ⟨j₁, hagain, h⟩ := bind_eq_ok h
    cases h
    unfold UploadJournal.captureAgain at hagain
    obtain ⟨_, _, hagain⟩ := bind_eq_ok hagain
    split at hagain
    · cases hagain
      rfl
    · obtain ⟨_, _, hagain⟩ := bind_eq_ok hagain
      split at hagain
      · obtain ⟨_, _, hagain⟩ := bind_eq_ok hagain
        cases hagain
        rfl
      · obtain ⟨_, _, hagain⟩ := bind_eq_ok hagain
        obtain ⟨_, _, hsave⟩ := bind_eq_ok hagain
        have hsame := saveObject_queue hsave
        exact hsame
  · obtain ⟨j₁, hfirst, h⟩ := bind_eq_ok h
    cases h
    obtain ⟨_, _, hfirst⟩ := bind_eq_ok hfirst
    obtain ⟨_, _, hfirst⟩ := bind_eq_ok hfirst
    obtain ⟨_, _, hfirst⟩ := bind_eq_ok hfirst
    obtain ⟨_, _, hsave⟩ := bind_eq_ok hfirst
    have hsame := saveObject_queue hsave
    exact hsame

theorem captureEach_queue {retained : RetainedAncestors} {drawn : Nat}
    {entries : List (Scope × Node)}
    (h : UploadJournal.captureEach env retained drawn entries j = .ok j') :
    j'.queue = j.queue := by
  induction entries generalizing drawn j with
  | nil =>
    cases h
    rfl
  | cons entry rest ih =>
    obtain ⟨next, hone, hrest⟩ := bind_eq_ok h
    exact (ih hrest).trans (captureAncestor_queue hone)

theorem commitCreation_queue {o : NamespaceObject} {r : MutationRecord}
    (h : UploadJournal.commitCreation o j r = .ok j') : j'.queue = j.queue := by
  unfold UploadJournal.commitCreation at h
  split at h
  · obtain ⟨_, _, h⟩ := bind_eq_ok h
    have hsame := saveObject_queue h
    exact hsame
  · cases h

theorem commitRelocation_queue {o : NamespaceObject} {r : MutationRecord}
    (h : UploadJournal.commitRelocation o j r = .ok j') : j'.queue = j.queue := by
  unfold UploadJournal.commitRelocation at h
  obtain ⟨_, _, h⟩ := bind_eq_ok h
  obtain ⟨_, _, h⟩ := bind_eq_ok h
  split at h
  · obtain ⟨_, _, h⟩ := bind_eq_ok h
    exact saveObject_queue h
  · cases h

theorem createNamespaceDirectory_retains {scope : Scope} {parent name : String}
    {r : MutationRecord} (hid : apart.new (env.uuid 1))
    (h : j.createNamespaceDirectory env scope parent name = .ok (r, j')) :
    j.queue.Retains apart j'.queue := by
  unfold UploadJournal.createNamespaceDirectory at h
  obtain ⟨_, _, h⟩ := bind_eq_ok h
  obtain ⟨_, _, h⟩ := bind_eq_ok h
  obtain ⟨_, _, h⟩ := bind_eq_ok h
  obtain ⟨_, _, h⟩ := bind_eq_ok h
  exact enqueueMutationTransaction_retains hid (fun _ _ _ h => commitCreation_queue h ▸ .refl _) h

theorem removeNamespaceDirectory_retains {id : Uuid} {revision : Nat} {r : MutationRecord}
    (hid : apart.new (env.uuid 0)) (h : j.removeNamespaceDirectory env id revision = .ok (r, j')) :
    j.queue.Retains apart j'.queue := by
  unfold UploadJournal.removeNamespaceDirectory at h
  obtain ⟨_, _, h⟩ := bind_eq_ok h
  obtain ⟨_, _, h⟩ := bind_eq_ok h
  obtain ⟨_, _, h⟩ := bind_eq_ok h
  obtain ⟨_, _, h⟩ := bind_eq_ok h
  obtain ⟨_, _, h⟩ := bind_eq_ok h
  obtain ⟨_, _, h⟩ := bind_eq_ok h
  obtain ⟨_, _, h⟩ := bind_eq_ok h
  obtain ⟨_, _, h⟩ := bind_eq_ok h
  obtain ⟨j₁, henqueue, h⟩ := bind_eq_ok h
  obtain ⟨j₂, hsave, h⟩ := bind_eq_ok h
  cases h
  rw [saveObject_queue hsave]
  exact enqueueChange_retains hid henqueue

theorem relocateObject_retains {o : NamespaceObject} {parent name : String} {r : MutationRecord}
    (hid : apart.new (env.uuid 1)) (h : j.relocateObject env o parent name = .ok (r, j')) :
    j.queue.Retains apart j'.queue := by
  unfold UploadJournal.relocateObject at h
  split at h
  · obtain ⟨_, _, h⟩ := bind_eq_ok h
    obtain ⟨_, _, h⟩ := bind_eq_ok h
    exact enqueueMutationTransaction_retains hid
      (fun _ _ _ h => commitRelocation_queue h ▸ .refl _) h
  · cases h

theorem unlinkNamespaceFile_retains {id : Uuid} {revision : Nat} {preserveReaders : Bool}
    {r : MutationRecord} (hid : apart.new (env.uuid 0))
    (h : j.unlinkNamespaceFile env id revision preserveReaders = .ok (r, j')) :
    j.queue.Retains apart j'.queue := by
  unfold UploadJournal.unlinkNamespaceFile at h
  obtain ⟨_, _, h⟩ := bind_eq_ok h
  obtain ⟨_, _, h⟩ := bind_eq_ok h
  obtain ⟨_, _, h⟩ := bind_eq_ok h
  obtain ⟨_, _, h⟩ := bind_eq_ok h
  obtain ⟨_, _, h⟩ := bind_eq_ok h
  obtain ⟨_, _, h⟩ := bind_eq_ok h
  obtain ⟨_, _, h⟩ := bind_eq_ok h
  obtain ⟨_, _, h⟩ := bind_eq_ok h
  obtain ⟨_, _, h⟩ := bind_eq_ok h
  obtain ⟨j₁, henqueue, h⟩ := bind_eq_ok h
  have hentered := enqueueChange_retains hid henqueue
  split at h
  · obtain ⟨_, hnone, h⟩ := bind_eq_ok h
    cases hnone
    obtain ⟨j₂, hsave, h⟩ := bind_eq_ok h
    cases h
    rw [saveObject_queue hsave]
    exact hentered
  · obtain ⟨j₂, hrow, h⟩ := bind_eq_ok h
    obtain ⟨j₃, hsave, h⟩ := bind_eq_ok h
    cases h
    rw [saveObject_queue hsave, writeWorkingRow_queue hrow]
    exact hentered

theorem handoffNamespace_queue {id : Uuid} {revision : Nat} {remote : Node}
    (h : j.handoffNamespace id revision remote = .ok j') : j'.queue = j.queue := by
  unfold UploadJournal.handoffNamespace at h
  obtain ⟨_, _, h⟩ := bind_eq_ok h
  obtain ⟨_, _, h⟩ := bind_eq_ok h
  obtain ⟨_, _, h⟩ := bind_eq_ok h
  obtain ⟨_, _, h⟩ := bind_eq_ok h
  split at h
  · have hsame := saveObject_queue h
    exact hsame
  · obtain ⟨_, _, h⟩ := bind_eq_ok h
    have hsame := saveObject_queue h
    exact hsame

theorem configureNamespace_queue {scope : Scope} {names : NamespaceNames}
    (h : j.configureNamespace scope names = .ok j') : j'.queue = j.queue := by
  unfold UploadJournal.configureNamespace at h
  obtain ⟨_, _, h⟩ := bind_eq_ok h
  obtain ⟨_, _, h⟩ := bind_eq_ok h
  split at h
  · cases h
    rfl
  · cases h
    rfl

/-! ## Replacements -/

theorem commitReplacement_retains {plan : UploadJournal.ReplacementPlan} {r : UploadRecord}
    (hid : apart.new plan.cleanup) (h : UploadJournal.commitReplacement plan j r = .ok j') :
    j.queue.Retains apart j'.queue := by
  unfold UploadJournal.commitReplacement at h
  obtain ⟨_, _, h⟩ := bind_eq_ok h
  obtain ⟨_, _, h⟩ := bind_eq_ok h
  obtain ⟨_, _, h⟩ := bind_eq_ok h
  obtain ⟨j₁, henqueue, h⟩ := bind_eq_ok h
  obtain ⟨_, _, h⟩ := bind_eq_ok h
  obtain ⟨j₂, hvictim, h⟩ := bind_eq_ok h
  obtain ⟨j₃, hsave₃, h⟩ := bind_eq_ok h
  obtain ⟨_, _, h⟩ := bind_eq_ok h
  obtain ⟨j₄, hsource, h⟩ := bind_eq_ok h
  obtain ⟨j₅, hsave₅, h⟩ := bind_eq_ok h
  obtain ⟨j₆, hsave₆, h⟩ := bind_eq_ok h
  cases h
  show j.queue.Retains apart j₆.queue
  rw [saveObject_queue hsave₆, saveObject_queue hsave₅, moveWorking_queue hsource,
    saveObject_queue hsave₃, moveWorking_queue hvictim]
  exact enqueueChange_retains hid henqueue

theorem enqueuePreparingReplacement_retains {id : Uuid} {scope : Scope} {intent : UploadIntent}
    {order : WriteOrder} {plan : UploadJournal.ReplacementPlan} {r : UploadRecord}
    (hid : apart.new id) (hcleanup : apart.new plan.cleanup)
    (h : j.enqueuePreparingReplacement env id scope intent order plan = .ok (r, j')) :
    j.queue.Retains apart j'.queue := by
  unfold UploadJournal.enqueuePreparingReplacement at h
  obtain ⟨_, _, h⟩ := bind_eq_ok h
  obtain ⟨_, _, h⟩ := bind_eq_ok h
  obtain ⟨_, _, h⟩ := bind_eq_ok h
  have hrest : ∃ record : UploadRecord, record.id = id ∧ ∃ queue,
      j.queue.admitOperation j.names (.upload record)
        (uploadResources j.settings.lowercase scope intent) none order.prerequisites = .ok queue ∧
      UploadJournal.commitReplacement plan { j with queue := queue } record = .ok j' := by
    split at h
    · obtain ⟨_, _, h⟩ := bind_eq_ok h
      obtain ⟨_, _, h⟩ := bind_eq_ok h
      obtain ⟨_, _, h⟩ := bind_eq_ok h
      obtain ⟨queue, hqueue, h⟩ := bind_eq_ok h
      obtain ⟨j₁, hj₁, h⟩ := bind_eq_ok h
      cases h
      exact ⟨_, rfl, queue, hqueue, hj₁⟩
    · obtain ⟨_, _, h⟩ := bind_eq_ok h
      obtain ⟨_, _, h⟩ := bind_eq_ok h
      obtain ⟨queue, hqueue, h⟩ := bind_eq_ok h
      obtain ⟨j₁, hj₁, h⟩ := bind_eq_ok h
      cases h
      exact ⟨_, rfl, queue, hqueue, hj₁⟩
  obtain ⟨record, rfl, queue, hqueue, hj₁⟩ := hrest
  exact (Queue.admitOperation_retains _ hid hqueue).trans (commitReplacement_retains hcleanup hj₁)

theorem replaceNamespaceFile_retains {source victim : Uuid} {sourceRevision victimRevision : Nat}
    {preserveReaders : Bool} {r : UploadRecord} (hnew : ∀ n, apart.new (env.uuid n))
    (h : j.replaceNamespaceFile env source sourceRevision victim victimRevision preserveReaders
      = .ok (r, j')) : j.queue.Retains apart j'.queue := by
  unfold UploadJournal.replaceNamespaceFile at h
  obtain ⟨_, _, h⟩ := bind_eq_ok h
  obtain ⟨_, _, h⟩ := bind_eq_ok h
  obtain ⟨_, _, h⟩ := bind_eq_ok h
  obtain ⟨_, _, h⟩ := bind_eq_ok h
  obtain ⟨_, _, h⟩ := bind_eq_ok h
  obtain ⟨_, _, h⟩ := bind_eq_ok h
  obtain ⟨_, _, h⟩ := bind_eq_ok h
  obtain ⟨_, _, h⟩ := bind_eq_ok h
  obtain ⟨_, _, h⟩ := bind_eq_ok h
  obtain ⟨_, _, h⟩ := bind_eq_ok h
  obtain ⟨_, _, h⟩ := bind_eq_ok h
  obtain ⟨_, _, h⟩ := bind_eq_ok h
  split at h
  · exact enqueueGeneration_retains (hnew 0)
      (fun _ _ _ h => commitReplacement_retains (hnew 1) h) h
  · exact enqueuePreparingReplacement_retains (hnew 0) (hnew 1) h

/-! ## Rescues -/

/-- A planned cleanup makes no folder, and has the identity of its row. -/
structure Cleanup (apart : Apart) (q : Queue) (r : MutationRecord) : Prop where
  folder : ¬ r.makesFolder
  prepared : ¬ apart.new r.id → ∀ row, q.mutations.get r.id = some row →
    row.body.preparedItem = r.preparedItem

theorem Cleanup.retained {q q' : Queue} {r : MutationRecord} (h : Cleanup apart q r)
    (hprepare : ∀ id, ¬ apart.prepare id) (hkeyed : q.Keyed) (hretains : q.Retains apart q') :
    Cleanup apart q' r where
  folder := h.folder
  prepared hid row' hrow' := by
    obtain ⟨row, hrow, hafter⟩ := (hretains hkeyed).mutation r.id row' hid hrow'
    rw [hafter.prepared.resolve_right fun hreserved => hprepare _ hreserved.1]
    exact h.prepared hid row hrow

theorem resolveCleanup_retains {cleanup : MutationRecord}
    (hcleanup : Cleanup apart j.queue cleanup) (h : j.resolveCleanup cleanup = .ok j') :
    j.queue.Retains apart j'.queue := by
  unfold UploadJournal.resolveCleanup at h
  split at h
  · cases h
  · next row hrow =>
    obtain ⟨_, _, h⟩ := bind_eq_ok h
    obtain ⟨queue, hqueue, h⟩ := bind_eq_ok h
    cases h
    obtain ⟨huploads, hmutations⟩ := Queue.queueComplete_same hqueue
    refine .of_mutation (r := { cleanup with state := .resolved }) rfl rfl huploads hmutations ?_
    intro _ hid
    refine ⟨row, hrow, by simp, ?_, .inl (hcleanup.prepared hid row hrow).symm⟩
    intro hmakes
    exact absurd hmakes hcleanup.folder

theorem commitAtomic_retains {saved : AtomicRescue} {source : NamespaceObject}
    {copy : UploadRecord} {fresh : Uuid} {node : Node} (hid : apart.new fresh)
    (hcleanup : Cleanup apart j.queue saved.cleanup)
    (h : UploadJournal.commitAtomic saved source copy fresh j = .ok (node, j')) :
    j.queue.Retains apart j'.queue := by
  unfold UploadJournal.commitAtomic at h
  obtain ⟨_, _, h⟩ := bind_eq_ok h
  obtain ⟨_, _, h⟩ := bind_eq_ok h
  obtain ⟨_, _, h⟩ := bind_eq_ok h
  split at h
  · split at h
    · obtain ⟨_, _, h⟩ := bind_eq_ok h
      obtain ⟨j₁, hsave₁, h⟩ := bind_eq_ok h
      obtain ⟨j₂, hresolve, h⟩ := bind_eq_ok h
      obtain ⟨j₃, henqueue, h⟩ := bind_eq_ok h
      obtain ⟨_, _, h⟩ := bind_eq_ok h
      obtain ⟨j₄, hsave₄, h⟩ := bind_eq_ok h
      cases h
      show j.queue.Retains apart j₄.queue
      rw [saveObject_queue hsave₄]
      have hsame := saveObject_queue hsave₁
      have hresolved : j.queue.Retains apart j₂.queue :=
        hsame ▸ resolveCleanup_retains (hsame.symm ▸ hcleanup) hresolve
      exact hresolved.trans (enqueueChange_retains hid henqueue)
    · cases h
  · cases h

theorem commitChain_retains {copy : UploadRecord} {fresh : Nat → Uuid}
    {atomics : List (AtomicRescue × NamespaceObject)} {node : Option Node}
    (hnew : ∀ n, apart.new (fresh n))
    (hprepare : ∀ id, ¬ apart.prepare id) (hkeyed : j.queue.Keyed)
    (hcleanups : ∀ atomic ∈ atomics, Cleanup apart j.queue atomic.1.cleanup)
    (h : UploadJournal.commitChain copy fresh atomics j = .ok (node, j')) :
    j.queue.Retains apart j'.queue := by
  induction atomics generalizing node j' with
  | nil =>
    cases h
    exact .refl _
  | cons atomic rest ih =>
    unfold UploadJournal.commitChain at h
    obtain ⟨⟨first, j₁⟩, hrest, h⟩ := bind_eq_ok h
    obtain ⟨⟨original, j₂⟩, hatomic, h⟩ := bind_eq_ok h
    cases h
    have hlater := ih (fun other hother => hcleanups other (List.mem_cons_of_mem _ hother)) hrest
    have hcleanup := (hcleanups atomic List.mem_cons_self).retained hprepare hkeyed hlater
    exact hlater.trans (commitAtomic_retains (hnew _) hcleanup hatomic)

theorem moveRescued_queue {saved : RescueCommit} {copy : UploadRecord} {parent name : String}
    {object o : NamespaceObject} {working : WorkingFile}
    (h : UploadJournal.moveRescued saved copy parent name object working j = .ok (o, j')) :
    j'.queue = j.queue := by
  unfold UploadJournal.moveRescued at h
  obtain ⟨_, _, h⟩ := bind_eq_ok h
  obtain ⟨_, _, h⟩ := bind_eq_ok h
  obtain ⟨_, _, h⟩ := bind_eq_ok h
  obtain ⟨_, _, h⟩ := bind_eq_ok h
  obtain ⟨j₁, hrow, h⟩ := bind_eq_ok h
  obtain ⟨j₂, hsave, h⟩ := bind_eq_ok h
  have hsame := saveObject_queue hsave
  have hwritten := writeWorkingRow_queue hrow
  cases h
  exact hsame.trans hwritten

/-- The cleanups of a plan. -/
structure RescueCommit.Cleans (saved : RescueCommit) (apart : Apart) (q : Queue) : Prop where
  atomic : ∀ atomic, saved.atomic = some atomic → Cleanup apart q atomic.cleanup
  chain : ∀ chain, saved.chain = some chain →
    ∀ atomic ∈ chain.atomics, Cleanup apart q atomic.1.cleanup

theorem RescueCommit.Cleans.retained {saved : RescueCommit} {q q' : Queue}
    (h : saved.Cleans apart q) (hprepare : ∀ id, ¬ apart.prepare id) (hkeyed : q.Keyed)
    (hretains : q.Retains apart q') : saved.Cleans apart q' where
  atomic atomic hatomic := (h.atomic atomic hatomic).retained hprepare hkeyed hretains
  chain chain hchain atomic hatomic :=
    (h.chain chain hchain atomic hatomic).retained hprepare hkeyed hretains

theorem commitReplacements_retains {saved : RescueCommit} {copy : UploadRecord}
    {fresh : Nat → Uuid} {previous : NamespaceObject} {node : Option Node}
    (hnew : ∀ n, apart.new (fresh n)) (hprepare : ∀ id, ¬ apart.prepare id)
    (hkeyed : j.queue.Keyed) (hcleans : saved.Cleans apart j.queue)
    (h : UploadJournal.commitReplacements saved copy fresh previous j = .ok (node, j')) :
    j.queue.Retains apart j'.queue := by
  unfold UploadJournal.commitReplacements at h
  split at h
  · next chain hchain =>
    obtain ⟨⟨original, j₁⟩, hcommit, h⟩ := bind_eq_ok h
    have hretains :=
      commitChain_retains (fun n => hnew (n + 1)) hprepare hkeyed (hcleans.chain chain hchain)
        hcommit
    cases original with
    | some original =>
      cases h
      exact hretains
    | none => cases h
  · next atomic _ hatomic =>
    obtain ⟨⟨original, j₁⟩, hcommit, h⟩ := bind_eq_ok h
    cases h
    exact commitAtomic_retains (hnew 1) (hcleans.atomic atomic hatomic) hcommit
  · cases h
    exact .refl _

theorem commitObject_retains {saved : RescueCommit} {copy : UploadRecord} {parent name : String}
    {fresh : Nat → Uuid} {previous : NamespaceObject} {working : WorkingFile}
    (hnew : ∀ n, apart.new (fresh n)) (hprepare : ∀ id, ¬ apart.prepare id)
    (hkeyed : j.queue.Keyed) (hcleans : saved.Cleans apart j.queue)
    (h : UploadJournal.commitObject saved copy parent name fresh previous working j = .ok j') :
    j.queue.Retains apart j'.queue := by
  unfold UploadJournal.commitObject at h
  obtain ⟨⟨object, j₁⟩, hmove, h⟩ := bind_eq_ok h
  obtain ⟨⟨restored, j₂⟩, hcommit, h⟩ := bind_eq_ok h
  have hsame := moveRescued_queue hmove
  have hretains : j.queue.Retains apart j₂.queue :=
    hsame ▸ commitReplacements_retains hnew hprepare (hsame.symm ▸ hkeyed) (hsame.symm ▸ hcleans)
      hcommit
  cases restored with
  | none =>
    cases h
    exact hretains
  | some remote =>
    obtain ⟨_, _, h⟩ := bind_eq_ok h
    rw [saveObject_queue h]
    exact hretains

theorem resolveSave_retains {q q' : Queue} {save : UploadRecord}
    (h : UploadJournal.resolveSave q save = .ok q') : q.Retains apart q' := by
  unfold UploadJournal.resolveSave at h
  obtain ⟨_, _, h⟩ := bind_eq_ok h
  split at h
  · cases h
  · next row hrow =>
    obtain ⟨_, _, h⟩ := bind_eq_ok h
    obtain ⟨huploads, hmutations⟩ := Queue.queueComplete_same h
    refine .of_upload (r := { save with state := .resolved }) rfl rfl huploads hmutations ?_
    intro _ _
    exact ⟨row, hrow, by simp [UploadRecord.After, UploadRecord.untried]⟩

theorem resolveSaves_retains {q q' : Queue} {saves : List UploadRecord}
    (h : UploadJournal.resolveSaves saves q = .ok q') : q.Retains apart q' := by
  induction saves generalizing q with
  | nil =>
    cases h
    exact .refl _
  | cons save rest ih =>
    obtain ⟨q₁, hsave, h⟩ := bind_eq_ok h
    exact (resolveSave_retains hsave).trans (ih h)

theorem commitRescue_retains {saved : RescueCommit} {copy : UploadRecord} {fresh : Nat → Uuid}
    (hnew : ∀ n, apart.new (fresh n)) (hprepare : ∀ id, ¬ apart.prepare id)
    (hkeyed : j.queue.Keyed) (hcleans : saved.Cleans apart j.queue)
    (h : UploadJournal.commitRescue saved fresh j copy = .ok j') :
    j.queue.Retains apart j'.queue := by
  unfold UploadJournal.commitRescue at h
  split at h
  · cases h
  · obtain ⟨_, _, h⟩ := bind_eq_ok h
    obtain ⟨j₁, hnames, h⟩ := bind_eq_ok h
    obtain ⟨queue, hqueue, h⟩ := bind_eq_ok h
    cases h
    refine Queue.Retains.trans ?_ (resolveSaves_retains hqueue)
    unfold UploadJournal.commitNames at hnames
    split at hnames
    · exact commitObject_retains hnew hprepare hkeyed hcleans hnames
    · cases hnames
      exact .refl _

theorem prepareBound_cleans {upload : UploadRecord} {object : NamespaceObject}
    {allowed : List Uuid} {predecessor : Option NamespaceObject} {atomic : AtomicRescue}
    (hkeyed : j.queue.Keyed)
    (h : j.prepareBound upload object allowed predecessor = .ok (some atomic)) :
    Cleanup apart j.queue atomic.cleanup := by
  unfold UploadJournal.prepareBound at h
  obtain ⟨_, _, h⟩ := bind_eq_ok h
  split at h
  · cases h
  · obtain ⟨_, _, h⟩ := bind_eq_ok h
    obtain ⟨_, _, h⟩ := bind_eq_ok h
    obtain ⟨_, _, h⟩ := bind_eq_ok h
    obtain ⟨cleanup, hread, h⟩ := bind_eq_ok h
    split at h
    · obtain ⟨_, hcheck, h⟩ := bind_eq_ok h
      obtain ⟨_, _, h⟩ := bind_eq_ok h
      obtain ⟨_, _, h⟩ := bind_eq_ok h
      cases h
      refine ⟨?_, fun _ row hrow => ?_⟩
      · rintro ⟨parent, name, hintent⟩
        rw [check_eq_ok, hintent] at hcheck
        simp at hcheck
      · obtain ⟨found, hfound, hbody⟩ := Queue.mutation_ok_row hread
        have hid := (hkeyed.mutation _ found hfound).1
        rw [hbody] at hid
        rw [show row = found from Option.some.inj (hrow.symm.trans (hid ▸ hfound)), hbody]
    · cases h

theorem prepareGroup_cleans {original save latest : UploadRecord} {allowed : List Uuid}
    {objects : List NamespaceObject} {detached : Bool} {group : List UploadRecord}
    {atomic : AtomicRescue × NamespaceObject} (hkeyed : j.queue.Keyed)
    (h : j.prepareGroup original allowed objects detached save latest group = .ok atomic) :
    Cleanup apart j.queue atomic.1.cleanup := by
  unfold UploadJournal.prepareGroup at h
  split at h
  · split at h
    · obtain ⟨_, _, h⟩ := bind_eq_ok h
      obtain ⟨_, _, h⟩ := bind_eq_ok h
      obtain ⟨bound, hbound, h⟩ := bind_eq_ok h
      cases bound with
      | none => cases h
      | some bound =>
        obtain ⟨_, _, h⟩ := bind_eq_ok h
        cases h
        exact prepareBound_cleans hkeyed hbound
    · cases h
  · cases h

theorem prepareGroups_cleans {original : UploadRecord} {allowed : List Uuid}
    {objects : List NamespaceObject} {groups : List (List UploadRecord)}
    {atomics : List (AtomicRescue × NamespaceObject)} (hkeyed : j.queue.Keyed)
    (h : j.prepareGroups original allowed objects groups = .ok atomics) :
    ∀ atomic ∈ atomics, Cleanup apart j.queue atomic.1.cleanup := by
  induction groups generalizing objects atomics with
  | nil =>
    cases h
    intro atomic hatomic
    cases hatomic
  | cons group rest ih =>
    unfold UploadJournal.prepareGroups at h
    split at h
    · obtain ⟨first, hfirst, h⟩ := bind_eq_ok h
      obtain ⟨later, hlater, h⟩ := bind_eq_ok h
      cases h
      intro atomic hatomic
      rcases List.mem_cons.mp hatomic with rfl | hatomic
      · exact prepareGroup_cleans hkeyed hfirst
      · exact ih hlater atomic hatomic
    · cases h

theorem prepareChain_cleans {original : UploadRecord} {chain : RescueChain}
    (hkeyed : j.queue.Keyed) (h : j.prepareChain original = .ok (some chain)) :
    ∀ atomic ∈ chain.atomics, Cleanup apart j.queue atomic.1.cleanup := by
  unfold UploadJournal.prepareChain at h
  obtain ⟨successors, _, h⟩ := bind_eq_ok h
  dsimp only at h
  split at h
  · cases h
  · obtain ⟨atomics, hatomics, h⟩ := bind_eq_ok h
    split at h
    · cases h
    · cases h
      exact prepareGroups_cleans hkeyed hatomics

theorem prepareSaved_cleans {id : Uuid} {parent name : String} {saved : RescueCommit}
    (hkeyed : j.queue.Keyed) (h : j.prepareSaved id parent name = .ok saved) :
    saved.Cleans apart j.queue := by
  unfold UploadJournal.prepareSaved at h
  obtain ⟨original, _, h⟩ := bind_eq_ok h
  obtain ⟨_, _, h⟩ := bind_eq_ok h
  obtain ⟨_, _, h⟩ := bind_eq_ok h
  obtain ⟨prepared, hchain, h⟩ := bind_eq_ok h
  cases prepared with
  | some chain =>
    obtain ⟨_, _, h⟩ := bind_eq_ok h
    cases h
    refine ⟨fun _ hnone => (by cases hnone), ?_⟩
    rintro _ ⟨⟩
    exact prepareChain_cleans hkeyed hchain
  | none =>
    dsimp only at h
    split at h
    · obtain ⟨_, _, h⟩ := bind_eq_ok h
      obtain ⟨_, _, h⟩ := bind_eq_ok h
      cases h
      exact ⟨fun _ hnone => (by cases hnone), fun _ hnone => (by cases hnone)⟩
    · obtain ⟨atomic, hatomic, h⟩ := bind_eq_ok h
      obtain ⟨_, _, h⟩ := bind_eq_ok h
      obtain ⟨_, _, h⟩ := bind_eq_ok h
      obtain ⟨_, _, h⟩ := bind_eq_ok h
      cases h
      refine ⟨?_, fun _ hnone => (by cases hnone)⟩
      rintro atomic rfl
      exact prepareBound_cleans hkeyed hatomic

theorem prepareRescue_retains {id : Uuid} {parent name : String} (hnew : apart.new (env.uuid 0))
    (hkeyed : start.queue.Keyed) :
    Commits.Triple (Retained apart start) (UploadJournal.prepareRescue env id parent name)
      (Retained apart start) (fun saved j => Retained apart start j ∧
        saved.Cleans apart j.queue) := by
  have hread : Commits.Triple (Retained apart start)
      (Commits.read (fun j : UploadJournal => j.prepareSaved id parent name)) (Retained apart start)
      (fun saved j => Retained apart start j ∧ saved.Cleans apart j.queue) :=
    Commits.triple_read fun j hj saved hsaved =>
      ⟨hj, prepareSaved_cleans (hj hkeyed).keyed hsaved⟩
  unfold UploadJournal.prepareRescue
  refine Commits.triple_bind resolveReadyGenerations_retains fun _ => ?_
  refine Commits.triple_bind hread fun saved => ?_
  split
  · exact Commits.triple_pure fun _ h => h
  · refine Commits.triple_bind (Commits.triple_consequence (triple_retained_transaction
      fun _ _ _ h => sealWorking_retains hnew h) (fun _ h => h.1) (fun _ h => h)
      (fun _ _ h => h)) fun sealed => ?_
    cases sealed with
    | none => exact Commits.triple_fail _
    | some _ => exact hread

theorem keepBoth_retains {id : Uuid} {parent name : String} (hnew : ∀ n, apart.new (env.uuid n))
    (hprepare : ∀ id, ¬ apart.prepare id) (hkeyed : start.queue.Keyed) :
    Commits.Triple (Retained apart start) (UploadJournal.keepBoth env id parent name)
      (Retained apart start) (fun _ => Retained apart start) := by
  unfold UploadJournal.keepBoth
  refine Commits.triple_bind triple_retained_read fun _ => ?_
  refine Commits.triple_bind (prepareRescue_retains (hnew 0) hkeyed) fun saved => ?_
  refine Commits.triple_bind (Q := fun _ j => Retained apart start j ∧ saved.Cleans apart j.queue)
    (Commits.triple_read fun _ h _ _ => h) fun _ => ?_
  apply Commits.triple_transaction
  rintro j ⟨hj, hcleans⟩ r j' h
  have hread : j.queue.Keyed := (hj hkeyed).keyed
  obtain ⟨queue, copy, hadmitted, hcommit⟩ := enqueueGeneration_admits (hnew 1) h
  have hcommitted : queue.Retains apart j'.queue :=
    commitRescue_retains (j := { j with queue := queue }) (fun n => hnew (n + 2)) hprepare
      (hadmitted hread).keyed (hcleans.retained hprepare hread hadmitted) hcommit
  have hnext := Queue.Retains.trans hj (hadmitted.trans hcommitted)
  exact ⟨hnext, hnext⟩

/-! ## Claims -/

theorem mem_select_row {q : Queue} {f : Uuid → MutationRow → Option MutationRow} {row : MutationRow}
    (h : row ∈ q.mutations.select f) (hf : ∀ id row row', f id row = some row' → row' = row) :
    ∃ id, q.mutations.get id = some row := by
  rw [Table.mem_select] at h
  obtain ⟨id, found, hfound, hselect⟩ := h
  rw [hf id found row hselect]
  exact ⟨id, hfound⟩

/-- A change that is handed out to be sent at once had not been tried. -/
theorem claimMutation_retains (hkeyed : start.queue.Keyed) :
    Commits.Triple (Retained .none start) (UploadJournal.claimMutation env)
      (Retained .none start) (fun claimed j => Retained .none start j ∧
        ∀ r, claimed = some r → r.state = .applying →
          ∃ row, start.queue.mutations.get r.id = some row ∧ row.body.state = .pending) := by
  unfold UploadJournal.claimMutation
  refine Commits.triple_bind resolveReadyGenerations_retains fun settled => ?_
  split
  · refine Commits.triple_pure fun j hj => ⟨hj, ?_⟩
    rintro r ⟨⟩
  refine Commits.triple_bind (Q := fun next j => Retained .none start j ∧
    next = j.nextMutation env.now) (Commits.triple_read ?_) fun next => ?_
  · intro j hj next hnext
    cases hnext
    exact ⟨hj, rfl⟩
  cases next with
  | none =>
    refine Commits.triple_pure fun j hj => ⟨hj.1, ?_⟩
    rintro r ⟨⟩
  | some row =>
    refine Commits.triple_bind (Q := fun _ j => Retained .none start j ∧
      (row.body.state = .pending → ∃ old, start.queue.mutations.get row.body.id = some old ∧
        old.body.state = .pending)) (Commits.triple_commit ?_) fun _ => ?_
    · rintro j ⟨hj, hnext⟩ j' h
      obtain ⟨hmem, _⟩ := head_orderBy hnext.symm
      obtain ⟨id, hrow⟩ := mem_select_row hmem (by
        intro id row row' hselect
        split at hselect
        · exact (Option.some.inj hselect).symm
        · cases hselect)
      have hfollows := hj hkeyed
      have hid := (hfollows.keyed.mutation id row hrow).1
      have hsaved : j.queue.Retains .none j'.queue := by
        refine saveMutation_retains h fun _ _ old hold => ?_
        rw [show old = row from Option.some.inj (hold.symm.trans (hid ▸ hrow))]
        refine .of_state rfl rfl ?_
        intro hstate
        by_cases hpending : row.body.state = .pending
        · exact .inr hpending
        · simp [hpending] at hstate
      refine ⟨Queue.Retains.trans hj hsaved, Queue.Retains.trans hj hsaved, ?_⟩
      intro hpending
      obtain ⟨old, hold, hafter⟩ := hfollows.mutation id row (fun h => h) hrow
      exact ⟨old, hid ▸ hold, (hafter.untried hpending).resolve_left fun h => h⟩
    · refine Commits.triple_pure ?_
      rintro j ⟨hj, hwas⟩
      refine ⟨hj, ?_⟩
      rintro r ⟨⟩ happlying
      apply hwas
      by_cases hpending : row.body.state = .pending
      · exact hpending
      · simp [hpending] at happlying

theorem claimVerification_retains {id : Uuid} {r : UploadRecord}
    (h : j.claimVerification env id = .ok (r, j')) : j.queue.Retains apart j'.queue := by
  unfold UploadJournal.claimVerification at h
  obtain ⟨_, _, h⟩ := bind_eq_ok h
  obtain ⟨_, _, h⟩ := bind_eq_ok h
  obtain ⟨j₁, hsave, h⟩ := bind_eq_ok h
  cases h
  exact save_tried hsave (by simp [UploadRecord.untried])

theorem claimVerification_state {id : Uuid} {r : UploadRecord}
    (h : j.claimVerification env id = .ok (r, j')) : r.state = .verifying := by
  unfold UploadJournal.claimVerification at h
  obtain ⟨_, _, h⟩ := bind_eq_ok h
  obtain ⟨_, _, h⟩ := bind_eq_ok h
  obtain ⟨_, _, h⟩ := bind_eq_ok h
  cases h
  rfl

theorem triple_claimVerification {id : Uuid} :
    Commits.Triple (Retained apart start)
      (Commits.transaction fun j => UploadJournal.claimVerification j env id) (Retained apart start)
      (fun r j => Retained apart start j ∧ r.state = .verifying) := by
  apply Commits.triple_transaction
  intro j hj r j' h
  have hnext : Retained apart start j' := Queue.Retains.trans hj (claimVerification_retains h)
  exact ⟨hnext, hnext, claimVerification_state h⟩

theorem claimNextVerification_retains :
    Commits.Triple (Retained apart start) (UploadJournal.claimNextVerification env)
      (Retained apart start) (fun claimed j => Retained apart start j ∧
        ∀ r, claimed = some r → r.state = .verifying) := by
  unfold UploadJournal.claimNextVerification
  refine Commits.triple_bind resolveReadyGenerations_retains fun settled => ?_
  split
  · refine Commits.triple_pure fun j hj => ⟨hj, ?_⟩
    rintro r ⟨⟩
  refine Commits.triple_bind triple_retained_read fun next => ?_
  cases next with
  | none =>
    refine Commits.triple_pure fun j hj => ⟨hj, ?_⟩
    rintro r ⟨⟩
  | some chosen =>
    refine Commits.triple_bind triple_claimVerification fun r => ?_
    refine Commits.triple_pure ?_
    rintro j ⟨hj, hstate⟩
    refine ⟨hj, ?_⟩
    rintro r ⟨⟩
    exact hstate

/-- An upload that is handed out to be begun had not been tried. -/
theorem claimNext_retains (hkeyed : start.queue.Keyed) :
    Commits.Triple (Retained .none start) (UploadJournal.claimNext env)
      (Retained .none start) (fun claimed j => Retained .none start j ∧
        ∀ r, claimed = some r →
          ∃ row, start.queue.uploads.get r.id = some row ∧ row.body.untried) := by
  unfold UploadJournal.claimNext
  refine Commits.triple_bind resolveReadyGenerations_retains fun settled => ?_
  split
  · refine Commits.triple_pure fun j hj => ⟨hj, ?_⟩
    rintro r ⟨⟩
  refine Commits.triple_bind (Q := fun next j => Retained .none start j ∧
    ∀ id row, next = some (id, row) →
      ∃ old, start.queue.uploads.get row.body.id = some old ∧ old.body.untried)
    (Commits.triple_read ?_) fun next => ?_
  · intro j hj next hnext
    cases hnext
    refine ⟨hj, ?_⟩
    intro id row hnext
    obtain ⟨hmem, _⟩ := head_orderBy hnext
    rw [Table.mem_select] at hmem
    obtain ⟨id', row', hrow, hselect⟩ := hmem
    split at hselect
    · next heligible =>
      cases hselect
      have hfollows := hj hkeyed
      obtain ⟨hid, hstate⟩ := hfollows.keyed.upload id row hrow
      obtain ⟨old, hold, hafter⟩ := hfollows.upload id row (fun h => h) hrow
      refine ⟨old, hid ▸ hold, (hafter (.inl ?_)).resolve_left fun h => h⟩
      unfold UploadJournal.uploadEligible at heligible
      simp only [Bool.and_eq_true, decide_eq_true_eq] at heligible
      exact hstate.symm.trans heligible.1.1.1.1.1.1
    · cases hselect
  cases next with
  | none =>
    refine Commits.triple_pure fun j hj => ⟨hj.1, ?_⟩
    rintro r ⟨⟩
  | some chosen =>
    refine Commits.triple_bind (Q := fun _ j => Retained .none start j ∧
      ∃ old, start.queue.uploads.get chosen.2.body.id = some old ∧ old.body.untried)
      (Commits.triple_read fun _ h _ _ => ⟨h.1, h.2 chosen.1 chosen.2 rfl⟩) fun payload => ?_
    cases payload with
    | error e =>
      -- The bytes cannot be opened: the upload fails, and so does the call.
      refine Commits.triple_bind (Q := fun _ => Retained .none start)
        (Commits.triple_consequence (triple_retained_commit fun _ _ h => save_tried h
          (by simp [UploadRecord.untried])) (fun _ h => h.1) (fun _ h => h) fun _ _ h => h) ?_
      exact fun _ => Commits.triple_fail _
    | ok _ =>
      refine Commits.triple_bind (Q := fun _ j => Retained .none start j ∧
        ∃ old, start.queue.uploads.get chosen.2.body.id = some old ∧ old.body.untried)
        (Commits.triple_commit ?_) fun _ => ?_
      · rintro j ⟨hj, hwas⟩ j' h
        have hnext : Retained .none start j' :=
          Queue.Retains.trans hj (save_tried h (by simp [UploadRecord.untried]))
        exact ⟨hnext, hnext, hwas⟩
      · refine Commits.triple_pure ?_
        rintro j ⟨hj, hwas⟩
        refine ⟨hj, ?_⟩
        rintro r ⟨⟩
        exact hwas

/-! ## Reports -/

theorem UploadState.stopped_tried {r : UploadRecord} (h : r.state.stopped = true) :
    ¬ r.untried := by
  rintro (hstate | hstate) <;> rw [hstate] at h <;> cases h

theorem MutationState.stopped_ne {state : MutationState} (h : state.stopped = true) :
    state ≠ .pending := by
  rintro rfl
  cases h

theorem mutationAttempt_mutation {id attempt : Uuid} {r : MutationRecord}
    (h : j.mutationAttempt id attempt = .ok r) : j.queue.mutation id = .ok r := by
  obtain ⟨found, hfound, h⟩ := bind_eq_ok h
  obtain ⟨_, _, h⟩ := bind_eq_ok h
  cases h
  exact hfound

theorem recordSession_retains {id attempt key : Uuid} {transferred : Nat}
    (h : j.recordSession id attempt key transferred = .ok j') :
    j.queue.Retains apart j'.queue := by
  unfold UploadJournal.recordSession at h
  obtain ⟨_, _, h⟩ := bind_eq_ok h
  obtain ⟨_, _, h⟩ := bind_eq_ok h
  exact save_tried h (by simp [UploadRecord.untried])

theorem deferAttempt_retains {id attempt : Uuid} {state : UploadState} {delay : Nat}
    (h : j.deferAttempt env id attempt state delay = .ok j') : j.queue.Retains apart j'.queue := by
  unfold UploadJournal.deferAttempt at h
  obtain ⟨_, hstopped, h⟩ := bind_eq_ok h
  obtain ⟨_, _, h⟩ := bind_eq_ok h
  exact save_tried h (UploadState.stopped_tried (check_eq_ok.mp hstopped))

theorem acknowledge_retains {id attempt : Uuid} {remote : Node}
    (h : j.acknowledge id attempt remote = .ok j') : j.queue.Retains apart j'.queue := by
  unfold UploadJournal.acknowledge at h
  obtain ⟨r, _, h⟩ := bind_eq_ok h
  obtain ⟨_, _, h⟩ := bind_eq_ok h
  split at h
  · obtain ⟨_, _, h⟩ := bind_eq_ok h
    exact save_tried h (by simp [UploadRecord.untried])
  · exact save_tried h (by simp [UploadRecord.untried])

theorem retryVerifiedUncommitted_retains {id : Uuid} (hback : apart.upload id)
    (h : j.retryVerifiedUncommitted env id = .ok j') : j.queue.Retains apart j'.queue := by
  unfold UploadJournal.retryVerifiedUncommitted at h
  obtain ⟨r, hr, h⟩ := bind_eq_ok h
  obtain ⟨_, _, h⟩ := bind_eq_ok h
  obtain ⟨_, _, h⟩ := bind_eq_ok h
  exact save_back h hr rfl hback

theorem requestRetry_retains {id : Uuid} (h : j.requestRetry id = .ok j') :
    j.queue.Retains apart j'.queue := by
  unfold UploadJournal.requestRetry at h
  obtain ⟨_, _, h⟩ := bind_eq_ok h
  obtain ⟨_, _, h⟩ := bind_eq_ok h
  obtain ⟨_, _, h⟩ := bind_eq_ok h
  exact save_tried h (by simp [UploadRecord.untried])

theorem releaseReplacementReaders_queue {id : Uuid}
    (h : j.releaseReplacementReaders id = .ok j') : j'.queue = j.queue := by
  unfold UploadJournal.releaseReplacementReaders at h
  split at h
  · cases h
  · split at h
    · cases h
      rfl
    · obtain ⟨_, _, h⟩ := bind_eq_ok h
      obtain ⟨_, _, h⟩ := bind_eq_ok h
      obtain ⟨_, _, h⟩ := bind_eq_ok h
      obtain ⟨_, _, h⟩ := bind_eq_ok h
      obtain ⟨_, _, h⟩ := bind_eq_ok h
      cases h
      rfl

/-- An identity is reserved where none was. -/
theorem recordPreparedMutation_retains {id attempt : Uuid} {item : String}
    (hprepare : apart.prepare id) (h : j.recordPreparedMutation id attempt item = .ok j') :
    j.queue.Retains apart j'.queue := by
  unfold UploadJournal.recordPreparedMutation at h
  obtain ⟨_, _, h⟩ := bind_eq_ok h
  obtain ⟨r, hr, h⟩ := bind_eq_ok h
  obtain ⟨_, hcheck, h⟩ := bind_eq_ok h
  refine saveMutation_follows h (mutationAttempt_mutation hr) rfl False.elim (fun _ => hprepare)
    ⟨.inr, fun h => h, .inr ⟨trivial, ?_⟩⟩
  exact Option.isNone_iff_eq_none.mp (Bool.and_eq_true_iff.mp (check_eq_ok.mp hcheck)).2

/-- The identity is the recorded one. -/
theorem recordPreparedMutation_row {id attempt : Uuid} {item : String} (hkeyed : j.queue.Keyed)
    (h : j.recordPreparedMutation id attempt item = .ok j') {row : MutationRow}
    (hrow : j'.queue.mutations.get id = some row) : row.body.preparedItem = some item := by
  unfold UploadJournal.recordPreparedMutation at h
  obtain ⟨_, _, h⟩ := bind_eq_ok h
  obtain ⟨r, hr, h⟩ := bind_eq_ok h
  obtain ⟨_, _, h⟩ := bind_eq_ok h
  obtain ⟨old, hold, rfl⟩ := Queue.mutation_ok_row (mutationAttempt_mutation hr)
  have hid := (hkeyed.mutation id old hold).1
  rw [saveMutation_row h (hid.symm ▸ hrow)]

theorem acknowledgeMutation_retains {id attempt : Uuid} {receipt : MutationReceipt}
    {proof : Option VerifiedMutationContent} {state : MutationState}
    (h : j.acknowledgeMutation id attempt receipt proof = .ok (state, j')) :
    j.queue.Retains apart j'.queue := by
  unfold UploadJournal.acknowledgeMutation at h
  obtain ⟨r, hr, h⟩ := bind_eq_ok h
  obtain ⟨_, _, h⟩ := bind_eq_ok h
  obtain ⟨_, _, h⟩ := bind_eq_ok h
  obtain ⟨_, _, h⟩ := bind_eq_ok h
  obtain ⟨j₁, hsave, h⟩ := bind_eq_ok h
  have hstate : (if proof.isSome then .applied else UploadJournal.reconciledState r receipt)
      ≠ MutationState.pending := by
    unfold UploadJournal.reconciledState
    grind
  cases h
  exact saveMutation_after hsave (mutationAttempt_mutation hr) rfl
    (.of_state rfl rfl fun hpending => absurd hpending hstate)

theorem deferMutation_retains {id attempt : Uuid} {state : MutationState} {delay : Nat}
    (h : j.deferMutation env id attempt state delay = .ok j') : j.queue.Retains apart j'.queue := by
  unfold UploadJournal.deferMutation at h
  obtain ⟨_, hstopped, h⟩ := bind_eq_ok h
  obtain ⟨r, hr, h⟩ := bind_eq_ok h
  exact saveMutation_after h (mutationAttempt_mutation hr) rfl (.of_state rfl rfl
    fun hpending => absurd hpending (MutationState.stopped_ne (check_eq_ok.mp hstopped)))

theorem deferMutationPreparation_retains {id attempt : Uuid} {delay : Nat}
    (hback : apart.change id)
    (h : j.deferMutationPreparation env id attempt delay = .ok j') :
    j.queue.Retains apart j'.queue := by
  unfold UploadJournal.deferMutationPreparation at h
  obtain ⟨r, hr, h⟩ := bind_eq_ok h
  obtain ⟨_, _, h⟩ := bind_eq_ok h
  exact saveMutation_follows h (mutationAttempt_mutation hr) rfl (fun _ => hback) False.elim
    (.of_state rfl rfl fun _ => .inl trivial)

theorem retryUncommittedMutation_retains {id attempt : Uuid} (hback : apart.change id)
    (h : j.retryUncommittedMutation id attempt = .ok j') : j.queue.Retains apart j'.queue := by
  unfold UploadJournal.retryUncommittedMutation at h
  obtain ⟨r, hr, h⟩ := bind_eq_ok h
  obtain ⟨_, _, h⟩ := bind_eq_ok h
  exact saveMutation_follows h (mutationAttempt_mutation hr) rfl (fun _ => hback) False.elim
    (.of_state rfl rfl fun _ => .inl trivial)

theorem requestMutationRetry_retains {id : Uuid} (h : j.requestMutationRetry id = .ok j') :
    j.queue.Retains apart j'.queue := by
  unfold UploadJournal.requestMutationRetry at h
  obtain ⟨r, hr, h⟩ := bind_eq_ok h
  obtain ⟨_, _, h⟩ := bind_eq_ok h
  obtain ⟨_, _, h⟩ := bind_eq_ok h
  exact saveMutation_after h hr rfl (.of_state rfl rfl (by simp))

theorem releaseUnlinkedReaders_retains {id : Uuid} (h : j.releaseUnlinkedReaders id = .ok j') :
    j.queue.Retains apart j'.queue := by
  unfold UploadJournal.releaseUnlinkedReaders at h
  obtain ⟨r, hr, h⟩ := bind_eq_ok h
  split at h
  · cases h
    exact .refl _
  · split at h
    · obtain ⟨_, _, h⟩ := bind_eq_ok h
      exact saveMutation_after h hr rfl (.of_state rfl rfl .inr)
    · cases h

theorem discardStuckRemoval_retains {id : Uuid} (h : j.discardStuckRemoval id = .ok j') :
    j.queue.Retains apart j'.queue := by
  unfold UploadJournal.discardStuckRemoval at h
  obtain ⟨_, _, h⟩ := bind_eq_ok h
  obtain ⟨_, _, h⟩ := bind_eq_ok h
  obtain ⟨_, _, h⟩ := bind_eq_ok h
  split at h
  · obtain ⟨_, _, h⟩ := bind_eq_ok h
    obtain ⟨_, _, h⟩ := bind_eq_ok h
    obtain ⟨j₁, hsave, h⟩ := bind_eq_ok h
    cases h
    have hqueue := saveObject_queue hsave
    rw [← hqueue]
    exact Queue.discard_retains _ id
  · cases h

/-! ## Opening -/

theorem recoverFile_queue {id : Uuid} {size : Nat} (h : j.recoverFile id size = .ok j') :
    j'.queue = j.queue := by
  unfold UploadJournal.recoverFile at h
  obtain ⟨_, _, h⟩ := bind_eq_ok h
  split at h
  · cases h
    rfl
  · obtain ⟨_, _, h⟩ := bind_eq_ok h
    exact saveWorking_queue h

theorem recoverReader_queue {id : Uuid} (h : j.recoverReader id = .ok j') :
    j'.queue = j.queue := by
  unfold UploadJournal.recoverReader at h
  split at h
  · cases h
  · obtain ⟨_, _, h⟩ := bind_eq_ok h
    obtain ⟨_, _, h⟩ := bind_eq_ok h
    split at h
    · cases h
      rfl
    · exact releaseReplacementReaders_queue h

theorem reopen_retains {size : Uuid → Nat} :
    Commits.Triple (Retained apart start) (UploadJournal.reopen size) (Retained apart start)
      (fun _ => Retained apart start) := by
  unfold UploadJournal.reopen
  refine Commits.triple_bind (triple_retained_commit fun j j' h => ?_) fun _ => ?_
  · cases h
    refine .of_mapped (f := id) (fun _ => Option.map_id_apply.symm)
      (fun other => Table.get_mapRows _ _ other) (fun _ h => ⟨rfl, h, .inr⟩) fun row hrow => ?_
    split
    · exact ⟨rfl, rfl, .of_state rfl rfl (by simp)⟩
    · exact ⟨rfl, hrow, .refl _ _ _⟩
  refine Commits.triple_bind (triple_retained_commit fun j j' h => ?_) fun _ => ?_
  · cases h
    refine .of_mapped (g := id) (fun other => Table.get_mapRows _ _ other)
      (fun _ => Option.map_id_apply.symm) (fun row hrow => ?_) fun _ h => ⟨rfl, h, .refl _ _ _⟩
    split
    · exact ⟨rfl, hrow, .inr⟩
    · exact ⟨rfl, hrow, .inr⟩
  refine Commits.triple_bind (triple_retained_commit fun j j' h => ?_) fun _ => ?_
  · cases h
    exact .of_same rfl rfl
  refine Commits.triple_bind (triple_retained_commit fun j j' h => ?_) fun _ => ?_
  · cases h
    refine .of_mapped (g := id) (fun other => Table.get_mapRows _ _ other)
      (fun _ => Option.map_id_apply.symm) (fun row hrow => ?_) fun _ h => ⟨rfl, h, .refl _ _ _⟩
    split
    · exact ⟨rfl, rfl, by simp [UploadRecord.After, UploadRecord.untried]⟩
    · exact ⟨rfl, hrow, .inr⟩
  refine Commits.triple_bind triple_retained_read fun files => ?_
  refine Commits.triple_bind (Commits.triple_forEach files fun id _ =>
    triple_retained_commit fun _ _ h => recoverFile_queue h ▸ .refl _) fun _ => ?_
  refine Commits.triple_bind triple_retained_read fun unlinked => ?_
  refine Commits.triple_bind (Commits.triple_forEach unlinked fun id _ =>
    triple_retained_commit fun _ _ h => releaseUnlinkedReaders_retains h) fun _ => ?_
  refine Commits.triple_bind triple_retained_read fun replaced => ?_
  exact Commits.triple_forEach replaced fun id _ =>
    triple_retained_commit fun _ _ h => recoverReader_queue h ▸ .refl _

/-! ## Calls -/

/-- The upload a report says nothing is under way of. -/
def Op.returnsUpload : Op → Option Uuid
  | .retryVerifiedUncommitted id => some id
  | _ => none

/-- The change a report says nothing is under way of. -/
def Op.returnsChange : Op → Option Uuid
  | .deferMutationPreparation id _ _ => some id
  | .retryUncommittedMutation id _ => some id
  | _ => none

/-- The change that an identity is reserved for. -/
def Op.reservesFor : Op → Option Uuid
  | .recordPreparedMutation id _ _ => some id
  | _ => none

/-- What a call may put back, and what it may reserve an identity for. -/
def Op.exempt (env : Env) (op : Op) : Apart where
  new id := ∃ n, env.uuid n = id
  upload id := op.returnsUpload = some id
  change id := op.returnsChange = some id
  prepare id := op.reservesFor = some id

section Exec

variable {α : Type} {f : α → Reply} {op : Op}

/-- The call is made in `start`, and nothing that was tried is put back. -/
def Settled (start : UploadJournal) (env : Env) (op : Op)
    (x : Commits UploadJournal JournalError Reply) : Prop :=
  Commits.Triple (fun j => j = start) x (Retained (op.exempt env) start)
    (fun _ => Retained (op.exempt env) start)

theorem Settled.of_triple {x : Commits UploadJournal JournalError α}
    {Q : α → UploadJournal → Prop} (h : Commits.Triple (Retained (op.exempt env) start) x
      (Retained (op.exempt env) start) Q) (hQ : ∀ a j, Q a j → Retained (op.exempt env) start j) :
    Settled start env op (answer f x) := by
  refine Commits.triple_bind (Q := fun _ => Retained (op.exempt env) start) ?_
    fun _ => Commits.triple_pure fun _ h => h
  refine Commits.triple_consequence h ?_ (fun _ h => h) hQ
  rintro j rfl
  exact Queue.Retains.refl _

theorem Settled.of_claim {x : Commits UploadJournal JournalError α} {P : α → UploadJournal → Prop}
    (h : Commits.Triple (Retained .none start) x (Retained .none start)
      fun a j => Retained .none start j ∧ P a j) : Settled start env op (answer f x) := by
  refine Commits.triple_bind (Q := fun _ => Retained (op.exempt env) start) ?_
    fun _ => Commits.triple_pure fun _ h => h
  refine Commits.triple_consequence h ?_ (fun _ h => Queue.Retains.of_none h)
    fun _ _ h => Queue.Retains.of_none h.1
  rintro j rfl
  exact Queue.Retains.refl _

theorem Settled.of_transaction {tx : UploadJournal → Except JournalError (α × UploadJournal)}
    (h : ∀ j a j', tx j = .ok (a, j') → j.queue.Retains (op.exempt env) j'.queue) :
    Settled start env op (answer f (Commits.transaction tx)) :=
  .of_triple (triple_retained_transaction h) (fun _ _ h => h)

theorem Settled.of_commit {f : PUnit → Reply}
    {tx : UploadJournal → Except JournalError UploadJournal}
    (h : ∀ j j', tx j = .ok j' → j.queue.Retains (op.exempt env) j'.queue) :
    Settled start env op (answer f (Commits.commit tx)) :=
  .of_triple (triple_retained_commit h) (fun _ _ h => h)

theorem writeWorking_retains {id : Uuid} {written : Except JournalError Nat} :
    Commits.Triple (Retained apart start) (UploadJournal.writeWorking env id written)
      (Retained apart start) (fun _ => Retained apart start) := by
  unfold UploadJournal.writeWorking
  refine Commits.triple_bind (triple_retained_transaction fun _ _ _ h =>
    markDirty_queue h ▸ .refl _) fun w => ?_
  refine Commits.triple_bind triple_retained_read fun size => ?_
  refine Commits.triple_bind (triple_retained_commit fun _ _ h =>
    saveWorking_queue h ▸ .refl _) fun _ => ?_
  exact Commits.triple_pure fun _ h => h

theorem relocateWorking_retains {id : Uuid} {parent name : String}
    (hnew : ∀ n, apart.new (env.uuid n)) :
    Commits.Triple (Retained apart start) (UploadJournal.relocateWorking env id parent name)
      (Retained apart start) (fun _ => Retained apart start) := by
  have hmove : Commits.Triple (Retained apart start)
      (Commits.transaction (fun j => j.relocateSealed env id parent name)) (Retained apart start)
      (fun _ => Retained apart start) :=
    triple_retained_transaction fun _ _ _ h => relocateSealed_retains (hnew 1) h
  unfold UploadJournal.relocateWorking
  refine Commits.triple_bind triple_retained_read fun w => ?_
  split
  · refine Commits.triple_bind (triple_retained_transaction fun _ _ _ h =>
      sealWorking_retains (hnew 0) h) fun _ => hmove
  · exact hmove

theorem relocateNamespaceItem_retains {id : Uuid} {revision : Nat} {parent name : String}
    (hnew : ∀ n, apart.new (env.uuid n)) :
    Commits.Triple (Retained apart start)
      (UploadJournal.relocateNamespaceItem env id revision parent name) (Retained apart start)
      (fun _ => Retained apart start) := by
  unfold UploadJournal.relocateNamespaceItem
  refine Commits.triple_bind triple_retained_read fun o => ?_
  have hmove : Commits.Triple (Retained apart start)
      (Commits.transaction (fun j => j.relocateObject env o parent name)) (Retained apart start)
      (fun _ => Retained apart start) :=
    triple_retained_transaction fun _ _ _ h => relocateObject_retains (hnew 1) h
  split
  · exact relocateWorking_retains hnew
  · exact hmove
  · exact Commits.triple_fail _
  · exact Commits.triple_bind triple_retained_read fun _ => hmove
  · exact Commits.triple_fail _

/-- No call puts an operation back, but a report about it. -/
theorem exec_settled (hkeyed : start.queue.Keyed) (op : Op) :
    Settled start env op (exec env op) := by
  have hnew : ∀ n, (op.exempt env).new (env.uuid n) := fun n => ⟨n, rfl⟩
  cases op with
  | configureNamespace scope names =>
    exact .of_commit fun _ _ h => configureNamespace_queue h ▸ .refl _
  | observeNamespaceFile scope node =>
    exact .of_transaction fun _ _ _ h => observeNamespaceFile_queue h ▸ .refl _
  | captureNamespaceAncestors entries =>
    refine .of_commit fun _ _ h => ?_
    obtain ⟨_, _, h⟩ := bind_eq_ok h
    exact captureEach_queue h ▸ .refl _
  | enqueue scope intent =>
    exact .of_transaction fun _ _ _ h => enqueueGeneration_retains (hnew 0)
      (fun _ _ _ h => by cases h; exact .refl _) h
  | enqueueAfterAll predecessor prerequisites =>
    refine .of_transaction fun j a j' h => ?_
    obtain ⟨_, _, h⟩ := bind_eq_ok h
    obtain ⟨_, _, h⟩ := bind_eq_ok h
    exact enqueueGeneration_retains (hnew 0) (fun _ _ _ h => by cases h; exact .refl _) h
  | enqueueMutation request =>
    refine .of_transaction fun j a j' h => ?_
    obtain ⟨_, _, h⟩ := bind_eq_ok h
    exact enqueueMutationTransaction_retains (hnew 0) (fun _ _ _ h => by cases h; exact .refl _) h
  | enqueueMutationAfterAll predecessor prerequisites request =>
    refine .of_transaction fun j a j' h => ?_
    obtain ⟨_, _, h⟩ := bind_eq_ok h
    obtain ⟨_, _, h⟩ := bind_eq_ok h
    exact enqueueMutationTransaction_retains (hnew 0) (fun _ _ _ h => by cases h; exact .refl _) h
  | publishWorking scope node new truncate =>
    exact .of_transaction fun _ _ _ h => publishWorking_queue h ▸ .refl _
  | writeWorking id written =>
    exact .of_triple writeWorking_retains (fun _ _ h => h)
  | sealWorking id => exact .of_transaction fun _ _ _ h => sealWorking_retains (hnew 0) h
  | relocateWorking id parent name =>
    exact .of_triple (relocateWorking_retains hnew) (fun _ _ h => h)
  | createNamespaceDirectory scope parent name =>
    exact .of_transaction fun _ _ _ h => createNamespaceDirectory_retains (hnew 1) h
  | removeNamespaceDirectory id revision =>
    exact .of_transaction fun _ _ _ h => removeNamespaceDirectory_retains (hnew 0) h
  | relocateNamespaceItem id revision parent name =>
    exact .of_triple (relocateNamespaceItem_retains hnew) (fun _ _ h => h)
  | unlinkNamespaceFile id revision preserveReaders =>
    exact .of_transaction fun _ _ _ h => unlinkNamespaceFile_retains (hnew 0) h
  | replaceNamespaceFile source sourceRevision victim victimRevision preserveReaders =>
    exact .of_transaction fun _ _ _ h => replaceNamespaceFile_retains hnew h
  | handoffNamespace id revision remote =>
    exact .of_commit fun _ _ h => handoffNamespace_queue h ▸ .refl _
  | claimNext => exact .of_claim (claimNext_retains hkeyed)
  | claimVerification id =>
    exact .of_triple triple_claimVerification (fun _ _ h => h.1)
  | claimNextVerification =>
    exact .of_triple claimNextVerification_retains (fun _ _ h => h.1)
  | claimMutation => exact .of_claim (claimMutation_retains hkeyed)
  | recordSession id attempt key transferred =>
    exact .of_commit fun _ _ h => recordSession_retains h
  | deferAttempt id attempt state delay => exact .of_commit fun _ _ h => deferAttempt_retains h
  | acknowledge id attempt remote => exact .of_commit fun _ _ h => acknowledge_retains h
  | retryVerifiedUncommitted id =>
    exact .of_commit fun _ _ h => retryVerifiedUncommitted_retains rfl h
  | requestRetry id => exact .of_commit fun _ _ h => requestRetry_retains h
  | releaseReplacementReaders id =>
    exact .of_commit fun _ _ h => releaseReplacementReaders_queue h ▸ .refl _
  | recordPreparedMutation id attempt item =>
    exact .of_commit fun _ _ h => recordPreparedMutation_retains rfl h
  | acknowledgeMutation id attempt receipt proof =>
    exact .of_transaction fun _ _ _ h => acknowledgeMutation_retains h
  | deferMutation id attempt state delay => exact .of_commit fun _ _ h => deferMutation_retains h
  | deferMutationPreparation id attempt delay =>
    exact .of_commit fun _ _ h => deferMutationPreparation_retains rfl h
  | retryUncommittedMutation id attempt =>
    exact .of_commit fun _ _ h => retryUncommittedMutation_retains rfl h
  | requestMutationRetry id => exact .of_commit fun _ _ h => requestMutationRetry_retains h
  | releaseUnlinkedReaders id => exact .of_commit fun _ _ h => releaseUnlinkedReaders_retains h
  | discardStuckRemoval id => exact .of_commit fun _ _ h => discardStuckRemoval_retains h
  | keepBoth id parent name =>
    exact .of_triple (keepBoth_retains hnew (by rintro id ⟨⟩) hkeyed) (fun _ _ h => h)

end Exec

/-! ## Whole runs -/

/-- The next claim hands the upload out to be begun. -/
def Queue.WaitingUpload (q : Queue) (id : Uuid) : Prop :=
  ∃ row, q.uploads.get id = some row ∧ row.body.untried

/-- The next claim hands the change out to be sent at once. -/
def Queue.WaitingChange (q : Queue) (id : Uuid) : Prop :=
  ∃ row, q.mutations.get id = some row ∧ row.body.state = .pending

/-- The next claim of the operation hands it out to be sent at once. -/
def Queue.Untried (q : Queue) (id : Uuid) : Prop := q.WaitingUpload id ∨ q.WaitingChange id

/-- Handed out to be sent at once. -/
def Operation.atOnce : Operation → Bool
  | .upload r => r.state = .uploading
  | .mutation r => r.state = .applying

theorem Queue.Follows.waitingUpload {q q' : Queue} {id : Uuid} (h : q.Follows apart q')
    (hnew : ¬ apart.new id) (hback : ¬ apart.upload id) (hlater : q'.WaitingUpload id) :
    q.WaitingUpload id := by
  obtain ⟨row', hrow', huntried⟩ := hlater
  obtain ⟨row, hrow, hafter⟩ := h.upload id row' hnew hrow'
  exact ⟨row, hrow, (hafter huntried).resolve_left hback⟩

theorem Queue.Follows.waitingChange {q q' : Queue} {id : Uuid} (h : q.Follows apart q')
    (hnew : ¬ apart.new id) (hback : ¬ apart.change id) (hlater : q'.WaitingChange id) :
    q.WaitingChange id := by
  obtain ⟨row', hrow', hpending⟩ := hlater
  obtain ⟨row, hrow, hafter⟩ := h.mutation id row' hnew hrow'
  exact ⟨row, hrow, (hafter.untried hpending).resolve_left hback⟩

/-- What an event may put back, and what it may reserve an identity for. -/
def Event.exempt (e : Event) : Apart where
  new id := ∃ env op, e.request = some (env, op) ∧ (op.exempt env).new id
  upload id := ∃ env op, e.request = some (env, op) ∧ (op.exempt env).upload id
  change id := ∃ env op, e.request = some (env, op) ∧ (op.exempt env).change id
  prepare id := ∃ env op, e.request = some (env, op) ∧ (op.exempt env).prepare id

/-- Every event keeps what was tried tried. -/
theorem step_follows {w : World} (e : Event) (hkeyed : w.journal.queue.Keyed) :
    w.journal.queue.Follows e.exempt (step w e).journal.queue := by
  have hcall : ∀ env op, e.request = some (env, op) →
      ∀ j, Retained (op.exempt env) w.journal j → w.journal.queue.Follows e.exempt j.queue := by
    intro env op hrequest j hj
    exact Queue.Retains.mono hj (fun id hid => ⟨env, op, hrequest, hid⟩)
      (fun id hid => ⟨env, op, hrequest, hid⟩) (fun id hid => ⟨env, op, hrequest, hid⟩)
      (fun id hid => ⟨env, op, hrequest, hid⟩) hkeyed
  have hopen : ∀ j, Retained .none w.journal j → w.journal.queue.Follows e.exempt j.queue :=
    fun _ hj => Queue.Retains.of_none hj hkeyed
  have hsame : w.journal.queue.Follows e.exempt w.journal.queue := Queue.Retains.refl _ hkeyed
  cases e with
  | call env op =>
    rw [step_call_journal]
    exact Commits.final_of_states (I := fun j => w.journal.queue.Follows _ j.queue) hsame
      fun m hm => hcall env op rfl m ((exec_settled hkeyed op _ rfl).1 m hm)
  | die env op commits =>
    exact taken_of_states (K := fun j => w.journal.queue.Follows _ j.queue) hsame
      (fun m hm => hcall env op rfl m ((exec_settled hkeyed op _ rfl).1 m hm)) commits
  | start size =>
    exact Commits.final_of_states (I := fun j => w.journal.queue.Follows _ j.queue) hsame
      fun m hm => hopen m ((reopen_retains _ (Queue.Retains.refl _)).1 m hm)
  | startDies size commits =>
    exact taken_of_states (K := fun j => w.journal.queue.Follows _ j.queue) hsame
      (fun m hm => hopen m ((reopen_retains _ (Queue.Retains.refl _)).1 m hm)) commits

/-- What a call tells its caller is what its computation came to. -/
theorem answer_result {α : Type} {f : α → Reply} {x : Commits UploadJournal JournalError α}
    {reply : Reply} (h : (answer f x j).result = .ok reply) :
    ∃ a, (x j).result = .ok a ∧ reply = f a := by
  cases hx : (x j).result with
  | error e =>
    have hfail : answer f x j = _ := Commits.bind_of_error hx
    rw [hfail] at h
    cases h
  | ok a =>
    have hdone : answer f x j = _ := Commits.bind_of_ok hx
    rw [hdone] at h
    cases h
    exact ⟨a, rfl, rfl⟩

/-- A change that is handed out to be sent at once was waiting. -/
theorem claimMutation_waiting {r : MutationRecord} (hkeyed : j.queue.Keyed)
    (h : (exec env .claimMutation j).result = .ok (.claimed (some (.mutation r))))
    (hstate : r.state = .applying) : j.queue.WaitingChange r.id := by
  obtain ⟨claimed, hclaimed, heq⟩ := answer_result h
  have hmap : claimed.map Operation.mutation = some (.mutation r) :=
    (Reply.claimed.inj heq).symm
  obtain ⟨r', rfl, hr'⟩ := Option.map_eq_some_iff.mp hmap
  cases hr'
  exact ((claimMutation_retains hkeyed _ (Queue.Retains.refl _)).2 _ hclaimed).2 r rfl hstate

/-- What is handed out to be sent at once was waiting. -/
theorem handedOut_untried {op : Op} {x : Operation} (hkeyed : j.queue.Keyed)
    (hx : handedOut (exec env op j).result = some x) (honce : x.atOnce = true) :
    j.queue.Untried x.id := by
  cases hresult : (exec env op j).result with
  | error e =>
    rw [hresult] at hx
    cases hx
  | ok reply =>
    rw [hresult] at hx
    have hverifies : ∀ r : UploadRecord, x = .upload r → r.state ≠ .verifying := by
      rintro r rfl hstate
      simp [Operation.atOnce, hstate] at honce
    cases op
    case claimNext =>
      obtain ⟨claimed, hclaimed, rfl⟩ := answer_result hresult
      obtain ⟨r, rfl, rfl⟩ := Option.map_eq_some_iff.mp hx
      exact .inl (((claimNext_retains hkeyed _ (Queue.Retains.refl _)).2 _ hclaimed).2 r rfl)
    case claimMutation =>
      obtain ⟨claimed, -, rfl⟩ := answer_result hresult
      obtain ⟨r, rfl, rfl⟩ := Option.map_eq_some_iff.mp hx
      exact .inr (claimMutation_waiting hkeyed hresult (of_decide_eq_true honce))
    case claimVerification id =>
      obtain ⟨r, hr, rfl⟩ := answer_result hresult
      cases hx
      have hretained : Retained .none j j := Queue.Retains.refl _
      exact absurd ((triple_claimVerification _ hretained).2 _ hr).2 (hverifies r rfl)
    case claimNextVerification =>
      obtain ⟨claimed, hclaimed, rfl⟩ := answer_result hresult
      obtain ⟨r, rfl, rfl⟩ := Option.map_eq_some_iff.mp hx
      have hretained : Retained .none j j := Queue.Retains.refl _
      exact absurd (((claimNextVerification_retains _ hretained).2 _ hclaimed).2 r rfl)
        (hverifies r rfl)
    all_goals
      obtain ⟨a, -, rfl⟩ := answer_result hresult
      cases hx

section Runs

variable {ok : String → Prop} {w w' : World} {events more : List Event}

/-- In every run, whoever calls and whatever dies: an operation that is tried, or gone, is handed
    out to be sent at once only when a report about it has put it back before. -/
theorem reported_of_run {settings : Settings} {id : Uuid} {x : Operation} {op : Op}
    (h : Run step (Permitted ok) (World.create settings) events w)
    (hmore : Run step (Permitted ok) w more w') (htried : ¬ w.journal.queue.Untried id)
    (hdrawn : ∀ e ∈ more, ∀ env op, e.request = some (env, op) → ∀ n, env.uuid n ≠ id)
    (hx : handedOut (exec env op w'.journal).result = some x) (hid : x.id = id)
    (honce : x.atOnce = true) :
    ∃ before e after v, more = before ++ e :: after ∧ Run step (Permitted ok) w before v ∧
      ¬ v.journal.queue.Untried id ∧ (step v e).journal.queue.Untried id ∧
      ∃ env op, e.request = some (env, op) ∧
        (op.returnsUpload = some id ∨ op.returnsChange = some id) := by
  have hinv' : Inv ok [] w'.journal :=
    hmore.invariant (fun w => Inv ok [] w.journal) (inv_of_run h)
      fun _ _ hinv hpermitted => step_inv hpermitted hinv
  have huntried : w'.journal.queue.Untried id :=
    hid ▸ handedOut_untried hinv'.tidy.keyed hx honce
  obtain ⟨before, e, after, v, rfl, hrun, hpermitted, hbefore, hafter⟩ :=
    hmore.gained (P := fun w => w.journal.queue.Untried id) htried huntried
  refine ⟨before, e, after, v, rfl, hrun, hbefore, hafter, ?_⟩
  have hinv : Inv ok [] v.journal :=
    hrun.invariant (fun w => Inv ok [] w.journal) (inv_of_run h)
      fun _ _ hinv hpermitted => step_inv hpermitted hinv
  by_contra hnone
  have hfollows := step_follows e hinv.tidy.keyed
  have hnew : ¬ e.exempt.new id := by
    rintro ⟨env, op, hrequest, n, hn⟩
    exact hdrawn e (by simp) env op hrequest n hn
  refine hbefore (hafter.imp (hfollows.waitingUpload hnew ?_) (hfollows.waitingChange hnew ?_))
  · rintro ⟨env, op, hrequest, hreturns⟩
    exact hnone ⟨env, op, hrequest, .inl hreturns⟩
  · rintro ⟨env, op, hrequest, hreturns⟩
    exact hnone ⟨env, op, hrequest, .inr hreturns⟩

/-- A folder is queued and handed out. -/
def folderTried : List Op :=
  [.enqueueMutation ⟨sampleDrive, .createFolder "root" "letters"⟩, .claimMutation]

/-- Its result is not known, so that it is looked for, and nothing is found. -/
def folderMissing : List Op :=
  [.deferMutation ⟨1⟩ ⟨11⟩ .verifyRequired 0, .claimMutation, .retryUncommittedMutation ⟨1⟩ ⟨41⟩]

theorem reported_folderTried : ∃ before e after v,
    script 31 folderMissing = before ++ e :: after ∧
      Run step (Permitted fun _ => True) (scriptWorld .sample folderTried) before v ∧
      ¬ v.journal.queue.Untried ⟨1⟩ ∧ (step v e).journal.queue.Untried ⟨1⟩ ∧
      ∃ env op, e.request = some (env, op) ∧
        (op.returnsUpload = some ⟨1⟩ ∨ op.returnsChange = some ⟨1⟩) := by
  have hscripted : scripted 1 (World.create .sample) folderTried = true := by decide +kernel
  have hnext : scripted 31 (scriptWorld .sample folderTried) folderMissing = true := by
    decide +kernel
  have hmore := Run.start.extend
    (@follows_script (fun _ => True) _ _ _ hnext fun _ _ _ _ => trivial)
  have hclaimed : (handedOut (exec (.numbered 61) .claimMutation
      ((script 31 folderMissing).foldl step (scriptWorld .sample folderTried)).journal).result).map
        (fun x => (x.id, x.atOnce)) = some (⟨1⟩, true) := by decide +kernel
  obtain ⟨x, hx, hboth⟩ := Option.map_eq_some_iff.mp hclaimed
  have htried : ¬ (scriptWorld .sample folderTried).journal.queue.Untried ⟨1⟩ := by
    rintro (⟨row, hrow, -⟩ | ⟨row, hrow, hpending⟩)
    · have hnone : (scriptWorld .sample folderTried).journal.queue.uploads.get ⟨1⟩ = none := by
        decide +kernel
      rw [hnone] at hrow
      cases hrow
    · have happlying : ((scriptWorld .sample folderTried).journal.queue.mutations.get ⟨1⟩).map
          (fun row => row.body.state) = some .applying := by decide +kernel
      rw [hrow] at happlying
      exact absurd (hpending.symm.trans (Option.some.inj happlying)) (by decide)
  refine reported_of_run (run_of_script hscripted fun _ _ _ _ => trivial) hmore htried ?_ hx
    (congrArg Prod.fst hboth) (congrArg Prod.snd hboth)
  rintro e he env op hrequest n heq
  simp only [folderMissing, script, List.mem_cons, List.not_mem_nil, or_false] at he
  rcases he with rfl | rfl | rfl <;> cases hrequest <;>
    exact absurd (congrArg Uuid.value heq) (Nat.ne_of_gt (Nat.lt_add_right n (by decide)))

end Runs

end Cirrove.Journal
