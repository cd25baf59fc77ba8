import Cirrove.Google.Changes
import Cirrove.Google.Checkpoints
import Cirrove.Journal.Acknowledging
import Cirrove.Journal.Histories

/-!
# What a change asks, and what it reports

A reservation only reserves, and looking for a change only reads. A change asks for nothing but
that its own item, or the folder of its own identity, is changed. What is reported is what was
asked for, so that the journal records every receipt that its names take.
-/

namespace Cirrove.Google

open Cirrove.Library
open Cirrove.Upload
open Cirrove.Mutation (MutationError MutationReconciliation Acceptable mapError_eq_ok)
open Cirrove.Journal (MutationRequest MutationReceipt MutationRecord UploadJournal Uuid Acknowledges
  acknowledges inv_of_run)

/-- The item that a request to change the namespace changes. -/
def Message.changes : Message → Option String
  | .createFolder id _ _ => some id
  | .relocate item _ _ _ => some item
  | .relocateV2 item _ _ _ => some item
  | .trash item _ => some item
  | .trashV2 item _ => some item
  | _ => none

/-- A folder is created. -/
def Message.creates : Message → Bool
  | .createFolder _ _ _ => true
  | _ => false

/-- The item that a change is about, a folder under the identity that was reserved for it. -/
def subject (request : MutationRequest) (item : Option String) : Option String :=
  match request.intent.before with
  | none => item
  | some before => some before.id

/-- What is asked only reads, or changes this item; it creates a folder, or does not. -/
def ReadsOrChanges (id : Option String) (creates : Bool) (r : Ask) : Prop :=
  Reads r ∨ ∃ message : Message,
    r = .send message ∧ message.changes = id ∧ message.creates = creates

/-- What is asked only reads, or is this request. -/
def ReadsOrSends (message : Message) (r : Ask) : Prop := Reads r ∨ r = .send message

/-! ## Questions -/

section Only

variable {g : GoogleWriter} {P : Ask → Prop} {α : Type}

theorem reads_subset {id : Option String} {creates : Bool} (r : Ask) (h : Reads r) :
    ReadsOrChanges id creates r := .inl h

theorem uploadCall_only {call : Exchange α} (hpermit : P .permit) (hcall : call.run.Only P) :
    (GoogleWriter.uploadCall call).Only P := by
  unfold GoogleWriter.uploadCall
  apply Dialogue.only_cut
  refine Dialogue.only_tries (only_ask hpermit) fun _ => ?_
  exact Dialogue.only_tries only_ofProvider fun _ => hcall

theorem readV2File_only {item : String} : (g.readV2File item).run.Only Reads := by
  unfold GoogleWriter.readV2File
  refine Dialogue.only_tries only_ofProvider fun _ => ?_
  refine Dialogue.only_tries (only_ask trivial) fun _ => ?_
  refine Dialogue.only_tries only_ofExcept fun _ => ?_
  exact Dialogue.only_tries only_refuseIf fun _ => only_return

theorem readTaggedFile_only {item : String} :
    (GoogleWriter.readTaggedFile item).run.Only Reads := by
  unfold GoogleWriter.readTaggedFile
  refine Dialogue.only_tries (only_ask trivial) fun _ => ?_
  exact Dialogue.only_tries only_ofExcept fun _ => only_return

theorem fileForV2_only {file : V2File} {attempts : Nat} :
    (g.fileForV2 file attempts).run.Only Reads := by
  induction attempts with
  | zero => exact only_throw
  | succ attempts ih =>
    unfold GoogleWriter.fileForV2
    refine Dialogue.only_tries readFile_only fun current => ?_
    split
    · exact only_return
    split
    · exact only_throw
    · exact Dialogue.only_tries (only_ask trivial) fun _ => ih

theorem v2MutationNode_only {file : V2File} : (g.v2MutationNode file).run.Only Reads := by
  unfold GoogleWriter.v2MutationNode
  refine Dialogue.only_tries only_refuseIf fun _ => ?_
  refine Dialogue.only_tries fileForV2_only fun current => ?_
  refine Dialogue.only_tries only_refuseIf fun _ => ?_
  refine Dialogue.only_tries only_ofExcept fun node => ?_
  exact Dialogue.only_tries only_refuseIf fun _ => only_return

theorem readPage_only {parent : String} {token : Option String} :
    (GoogleWriter.readPage parent token).run.Only Reads := by
  unfold GoogleWriter.readPage
  refine Dialogue.only_tries only_ofProvider fun _ => ?_
  refine Dialogue.only_tries only_ofProvider fun _ => ?_
  refine Dialogue.only_tries (only_ask trivial) fun page => ?_
  refine Dialogue.only_tries only_ofProvider fun page => ?_
  refine Dialogue.only_tries only_refuseIf fun _ => ?_
  refine Dialogue.only_tries only_ofProvider fun _ => ?_
  exact Dialogue.only_tries only_refuseIf fun _ => only_return

theorem noneIn_only {parent : String} {p : File → Bool} {pages : Nat} {token : Option String} :
    (GoogleWriter.noneIn parent p pages token).run.Only Reads := by
  induction pages generalizing token with
  | zero => exact only_throw
  | succ pages ih =>
    unfold GoogleWriter.noneIn
    refine Dialogue.only_tries readPage_only fun page => ?_
    refine Dialogue.only_tries only_refuseIf fun _ => ?_
    split
    · exact only_return
    · exact ih

/-- A request is sent twice at most, and is the same. -/
theorem sendAuthorized_only {message : Message} :
    (GoogleWriter.sendAuthorized message).run.Only (· = .send message) := by
  unfold GoogleWriter.sendAuthorized
  refine Dialogue.only_tries (only_ask rfl) fun _ => ?_
  refine Dialogue.only_tries only_ofExcept fun first => ?_
  split
  · refine Dialogue.only_tries (only_ask rfl) fun _ => ?_
    exact Dialogue.only_tries only_ofExcept fun _ => only_ofExcept
  · exact only_ofExcept

/-- After it was sent, everything reads. -/
theorem sends_only {message : Message} {f : Response → Exchange α}
    (hf : ∀ response, (f response).run.Only Reads) :
    (GoogleWriter.sendAuthorized message >>= f).run.Only (ReadsOrSends message) := by
  refine Dialogue.only_tries ?_ fun response => Dialogue.only_mono (hf response) fun _ => .inl
  exact Dialogue.only_mono sendAuthorized_only fun _ => .inr

theorem changes_of_sends {message : Message} {id : Option String} {creates : Bool}
    (hmessage : message.changes = id) (hcreates : message.creates = creates) (r : Ask)
    (h : ReadsOrSends message r) : ReadsOrChanges id creates r :=
  h.imp_right fun hr => ⟨message, hr, hmessage, hcreates⟩

end Only

section Calls

variable {g : GoogleValidationMutations} {request : MutationRequest} {item : Option String}
  {before : Node}

theorem checkEmpty_only : (g.checkEmpty request before).run.Only Reads := by
  unfold GoogleValidationMutations.checkEmpty
  split
  · exact noneIn_only
  · exact only_return

theorem accepted_only {receipt : MutationReceipt} :
    (GoogleValidationMutations.accepted request receipt).run.Only Reads := by
  unfold GoogleValidationMutations.accepted
  split
  · exact only_return
  · exact only_throw

theorem v2Relocate_only {parent name : String} :
    (g.v2Relocate request before parent name).Only (ReadsOrChanges (some before.id) false) := by
  unfold GoogleValidationMutations.v2Relocate
  refine uploadCall_only (.inl trivial) ?_
  refine Dialogue.only_tries (Dialogue.only_mono readV2File_only reads_subset) fun file => ?_
  refine Dialogue.only_tries (Dialogue.only_mono v2MutationNode_only reads_subset) fun current => ?_
  refine Dialogue.only_tries only_refuseIf fun _ => ?_
  refine Dialogue.only_tries (Dialogue.only_mono noneIn_only reads_subset) fun _ => ?_
  refine Dialogue.only_tries only_ofExcept fun target => ?_
  refine Dialogue.only_tries only_ofExcept fun etag => ?_
  refine Dialogue.only_mono (sends_only fun response => ?_) (changes_of_sends rfl rfl)
  refine Dialogue.only_tries only_ofExcept fun file => ?_
  exact Dialogue.only_tries v2MutationNode_only fun node => accepted_only

theorem v2Remove_only :
    (g.v2Remove request before).Only (ReadsOrChanges (some before.id) false) := by
  unfold GoogleValidationMutations.v2Remove
  refine uploadCall_only (.inl trivial) ?_
  refine Dialogue.only_tries (Dialogue.only_mono readV2File_only reads_subset) fun file => ?_
  refine Dialogue.only_tries (Dialogue.only_mono v2MutationNode_only reads_subset) fun current => ?_
  refine Dialogue.only_tries only_refuseIf fun _ => ?_
  refine Dialogue.only_tries (Dialogue.only_mono checkEmpty_only reads_subset) fun _ => ?_
  refine Dialogue.only_tries only_ofExcept fun etag => ?_
  refine Dialogue.only_mono (sends_only fun response => ?_) (changes_of_sends rfl rfl)
  refine Dialogue.only_tries only_ofExcept fun file => ?_
  exact Dialogue.only_tries only_refuseIf fun _ => only_return

theorem validationRelocate_only {etag parent name : String} :
    (g.validationRelocate request before etag parent name).Only
      (ReadsOrChanges (some before.id) false) := by
  unfold GoogleValidationMutations.validationRelocate
  refine uploadCall_only (.inl trivial) ?_
  refine Dialogue.only_tries (Dialogue.only_mono readTaggedFile_only reads_subset) fun file => ?_
  refine Dialogue.only_tries only_ofExcept fun current => ?_
  refine Dialogue.only_tries only_refuseIf fun _ => ?_
  refine Dialogue.only_tries (Dialogue.only_mono noneIn_only reads_subset) fun _ => ?_
  refine Dialogue.only_tries only_ofExcept fun target => ?_
  refine Dialogue.only_mono (sends_only fun response => ?_) (changes_of_sends rfl rfl)
  refine Dialogue.only_tries only_ofExcept fun file => ?_
  exact Dialogue.only_tries only_ofExcept fun node => accepted_only

theorem validationRemove_only {etag : String} :
    (g.validationRemove request before etag).Only (ReadsOrChanges (some before.id) false) := by
  unfold GoogleValidationMutations.validationRemove
  refine uploadCall_only (.inl trivial) ?_
  refine Dialogue.only_tries (Dialogue.only_mono readTaggedFile_only reads_subset) fun file => ?_
  refine Dialogue.only_tries only_ofExcept fun current => ?_
  refine Dialogue.only_tries only_refuseIf fun _ => ?_
  refine Dialogue.only_tries (Dialogue.only_mono checkEmpty_only reads_subset) fun _ => ?_
  refine Dialogue.only_mono (sends_only fun response => ?_) (changes_of_sends rfl rfl)
  refine Dialogue.only_tries only_ofExcept fun file => ?_
  exact Dialogue.only_tries only_refuseIf fun _ => only_return

theorem createPreparedFolder_only (scope : Scope) (plan : PreparedFolder) :
    (g.createPreparedFolder scope plan).Only
      (ReadsOrSends (.createFolder plan.id plan.parent plan.name)) := by
  unfold GoogleWriter.createPreparedFolder
  split
  · trivial
  · refine uploadCall_only (.inl trivial) (sends_only fun response => ?_)
    refine Dialogue.only_tries only_ofExcept fun file => ?_
    exact Dialogue.only_tries only_ofExcept fun node => settleWrittenNode_only

theorem inspectPreparedFolder_only {scope : Scope} {plan : PreparedFolder} :
    (g.inspectPreparedFolder scope plan).Only Reads := by
  unfold GoogleWriter.inspectPreparedFolder
  split
  · trivial
  · refine uploadCall_only trivial ?_
    refine Dialogue.only_tries (Dialogue.only_lift readTaggedFile_only) fun found => ?_
    split
    · exact Dialogue.only_tries only_ofExcept fun _ => only_return
    · exact only_return
    · exact only_throw

theorem mutateItem_only {etag : String} :
    (g.mutateItem request before etag).Only (ReadsOrChanges (some before.id) false) := by
  unfold GoogleValidationMutations.mutateItem
  split
  · split
    · trivial
    split
    · exact v2Relocate_only
    · exact validationRelocate_only
  · split
    · exact v2Remove_only
    · exact validationRemove_only
  · split
    · exact v2Remove_only
    · exact validationRemove_only
  · trivial
  · trivial

theorem mutate_only : (g.mutate request).Only
    (ReadsOrChanges (subject request none) request.intent.before.isNone) := by
  unfold GoogleValidationMutations.mutate
  split
  · trivial
  split
  · trivial
  next before hbefore =>
  split
  · trivial
  · rw [subject, hbefore]
    exact Dialogue.only_bind mutateItem_only fun _ => trivial

theorem checkPrepared_eq_ok {id : String} (h : g.checkPrepared request item = .ok id) :
    item = some id := by
  unfold GoogleValidationMutations.checkPrepared at h
  split at h
  · cases h
  obtain ⟨_, -, h⟩ := bind_eq_ok h
  split at h
  · cases h
  split at h
  · cases h
  · exact congrArg some (Except.ok.inj h)

theorem mutatePrepared_only :
    (g.mutatePrepared request item).Only
      (ReadsOrChanges (subject request item) request.intent.before.isNone) := by
  unfold GoogleValidationMutations.mutatePrepared
  split
  · next parent name hintent =>
    split
    · trivial
    next id hid =>
    have hsubject : subject request item = some id := by
      rw [subject, hintent]
      exact checkPrepared_eq_ok hid
    have hcreates : request.intent.before.isNone = true := by
      rw [hintent]
      rfl
    rw [hsubject, hcreates]
    refine Dialogue.only_bind (Dialogue.only_cut _ (Dialogue.only_mono noneIn_only reads_subset)) ?_
    intro free
    split
    · trivial
    have hcreates := createPreparedFolder_only (g := g) request.scope ⟨id, parent, name⟩
    refine Dialogue.only_bind (Dialogue.only_mono hcreates (changes_of_sends rfl rfl))
      fun created => ?_
    split
    · trivial
    split
    · trivial
    · trivial
  · split
    · trivial
    next hnone =>
    obtain rfl : item = none := by simpa using hnone
    exact mutate_only

theorem prepareMutation_only : (g.prepareMutation request).Only Reserves := by
  unfold GoogleValidationMutations.prepareMutation
  split
  · trivial
  split
  · refine Dialogue.only_bind ?_ fun plan => trivial
    unfold GoogleWriter.prepareFolder
    split
    · trivial
    · refine uploadCall_only trivial ?_
      refine Dialogue.only_tries generatedId_only fun id => ?_
      exact Dialogue.only_tries only_ofExcept fun _ => only_return
  · trivial

theorem reconcileV2_only : (g.reconcileV2 request before).Only Reads := by
  unfold GoogleValidationMutations.reconcileV2
  refine Dialogue.only_bind (uploadCall_only trivial readV2File_only) fun found => ?_
  split
  · trivial
  · trivial
  split
  · trivial
  · refine Dialogue.only_bind (uploadCall_only trivial v2MutationNode_only) fun current => ?_
    split
    · trivial
    · trivial

theorem reconcileTagged_only : (g.reconcileTagged request before).Only Reads := by
  unfold GoogleValidationMutations.reconcileTagged
  refine Dialogue.only_bind (uploadCall_only trivial readTaggedFile_only) fun found => ?_
  split
  · trivial
  · trivial
  split
  · split
    · trivial
    · trivial
  · split
    · trivial
    · trivial

theorem reconcilePreparedMutation_only :
    (g.reconcilePreparedMutation request item).Only Reads := by
  unfold GoogleValidationMutations.reconcilePreparedMutation
  split
  · split
    · trivial
    refine Dialogue.only_bind inspectPreparedFolder_only fun found => ?_
    split
    · trivial
    · trivial
    · split
      · trivial
      · trivial
  · split
    · trivial
    unfold GoogleValidationMutations.reconcileMutation
    split
    · trivial
    split
    · trivial
    split
    · exact reconcileV2_only
    · exact reconcileTagged_only

end Calls

/-- Whatever is answered: before a change only an identity is reserved, looking for a change that
    was lost only reads, and a change asks to change nothing but its own item, or to create the
    folder of the identity that was reserved for it. -/
theorem changes_own_item (g : GoogleValidationMutations) (request : MutationRequest)
    (item : Option String) :
    (g.prepareMutation request).Only Reserves ∧
    (g.reconcilePreparedMutation request item).Only Reads ∧
    (g.mutatePrepared request item).Only fun r => Reads r ∨
      ∃ message : Message, r = .send message ∧ message.changes = subject request item ∧
        message.creates = request.intent.before.isNone :=
  ⟨prepareMutation_only, reconcilePreparedMutation_only, mutatePrepared_only⟩

/-! ## Receipts -/

section Receipts

variable {g : GoogleValidationMutations} {request : MutationRequest} {item : Option String}
  {before node : Node} {receipt : MutationReceipt}

theorem settle_id {scope : Scope} {initial : Node} {looks : Nat} {previous : Option Node}
    (h : (g.settle scope initial looks previous).run.Ends (.ok node)) : node.id = initial.id := by
  induction looks generalizing previous with
  | zero => cases not_ends_throw h
  | succ looks ih =>
    unfold GoogleWriter.settle at h
    obtain ⟨cancelled, -, h⟩ := Dialogue.ends_ok h
    obtain ⟨_, -, h⟩ := Dialogue.ends_ok h
    obtain ⟨file, -, h⟩ := Dialogue.ends_ok h
    obtain ⟨current, -, h⟩ := Dialogue.ends_ok h
    obtain ⟨_, hsettled, h⟩ := Dialogue.ends_ok h
    have hsame : GoogleWriter.settled initial { current with name := file.name } = true := by
      simpa using ends_refuseIf hsettled
    split at h
    · rw [← ends_return h]
      simp only [GoogleWriter.settled, Bool.and_eq_true, decide_eq_true_eq] at hsame
      exact hsame.1.1.1.1.1
    · exact ih h

theorem settleWrittenNode_id {scope : Scope} {initial : Node}
    (h : (g.settleWrittenNode scope initial).run.Ends (.ok node)) : node.id = initial.id := by
  unfold GoogleWriter.settleWrittenNode at h
  split at h
  · rw [ends_return h]
  · exact settle_id h

theorem folderReceipt_id {plan : PreparedFolder} {file : File} {etag : Option String}
    (h : g.folderReceipt plan file etag = .ok node) : node.id = plan.id := by
  unfold GoogleWriter.folderReceipt at h
  split at h
  · cases h
  next hsame =>
  obtain ⟨current, hcurrent, h⟩ := bind_eq_ok h
  dsimp only at h
  split at h
  · cases h
  · cases h
    have hid : file.id = plan.id := not_not.mp fun hne => hsame (.inl hne)
    exact (File.node_id (mapError_eq_ok hcurrent)).trans hid

theorem createPreparedFolder_id {scope : Scope} {plan : PreparedFolder}
    (h : (g.createPreparedFolder scope plan).Ends (.ok node)) : node.id = plan.id := by
  unfold GoogleWriter.createPreparedFolder at h
  split at h
  · cases Dialogue.ends_done h
  · obtain ⟨response, -, h⟩ := Dialogue.ends_ok (ends_uploadCall h)
    obtain ⟨file, -, h⟩ := Dialogue.ends_ok h
    obtain ⟨initial, hinitial, h⟩ := Dialogue.ends_ok h
    exact (settleWrittenNode_id h).trans (folderReceipt_id (ends_ofExcept hinitial))

theorem inspectPreparedFolder_id {scope : Scope} {plan : PreparedFolder}
    (h : (g.inspectPreparedFolder scope plan).Ends (.ok (some node))) : node.id = plan.id := by
  unfold GoogleWriter.inspectPreparedFolder at h
  split at h
  · cases Dialogue.ends_done h
  · obtain ⟨found, -, h⟩ := Dialogue.ends_ok (ends_uploadCall h)
    split at h
    · obtain ⟨current, hcurrent, h⟩ := Dialogue.ends_ok h
      cases ends_return h
      exact folderReceipt_id (ends_ofExcept hcurrent)
    · cases ends_return h
    · cases not_ends_throw h

theorem accepted_accepts {result : MutationReceipt}
    (h : (GoogleValidationMutations.accepted request receipt).run.Ends (.ok result)) :
    request.accepts result = true := by
  unfold GoogleValidationMutations.accepted at h
  split at h
  · next haccepts =>
    rw [← ends_return h]
    exact haccepts
  · cases not_ends_throw h

/-- A removal accepts that its item was removed. -/
theorem accepts_removed (hbefore : request.intent.before = some before)
    (hremoves : GoogleValidationMutations.removes request = true) :
    request.accepts (.removed before.id) = true := by
  unfold GoogleValidationMutations.removes at hremoves
  unfold MutationRequest.accepts
  split at hremoves
  · next source hintent =>
    rw [hintent] at hbefore ⊢
    cases hbefore
    exact decide_eq_true rfl
  · next source hintent =>
    rw [hintent] at hbefore ⊢
    cases hbefore
    exact decide_eq_true rfl
  · cases hremoves

theorem mutateItem_accepts {etag : String} (hbefore : request.intent.before = some before)
    (h : (g.mutateItem request before etag).Ends (.ok receipt)) :
    request.accepts receipt = true := by
  have hv2 : (g.v2Remove request before).Ends (.ok receipt) → receipt = .removed before.id := by
    intro h
    unfold GoogleValidationMutations.v2Remove at h
    obtain ⟨_, -, h⟩ := Dialogue.ends_ok (ends_uploadCall h)
    iterate 7 obtain ⟨_, -, h⟩ := Dialogue.ends_ok h
    exact (ends_return h).symm
  have htagged : (g.validationRemove request before etag).Ends (.ok receipt) →
      receipt = .removed before.id := by
    intro h
    unfold GoogleValidationMutations.validationRemove at h
    obtain ⟨_, -, h⟩ := Dialogue.ends_ok (ends_uploadCall h)
    iterate 6 obtain ⟨_, -, h⟩ := Dialogue.ends_ok h
    exact (ends_return h).symm
  have hremoved : GoogleValidationMutations.removes request = true →
      (if (preconditionVersion etag).isSome then g.v2Remove request before
        else g.validationRemove request before etag).Ends (.ok receipt) →
      request.accepts receipt = true := by
    intro hremoves h
    split at h
    · rw [hv2 h]
      exact accepts_removed hbefore hremoves
    · rw [htagged h]
      exact accepts_removed hbefore hremoves
  unfold GoogleValidationMutations.mutateItem at h
  split at h
  · split at h
    · cases Dialogue.ends_done h
    split at h
    · unfold GoogleValidationMutations.v2Relocate at h
      obtain ⟨_, -, h⟩ := Dialogue.ends_ok (ends_uploadCall h)
      iterate 8 obtain ⟨_, -, h⟩ := Dialogue.ends_ok h
      exact accepted_accepts h
    · unfold GoogleValidationMutations.validationRelocate at h
      obtain ⟨_, -, h⟩ := Dialogue.ends_ok (ends_uploadCall h)
      iterate 7 obtain ⟨_, -, h⟩ := Dialogue.ends_ok h
      exact accepted_accepts h
  · next hintent =>
    refine hremoved ?_ h
    rw [GoogleValidationMutations.removes, hintent]
  · next hintent =>
    refine hremoved ?_ h
    rw [GoogleValidationMutations.removes, hintent]
  · cases Dialogue.ends_done h
  · cases Dialogue.ends_done h

theorem mutate_accepts (h : (g.mutate request).Ends (.ok receipt)) :
    request.accepts receipt = true := by
  unfold GoogleValidationMutations.mutate at h
  split at h
  · cases Dialogue.ends_done h
  split at h
  · cases Dialogue.ends_done h
  next before hbefore =>
  split at h
  · cases Dialogue.ends_done h
  · obtain ⟨result, hresult, h⟩ := Dialogue.ends_bind h
    obtain rfl := mapError_eq_ok (Dialogue.ends_done h)
    exact mutateItem_accepts hbefore hresult

theorem mutatePrepared_acceptable (h : (g.mutatePrepared request item).Ends (.ok receipt)) :
    Acceptable request item receipt := by
  unfold GoogleValidationMutations.mutatePrepared at h
  split at h
  · split at h
    · cases Dialogue.ends_done h
    next id hid =>
    obtain ⟨free, -, h⟩ := Dialogue.ends_bind h
    split at h
    · cases Dialogue.ends_done h
    obtain ⟨created, hcreated, h⟩ := Dialogue.ends_bind h
    split at h
    · cases Dialogue.ends_done h
    split at h
    · next node haccepts =>
      obtain rfl := Except.ok.inj (Dialogue.ends_done h)
      refine ⟨haccepts, ?_⟩
      rw [checkPrepared_eq_ok hid]
      exact decide_eq_true (createPreparedFolder_id hcreated).symm
    · cases Dialogue.ends_done h
  · split at h
    · cases Dialogue.ends_done h
    next hnone =>
    obtain rfl : item = none := by simpa using hnone
    exact ⟨mutate_accepts h, rfl⟩

theorem compared_accepts {current : Node}
    (h : GoogleValidationMutations.compared request before current = .ok (.applied receipt)) :
    request.accepts receipt = true := by
  unfold GoogleValidationMutations.compared at h
  dsimp only at h
  split at h
  · split at h
    · split at h
      · next haccepts =>
        cases h
        exact haccepts
      · cases h
    · split at h
      · cases h
      · cases h
  · split at h
    · cases h
    · cases h

theorem reconcileV2_accepts (hbefore : request.intent.before = some before)
    (h : (g.reconcileV2 request before).Ends (.ok (.applied receipt))) :
    request.accepts receipt = true := by
  unfold GoogleValidationMutations.reconcileV2 at h
  obtain ⟨found, -, h⟩ := Dialogue.ends_bind h
  split at h
  · cases Dialogue.ends_done h
  · cases Dialogue.ends_done h
  split at h
  · next hremoves =>
    cases Dialogue.ends_done h
    exact accepts_removed hbefore hremoves.1
  · obtain ⟨current, -, h⟩ := Dialogue.ends_bind h
    split at h
    · cases Dialogue.ends_done h
    · exact compared_accepts (Dialogue.ends_done h)

theorem reconcileTagged_accepts (hbefore : request.intent.before = some before)
    (h : (g.reconcileTagged request before).Ends (.ok (.applied receipt))) :
    request.accepts receipt = true := by
  unfold GoogleValidationMutations.reconcileTagged at h
  obtain ⟨found, -, h⟩ := Dialogue.ends_bind h
  split at h
  · cases Dialogue.ends_done h
  · cases Dialogue.ends_done h
  split at h
  · next hremoves =>
    split at h
    · cases Dialogue.ends_done h
    · cases Dialogue.ends_done h
      exact accepts_removed hbefore hremoves.1
  · split at h
    · cases Dialogue.ends_done h
    · exact compared_accepts (Dialogue.ends_done h)

theorem reconcilePreparedMutation_acceptable
    (h : (g.reconcilePreparedMutation request item).Ends (.ok (.applied receipt))) :
    Acceptable request item receipt := by
  unfold GoogleValidationMutations.reconcilePreparedMutation at h
  split at h
  · split at h
    · cases Dialogue.ends_done h
    next id hid =>
    obtain ⟨found, hfound, h⟩ := Dialogue.ends_bind h
    split at h
    · cases Dialogue.ends_done h
    · cases Dialogue.ends_done h
    · split at h
      · next node haccepts =>
        cases Dialogue.ends_done h
        refine ⟨haccepts, ?_⟩
        rw [checkPrepared_eq_ok hid]
        exact decide_eq_true (inspectPreparedFolder_id hfound).symm
      · cases Dialogue.ends_done h
  · split at h
    · cases Dialogue.ends_done h
    next hnone =>
    obtain rfl : item = none := by simpa using hnone
    refine ⟨?_, rfl⟩
    unfold GoogleValidationMutations.reconcileMutation at h
    split at h
    · cases Dialogue.ends_done h
    split at h
    · cases Dialogue.ends_done h
    next hbefore =>
    split at h
    · exact reconcileV2_accepts hbefore h
    · exact reconcileTagged_accepts hbefore h

/-- Whatever the drive answers: a receipt that the adapter reports, of a change that was sent or
    that was looked for, is one that the journal records in whatever state it has come to, unless
    the names refuse the item that it confirms. -/
theorem receipts_acknowledged (g : GoogleValidationMutations) (request : MutationRequest)
    (item : Option String) (receipt : MutationReceipt)
    (h : (g.mutatePrepared request item).Ends (.ok receipt) ∨
      (g.reconcilePreparedMutation request item).Ends (.ok (.applied receipt)))
    (settings : Journal.Settings) (events : List Journal.Event) (w : Journal.World)
    (hrun : Run Journal.step (Journal.Permitted fun _ => True) (Journal.World.create settings)
      events w)
    (r : MutationRecord) (id attempt : Uuid) (hr : w.journal.mutationAttempt id attempt = .ok r)
    (hrequest : r.request = request) (hitem : r.preparedItem = item) :
    Acknowledges w.journal id attempt r receipt := by
  have hacceptable : Acceptable request item receipt :=
    h.elim mutatePrepared_acceptable reconcilePreparedMutation_acceptable
  subst hrequest hitem
  exact acknowledges (inv_of_run hrun) hr hacceptable.1 hacceptable.2

end Receipts

/-! ## A folder that is created -/

section Sample

open Cirrove.Journal (Op Settings scripted scriptWorld run_of_script)

noncomputable def sampleChanges : GoogleValidationMutations where
  toGoogleWriter := sampleWriter
  lowercase := id
  pages := 1

def sampleFolder : MutationRequest :=
  ⟨⟨"me", "googledrive", "drive"⟩, .createFolder "root" "letters"⟩

/-- The folder as the drive reports it, and as the journal is told of it. -/
def sampleCreated : File :=
  ⟨"a", "letters", folderMime, ["root"], none, some "1", none, none, false, none, none⟩

def sampleNode : Node where
  id := "a"
  parentId := some "root"
  name := "letters"
  kind := .folder
  size := 0
  modifiedUnix := 0
  etag := some "google-version:1"
  contentVersion := some "google-version:1"
  target := none
  package := false

theorem sample_created :
    (sampleChanges.mutatePrepared sampleFolder (some "a")).Ends (.ok (.upsert sampleNode)) := by
  have hchecked : sampleChanges.checkPrepared sampleFolder (some "a") = .ok "a" := by
    decide +kernel
  have hplan : sampleChanges.checkFolderPlan ⟨"me", "googledrive", "drive"⟩
      ⟨"a", "root", "letters"⟩ = .ok () := by decide +kernel
  have hreceipt : sampleChanges.folderReceipt ⟨"a", "root", "letters"⟩ sampleCreated none =
      .ok sampleNode := by decide +kernel
  unfold GoogleValidationMutations.mutatePrepared
  rw [hchecked]
  dsimp only [sampleFolder]
  unfold GoogleWriter.createPreparedFolder
  rw [hplan]
  refine .ask (some (Except.ok ⟨[], none, false⟩)) (.ask (some (Except.ok ()))
    (.ask (some (Except.ok { sampleOpened with location := none, file := some sampleCreated })) ?_))
  have haccepts : sampleFolder.accepts (.upsert sampleNode) = true := by decide +kernel
  show ((Dialogue.cut (.error .uncertain) (Exchange.ofExcept (sampleChanges.folderReceipt
    ⟨"a", "root", "letters"⟩ sampleCreated none) : Exchange Node).run).bind _).Ends _
  rw [hreceipt]
  show (if sampleFolder.accepts (.upsert sampleNode) = true then
    Dialogue.done (Except.ok (MutationReceipt.upsert sampleNode)) else
      Dialogue.done (Except.error MutationError.uncertain)).Ends _
  rw [if_pos haccepts]
  exact .done

/-- The folder is made, claimed and given its identity. -/
def namedCalls : List Op :=
  [.createNamespaceDirectory ⟨"me", "googledrive", "drive"⟩ "root" "letters", .claimMutation,
    .recordPreparedMutation ⟨2⟩ ⟨11⟩ "a"]

def namedWorld : Journal.World := scriptWorld ⟨"me", id⟩ namedCalls

def sampleChange : MutationRecord :=
  { MutationRecord.new ⟨2⟩ 1 sampleFolder none none true with
    state := .applying
    attempt := some ⟨11⟩
    preparedItem := some "a" }

/-- The receipt is recorded, and the folder's object takes the item for its own. -/
theorem receipts_acknowledged_folder : ∃ j, namedWorld.journal.acknowledgeMutation ⟨2⟩ ⟨11⟩
      (.upsert sampleNode) none = .ok (.applied, j) ∧
    j.queue.mutations.get ⟨2⟩ = some ⟨1, .applied, sampleChange.acknowledged (.upsert sampleNode)⟩ ∧
    namedWorld.journal.names.Takes ⟨2⟩ 1 sampleNode := by
  have hrun : Run Journal.step (Journal.Permitted fun _ => True)
      (Journal.World.create ⟨"me", id⟩) (Journal.script 1 namedCalls) namedWorld :=
    run_of_script (by decide +kernel) fun _ _ _ _ => trivial
  have hheld : namedWorld.journal.mutationAttempt ⟨2⟩ ⟨11⟩ = .ok sampleChange := by
    decide +kernel
  obtain ⟨htaken, hrecorded⟩ := receipts_acknowledged sampleChanges sampleFolder (some "a")
    (.upsert sampleNode) (.inl sample_created) _ _ namedWorld hrun sampleChange ⟨2⟩ ⟨11⟩ hheld
    rfl rfl
  have hok : (namedWorld.journal.acknowledgeMutation ⟨2⟩ ⟨11⟩ (.upsert sampleNode)
      none).toOption.isSome = true := by decide +kernel
  cases hack : namedWorld.journal.acknowledgeMutation ⟨2⟩ ⟨11⟩ (.upsert sampleNode) none with
  | error e =>
    rw [hack] at hok
    cases hok
  | ok answer =>
    obtain ⟨state, j⟩ := answer
    obtain ⟨rfl, hrow⟩ := hrecorded state j hack
    exact ⟨j, rfl, hrow, htaken.mp ⟨_, hack⟩ rfl sampleNode rfl⟩

end Sample

end Cirrove.Google
