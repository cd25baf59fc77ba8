import Cirrove.Graph.Changing
import Cirrove.Journal.Acknowledging
import Cirrove.Library.Conditions

/-!
# Changes of a drive's items

An item is moved, renamed or deleted under the ETag the change was recorded with, and the service
does so only while the item has it; with every change of an item its ETag becomes one it never had.
Between the recording and the effect others change the drive, requests that were sent may take
effect long after their answer was lost, and the change may be begun any number of times. At most
one of its requests takes effect, on the item as it was recorded (`items_changed_once`), and the
journal records what is reported of it (`receipts_recorded`).
-/

namespace Cirrove.Graph

open Cirrove.Library
open Cirrove.Upload
open Cirrove.Mutation
open Cirrove.Journal

/-! ## Receipts -/

section Receipts

variable {od : OneDrive} {request : MutationRequest} {item : Option String} {before : Node}
  {receipt : MutationReceipt}

theorem ends_uploadCall {α : Type} {a : α} {call : Exchange α}
    (h : (uploadCall call).Ends (.ok a)) : call.run.Ends (.ok a) := by
  rcases Dialogue.ends_cut h with h | h
  · cases h
  · obtain ⟨_, -, h⟩ := Dialogue.ends_ok h
    obtain ⟨_, -, h⟩ := Dialogue.ends_ok h
    exact h

/-- What a response is taken for is the receipt of the change. -/
theorem changed_accepts {response : Response} (hbefore : request.intent.before = some before)
    (h : od.changed request before response = .ok receipt) : request.accepts receipt = true := by
  unfold OneDrive.changed at h
  split at h
  · next hremoves =>
    cases h
    unfold MutationIntent.isRemoval at hremoves
    unfold MutationRequest.accepts
    cases hintent : request.intent <;> simp_all [MutationIntent.before]
  obtain ⟨_, -, h⟩ := bind_eq_ok h
  split at h
  · cases h
  obtain ⟨found, -, h⟩ := bind_eq_ok h
  split at h
  · cases h
  obtain ⟨change, -, h⟩ := bind_eq_ok h
  cases change with
  | delete id => cases h
  | upsert node =>
    dsimp only at h
    split at h
    · next haccepts =>
      cases h
      exact haccepts
    · cases h

theorem mutate_accepts (h : (od.mutate request).Ends (.ok receipt)) :
    request.accepts receipt = true := by
  unfold OneDrive.mutate at h
  split at h
  · cases Dialogue.ends_done h
  split at h
  · obtain ⟨created, -, h⟩ := Dialogue.ends_bind h
    split at h
    · cases Dialogue.ends_done h
    split at h
    · next haccepts =>
      obtain rfl := Except.ok.inj (Dialogue.ends_done h)
      exact haccepts
    · cases Dialogue.ends_done h
  split at h
  · cases Dialogue.ends_done h
  next before hbefore =>
  obtain ⟨result, hresult, h⟩ := Dialogue.ends_bind h
  obtain rfl := mapError_eq_ok (Dialogue.ends_done h)
  unfold OneDrive.mutateItem at hresult
  obtain ⟨_, -, h⟩ := Dialogue.ends_ok (ends_uploadCall hresult)
  obtain ⟨_, -, h⟩ := Dialogue.ends_ok h
  obtain ⟨_, -, h⟩ := Dialogue.ends_ok h
  obtain ⟨response, -, h⟩ := Dialogue.ends_ok h
  exact changed_accepts hbefore (Dialogue.ends_done h)

theorem compared_accepts {node : Node}
    (h : OneDrive.compared request before node = .applied receipt) :
    request.accepts receipt = true := by
  unfold OneDrive.compared at h
  split at h
  · next haccepts =>
    cases h
    exact haccepts
  split at h
  · cases h
  · cases h

theorem reconcileMutation_accepts
    (h : (od.reconcileMutation request).Ends (.ok (.applied receipt))) : request.accepts receipt = true := by
  unfold OneDrive.reconcileMutation at h
  split at h
  · cases Dialogue.ends_done h
  split at h
  · cases Dialogue.ends_done h
  obtain ⟨found, -, h⟩ := Dialogue.ends_bind h
  split at h
  · exact compared_accepts (Except.ok.inj (Dialogue.ends_done h))
  · cases Dialogue.ends_done h
  · cases Dialogue.ends_done h

/-- Whatever the drive answers: a receipt that is reported, of a change that was sent or that was
    looked for, is one that the journal records in whatever state it has come to, unless the names
    refuse the item that it confirms. -/
theorem receipts_recorded (od : OneDrive) (operation : Uuid) (request : MutationRequest)
    (item : Option String) (receipt : MutationReceipt)
    (h : (od.provider.mutate operation request item).Ends (.ok receipt) ∨
      (od.provider.reconcile operation request item).Ends (.ok (.applied receipt)))
    (settings : Journal.Settings) (events : List Journal.Event) (w : World)
    (hrun : Run step (Permitted fun _ => True) (World.create settings) events w)
    (r : MutationRecord) (attempt : Uuid) (hr : w.journal.mutationAttempt operation attempt = .ok r)
    (hrequest : r.request = request) (hitem : r.preparedItem = item) :
    Acknowledges w.journal operation attempt r receipt := by
  subst hrequest hitem
  have hacceptable : Acceptable r.request r.preparedItem receipt := by
    rcases h with h | h
    · change (if r.preparedItem.isSome then _ else od.mutate r.request).Ends _ at h
      split at h
      · cases Dialogue.ends_done h
      -- no identity was reserved, so that there is none to be matched
      next hnone =>
      rw [show r.preparedItem = none by simpa using hnone]
      exact ⟨mutate_accepts h, rfl⟩
    · change (if r.preparedItem.isSome then _ else od.reconcileMutation r.request).Ends _ at h
      split at h
      · cases Dialogue.ends_done h
      next hnone =>
      rw [show r.preparedItem = none by simpa using hnone]
      exact ⟨reconcileMutation_accepts h, rfl⟩
  exact acknowledges (inv_of_run hrun) hr hacceptable.1 hacceptable.2

end Receipts

/-! ## Items -/

/-- The conditions of the service. A state of an item is its ETag. -/
def editing : Conditions Message (String × String) String where
  subject
    | .createFolder _ _ _ => none
    | .relocate collection item _ _ _ => some (collection, item)
    | .delete collection item _ => some (collection, item)
  meets
    | .relocate _ _ _ _ etag, some a => etag.all (· = a) = true
    | .delete _ _ etag, some a => etag.all (· = a) = true
    | _, _ => False
  apart a b := a ≠ b

/-- The items of the drives, and what was sent to change one of them. -/
abbrev Items := Records Message (String × String) String

/-- The item of a change. -/
def subject (request : MutationRequest) : Option (String × String) :=
  request.intent.before.map fun before => (request.scope.collection, before.id)

/-- The item had the ETag that the change was recorded with. -/
def AsRecorded (request : MutationRequest) (state : Option String) : Prop :=
  ∃ before etag, request.intent.before = some before ∧ before.etag = some etag ∧ state = some etag

section Items

variable {od : OneDrive} {request : MutationRequest} {message : Message}

theorem editing_subject (h : requested request = some message) :
    editing.subject message = subject request := by
  unfold requested at h
  unfold subject
  cases hintent : request.intent <;> rw [hintent] at h <;> cases h <;> rfl

/-- A change that may be recorded has an ETag. -/
theorem etag_of_validate {before : Node} (hvalid : request.validate = true)
    (hbefore : request.intent.before = some before) : ∃ etag, before.etag = some etag := by
  unfold MutationRequest.validate at hvalid
  rw [hbefore] at hvalid
  simp only [Bool.and_eq_true, Option.all_some, validBefore] at hvalid
  exact Option.isSome_iff_exists.mp (Option.isSome_of_any hvalid.1.2.1.1.2)

theorem asRecorded_of_meets {state : Option String} (h : requested request = some message)
    (hvalid : request.validate = true) (hmeets : editing.meets message state) :
    AsRecorded request state := by
  have hunder : ∀ before, request.intent.before = some before → ∀ a, state = some a →
      before.etag.all (· = a) = true → AsRecorded request state := by
    rintro before hbefore a rfl hall
    obtain ⟨etag, hetag⟩ := etag_of_validate hvalid hbefore
    rw [hetag] at hall
    exact ⟨before, etag, hbefore, hetag, congrArg some (of_decide_eq_true hall).symm⟩
  unfold requested at h
  cases state with
  | none => cases hintent : request.intent <;> rw [hintent] at h <;> cases h <;> exact hmeets.elim
  | some a =>
    cases hintent : request.intent <;> rw [hintent] at h <;> cases h
    · exact hmeets.elim
    all_goals exact hunder _ (by rw [hintent]; rfl) a rfl hmeets

/-- What the requests of a change are sent for. -/
def purpose (request : MutationRequest) : editing.Purpose where
  target := subject request
  wants _ message := requested request = some message ∧ request.validate = true
  wanted := AsRecorded request
  grows _ h := h
  subject h := editing_subject h.1
  meets _ h _ hmeets := asRecorded_of_meets h.1 h.2 hmeets
  same := by
    rintro a b ⟨before, etag, hbefore, hetag, ha⟩ ⟨before', etag', hbefore', hetag', hb⟩ hapart
    -- both are the ETag of the record
    cases hbefore.symm.trans hbefore'
    cases hetag.symm.trans hetag'
    exact hapart (Option.some.inj (ha.trans hb.symm))
  absent := by
    rintro a ⟨_, _, _, _, ⟨⟩⟩

/-- The request a question sends. -/
def sends : Ask → Option Message
  | .send message => some message
  | _ => none

/-- The world of one change. A request may have taken effect whatever is answered. -/
def changing (request : MutationRequest) : Game Ask (fun r => Option (Answer r)) Items :=
  Conditions.game (purpose request) sends fun _ _ _ => True

theorem mutate_editing {s : Items} (hs : Conditions.Sound (purpose request) s) :
    (changing request).Keeps (fun _ _ => True) (od.mutate request) s := by
  have hreads : ∀ r, Reads r → Conditions.Silent sends r := by
    rintro (_ | _ | _ | _ | message) h
    any_goals rfl
    exact h.elim
  by_cases hvalid : request.validate = true
  · cases hrequested : requested request with
    | none =>
      refine Conditions.keeps_silent (Dialogue.only_mono mutate_only ?_) hs
      rintro r (h | ⟨message, hmessage, -⟩)
      · exact hreads r h
      · rw [hrequested] at hmessage
        cases hmessage
    | some message =>
      refine Conditions.keeps_sending (m := message) (Dialogue.only_mono mutate_only ?_) hs
        ⟨hrequested, hvalid⟩
      rintro r (h | ⟨message', hmessage, rfl⟩) other hother
      · rw [hreads r h] at hother
        cases hother
      · rw [hrequested] at hmessage
        cases hmessage
        exact (Option.some.inj hother).symm
  · -- what may not be recorded is refused at once
    unfold OneDrive.mutate OneDrive.checkMutation
    rw [if_pos (by simpa using hvalid)]
    trivial

/-- In every run in which a change is begun any number of times, cut off anywhere, while others
    change the drive and requests take effect as late as they like: at most one of its requests
    takes effect, and this one is the request of the change and meets its item with the ETag the
    change was recorded with. -/
theorem items_changed_once (od : OneDrive) (request : MutationRequest) (start s : Items)
    (log : List ((r : Ask) × Option (Answer r)))
    (call : Option (Dialogue Ask (fun r => Option (Answer r))
      (Except MutationError MutationReceipt)))
    (hstart : editing.New start)
    (h : (changing request).Reaches (od.mutate request) start log s call) :
    s.applied.length ≤ 1 ∧
    ∀ c ∈ s.applied, requested request = some c.1 ∧ AsRecorded request c.2 := by
  obtain ⟨honce, happlied⟩ := Conditions.applied_once h hstart fun _ hs => mutate_editing hs
  exact ⟨honce, fun c hc => ⟨(happlied c hc).1.1, (happlied c hc).2⟩⟩

end Items

/-! ## A file that is deleted -/

section Sample

def sampleBefore : Node where
  id := "a"
  parentId := some "root"
  name := "notes"
  kind := .file
  size := 1
  modifiedUnix := 0
  etag := some "\"1\""
  contentVersion := none
  target := none
  package := false

def sampleRemoval : MutationRequest := ⟨Mutation.sampleRequest.scope, .removeFile sampleBefore⟩

def sampleFile : DriveItem where
  id := "a"
  name := some "notes"
  size := some 1
  eTag := some "\"1\""
  cTag := none
  lastModified := none
  parentReference := some ⟨some "root", some "drive"⟩
  file := true
  folder := false
  package := false
  deleted := false
  remoteItem := none

def sampleDelete : Message := .delete "drive" "a" (some "\"1\"")

/-- The removal, as its questions are answered. -/
theorem sample_deletes : ∃ K L M, sampleCloud.mutate sampleRemoval = .ask .permit K ∧
    K (some (.ok ())) = .ask (.item "drive" "a") L ∧
    L (some (.ok (some sampleFile))) = .ask (.send sampleDelete) M ∧
    M (some (.ok ⟨204, 0, false, none, none⟩)) = .done (.ok (.removed "a")) := by
  have hchecked : sampleCloud.checkMutation sampleRemoval = .ok () := by
    have hvalid : sampleRemoval.validate = true := by decide +kernel
    unfold OneDrive.checkMutation
    rw [hvalid]
    rfl
  have hplace : resourceUrl "drive" "a" = .ok () := by decide +kernel
  unfold OneDrive.mutate OneDrive.mutateItem OneDrive.checkRemoval OneDrive.checkFile
  rw [hchecked]
  show ∃ K L M, (uploadCall (do
    (do
      Exchange.ofProvider (resourceUrl "drive" "a")
      let found ← Exchange.ofProvider (← Exchange.ask (.item "drive" "a"))
      let current ← Exchange.ofExcept (readAs found)
      Exchange.refuseIf (current.id ≠ "a" ∨ !current.file ∨ current.remoteItem.isSome ∨
        current.eTag ≠ sampleBefore.etag ∨ current.driveId ≠ some "drive") .conflict)
    Exchange.ofProvider (resourceUrl "drive" "a")
    let message ← Exchange.ofExcept (OneDrive.message sampleRemoval sampleBefore)
    let response ← authorizedUpload message
    Exchange.ofExcept (sampleCloud.changed sampleRemoval sampleBefore response)) >>= fun receipt =>
      pure (receipt.mapError mutationError)) = .ask .permit K ∧ _
  rw [hplace]
  exact ⟨_, _, _, rfl, rfl, rfl, rfl⟩

/-- The file is known, deleted and handed out. -/
def removalCalls : List Op :=
  [.observeNamespaceFile Journal.sampleDrive sampleBefore, .unlinkNamespaceFile ⟨1⟩ 0 false,
    .claimMutation]

def removalWorld : World := scriptWorld .sample removalCalls

def sampleRemoved : MutationRecord :=
  { MutationRecord.new ⟨11⟩ 1 sampleRemoval none none true with
    state := .applying
    attempt := some ⟨21⟩ }

theorem receipts_recorded_removal : ∃ j, removalWorld.journal.acknowledgeMutation ⟨11⟩ ⟨21⟩
      (.removed "a") none = .ok (.applied, j) ∧
    j.queue.mutations.get ⟨11⟩ = some ⟨1, .applied, sampleRemoved.acknowledged (.removed "a")⟩ := by
  have hends : (sampleCloud.provider.mutate ⟨11⟩ sampleRemoval none).Ends (.ok (.removed "a")) := by
    obtain ⟨K, L, M, hmutate, hpermit, hitem, hdelete⟩ := sample_deletes
    have hdone : (M (some (.ok ⟨204, 0, false, none, none⟩))).Ends (.ok (.removed "a")) :=
      hdelete.symm ▸ .done
    have hlast : (L (some (.ok (some sampleFile)))).Ends (.ok (.removed "a")) :=
      hitem.symm ▸ .ask _ hdone
    have hfirst : (K (some (.ok ()))).Ends (.ok (.removed "a")) := hpermit.symm ▸ .ask _ hlast
    have hcall : (sampleCloud.mutate sampleRemoval).Ends (.ok (.removed "a")) :=
      hmutate.symm ▸ .ask _ hfirst
    exact hcall
  have hrun : Run step (Permitted fun _ => True) (World.create .sample) (script 1 removalCalls)
      removalWorld := run_of_script (by decide +kernel) fun _ _ _ _ => trivial
  have hheld : removalWorld.journal.mutationAttempt ⟨11⟩ ⟨21⟩ = .ok sampleRemoved := by
    decide +kernel
  obtain ⟨htaken, hrecorded⟩ := receipts_recorded sampleCloud ⟨11⟩ sampleRemoval none
    (.removed "a") (.inl hends) _ _ removalWorld hrun sampleRemoved ⟨21⟩ hheld rfl rfl
  -- a removal confirms no item
  obtain ⟨⟨state, j⟩, hack⟩ := htaken.mpr (by rintro - node ⟨⟩)
  obtain ⟨rfl, hrow⟩ := hrecorded state j hack
  exact ⟨j, hack, hrow⟩

/-- The file is in the drive. -/
def sampleThere : Items :=
  ⟨fun item => if item = ("drive", "a") then ["\"1\""] else [], [], []⟩

theorem sampleThere_new : editing.New sampleThere where
  distinct item := by
    unfold sampleThere
    dsimp only
    split
    · exact List.pairwise_singleton _ _
    · exact .nil
  sent := rfl
  applied := rfl

/-- Two requests to delete it were sent. -/
def sampleSent : Items := (sampleThere.send sampleDelete).send sampleDelete

/-- It was deleted under its ETag. -/
def sampleGone : Items :=
  { sampleSent.become ("drive", "a") "\"2\"" with applied := [(sampleDelete, some "\"1\"")] }

abbrev Removes (log : List ((r : Ask) × Option (Answer r))) (s : Items)
    (call : Option (Dialogue Ask (fun r => Option (Answer r))
      (Except MutationError MutationReceipt))) : Prop :=
  (changing sampleRemoval).Reaches (sampleCloud.mutate sampleRemoval) sampleThere log s call

theorem removes_next {log : List ((r : Ask) × Option (Answer r))} {s : Items} {r : Ask}
    {call : Dialogue Ask (fun r => Option (Answer r)) _}
    {next : Option (Answer r) → Dialogue Ask (fun r => Option (Answer r)) _}
    (h : Removes log s (some call)) (hcall : call = .ask r next) (a : Option (Answer r)) (t : Items)
    (ha : (changing sampleRemoval).answers r s a t) :
    Removes (⟨r, a⟩ :: log) t (some (next a)) := by
  subst hcall
  exact h.answers ha

/-- The request is sent and its answer lost. -/
theorem removes_again {log : List ((r : Ask) × Option (Answer r))} {s : Items}
    (hbefore : Removes log s none) : ∃ log, Removes log (s.send sampleDelete) none := by
  obtain ⟨K, L, M, hmutate, hpermit, hitem, -⟩ := sample_deletes
  have h : Removes _ _ _ := .begins hbefore
  have h := removes_next h hmutate (some (Except.ok ())) s ⟨trivial, rfl⟩
  have h := removes_next h hpermit (some (Except.ok (some sampleFile))) s ⟨trivial, rfl⟩
  have h := removes_next h hitem none (s.send sampleDelete) ⟨trivial, rfl⟩
  exact ⟨_, .dies h rfl⟩

/-- The request takes effect after it was sent again. -/
theorem removes_gone : ∃ log, Removes log sampleGone none := by
  obtain ⟨_, hfirst⟩ := removes_again .start
  obtain ⟨_, hsecond⟩ := removes_again hfirst
  have hnew : ∀ etag ∈ sampleSent.past ("drive", "a"), "\"2\"" ≠ etag := by decide
  have hmeets : editing.meets sampleDelete (sampleSent.past ("drive", "a")).head? := by
    show (some "\"1\"").all (· = "\"1\"") = true
    decide
  have hlands : editing.Stirs sampleSent sampleGone :=
    Conditions.Stirs.lands (C := editing) (s := sampleSent) sampleDelete
      ("drive", "a") _ List.mem_cons_self rfl hmeets hnew
  exact ⟨_, .stirs hsecond hlands⟩

theorem items_changed_once_removal : sampleGone.applied.length ≤ 1 ∧
    ∀ c ∈ sampleGone.applied, requested sampleRemoval = some c.1 ∧
      AsRecorded sampleRemoval c.2 := by
  obtain ⟨log, h⟩ := removes_gone
  exact items_changed_once sampleCloud sampleRemoval sampleThere sampleGone log none
    sampleThere_new h

end Sample

end Cirrove.Graph
