import Cirrove.Graph.Changes
import Cirrove.Graph.Replies
import Cirrove.Mutation.Providers

/-!
# What a change of a drive asks

The only request that is sent for a change is the one that its record asks for, under the ETag of
the record. Everything else reads. A folder whose creation got no answer is not looked for, so that
the worker never sends it again: each folder that was made in the mount is asked for once
(`folders_sent_once`), unless the token was refused.
-/

namespace Cirrove.Graph

open Cirrove.Library
open Cirrove.Upload
open Cirrove.Mutation
open Cirrove.Journal

/-- Asked for this, the drive changes nothing. -/
def Reads : Ask → Prop
  | .send _ => False
  | _ => True

/-- What is asked only reads, or is this request. -/
def ReadsOrSends (message : Message) (r : Ask) : Prop := Reads r ∨ r = .send message

/-- The request of a change. -/
def requested (request : MutationRequest) : Option Message :=
  match request.intent with
  | .createFolder parent name => some (.createFolder request.scope.collection parent name)
  | .relocate before parent name =>
    some (.relocate request.scope.collection before.id name parent before.etag)
  | .removeFile before | .removeFolder before =>
    some (.delete request.scope.collection before.id before.etag)
  | .trashNativeDocument _ => none

/-- What is asked only reads, or is the request of the change. -/
def ReadsOrRequests (request : MutationRequest) (r : Ask) : Prop :=
  Reads r ∨ ∃ message ∈ requested request, r = .send message

/-! ## Questions -/

section Only

variable {od : OneDrive} {P : Ask → Prop} {α : Type} {request : MutationRequest} {before : Node}

theorem only_ask {r : Ask} (h : P r) : (Exchange.ask r).run.Only P :=
  Dialogue.only_lift (Dialogue.only_question h)

theorem only_refuseIf {c : Prop} [Decidable c] {e : UploadError} :
    (Exchange.refuseIf c e).run.Only P := by
  unfold Exchange.refuseIf
  split
  · trivial
  · trivial

theorem uploadCall_only {call : Exchange α} (hpermit : P .permit) (hcall : call.run.Only P) :
    (uploadCall call).Only P := by
  unfold uploadCall
  apply Dialogue.only_cut
  refine Dialogue.only_tries (only_ask hpermit) fun _ => ?_
  exact Dialogue.only_tries trivial fun _ => hcall

theorem authorizedUpload_only {message : Message} :
    (authorizedUpload message).run.Only (· = .send message) := by
  unfold authorizedUpload
  refine Dialogue.only_tries (only_ask rfl) fun _ => ?_
  refine Dialogue.only_tries trivial fun first => ?_
  split
  · exact Dialogue.only_tries (only_ask rfl) fun _ => trivial
  · trivial

theorem checkRemoval_only : (OneDrive.checkRemoval request before).run.Only Reads := by
  have hfile : (OneDrive.checkFile request before).run.Only Reads := by
    unfold OneDrive.checkFile
    refine Dialogue.only_tries trivial fun _ => ?_
    refine Dialogue.only_tries (only_ask trivial) fun _ => ?_
    refine Dialogue.only_tries trivial fun found => ?_
    exact Dialogue.only_tries trivial fun current => only_refuseIf
  have hfolder : (OneDrive.checkFolder request before).run.Only Reads := by
    unfold OneDrive.checkFolder
    refine Dialogue.only_tries trivial fun _ => ?_
    refine Dialogue.only_tries (only_ask trivial) fun _ => ?_
    refine Dialogue.only_tries trivial fun found => ?_
    refine Dialogue.only_tries trivial fun current => ?_
    refine Dialogue.only_tries only_refuseIf fun _ => ?_
    refine Dialogue.only_tries (only_ask trivial) fun _ => ?_
    refine Dialogue.only_tries trivial fun children => ?_
    exact Dialogue.only_tries trivial fun children => only_refuseIf
  unfold OneDrive.checkRemoval
  split
  · exact hfile
  · exact hfolder
  · trivial

/-- The request that is sent for an item is the one of its change. -/
theorem message_eq_ok {message : Message} (hbefore : request.intent.before = some before)
    (h : OneDrive.message request before = .ok message) : requested request = some message := by
  unfold OneDrive.message at h
  unfold requested
  cases hintent : request.intent <;> rw [hintent] at hbefore h <;> cases hbefore <;> cases h <;> rfl

theorem createFolder_only {scope : Scope} {parent name : String} :
    (od.createFolder scope parent name).Only
      (ReadsOrSends (.createFolder scope.collection parent name)) := by
  unfold OneDrive.createFolder
  split
  · trivial
  split
  · trivial
  · refine uploadCall_only (.inl trivial) ?_
    refine Dialogue.only_tries trivial fun _ => ?_
    refine Dialogue.only_tries ?_ fun response => trivial
    exact Dialogue.only_mono authorizedUpload_only fun _ => .inr

theorem mutateItem_only (hbefore : request.intent.before = some before) :
    (od.mutateItem request before).Only (ReadsOrRequests request) := by
  unfold OneDrive.mutateItem
  refine uploadCall_only (.inl trivial) ?_
  refine Dialogue.only_tries (Dialogue.only_mono checkRemoval_only fun _ => .inl) fun _ => ?_
  refine Dialogue.only_tries trivial fun _ => ?_
  cases hmessage : OneDrive.message request before with
  | error e => trivial
  | ok message =>
    refine Dialogue.only_tries (d := authorizedUpload message) ?_ fun response => trivial
    exact Dialogue.only_mono authorizedUpload_only fun _ hr =>
      .inr ⟨message, message_eq_ok hbefore hmessage, hr⟩

theorem mutate_only : (od.mutate request).Only (ReadsOrRequests request) := by
  unfold OneDrive.mutate
  split
  · trivial
  split
  · next parent name hintent =>
    refine Dialogue.only_bind (Dialogue.only_mono createFolder_only ?_) fun created => ?_
    · rintro r (hreads | rfl)
      · exact .inl hreads
      · exact .inr ⟨_, by rw [requested, hintent]; rfl, rfl⟩
    · split
      · trivial
      · split
        · trivial
        · trivial
  · split
    · trivial
    · next hbefore => exact Dialogue.only_bind (mutateItem_only hbefore) fun _ => trivial

theorem reconcileMutation_only : (od.reconcileMutation request).Only Reads := by
  unfold OneDrive.reconcileMutation
  split
  · trivial
  split
  · trivial
  next before hbefore =>
  have hnode : (od.node request.scope before.id).Only Reads := by
    unfold OneDrive.node
    split
    · trivial
    split
    · trivial
    · refine ⟨trivial, fun answer => ?_⟩
      cases answer with
      | none => trivial
      | some answer => trivial
  refine Dialogue.only_bind hnode fun found => ?_
  split
  · trivial
  · trivial
  · trivial

end Only

/-! ## Folders -/

section Folders

variable {od : OneDrive} {request : MutationRequest} {id : Uuid}

/-- The token was not accepted, so that nothing was done. -/
def unauthorized : Option (Except UploadError Response) → Bool
  | some (.ok response) => response.status = 401
  | _ => false

/-- A folder was asked for, and may have been created. -/
def creates : (r : Ask) → Option (Answer r) → Bool
  | .send (.createFolder _ _ _), answer => !unauthorized answer
  | _, _ => false

/-- The same, for this operation. -/
def createsFor (id : Uuid) (q : (r : Uuid × Ask) × Option (Answer r.2)) : Bool :=
  q.1.1 = id && creates q.1.2 q.2

/-- A folder is asked for. -/
def asksFolder : Ask → Bool
  | .send (.createFolder _ _ _) => true
  | _ => false

theorem creates_of_not_asks {r : Ask} (h : asksFolder r = false) (answer : Option (Answer r)) :
    creates r answer = false := by
  cases r with
  | send message =>
    cases message with
    | createFolder => cases h
    | relocate | delete => rfl
  | permit | item | children | resource => rfl

abbrev CreatesAtMost {α : Type} (n : Nat) (call : Exchange α) : Prop :=
  call.run.AtMost asksFolder (fun q => creates q.1 (some q.2)) n

theorem createsAtMost_of_only {α : Type} {call : Exchange α}
    (h : call.run.Only fun r => asksFolder r = false) : CreatesAtMost 0 call :=
  Dialogue.atMost_of_only h (fun _ hr => hr) fun _ _ hr => creates_of_not_asks hr _

theorem creates_of_unauthorized {message : Message} {answer : Option (Answer (.send message))}
    (h : unauthorized answer = true) : creates (.send message) answer = false := by
  cases message with
  | createFolder => exact congrArg not h
  | relocate | delete => rfl

/-- A request is sent again only when its token was not accepted. -/
theorem authorizedUpload_atMost {message : Message} :
    CreatesAtMost 1 (authorizedUpload message) := by
  have hone : ∀ {b : Bool}, (if b = true then 1 else 0) + 0 ≤ 1 := by
    intro b
    cases b <;> decide
  have hagain : CreatesAtMost 1 (do
      let second : Except UploadError Response ← Exchange.ask (.send message)
      Exchange.ofExcept second) :=
    ⟨fun _ => Nat.le_refl 1, fun second => ⟨0, hone, by cases second <;> trivial⟩⟩
  refine ⟨fun _ => Nat.le_refl 1, ?_⟩
  rintro (e | first)
  · exact ⟨0, hone, trivial⟩
  by_cases hstatus : first.status = 401
  · -- nothing was done, and the second answer may count
    refine ⟨1, ?_, ?_⟩
    · have hfree : creates (.send message) (some (Except.ok first)) = false :=
        creates_of_unauthorized (decide_eq_true hstatus)
      show (if creates (.send message) (some (Except.ok first)) = true then 1 else 0) + 1 ≤ 1
      rw [hfree]
      exact Nat.le_refl 1
    · have hsecond : CreatesAtMost 1 (if first.status = 401 then (do
          let second : Except UploadError Response ← Exchange.ask (.send message)
          Exchange.ofExcept second) else return first) := by
        rw [if_pos hstatus]
        exact hagain
      exact hsecond
  · -- this answer counts, and nothing is sent after it
    refine ⟨0, hone, ?_⟩
    have hfirst : CreatesAtMost 0 (if first.status = 401 then (do
        let second : Except UploadError Response ← Exchange.ask (.send message)
        Exchange.ofExcept second) else return first) := by
      rw [if_neg hstatus]
      trivial
    exact hfirst

theorem createFolder_atMost {scope : Scope} {parent name : String} :
    (od.createFolder scope parent name).AtMost (fun _ => false) (fun q => creates q.1 q.2) 1 := by
  unfold OneDrive.createFolder
  split
  · trivial
  split
  · trivial
  unfold uploadCall
  -- a folder that was asked for when the call was cut off may have been created
  refine Dialogue.atMost_cut _ ?_ fun r hr => creates_of_not_asks hr none
  have hpermit : CreatesAtMost 0 (Exchange.ask .permit) := createsAtMost_of_only (only_ask rfl)
  refine Dialogue.atMost_tries (n := 0) (m := 1) hpermit fun _ => ?_
  refine Dialogue.atMost_tries (n := 0) (m := 1) (createsAtMost_of_only trivial) fun _ => ?_
  refine Dialogue.atMost_tries (n := 0) (m := 1) (createsAtMost_of_only trivial) fun _ => ?_
  exact Dialogue.atMost_tries (n := 1) (m := 0) authorizedUpload_atMost fun response =>
    createsAtMost_of_only trivial

/-- A change that makes no folder asks for none. -/
theorem not_asks_of_requests {r : Ask} (hfolder : request.intent.before.isSome = true)
    (h : ReadsOrRequests request r) : asksFolder r = false := by
  rcases h with hreads | ⟨message, hmessage, rfl⟩
  · cases r with
    | send message => exact hreads.elim
    | permit | item | children | resource => rfl
  · unfold requested at hmessage
    cases hintent : request.intent <;> rw [hintent] at hfolder hmessage <;> cases hmessage <;>
      first | rfl | cases hfolder

theorem mutate_atMost : (od.mutate request).AtMost (fun _ => false) (fun q => creates q.1 q.2)
    (if request.intent.before.isNone then 1 else 0) := by
  cases hintent : request.intent with
  | createFolder parent name =>
    show (od.mutate request).AtMost _ _ 1
    unfold OneDrive.mutate
    split
    · trivial
    rw [hintent]
    refine Dialogue.atMost_bind (n := 1) (m := 0) createFolder_atMost fun created => ?_
    cases created with
    | error e => trivial
    | ok node =>
      dsimp only
      split
      · trivial
      · trivial
  | relocate | removeFile | removeFolder | trashNativeDocument =>
    refine Dialogue.atMost_of_only (Dialogue.only_mono mutate_only fun r hr => ?_)
      (fun _ _ => rfl) fun r answer hr => creates_of_not_asks hr answer
    exact not_asks_of_requests (by rw [hintent]; rfl) hr

theorem provider_atMost (c : Call) : (od.provider.call c).AtMost (fun _ => false)
    (fun q => creates q.1 q.2) (if c.creates c.operation then 1 else 0) := by
  cases c with
  | prepare operation request => trivial
  | mutate operation request item =>
    show (if item.isSome then _ else od.mutate request).AtMost _ _
      (if (decide (operation = operation) && request.intent.before.isNone) = true then 1 else 0)
    rw [decide_eq_true rfl, Bool.true_and]
    by_cases hitem : item.isSome = true
    · rw [if_pos hitem]
      trivial
    · rw [if_neg hitem]
      exact mutate_atMost
  | reconcile operation request item =>
    show (if item.isSome then _ else od.reconcileMutation request).AtMost _ _ 0
    split
    · trivial
    · refine Dialogue.atMost_of_only reconcileMutation_only (fun _ _ => rfl) fun r answer hr => ?_
      refine creates_of_not_asks ?_ answer
      cases r with
      | send message => exact hr.elim
      | permit | item | children | resource => rfl

/-- A call asks for the folder of its operation once, and for no other. -/
theorem call_atMost (c : Call) : (od.provider.tagged.call c).AtMost (fun _ => false)
    (createsFor id) (if c.creates id then 1 else 0) := by
  rw [MutationProvider.tagged_call]
  by_cases hid : c.operation = id
  · refine Dialogue.atMost_within (hid ▸ provider_atMost c) fun r answer hmarked => ?_
    exact (Bool.and_eq_true _ _ ▸ hmarked : _ ∧ _).2
  · have hnone : (od.provider.call c).AtMost (fun _ => false) (fun _ => false) 0 :=
      Dialogue.atMost_of_only (Dialogue.only_true _) (fun _ _ => rfl) fun _ _ _ => rfl
    refine Dialogue.atMost_mono (Dialogue.atMost_within hnone fun r answer hmarked => ?_)
      (Nat.zero_le _)
    -- what this call asks is said to be about another operation
    have hsame := (Bool.and_eq_true _ _ ▸ hmarked : _ ∧ _).1
    exact absurd (of_decide_eq_true hsame) hid

/-- A folder is never said to be missing. -/
theorem never_missed {calls : Calls} {asked : Asked (Uuid × Ask) fun r => Answer r.2}
    (h : Traces od.provider.tagged calls asked) {c : (r : Call) × Option (CallAnswer r)}
    (hc : c ∈ calls) (hfolder : c.1.makesFolder) : ¬ missed c id := by
  obtain ⟨c, answer⟩ := c
  cases c with
  | prepare | mutate => exact fun hmissed => hmissed.elim
  | reconcile operation request item =>
    rintro ⟨-, rfl⟩
    obtain ⟨parent, name, hintent⟩ := hfolder
    have hends : (if item.isSome then pure (.error .invalid) else od.reconcileMutation request).Ends
        (.ok .uncommitted) := by
      have hcall := h.ends_of_mem hc
      rw [MutationProvider.tagged_call] at hcall
      exact Dialogue.ends_within hcall
    split at hends
    · cases Dialogue.ends_done hends
    -- a folder is not looked for: the answer is always that nothing is known
    unfold OneDrive.reconcileMutation at hends
    split at hends
    · cases Dialogue.ends_done hends
    rw [show request.intent = .createFolder parent name from hintent] at hends
    cases Dialogue.ends_done hends

/-- In every run of the worker over a drive, whatever is lost, cut off, answered or begun again and
    whoever else uses the journal: the folder of an operation is asked for once, and again only when
    the token was not accepted. -/
theorem folders_sent_once {X : Type} (od : OneDrive)
    (service : Service (Uuid × Ask) (fun r => Answer r.2) X) (settings : Settings) (remote : X)
    (s : System (Uuid × Ask) (fun r => Answer r.2) X) (id : Uuid)
    (log : List ((r : Mutation.WorkerAsk (Uuid × Ask)) ×
      Mutation.WorkerAnswer (fun r => Answer r.2) r))
    (work : Option (Dialogue (Mutation.WorkerAsk (Uuid × Ask))
      (Mutation.WorkerAnswer fun r => Answer r.2)
      (Except JournalError (Option (Uuid × MutationState)))))
    (h : (working service).Reaches (Mutation.Worker.runOnce od.provider.tagged).run
      (.create settings remote) log s work) :
    s.asked.countP (createsFor id) ≤ 1 := by
  obtain ⟨calls, hs, htraces⟩ := refined h
  have horderly : Orderly calls := hs.orderly
  refine (htraces.countP_le fun c _ => call_atMost c.1).trans ?_
  exact horderly.folder_once fun c hc => never_missed htraces hc

/-! ## A folder whose answer is lost -/

noncomputable def sampleCloud : OneDrive where
  account := "account"
  endpoint := ⟨"https", "", none, some "graph", none, some ("https", "graph", 443)⟩
  parseUrl _ := none
  rfc3339 _ := none
  reader := .canonical

def sampleMessage : Message := .createFolder "drive" "root" "letters"

/-- A service of which nothing is said. -/
def sampleService : Service (Uuid × Ask) (fun r => Answer r.2) Unit := ⟨fun _ _ => False, fun _ _ _ _ => True⟩

theorem sample_checks : sampleCloud.checkMutation Mutation.sampleRequest = .ok () := by
  have hvalid : Mutation.sampleRequest.validate = true := by decide +kernel
  unfold OneDrive.checkMutation
  rw [hvalid]
  rfl

/-- The call that creates the folder. -/
noncomputable def sampleCall : Exchange Node := do
  Exchange.ofProvider (.ok ())
  let response ← authorizedUpload sampleMessage
  Exchange.ofExcept
    (sampleCloud.createdFolder Mutation.sampleRequest.scope "root" "letters" response)

theorem sample_mutates : ∃ f, sampleCloud.mutate Mutation.sampleRequest =
    uploadCall sampleCall >>= f ∧ f (.error .uncertain) = .done (.error .uncertain) := by
  have hvalid : (UploadIntent.create "root" "letters").validate = true := by decide +kernel
  have hplace : resourceUrl "drive" "root" = .ok () := by decide +kernel
  have hcreate : sampleCloud.createFolder Mutation.sampleRequest.scope "root" "letters" =
      uploadCall sampleCall := by
    unfold OneDrive.createFolder
    rw [hvalid, if_neg (by decide), if_neg (by decide)]
    show uploadCall (Exchange.ofProvider (resourceUrl "drive" "root") >>= _) = _
    rw [hplace]
    rfl
  rw [← hcreate]
  unfold OneDrive.mutate
  rw [sample_checks]
  exact ⟨_, rfl, rfl⟩

/-- A call about the folder. -/
abbrev forFolder {α : Type} (call : Dialogue Ask (fun r => Option (Answer r)) α) :
    Dialogue (Uuid × Ask) (fun r => Option (Answer r.2)) α := call.within (Prod.mk ⟨1⟩) fun _ x => x

/-- The answer of a drive that does not accept the token. -/
def sampleUnauthorized : Response := ⟨401, 0, false, none, none⟩

/-- The folder is asked for again after the token was refused. -/
theorem sample_asks : ∃ K L M,
    sampleCloud.provider.tagged.mutate ⟨1⟩ Mutation.sampleRequest none = .ask (⟨1⟩, .permit) K ∧
    K (some (.ok ())) = .ask (⟨1⟩, .send sampleMessage) L ∧
    L (some (.ok sampleUnauthorized)) = .ask (⟨1⟩, .send sampleMessage) M ∧
    M none = .done (.error .uncertain) := by
  obtain ⟨f, hmutate, huncertain⟩ := sample_mutates
  have htagged : sampleCloud.provider.tagged.mutate ⟨1⟩ Mutation.sampleRequest none =
      forFolder (uploadCall sampleCall >>= f) := by
    rw [← hmutate]
    rfl
  refine ⟨_, _, _, htagged, rfl, rfl, ?_⟩
  show forFolder (f (.error .uncertain)) = _
  rw [huncertain]
  rfl

/-- What is called when the answer is lost: the folder is looked for, and left to its user. -/
def lostCalls : List (Env × Op) :=
  [(.numbered 21, .deferMutation ⟨1⟩ ⟨11⟩ .verifyRequired 2), (later 31, .claimMutation),
    (later 41, .deferMutation ⟨1⟩ ⟨31⟩ .needsReview 0)]

/-- The world after so many of these calls. -/
def lostWorld (n : Nat) : Journal.World :=
  ((lostCalls.take n).map fun call => Journal.Event.call call.1 call.2).foldl Journal.step
    (sampleWorld 2)

/-- The folder was sent twice, and the first request refused. -/
def lostAsked : Asked (Uuid × Ask) fun r => Answer r.2 :=
  [⟨(⟨1⟩, .send sampleMessage), none⟩,
    ⟨(⟨1⟩, .send sampleMessage), some (Except.ok sampleUnauthorized)⟩,
    ⟨(⟨1⟩, .permit), some (Except.ok ())⟩]

/-- The folder that the worker takes again. -/
def lostTaken : MutationRecord := sampleChange .verifying (some ⟨31⟩) 2 1 none

section Part

variable {log : List ((r : Mutation.WorkerAsk (Uuid × Ask)) ×
    Mutation.WorkerAnswer (fun r => Answer r.2) r)}
  {w : Journal.World} {asked : Asked (Uuid × Ask) fun r => Answer r.2} {α : Type}
  {call : Dialogue (Uuid × Ask) (fun r => Option (Answer r.2)) α}
  {next : α → Dialogue (Mutation.WorkerAsk (Uuid × Ask)) (Mutation.WorkerAnswer fun r => Answer r.2)
    (Except JournalError (Option (Uuid × MutationState)))}

theorem lost_asked {r : Uuid × Ask}
    {k : Option (Answer r.2) → Dialogue (Uuid × Ask) (fun r => Option (Answer r.2)) α}
    (h : Worked sampleCloud.provider.tagged sampleService () log ⟨w, (), asked⟩
      (some ((asPart call).bind next)))
    (hcall : call = .ask r k) (a : Option (Answer r.2)) :
    Worked sampleCloud.provider.tagged sampleService () (⟨.remote r, a⟩ :: log)
      ⟨w, (), ⟨r, a⟩ :: asked⟩ (some ((asPart (k a)).bind next)) := by
  subst hcall
  exact .answers (a := a) h ⟨(), trivial, rfl⟩

end Part

/-- The worker goes over the folder twice, and asks nothing the second time. -/
theorem folder_lost : ∃ log, Worked sampleCloud.provider.tagged sampleService () log
    ⟨lostWorld 3, (), lostAsked⟩ none := by
  have hprepare : sampleCloud.provider.tagged.prepareMutation sampled.id sampled.request =
      .done (.ok none) := by
    show Dialogue.done (sampleCloud.prepareMutation Mutation.sampleRequest) = _
    unfold OneDrive.prepareMutation
    rw [sample_checks]
    rfl
  have hreconcile : sampleCloud.provider.tagged.reconcile lostTaken.id lostTaken.request
      lostTaken.preparedItem = .done (.ok .indeterminate) := by
    show forFolder (sampleCloud.reconcileMutation Mutation.sampleRequest) = _
    unfold OneDrive.reconcileMutation
    rw [sample_checks]
    rfl
  obtain ⟨K, L, M, hmutate, hpermit, hagain, hends⟩ := sample_asks
  obtain ⟨log, h⟩ := worked_mutate sampleCloud.provider.tagged sampleService () hprepare
  have h := lost_asked h hmutate (some (.ok ()))
  have h := lost_asked h hpermit (some (.ok sampleUnauthorized))
  have h := lost_asked h hagain none
  rw [hends] at h
  have h : Worked _ _ _ _ ⟨lostWorld 1, (), lostAsked⟩ _ :=
    working_call 21 (.numbered 21) h rfl (by decide +kernel) .done (by decide +kernel)
  -- the second pass
  have h : Worked _ _ _ _ _ _ := .begins (.ends h)
  have h : Worked _ _ _ _ ⟨lostWorld 2, (), lostAsked⟩ _ :=
    working_call 31 (later 31) (working_on h) rfl (by decide +kernel)
      (.claimed (some (.mutation lostTaken))) (by decide +kernel)
  obtain ⟨log, h⟩ := working_looked lostTaken ⟨31⟩ rfl h
  rw [hreconcile] at h
  have h : Worked _ _ _ _ ⟨lostWorld 3, (), lostAsked⟩ _ :=
    working_call 41 (later 41) h rfl (by decide +kernel) .done (by decide +kernel)
  exact ⟨_, .ends h⟩

theorem folders_sent_once_lost : lostAsked.countP (createsFor ⟨1⟩) ≤ 1 := by
  obtain ⟨log, h⟩ := folder_lost
  exact folders_sent_once sampleCloud sampleService .sample () _ ⟨1⟩ _ _ h

end Folders

end Cirrove.Graph
