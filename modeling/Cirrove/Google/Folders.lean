import Cirrove.Google.Conditional
import Cirrove.Mutation.Providers

/-!
# Folders of the mount

The mutation worker over the journal and Google Drive: a folder that was made in the mount is
created under an identity that the journal keeps, and the drive creates it only where nothing has
this identity. A creation whose answer was lost is looked for, sent again, and may take effect long
after both. Whatever the drive answers, and whoever else uses it and the journal: of all that was
sent for one operation, one folder comes into being at most (`folders_created_once`).
-/

namespace Cirrove.Google

open Cirrove.Library
open Cirrove.Mutation
open Cirrove.Journal

/-! ## The drive -/

/-- The conditions of the service, for requests that say which operation they are about. -/
abbrev editingFor : Conditions (Uuid × Message) String Item := editing.along Prod.snd

/-- The items of a drive, and what was sent to it for the operations. -/
abbrev Drive := Records (Uuid × Message) String Item

/-- Nothing is said of what the drive answers. A request that was sent may take effect. -/
def cloud : Mutation.Service (Uuid × Ask) (fun r => Answer r.2) Drive where
  stirs := editingFor.Stirs
  answers r s _ t := t = match sends r.2 with
    | some message => s.send (r.1, message)
    | none => s

/-- What the drive was sent it was asked, and what took effect was sent. -/
structure Kept (s : System (Uuid × Ask) (fun r => Answer r.2) Drive) : Prop where
  told : editingFor.Told s.remote
  asked : ∀ c ∈ s.remote.sent, ∃ answer, ⟨(c.1, .send c.2), answer⟩ ∈ s.asked

section Kept

variable {s t : System (Uuid × Ask) (fun r => Answer r.2) Drive}

theorem sends_eq_some {r : Ask} {message : Message} (h : sends r = some message) :
    r = .send message := by
  cases r with
  | send other => exact congrArg Ask.send (Option.some.inj h)
  | permit | generateIds | file _ | taggedFile _ | v2File _ | list _ _ | download _ _ _ | wait =>
    cases h

theorem stirs_sent {a b : Drive} (h : editingFor.Stirs a b) : b.sent = a.sent := by
  cases h with
  | others k v hnew => rfl
  | lands m k v hsent hk hmeets hnew => rfl

theorem Kept.stirs (hs : Kept s) (h : (working cloud).stirs s t) : Kept t := by
  rcases h with ⟨w, -, rfl⟩ | ⟨x, hst, rfl⟩
  · exact ⟨hs.told, hs.asked⟩
  · refine ⟨hs.told.stirs hst, ?_⟩
    intro c hc
    exact hs.asked c (stirs_sent hst ▸ hc)

theorem Kept.dies (hs : Kept s) (h : (working cloud).dies s t) : Kept t := by
  obtain ⟨w, -, rfl⟩ := h
  exact ⟨hs.told, hs.asked⟩

theorem Kept.answers (hs : Kept s) {r : WorkerAsk (Uuid × Ask)}
    {a : WorkerAnswer (fun r => Answer r.2) r} (h : (working cloud).answers r s a t) : Kept t := by
  cases r with
  | cancelled =>
    obtain rfl : t = s := h
    exact hs
  | journal op =>
    obtain ⟨w, -, rfl⟩ := h
    exact ⟨hs.told, hs.asked⟩
  | remote r =>
    obtain ⟨x, hx, rfl⟩ := h
    have holder : ∀ c ∈ s.remote.sent, ∃ answer,
        ⟨(c.1, .send c.2), answer⟩ ∈ (⟨r, a⟩ :: s.asked : Asked (Uuid × Ask) _) := by
      intro c hc
      obtain ⟨answer, hanswer⟩ := hs.asked c hc
      exact ⟨answer, List.mem_cons_of_mem _ hanswer⟩
    obtain ⟨id, r⟩ := r
    -- only a question that sends something changes the drive
    cases hsends : sends r with
    | none =>
      obtain rfl : x = s.remote := by
        simpa only [cloud, hsends] using hx
      exact ⟨hs.told, holder⟩
    | some message =>
      obtain rfl : x = s.remote.send (id, message) := by
        simpa only [cloud, hsends] using hx
      refine ⟨hs.told.send, ?_⟩
      intro c hc
      rcases List.mem_cons.mp hc with rfl | hc
      · obtain rfl := sends_eq_some hsends
        exact ⟨a, List.mem_cons_self⟩
      · exact holder c hc

end Kept

/-! ## Calls -/

section Calls

variable {g : GoogleValidationMutations}

/-- A folder is created only in a call about one, under the identity that the call carries. -/
def CreatesOwn (c : Mutation.Call) (r : Ask) : Prop :=
  ∀ message : Message, r = .send message → message.creates = true →
    c.makesFolder ∧ message.changes = c.item

theorem createsOwn_of_reads {c : Mutation.Call} (r : Ask) (h : Reads r) : CreatesOwn c r := by
  rintro message rfl
  exact h.elim

theorem makesFolder_of_before {request : MutationRequest}
    (h : request.intent.before.isNone = true) :
    ∃ parent name, request.intent = .createFolder parent name := by
  cases hintent : request.intent with
  | createFolder parent name => exact ⟨parent, name, rfl⟩
  | relocate | removeFile | removeFolder | trashNativeDocument =>
    rw [hintent] at h
    cases h

theorem call_only (c : Mutation.Call) : (g.provider.call c).Only (CreatesOwn c) := by
  cases c with
  | prepare operation request =>
    have hreserves : (g.prepareMutation request).Only Reserves := prepareMutation_only
    refine Dialogue.only_mono hreserves ?_
    rintro r h message rfl
    exact h.elim
  | mutate operation request item =>
    have hchanges : (g.mutatePrepared request item).Only
        (ReadsOrChanges (subject request item) request.intent.before.isNone) := mutatePrepared_only
    refine Dialogue.only_mono hchanges ?_
    rintro r (h | ⟨other, rfl, hchanges, hcreates⟩)
    · exact createsOwn_of_reads r h
    · rintro message ⟨⟩ hmessage
      obtain ⟨parent, name, hintent⟩ := makesFolder_of_before (hcreates.symm.trans hmessage)
      refine ⟨⟨parent, name, hintent⟩, hchanges.trans ?_⟩
      unfold subject
      rw [hintent]
      rfl
  | reconcile operation request item =>
    have hreads : (g.reconcilePreparedMutation request item).Only Reads :=
      reconcilePreparedMutation_only
    exact Dialogue.only_mono hreads createsOwn_of_reads

/-- What was sent to create a folder was sent in a call about it. -/
theorem call_of_sent {calls : Calls} {asked : Asked (Uuid × Ask) fun r => Answer r.2}
    (h : Traces g.provider.tagged calls asked) {id : Uuid} {message : Message}
    {answer : Option (Answer (.send message))}
    (hasked : ⟨(id, .send message), answer⟩ ∈ asked) (hcreates : message.creates = true) :
    ∃ c ∈ calls, c.1.operation = id ∧ c.1.makesFolder ∧ message.changes = c.1.item := by
  obtain ⟨c, hc, play, left, hplays, hplay⟩ := h.call_of_mem hasked
  rw [MutationProvider.tagged_call] at hplays
  obtain ⟨answers, rest, rfl, hplays, -⟩ := Dialogue.plays_within hplays
  obtain ⟨⟨r, a⟩, hmem, heq⟩ := List.mem_map.mp hplay
  cases heq
  have honly := (Dialogue.plays_only hplays (call_only c.1)).1 ⟨_, _⟩ (List.mem_map_of_mem hmem)
  obtain ⟨hmakes, hchanges⟩ := honly message rfl hcreates
  exact ⟨c, hc, rfl, hmakes, hchanges⟩

end Calls

/-! ## Every run -/

/-- A folder is created where nothing has its identity. -/
theorem absent_of_creates {message : Message} {a : Option Item} (h : message.creates = true)
    (hmeets : editing.meets message a) : a = none := by
  cases message with
  | createFolder id parent name =>
    cases a with
    | none => rfl
    | some a => exact hmeets.elim
  | _ => cases h

theorem changes_of_creates {message : Message} (h : message.creates = true) :
    ∃ item, message.changes = some item := by
  cases message with
  | createFolder id parent name => exact ⟨id, rfl⟩
  | _ => cases h

/-- In every run of the worker over a drive, whatever is lost, answered, cut off or begun again,
    however late a request takes effect and whoever else uses the drive and the journal: one folder
    at most is created for an operation. -/
theorem folders_created_once (g : GoogleValidationMutations) (settings : Settings) (remote : Drive)
    (s : System (Uuid × Ask) (fun r => Answer r.2) Drive) (id : Uuid)
    (log : List ((r : WorkerAsk (Uuid × Ask)) × WorkerAnswer (fun r => Answer r.2) r))
    (work : Option (Dialogue (WorkerAsk (Uuid × Ask)) (WorkerAnswer fun r => Answer r.2)
      (Except JournalError (Option (Uuid × MutationState)))))
    (hnew : editingFor.New remote)
    (h : (working cloud).Reaches (Worker.runOnce g.provider.tagged).run
      (.create settings remote) log s work) :
    s.remote.applied.countP (fun c => c.1.1 = id && c.1.2.creates) ≤ 1 := by
  have hstart : Kept (.create settings remote) := by
    refine ⟨hnew.told, fun c hc => ?_⟩
    rw [show (System.create settings remote).remote.sent = [] from hnew.sent] at hc
    cases hc
  have hkept : Kept s := h.preserves (I := Kept) hstart
    (fun _ _ => Kept.stirs) (fun _ _ => Kept.dies) fun _ _ _ _ hs h => hs.answers h
  obtain ⟨calls, hs, htraces⟩ := refined h
  have horderly : Orderly calls := hs.orderly
  refine hkept.told.countP_le_one (p := fun m => m.1 = id && m.2.creates) ?_ ?_
  · intro m a hm hmeets
    exact absent_of_creates (Bool.and_eq_true _ _ ▸ hm : _ ∧ _).2 hmeets
  · -- both were sent in calls about the folder of this operation
    intro m hm m' hm' hcreates hcreates'
    obtain ⟨hid, hcreates⟩ := (Bool.and_eq_true _ _ ▸ hcreates : _ ∧ _)
    obtain ⟨hid', hcreates'⟩ := (Bool.and_eq_true _ _ ▸ hcreates' : _ ∧ _)
    obtain ⟨answer, hasked⟩ := hkept.asked m hm
    obtain ⟨answer', hasked'⟩ := hkept.asked m' hm'
    obtain ⟨c, hc, hop, hmakes, hchanges⟩ := call_of_sent htraces hasked hcreates
    obtain ⟨c', hc', hop', hmakes', hchanges'⟩ := call_of_sent htraces hasked' hcreates'
    obtain ⟨item, hitem⟩ := changes_of_creates hcreates
    obtain ⟨item', hitem'⟩ := changes_of_creates hcreates'
    have hsame : c.1.operation = c'.1.operation := by
      rw [hop, hop', of_decide_eq_true hid, of_decide_eq_true hid']
    obtain rfl := horderly.item_agrees hc hc' hsame hmakes hmakes' (hchanges ▸ hitem)
      (hchanges' ▸ hitem')
    exact hitem.trans hitem'.symm

/-! ## A folder whose answer is lost -/

section Sample

/-- Nothing is in the drive, and nothing was sent to it. -/
def sampleBare : Drive := ⟨fun _ => [], [], []⟩

theorem sampleBare_new : editingFor.New sampleBare where
  distinct _ := .nil
  sent := rfl
  applied := rfl

def sampleSettings : Settings := ⟨"me", id⟩

/-- What is called until the folder is sent for the second time. -/
def folderCalls : List (Env × Op) :=
  [(.numbered 1, .enqueueMutation sampleFolder), (.numbered 11, .claimMutation),
    (.numbered 21, .recordPreparedMutation ⟨1⟩ ⟨11⟩ "a"),
    (.numbered 31, .deferMutation ⟨1⟩ ⟨11⟩ .verifyRequired 2), (later 41, .claimMutation),
    (later 51, .retryUncommittedMutation ⟨1⟩ ⟨41⟩), (later 61, .claimMutation)]

/-- The world after so many of these calls. -/
def folderWorld (n : Nat) : Journal.World :=
  ((folderCalls.take n).map fun call => Journal.Event.call call.1 call.2).foldl Journal.step
    (Journal.World.create sampleSettings)

/-- The folder as the worker takes it. -/
def folderTaken (state : MutationState) (attempt : Uuid) (retryAt failedAttempts : Nat)
    (preparedItem : Option String) : MutationRecord :=
  { MutationRecord.new ⟨1⟩ 1 sampleFolder none none true with
    state := state
    attempt := some attempt
    retryAt := retryAt
    failedAttempts := failedAttempts
    preparedItem := preparedItem }

abbrev Made (log : List ((r : WorkerAsk (Uuid × Ask)) × WorkerAnswer (fun r => Answer r.2) r))
    (s : System (Uuid × Ask) (fun r => Answer r.2) Drive)
    (work : Option (Dialogue (WorkerAsk (Uuid × Ask)) (WorkerAnswer fun r => Answer r.2)
      (Except JournalError (Option (Uuid × MutationState))))) : Prop :=
  (working cloud).Reaches (Worker.runOnce sampleChanges.provider.tagged).run
    (.create sampleSettings sampleBare) log s work

/-- A call about the folder. -/
abbrev forFolder {α : Type} (call : Dialogue Ask (fun r => Option (Answer r)) α) :
    Dialogue (Uuid × Ask) (fun r => Option (Answer r.2)) α := call.within (Prod.mk ⟨1⟩) fun _ x => x

/-- An identity is reserved for the folder. -/
theorem folder_prepared : ∃ K L,
    sampleChanges.provider.tagged.prepareMutation ⟨1⟩ sampleFolder = .ask (⟨1⟩, .permit) K ∧
    K (some (.ok ())) = .ask (⟨1⟩, .generateIds) L ∧
    L (some (.ok ⟨["a"], "drive", "drive#generatedIds"⟩)) = .done (.ok (some "a")) := by
  have hchecked : sampleChanges.checkMutation sampleFolder = .ok () := by decide +kernel
  have hplace : sampleChanges.checkFolderDestination ⟨"me", "googledrive", "drive"⟩ "root"
      "letters" = .ok () := by decide +kernel
  have hplan : sampleChanges.checkFolderPlan ⟨"me", "googledrive", "drive"⟩
      ⟨"a", "root", "letters"⟩ = .ok () := by decide +kernel
  have hvalid : validId "a" = .ok () := by decide +kernel
  have htagged : sampleChanges.provider.tagged.prepareMutation ⟨1⟩ sampleFolder =
      forFolder (sampleChanges.prepareMutation sampleFolder) := rfl
  rw [htagged]
  unfold GoogleValidationMutations.prepareMutation GoogleWriter.prepareFolder
  rw [hchecked]
  dsimp only [sampleFolder]
  rw [hplace]
  refine ⟨_, _, rfl, rfl, ?_⟩
  show forFolder ((Dialogue.cut (.error .uncertain) (do
    let id ← (do Exchange.ofProvider (validId "a"); return "a" : Exchange String)
    Exchange.ofExcept (sampleChanges.checkFolderPlan ⟨"me", "googledrive", "drive"⟩
      ⟨id, "root", "letters"⟩)
    return (⟨id, "root", "letters"⟩ : PreparedFolder) : Exchange PreparedFolder).run).bind
      fun plan => .done ((plan.map fun plan => some plan.id).mapError mutationError)) =
    .done (.ok (some "a"))
  rw [hvalid]
  show forFolder ((Dialogue.cut (.error .uncertain) (do
    Exchange.ofExcept (sampleChanges.checkFolderPlan ⟨"me", "googledrive", "drive"⟩
      ⟨"a", "root", "letters"⟩)
    return (⟨"a", "root", "letters"⟩ : PreparedFolder) : Exchange PreparedFolder).run).bind
      fun plan => .done ((plan.map fun plan => some plan.id).mapError mutationError)) =
    .done (.ok (some "a"))
  rw [hplan]
  rfl

/-- Nothing has the name of the folder, and it is sent. -/
theorem folder_sent : ∃ K L M,
    sampleChanges.provider.tagged.mutate ⟨1⟩ sampleFolder (some "a") =
      .ask (⟨1⟩, .list "root" none) K ∧
    K (some (.ok ⟨[], none, false⟩)) = .ask (⟨1⟩, .permit) L ∧
    L (some (.ok ())) = .ask (⟨1⟩, .send sampleCreates) M ∧
    M none = .done (.error .uncertain) := by
  have hchecked : sampleChanges.checkPrepared sampleFolder (some "a") = .ok "a" := by
    decide +kernel
  have hplan : sampleChanges.checkFolderPlan ⟨"me", "googledrive", "drive"⟩
      ⟨"a", "root", "letters"⟩ = .ok () := by decide +kernel
  have htagged : sampleChanges.provider.tagged.mutate ⟨1⟩ sampleFolder (some "a") =
      forFolder (sampleChanges.mutatePrepared sampleFolder (some "a")) := rfl
  rw [htagged]
  unfold GoogleValidationMutations.mutatePrepared
  rw [hchecked]
  dsimp only [sampleFolder]
  unfold GoogleWriter.createPreparedFolder
  rw [hplan]
  exact ⟨_, _, _, rfl, rfl, rfl, rfl⟩

/-- The folder is looked for and not found. -/
theorem folder_missed : ∃ K L,
    sampleChanges.provider.tagged.reconcile ⟨1⟩ sampleFolder (some "a") = .ask (⟨1⟩, .permit) K ∧
    K (some (.ok ())) = .ask (⟨1⟩, .taggedFile "a") L ∧
    L (some (.error (.provider .notFound))) = .done (.ok .uncommitted) := by
  have hchecked : sampleChanges.checkPrepared sampleFolder (some "a") = .ok "a" := by
    decide +kernel
  have hplan : sampleChanges.checkFolderPlan ⟨"me", "googledrive", "drive"⟩
      ⟨"a", "root", "letters"⟩ = .ok () := by decide +kernel
  have htagged : sampleChanges.provider.tagged.reconcile ⟨1⟩ sampleFolder (some "a") =
      forFolder (sampleChanges.reconcilePreparedMutation sampleFolder (some "a")) := rfl
  rw [htagged]
  unfold GoogleValidationMutations.reconcilePreparedMutation
  rw [hchecked]
  dsimp only [sampleFolder]
  unfold GoogleWriter.inspectPreparedFolder
  rw [hplan]
  exact ⟨_, _, rfl, rfl, rfl⟩

section Part

variable {log : List ((r : WorkerAsk (Uuid × Ask)) × WorkerAnswer (fun r => Answer r.2) r)}
  {s : System (Uuid × Ask) (fun r => Answer r.2) Drive} {α : Type}
  {call : Dialogue (Uuid × Ask) (fun r => Option (Answer r.2)) α}
  {next : α → Dialogue (WorkerAsk (Uuid × Ask)) (WorkerAnswer fun r => Answer r.2)
    (Except JournalError (Option (Uuid × MutationState)))}

theorem made_asked {r : Uuid × Ask}
    {k : Option (Answer r.2) → Dialogue (Uuid × Ask) (fun r => Option (Answer r.2)) α}
    (h : Made log s (some ((asPart call).bind next))) (hcall : call = .ask r k)
    (a : Option (Answer r.2)) (x : Drive) (ha : cloud.answers r s.remote a x) :
    Made (⟨.remote r, a⟩ :: log) ⟨s.world, x, ⟨r, a⟩ :: s.asked⟩
      (some ((asPart (k a)).bind next)) := by
  subst hcall
  exact .answers (a := a) h ⟨x, ha, rfl⟩

theorem made_done {a : α} (h : Made log s (some ((asPart call).bind next)))
    (hcall : call = .done a) : Made log s (some (next a)) := by
  subst hcall
  exact h

end Part

/-- The worker has taken the folder. -/
theorem folder_claimed : ∃ log, Made log ⟨folderWorld 2, sampleBare, []⟩
    (some (do return some (⟨1⟩, ← Worker.carried sampleChanges.provider.tagged
      (folderTaken .applying ⟨11⟩ 0 0 none) ⟨11⟩) : Worker.Work (Uuid × Ask) (fun r => Answer r.2)
        _).run) := by
  have hqueued : Made [] ⟨folderWorld 1, sampleBare, []⟩ none := by
    have hready : callable (folderWorld 0) 1 (.enqueueMutation sampleFolder) = true := by
      decide +kernel
    obtain ⟨hpermitted, hdrawn⟩ := permitted_of_ready (.numbered 1) rfl hready
    exact .stirs .start (.inl ⟨_, Stirs.call (w := Journal.World.create sampleSettings) (.numbered 1)
      (.enqueueMutation sampleFolder) hpermitted hdrawn rfl, rfl⟩)
  have h : Made _ _ _ := .begins hqueued
  have h : Made _ ⟨folderWorld 2, sampleBare, []⟩ _ :=
    working_call 11 (.numbered 11) (working_on h) rfl (by decide +kernel)
      (.claimed (some (.mutation (folderTaken .applying ⟨11⟩ 0 0 none)))) (by decide +kernel)
  exact ⟨_, h⟩

/-- The folder is about to be sent, under the identity that was reserved for it. -/
theorem folder_begun : ∃ log asked, Made log ⟨folderWorld 3, sampleBare, asked⟩
    (some ((asPart (sampleChanges.provider.tagged.mutate ⟨1⟩ sampleFolder (some "a"))).bind
      fun result => reporting
        (folderTaken .applying ⟨11⟩ 0 0 (some "a")) ⟨11⟩ (result.map .applied))) := by
  obtain ⟨log, h⟩ := folder_claimed
  obtain ⟨K, L, hprepare, hpermit, hids⟩ := folder_prepared
  unfold Worker.carried Worker.prepared at h
  rw [if_pos (by decide)] at h
  have h : Made _ _ _ := working_on h
  have h := Eq.mp (congrArg (fun d => Made _ _ (some d)) (bind_assoc_four
    (asPart (sampleChanges.provider.tagged.prepareMutation ⟨1⟩ sampleFolder)) _ _ _ _)) h
  have h := made_asked h hprepare (some (.ok ())) sampleBare rfl
  have h := made_asked h hpermit (some (.ok ⟨["a"], "drive", "drive#generatedIds"⟩)) sampleBare rfl
  have h := made_done h hids
  -- the identity is recorded before the folder is sent under it
  have h : Made _ ⟨folderWorld 3, sampleBare, _⟩ _ :=
    working_call 21 (.numbered 21) h rfl (by decide +kernel) .done (by decide +kernel)
  have h : Made _ _ _ := working_on h
  exact ⟨_, _, Eq.mp (congrArg (fun d => Made _ _ (some d)) (bind_assoc_four
    (asPart (sampleChanges.provider.tagged.mutate ⟨1⟩ sampleFolder (some "a"))) _ _ _ _)) h⟩

def sampleAsked : Uuid × Message := (⟨1⟩, sampleCreates)

/-- The folder was sent, and what came of it is not known. -/
theorem folder_uncertain {log : List ((r : WorkerAsk (Uuid × Ask)) ×
      WorkerAnswer (fun r => Answer r.2) r)} {w : Journal.World} {x : Drive}
    {asked : Asked (Uuid × Ask) fun r => Answer r.2}
    {next : Except MutationError MutationReceipt → Dialogue (WorkerAsk (Uuid × Ask))
      (WorkerAnswer fun r => Answer r.2) (Except JournalError (Option (Uuid × MutationState)))}
    (h : Made log ⟨w, x, asked⟩
      (some ((asPart (sampleChanges.provider.tagged.mutate ⟨1⟩ sampleFolder (some "a"))).bind
        next))) :
    ∃ log asked, Made log ⟨w, x.send sampleAsked, asked⟩ (some (next (.error .uncertain))) := by
  obtain ⟨K, L, M, hmutate, hlist, hpermit, hends⟩ := folder_sent
  have h := made_asked h hmutate (some (.ok ⟨[], none, false⟩)) x rfl
  have h := made_asked h hlist (some (.ok ())) x rfl
  have h := made_asked h hpermit none (x.send sampleAsked) rfl
  exact ⟨_, _, made_done h hends⟩

/-- The folder was sent twice. -/
def sampleTwice : Drive := (sampleBare.send sampleAsked).send sampleAsked

/-- The folder is in the drive. -/
def sampleMade : Drive :=
  { sampleTwice.become "a" ⟨"1", "\"etag\"", "\"tag\""⟩ with applied := [(sampleAsked, none)] }

/-- The folder is looked for, not found and sent again, since the request is still under way. -/
theorem folder_again : ∃ log asked work, Made log ⟨folderWorld 7, sampleTwice, asked⟩ work := by
  obtain ⟨log, asked, h⟩ := folder_begun
  obtain ⟨log, asked, h⟩ := folder_uncertain h
  have h : Made _ ⟨folderWorld 4, sampleBare.send sampleAsked, _⟩ _ :=
    working_call 31 (.numbered 31) h rfl (by decide +kernel) .done (by decide +kernel)
  -- the second pass looks for the folder
  have h : Made _ _ _ := .begins (.ends h)
  have h : Made _ ⟨folderWorld 5, sampleBare.send sampleAsked, _⟩ _ :=
    working_call 41 (later 41) (working_on h) rfl (by decide +kernel)
      (.claimed (some (.mutation (folderTaken .verifying ⟨41⟩ 2 1 (some "a"))))) (by decide +kernel)
  obtain ⟨log, h⟩ := working_looked (folderTaken .verifying ⟨41⟩ 2 1 (some "a"))
    ⟨41⟩ rfl h
  obtain ⟨K, L, hreconcile, hpermit, hmissed⟩ := folder_missed
  have h := made_asked h hreconcile (some (.ok ())) (sampleBare.send sampleAsked) rfl
  have h := made_asked h hpermit (some (.error (.provider .notFound)))
    (sampleBare.send sampleAsked) rfl
  have h : Made _ ⟨folderWorld 5, sampleBare.send sampleAsked, _⟩ _ := made_done h hmissed
  have h : Made _ ⟨folderWorld 6, sampleBare.send sampleAsked, _⟩ _ :=
    working_call 51 (later 51) h rfl (by decide +kernel) .done (by decide +kernel)
  -- the third one sends it
  have h : Made _ _ _ := .begins (.ends h)
  have h : Made _ ⟨folderWorld 7, sampleBare.send sampleAsked, _⟩ _ :=
    working_call 61 (later 61) (working_on h) rfl (by decide +kernel)
      (.claimed (some (.mutation (folderTaken .applying ⟨61⟩ 0 1 (some "a"))))) (by decide +kernel)
  obtain ⟨log, h⟩ := working_sent (folderTaken .applying ⟨61⟩ 0 1 (some "a"))
    ⟨61⟩ (by decide) (by decide) h
  obtain ⟨log, asked, h⟩ := folder_uncertain h
  exact ⟨_, _, _, h⟩

/-- The first of the requests takes effect after the second was sent. -/
theorem folder_made : ∃ log asked work, Made log ⟨folderWorld 7, sampleMade, asked⟩ work := by
  obtain ⟨log, asked, work, h⟩ := folder_again
  have hnew : ∀ b ∈ sampleTwice.past "a", Item.Apart ⟨"1", "\"etag\"", "\"tag\""⟩ b := by
    rintro b ⟨⟩
  have hlands : editingFor.Stirs sampleTwice sampleMade :=
    Conditions.Stirs.lands (C := editingFor) (s := sampleTwice) sampleAsked "a" _
      List.mem_cons_self rfl trivial hnew
  exact ⟨_, _, _, .stirs h (.inr ⟨_, hlands, rfl⟩)⟩

theorem folders_created_once_lost :
    sampleMade.applied.countP (fun c => c.1.1 = ⟨1⟩ && c.1.2.creates) ≤ 1 := by
  obtain ⟨log, asked, work, h⟩ := folder_made
  exact folders_created_once sampleChanges sampleSettings sampleBare _ ⟨1⟩ log work
    sampleBare_new h

end Sample

end Cirrove.Google
