import Cirrove.Google.Checkpoints
import Cirrove.Journal.Claims
import Cirrove.Upload.Worker

/-!
# Creating a file once

The transfer worker over the Google adapter, for one operation that creates a file. Its world
(`Creation`) has the operation's record in the journal, its entry in the vault and the drive.
Answers are lost, calls are cut off, sessions disappear and the process dies at any question, whose
effect has then taken place or not.

A request under a reserved identity that was sent and not looked for since is `unread`. The rules of
the game (`creation`) are that such an identity is the one of the checkpoint in the vault, that
creating requests are sent under no other, and that no other is reserved before it was looked for.
The worker keeps to them (`runOnce_keeps`), whatever happens.

A request that is lost may take effect at any later moment, also after its item was looked for and
not found. What it then creates is `late`: nothing the worker can do rules that out.
-/

namespace Cirrove.Google

open Cirrove.Library
open Cirrove.Upload
open Cirrove.Journal (UploadIntent UploadRecord UploadState JournalError Uuid)
open Cirrove.Journal.UploadJournal (acceptsReceipt)
open Relation (ReflTransGen)

/-- The adapter as the worker uses it. -/
def GoogleWriter.provider (g : GoogleWriter) : UploadProvider Ask Answer where
  beginUpload := g.beginUpload
  inspectUpload := g.inspectUpload
  uploadPart := g.uploadPart
  commitUpload := g.commitUpload
  reconcileUpload := g.reconcileUpload

/-- A request for a new file, with a size that is one of a `u64`. -/
structure NewFile (request : UploadRequest) (parent name : String) : Prop where
  intent : request.intent = .create parent name
  size : request.size < 2 ^ 64

/-! ## The world of an operation -/

/-- What of the journal, the vault and the drive belongs to an operation. -/
structure Creation where
  record : UploadRecord
  vault : Option String
  /-- The identities of the drive's items. -/
  items : List String
  /-- The identity of the file that a session is for. -/
  sessions : String → Option String
  /-- The items the operation has created. -/
  created : List String
  /-- Under which identities a request may still take effect. -/
  pending : List String
  /-- Under which identities creating requests were sent, none of which was looked for since and
      not found. -/
  unread : List String
  /-- The items that were created after they had been looked for and not found, when no other
      request had been sent for them. -/
  late : List String

namespace Creation

/-- Identities are unique. -/
def creates (w : Creation) (id : String) : Creation :=
  if id ∈ w.items then w else { w with
    items := id :: w.items
    created := id :: w.created
    late := if id ∈ w.unread then w.late else id :: w.late }

/-- A creating request takes effect at once, later or never. -/
def Sends (w : Creation) (id : String) (w' : Creation) : Prop :=
  w' = { w with unread := id :: w.unread } ∨
  w' = { w with unread := id :: w.unread }.creates id ∨
  w' = { w with unread := id :: w.unread, pending := id :: w.pending }

/-- Nothing is found. What was sent before may still take effect. -/
def finds (w : Creation) (id : String) : Creation :=
  { w with unread := w.unread.filter fun other => other ≠ id }

def missing : Option (Except ProviderError File) → Bool
  | some (.error .notFound) => true
  | _ => false

/-- The session a response opens. -/
def opened : Option (Except UploadError Response) → Option String
  | some (.ok response) => response.location
  | _ => none

/-- What the drive answers and what becomes of it. -/
def remote (w : Creation) : (r : Ask) → Option (Answer r) → Creation → Prop
  | .file id, a, w' => if missing a then id ∉ w.items ∧ w' = w.finds id else w' = w
  | .send (.createSession id _ _ _), a, w' =>
    w' = { w with
      unread := id :: w.unread
      sessions := fun url => if opened a = some url then some id else w.sessions url }
  | .send (.create id _ _), _, w' => w.Sends id w'
  | .send (.put url _ _), _, w' =>
    match w.sessions url with
    | some id => w.Sends id w'
    | none => w' = w
  | _, _, w' => w' = w

end Creation

/-- A worker takes a record that waits. -/
def Claimed (r claimed : UploadRecord) : Prop :=
  ∃ attempt,
    (r.state = .pending ∧ claimed = { r with state := .uploading, attempt := some attempt }) ∨
    (r.state = .verifyRequired ∧ claimed = { r with state := .verifying, attempt := some attempt })

/-- `UploadJournal::active_attempt` -/
def Active (r : UploadRecord) (attempt : Uuid) : Prop :=
  r.state.inFlight = true ∧ r.attempt = some attempt

/-- What other calls of the journal make of a record: the one a worker holds stays with it, one that
    is complete stays so, and none that was begun becomes one that was not. -/
structure Others (r r' : UploadRecord) : Prop where
  held : r.state.inFlight = true → r'.state = r.state ∧ r'.attempt = r.attempt
  complete : r.state.isComplete = true → r'.state.isComplete = true
  begun : r'.state = .pending ∨ r'.state = .preparing → r.state = .pending ∨ r.state = .preparing
  creates : ∀ parent name, NewFile (Worker.requestOf r) parent name →
    ∃ parent name, NewFile (Worker.requestOf r') parent name

namespace Creation

/-- What others do: a request takes effect late, other calls of the journal are made, and the drive
    changes, where nobody else deletes what the operation has created or reserved. -/
inductive Stirs (w : Creation) : Creation → Prop where
  | lands (id : String) (h : id ∈ w.pending) : Stirs w (w.creates id)
  | journal (r : UploadRecord) (h : Others w.record r) : Stirs w { w with record := r }
  | drive (items : List String)
      (h : ∀ id, id ∈ w.created ∨ id ∈ w.unread → id ∈ w.items → id ∈ items) :
      Stirs w { w with items := items }

/-- The journal is opened again. -/
def reopened (w : Creation) : Creation :=
  if w.record.state.inFlight then
    { w with record := { w.record with state := .verifyRequired, attempt := none } }
  else w

/-- What a call that may fail comes to. -/
def Comes {ε α : Type} (a : Except ε α) (ok : α → Prop) (failed : Prop) : Prop :=
  match a with
  | .ok x => ok x
  | .error _ => failed

/-- A worker takes the record, or the journal finds that its payload is gone. -/
def claims (w : Creation) (a : Except JournalError (Option UploadRecord)) (w' : Creation) : Prop :=
  Comes a
    (fun r => match r with
      | none => w' = w
      | some r => Claimed w.record r ∧ w' = { w with record := r })
    (w' = w ∨
      (w.record.state = .pending ∧ w' = { w with record := { w.record with state := .failed } }))

/-- What the worker is answered. A use of the vault that fails may have had its effect; the journal
    makes its changes in transactions. -/
def answers : (r : WorkerAsk Ask) → Creation → WorkerAnswer Answer r → Creation → Prop
  | .claim, w, a, w' => w.claims a w'
  | .cancelled, w, _, w' => w' = w
  | .load, w, (a : Except TransferError (Option String)), w' =>
    Comes a (fun saved => saved = w.vault ∧ w' = w) (w' = w)
  | .save checkpoint, w, (a : Except TransferError Unit), w' =>
    Comes a (fun _ => w' = { w with vault := some checkpoint })
      (w' = w ∨ w' = { w with vault := some checkpoint })
  | .remove, w, (a : Except TransferError Unit), w' =>
    Comes a (fun _ => w' = { w with vault := none }) (w' = w ∨ w' = { w with vault := none })
  | .recordSession attempt transferred, w, (a : Except JournalError Unit), w' =>
    Comes a
      (fun _ => Active w.record attempt ∧ transferred ≤ w.record.size ∧ w' = { w with
        record := { w.record with
          sessionKey := some w.record.id
          transferredBytes := transferred
          state := .uploading } })
      (w' = w)
  | .retryUncommitted attempt, w, (a : Except JournalError Unit), w' =>
    Comes a
      (fun _ => Active w.record attempt ∧ w' = { w with
        record := { w.record with
          state := .pending
          attempt := none
          retryAt := 0
          failedAttempts := min (w.record.failedAttempts + 1) (2 ^ 32 - 1)
          sessionKey := none
          transferredBytes := 0 } })
      (w' = w ∨ (Active w.record attempt ∧ ∃ retryAt, w' = { w with
        record := { w.record with
          state := .verifyRequired
          attempt := none
          retryAt := retryAt
          failedAttempts := min (w.record.failedAttempts + 1) (2 ^ 32 - 1) } }))
  | .acknowledge attempt node, w, (a : Except JournalError Unit), w' =>
    Comes a
      (fun _ => Active w.record attempt ∧ acceptsReceipt w.record node = true ∧ w' = { w with
        record := { w.record with
          remote := some node
          state := .uploaded
          transferredBytes := w.record.size
          attempt := none } })
      (w' = w)
  | .defer attempt state _, w, (a : Except JournalError Unit), w' =>
    Comes a
      (fun _ => Active w.record attempt ∧ state.stopped = true ∧ ∃ retryAt, w' = { w with
        record := { w.record with
          state := state
          attempt := none
          retryAt := retryAt
          failedAttempts := min (w.record.failedAttempts + 1) (2 ^ 32 - 1) } })
      (w' = w)
  | .payload _ _, w, _, w' => w' = w
  | .remote r, w, a, w' => w.remote r a w'

/-! ## The rules -/

variable (g : GoogleWriter)

/-- What the vault has. -/
def saved (w : Creation) : Option SavedUpload := w.vault.bind g.saved.fromStr

/-- Whatever a session's URL creates has the identity of its checkpoint. -/
def SessionFor (w : Creation) : SavedUpload → Prop
  | .prepared _ _ _ => True
  | .session _ _ id url _ _ => ∀ other, w.sessions url = some other → other = id

/-- May be stored: a checkpoint of the identity that was not looked for yet, if there is one. -/
def Continues (w : Creation) (checkpoint : String) : Prop :=
  ∃ saved, g.saved.fromStr checkpoint = some saved ∧ (∀ id ∈ w.unread, id = saved.id) ∧
    w.SessionFor saved

/-- The identity a message creates an item under. -/
def creating (w : Creation) : Message → Option String
  | .createSession id _ _ _ => some id
  | .create id _ _ => some id
  | .put url _ _ => w.sessions url
  | _ => none

/-- What may be asked. -/
def allowed : WorkerAsk Ask → Creation → Prop
  | .save checkpoint, w => w.Continues g checkpoint
  | .remove, w => w.unread = [] ∨ w.record.state.isComplete = true
  | .retryUncommitted _, w => w.unread = []
  | .remote .generateIds, w => w.unread = []
  | .remote (.send message), w => ∀ id, w.creating message = some id →
    w.record.state.inFlight = true ∧ ∃ saved, w.saved g = some saved ∧ saved.id = id
  | _, _ => True

structure Sound (w : Creation) : Prop where
  /-- An identity that was not looked for is not lost. -/
  held : w.record.state.isComplete = false →
    ∀ id ∈ w.unread, ∃ saved, w.saved g = some saved ∧ saved.id = id
  same : ∀ a ∈ w.unread, ∀ b ∈ w.unread, a = b
  created : ∀ id ∈ w.created, id ∈ w.items ∧ (id ∈ w.unread ∨ id ∈ w.late)
  once : w.created.Nodup
  unbegun : w.record.state = .pending ∨ w.record.state = .preparing → w.unread = []
  session : ∀ saved, w.saved g = some saved → w.SessionFor saved
  creates : ∃ parent name, NewFile (Worker.requestOf w.record) parent name

/-! ## The rules are kept -/

section Sound

variable {g} {w w' : Creation} {id : String}

theorem idle_of_inFlight {state : UploadState} (h : state.inFlight = true) :
    state.isComplete = false ∧ state ≠ .pending ∧ state ≠ .preparing := by
  cases state <;> simp_all [UploadState.inFlight, UploadState.isComplete]

theorem creates_eq (w : Creation) (id : String) : w.creates id = w ∨
    (id ∉ w.items ∧ w.creates id = { w with
      items := id :: w.items
      created := id :: w.created
      late := if id ∈ w.unread then w.late else id :: w.late }) := by
  unfold creates
  split
  · exact .inl rfl
  · next h => exact .inr ⟨h, rfl⟩

/-- A request takes effect, whether or not it was looked for meanwhile. -/
theorem Sound.lands (h : w.Sound g) (id : String) : (w.creates id).Sound g := by
  rcases creates_eq w id with heq | ⟨hnew, heq⟩
  · rw [heq]
    exact h
  · rw [heq]
    have hlate : ∀ other, other ∈ w.late →
        other ∈ if id ∈ w.unread then w.late else id :: w.late := by
      intro other hother
      split
      · exact hother
      · exact List.mem_cons_of_mem _ hother
    refine { h with created := ?_, once := ?_ }
    · intro other hother
      rcases List.mem_cons.mp hother with rfl | hother
      · refine ⟨List.mem_cons_self, ?_⟩
        by_cases hunread : other ∈ w.unread
        · exact .inl hunread
        · right
          dsimp only
          rw [if_neg hunread]
          exact List.mem_cons_self
      · obtain ⟨hitem, hread⟩ := h.created other hother
        exact ⟨List.mem_cons_of_mem _ hitem, hread.imp_right (hlate other)⟩
    · exact List.nodup_cons.mpr ⟨fun hmem => hnew (h.created id hmem).1, h.once⟩

/-- Only a request under the identity of the vault's checkpoint is sent. -/
theorem Sound.sent (h : w.Sound g) (hheld : w.record.state.inFlight = true)
    (hsaved : ∃ saved, w.saved g = some saved ∧ saved.id = id) :
    Sound g { w with unread := id :: w.unread } := by
  obtain ⟨saved, hread, rfl⟩ := hsaved
  obtain ⟨hincomplete, hpending, hpreparing⟩ := idle_of_inFlight hheld
  have hall : ∀ other ∈ saved.id :: w.unread, other = saved.id := by
    intro other hother
    rcases List.mem_cons.mp hother with rfl | hother
    · rfl
    · obtain ⟨saved', hread', rfl⟩ := h.held hincomplete other hother
      rw [Option.some.inj (hread'.symm.trans hread)]
  refine { h with held := ?_, same := ?_, created := ?_, unbegun := ?_ }
  · intro _ other hother
    exact ⟨saved, hread, (hall other hother).symm⟩
  · intro a ha b hb
    rw [hall a ha, hall b hb]
  · intro other hother
    obtain ⟨hitem, hread⟩ := h.created other hother
    exact ⟨hitem, hread.imp_left (List.mem_cons_of_mem _)⟩
  · rintro (hstate | hstate)
    · exact absurd hstate hpending
    · exact absurd hstate hpreparing

theorem Sound.sends (h : w.Sound g) (hheld : w.record.state.inFlight = true)
    (hsaved : ∃ saved, w.saved g = some saved ∧ saved.id = id) (hsends : w.Sends id w') :
    w'.Sound g := by
  have hsent := h.sent hheld hsaved
  rcases hsends with rfl | rfl | rfl
  · exact hsent
  · exact hsent.lands id
  · exact { hsent with }

theorem mem_finds_unread {other : String} :
    other ∈ (w.finds id).unread ↔ other ∈ w.unread ∧ other ≠ id := by
  simp [finds]

theorem Sound.finds (h : w.Sound g) (hid : id ∉ w.items) : (w.finds id).Sound g where
  held hincomplete other hother := h.held hincomplete other (mem_finds_unread.mp hother).1
  same a ha b hb := h.same a (mem_finds_unread.mp ha).1 b (mem_finds_unread.mp hb).1
  created other hother := by
    obtain ⟨hitem, hread⟩ := h.created other hother
    have hne : other ≠ id := fun heq => hid (heq ▸ hitem)
    exact ⟨hitem, hread.imp_left fun hunread => mem_finds_unread.mpr ⟨hunread, hne⟩⟩
  once := h.once
  unbegun hstate := by
    show w.unread.filter _ = []
    rw [h.unbegun hstate]
    rfl
  session := h.session
  creates := h.creates

theorem Sound.recorded {r : UploadRecord} (h : w.Sound g)
    (hcomplete : r.state.isComplete = false → w.record.state.isComplete = false)
    (hunbegun : r.state = .pending ∨ r.state = .preparing → w.unread = [])
    (hcreates : ∃ parent name, NewFile (Worker.requestOf r) parent name) :
    Sound g { w with record := r } :=
  { h with held := fun hr => h.held (hcomplete hr), unbegun := hunbegun, creates := hcreates }

theorem Sound.stored {checkpoint : String} (h : w.Sound g) (hcontinues : w.Continues g checkpoint) :
    Sound g { w with vault := some checkpoint } := by
  obtain ⟨saved, hread, hunread, hsession⟩ := hcontinues
  refine { h with held := ?_, session := ?_ }
  · exact fun _ id hid => ⟨saved, hread, (hunread id hid).symm⟩
  · intro saved' hsaved'
    rw [← Option.some.inj (hread.symm.trans hsaved')]
    exact hsession

theorem Sound.removed (h : w.Sound g) (hremove : w.unread = [] ∨ w.record.state.isComplete = true) :
    Sound g { w with vault := none } := by
  refine { h with held := ?_, session := ?_ }
  · intro hincomplete id hid
    rcases hremove with hunread | hcomplete
    · rw [show ({ w with vault := none } : Creation).unread = [] from hunread] at hid
      cases hid
    · rw [show w.record.state.isComplete = false from hincomplete] at hcomplete
      cases hcomplete
  · rintro saved ⟨⟩

theorem Sound.stirs (h : w.Sound g) (hst : w.Stirs w') : w'.Sound g := by
  cases hst with
  | lands id _ => exact h.lands id
  | journal r hr =>
    obtain ⟨parent, name, hintent⟩ := h.creates
    refine h.recorded ?_ (fun hstate => h.unbegun (hr.begun hstate)) (hr.creates _ _ hintent)
    intro hincomplete
    cases hcomplete : w.record.state.isComplete with
    | false => rfl
    | true => rw [hr.complete hcomplete] at hincomplete; cases hincomplete
  | drive items hitems =>
    exact { h with created := fun id hid =>
      ⟨hitems id (.inl hid) (h.created id hid).1, (h.created id hid).2⟩ }

theorem Sound.reopened (h : w.Sound g) : w.reopened.Sound g := by
  unfold Creation.reopened
  split
  · next hheld =>
    refine h.recorded (fun _ => (idle_of_inFlight hheld).1) ?_ h.creates
    rintro (hstate | hstate) <;> cases hstate
  · exact h

/-- The record of an attempt is replaced by one that was begun. -/
theorem Sound.answered {r : UploadRecord} (h : w.Sound g) (hheld : w.record.state.inFlight = true)
    (hbegun : r.state ≠ .pending ∧ r.state ≠ .preparing)
    (hrequest : Worker.requestOf r = Worker.requestOf w.record) :
    Sound g { w with record := r } := by
  refine h.recorded (fun _ => (idle_of_inFlight hheld).1) ?_ (hrequest ▸ h.creates)
  rintro (hstate | hstate)
  · exact absurd hstate hbegun.1
  · exact absurd hstate hbegun.2

theorem remote_put_none {url range : String} {bytes : Bytes}
    {a : Option (Answer (.send (.put url range bytes)))}
    (h : w.sessions url = none) : w.remote (.send (.put url range bytes)) a w' ↔ w' = w := by
  simp only [Creation.remote, h]

theorem remote_put_some {url range : String} {bytes : Bytes}
    {a : Option (Answer (.send (.put url range bytes)))}
    (h : w.sessions url = some id) :
    w.remote (.send (.put url range bytes)) a w' ↔ w.Sends id w' := by
  simp only [Creation.remote, h]

theorem Sound.remote {r : Ask} {a : Option (Answer r)} (h : w.Sound g)
    (hallowed : allowed g (.remote r) w) (hanswer : w.remote r a w') : w'.Sound g := by
  cases r with
  | file id =>
    have hfile : if missing a then id ∉ w.items ∧ w' = w.finds id else w' = w := hanswer
    split at hfile
    · obtain ⟨hid, rfl⟩ := hfile
      exact h.finds hid
    · rw [hfile]
      exact h
  | send message =>
    cases message with
    | createSession id parent name size =>
      obtain ⟨hheld, saved, hsaved, hid⟩ := hallowed id rfl
      have hsent := h.sent hheld ⟨saved, hsaved, hid⟩
      cases hanswer
      refine { hsent with session := ?_ }
      -- A session that is opened is for the identity the vault has.
      intro saved' hsaved'
      have hfor := h.session saved' hsaved'
      obtain rfl := Option.some.inj (hsaved'.symm.trans hsaved)
      cases saved' with
      | prepared _ _ _ => trivial
      | session _ _ id' url _ _ =>
        intro other hother
        dsimp only at hother
        split at hother
        · exact (Option.some.inj hother).symm.trans hid.symm
        · exact hfor other hother
    | create id parent name =>
      obtain ⟨hheld, hsaved⟩ := hallowed id rfl
      exact h.sends hheld hsaved hanswer
    | put url range bytes =>
      cases hid : w.sessions url with
      | none =>
        rw [(remote_put_none hid).mp hanswer]
        exact h
      | some id =>
        obtain ⟨hheld, hsaved⟩ := hallowed id hid
        exact h.sends hheld hsaved ((remote_put_some hid).mp hanswer)
    | replaceSession _ _ _ | replaceSessionV2 _ _ _ | replaceEmpty _ _ | createFolder _ _ _
    | relocate _ _ _ _ | relocateV2 _ _ _ _ | trash _ _ | trashV2 _ _ =>
      rw [show w' = w from hanswer]
      exact h
  | permit | generateIds | taggedFile _ | v2File _ | list _ _ | download _ _ _ | wait =>
    rw [show w' = w from hanswer]
    exact h

theorem comes_cases {ε α : Type} {a : Except ε α} {ok : α → Prop} {failed : Prop}
    (h : Comes a ok failed) : (∃ x, a = .ok x ∧ ok x) ∨ failed := by
  cases a with
  | ok x => exact .inl ⟨x, rfl, h⟩
  | error e => exact .inr h

theorem Sound.claims {a : Except JournalError (Option UploadRecord)} (h : w.Sound g)
    (hanswer : w.claims a w') : w'.Sound g := by
  rcases comes_cases hanswer with ⟨_ | r, _, hok⟩ | rfl | ⟨hstate, rfl⟩
  · rw [show w' = w from hok]
    exact h
  · obtain ⟨⟨attempt, ⟨hstate, rfl⟩ | ⟨hstate, rfl⟩⟩, rfl⟩ := hok
    · refine h.recorded (fun _ => ?_) (by rintro (heq | heq) <;> cases heq) h.creates
      rw [hstate]
      rfl
    · refine h.recorded (fun _ => ?_) (by rintro (heq | heq) <;> cases heq) h.creates
      rw [hstate]
      rfl
  · exact h
  · exact h.recorded (fun _ => by rw [hstate]; rfl) (by rintro (heq | heq) <;> cases heq) h.creates

theorem not_unbegun_of_stopped {state : UploadState} (h : state.stopped = true) :
    state ≠ .pending ∧ state ≠ .preparing := by
  cases state <;> simp_all [UploadState.stopped]

theorem Sound.answers {r : WorkerAsk Ask} {a : WorkerAnswer Answer r} (h : w.Sound g)
    (hallowed : allowed g r w) (hanswer : answers r w a w') : w'.Sound g := by
  cases r with
  | claim => exact h.claims hanswer
  | load =>
    rcases comes_cases hanswer with ⟨_, _, _, rfl⟩ | rfl
    · exact h
    · exact h
  | save checkpoint =>
    rcases comes_cases hanswer with ⟨_, _, rfl⟩ | rfl | rfl
    · exact h.stored hallowed
    · exact h
    · exact h.stored hallowed
  | remove =>
    rcases comes_cases hanswer with ⟨_, _, rfl⟩ | rfl | rfl
    · exact h.removed hallowed
    · exact h
    · exact h.removed hallowed
  | recordSession attempt transferred =>
    rcases comes_cases hanswer with ⟨_, _, hactive, _, rfl⟩ | rfl
    · exact h.answered hactive.1 ⟨by rintro ⟨⟩, by rintro ⟨⟩⟩ rfl
    · exact h
  | retryUncommitted attempt =>
    rcases comes_cases hanswer with ⟨_, _, hactive, rfl⟩ | rfl | ⟨hactive, retryAt, rfl⟩
    · exact h.recorded (fun _ => (idle_of_inFlight hactive.1).1) (fun _ => hallowed) h.creates
    · exact h
    · exact h.answered hactive.1 ⟨by rintro ⟨⟩, by rintro ⟨⟩⟩ rfl
  | acknowledge attempt node =>
    rcases comes_cases hanswer with ⟨_, _, hactive, _, rfl⟩ | rfl
    · exact h.answered hactive.1 ⟨by rintro ⟨⟩, by rintro ⟨⟩⟩ rfl
    · exact h
  | defer attempt state delay =>
    rcases comes_cases hanswer with ⟨_, _, hactive, hstopped, retryAt, rfl⟩ | rfl
    · exact h.answered hactive.1 (not_unbegun_of_stopped hstopped) rfl
    · exact h
  | cancelled | payload _ _ =>
    rw [show w' = w from hanswer]
    exact h
  | remote r => exact h.remote hallowed hanswer

end Sound

end Creation

/-- A run of the worker for an operation that creates a file. -/
def creation (g : GoogleWriter) : Game (WorkerAsk Ask) (WorkerAnswer Answer) Creation where
  inv := Creation.Sound g
  stirs := Creation.Stirs
  dies w w' := w' = w.reopened
  allowed := Creation.allowed g
  answers := Creation.answers
  inv_stirs := Creation.Sound.stirs
  inv_dies := by
    rintro w w' h rfl
    exact h.reopened
  inv_answers := Creation.Sound.answers

end Cirrove.Google
