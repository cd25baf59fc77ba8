import Cirrove.Journal.Ownership
import Cirrove.Journal.Resending
import Cirrove.Mutation.Worker

/-!
# A lost answer is no reason to send again

The mutation worker over the journal and a provider of which nothing is known, so that each of its
calls is a question. Calls are cut off, other callers use the journal at the same time, and the
process dies at any moment and opens the journal again.

A change that was sent and not looked for since is `unread`. It does not wait in the journal to be
sent at once, whatever others do (`step_follows`), and the worker puts it back only when it has
looked for it and found nothing: so it is never sent again blindly (`resends_looked_for`). With it
goes the identity that was reserved for an operation, which every call for it carries.
-/

namespace Cirrove.Mutation

open Cirrove.Library
open Cirrove.Journal
open Relation (ReflTransGen)

/-! ## The provider -/

/-- A call of a provider. -/
inductive Call where
  | prepare (id : Uuid) (request : MutationRequest)
  | mutate (id : Uuid) (request : MutationRequest) (item : Option String)
  | reconcile (id : Uuid) (request : MutationRequest) (item : Option String)
  deriving DecidableEq, Repr

def CallAnswer : Call → Type
  | .prepare _ _ => Except MutationError (Option String)
  | .mutate _ _ _ => Except MutationError MutationReceipt
  | .reconcile _ _ _ => Except MutationError MutationReconciliation

namespace Call

def operation : Call → Uuid
  | .prepare id _ => id
  | .mutate id _ _ => id
  | .reconcile id _ _ => id

def request : Call → MutationRequest
  | .prepare _ request => request
  | .mutate _ request _ => request
  | .reconcile _ request _ => request

/-- The reserved identity the call carries. -/
def item : Call → Option String
  | .prepare _ _ => none
  | .mutate _ _ item => item
  | .reconcile _ _ item => item

def makesFolder (c : Call) : Prop := ∃ parent name, c.request.intent = .createFolder parent name

end Call

/-- What a call comes to that was cut off. -/
def settled {α : Type} (answer : Option (Except MutationError α)) : Except MutationError α :=
  answer.getD (.error .uncertain)

/-- A provider of which nothing is known. -/
def unknown : MutationProvider Call CallAnswer where
  prepareMutation id request := .ask (.prepare id request) fun answer => .done (settled answer)
  mutate id request item := .ask (.mutate id request item) fun answer => .done (settled answer)
  reconcile id request item :=
    .ask (.reconcile id request item) fun answer => .done (settled answer)

/-- Calls and what came of them, the last one first. -/
abbrev Calls := List ((r : Call) × Option (CallAnswer r))

/-- The change was looked for and not found. -/
def missed : (c : (r : Call) × Option (CallAnswer r)) → Uuid → Prop
  | ⟨.reconcile id _ _, answer⟩, operation => id = operation ∧ answer = some (.ok .uncommitted)
  | _, _ => False

/-- The change was sent. -/
def sends : Call → Uuid → Prop
  | .mutate id _ _, operation => id = operation
  | _, _ => False

/-- The change was sent and was not looked for and missed since. -/
def unread : Calls → Uuid → Prop
  | [], _ => False
  | c :: older, id => sends c.1 id ∨ (unread older id ∧ ¬ missed c id)

/-- All calls about a folder are, and carry the identity that was carried before. -/
def Agrees (calls : Calls) (c : Call) : Prop :=
  c.makesFolder → ∀ older ∈ calls, older.1.operation = c.operation →
    older.1.makesFolder ∧ ∀ item ∈ older.1.item, c.item = some item

/-- No change was sent that was unread, and the calls about a folder agree. -/
def Orderly : Calls → Prop
  | [] => True
  | c :: older => Orderly older ∧ Agrees older c.1 ∧ ∀ id, sends c.1 id → ¬ unread older id

/-! ## The world of the worker -/

structure Served where
  world : World
  calls : Calls

/-- The calls that only the worker makes. -/
def ofWorker : Op → Bool
  | .claimMutation | .recordPreparedMutation _ _ _ | .acknowledgeMutation _ _ _ _ => true
  | .deferMutation _ _ _ _ | .deferMutationPreparation _ _ _ | .retryUncommittedMutation _ _ => true
  | _ => false

/-- The identity of an operation that was handed out is not drawn again. -/
def Undrawn (w : World) (env : Env) : Prop := ∀ n token, (env.uuid n, token) ∉ w.issued

/-- What others do. -/
inductive Stirs (w : World) : World → Prop where
  | call (env : Env) (op : Op) (h : Permitted (fun _ => True) w (.call env op))
      (hdrawn : Undrawn w env) (hop : ofWorker op = false) : Stirs w (step w (.call env op))

/-- The process dies in a call of others, and the journal is opened again. -/
inductive Dies (w : World) : World → Prop where
  | dies (env : Env) (op : Op) (commits : Nat) (openings : List Event) (w' : World)
      (h : Permitted (fun _ => True) w (.die env op commits))
      (hdrawn : Undrawn w env) (hop : ofWorker op = false)
      (hrun : Run step (Permitted fun _ => True) (step w (.die env op commits)) openings w')
      (hopen : ∀ e ∈ openings, e.request = none) : Dies w w'

/-- What the worker is answered by the journal. A call may also end in the middle, as when the
    process dies there. -/
inductive Answers (op : Op) (w : World) : Except JournalError Reply → World → Prop where
  | ends (env : Env) (h : Permitted (fun _ => True) w (.call env op)) (hdrawn : Undrawn w env) :
      Answers op w (exec env op w.journal).result (step w (.call env op))
  | dies (env : Env) (commits : Nat) (h : Permitted (fun _ => True) w (.call env op))
      (hdrawn : Undrawn w env) :
      Answers op w (.error .storage) { step w (.die env op commits) with running := true }

namespace Served

/-- What the worker is answered. -/
def answers : (r : WorkerAsk Call) → Served → WorkerAnswer CallAnswer r → Served → Prop
  | .cancelled, s, _, t => t = s
  | .journal op, s, (answer : Except JournalError Reply), t =>
    ∃ w, Answers op s.world answer w ∧ t = { s with world := w }
  | .remote r, s, answer, t => t = { s with calls := ⟨r, answer⟩ :: s.calls }

/-- This operation has this identity. -/
def Reserved (s : Served) (id : Uuid) (item : String) : Prop :=
  ∀ row, s.world.journal.queue.mutations.get id = some row → row.body.preparedItem = some item

/-- The call carries the identity that the journal has for its operation, and none where it has
    none. -/
def Carries (s : Served) (c : Call) : Prop :=
  ∀ row, s.world.journal.queue.mutations.get c.operation = some row →
    row.body.preparedItem = c.item

/-- If this operation makes a folder now, it was asked to. -/
def Meant (s : Served) (c : Call) : Prop :=
  ∀ row, s.world.journal.queue.mutations.get c.operation = some row → row.body.makesFolder →
    c.makesFolder

/-- A call that may be made. -/
structure Ready (s : Served) (c : Call) : Prop where
  issued : ∃ token, (c.operation, token) ∈ s.world.issued
  meant : s.Meant c
  carries : s.Carries c
  agrees : Agrees s.calls c
  unread : ∀ id, sends c id → ¬ unread s.calls id
  waiting : ∀ id, sends c id → ¬ s.world.journal.queue.WaitingChange id

/-- What may be asked. -/
def allowed : WorkerAsk Call → Served → Prop
  | .cancelled, _ => True
  | .journal op, s => ∀ id, op.returnsChange = some id → ¬ Mutation.unread s.calls id
  | .remote c, s => s.Ready c

structure Sound (s : Served) : Prop where
  journal : Inv (fun _ => True) [] s.world.journal
  issued : ∀ c ∈ s.calls, ∃ token, (c.1.operation, token) ∈ s.world.issued
  /-- What was sent does not wait to be sent at once. -/
  unread : ∀ id, Mutation.unread s.calls id → ¬ s.world.journal.queue.WaitingChange id
  meant : ∀ c ∈ s.calls, s.Meant c.1
  reserved : ∀ c ∈ s.calls, ∀ item ∈ c.1.item, s.Reserved c.1.operation item
  orderly : Orderly s.calls

/-! ## The rules are kept -/

section Sound

variable {s t : Served}

theorem issued_step {w : World} (e : Event) {token : Uuid × Uuid} (h : token ∈ w.issued) :
    token ∈ (step w e).issued := by
  cases e with
  | call env op =>
    show token ∈ (World.learn _ _).issued
    unfold World.learn
    split
    · exact List.mem_append_left _ h
    · exact h
  | die env op commits => exact h
  | start size => exact h
  | startDies size commits => exact h

theorem mem_of_unread {calls : Calls} {id : Uuid} (h : Mutation.unread calls id) :
    ∃ c ∈ calls, c.1.operation = id := by
  induction calls with
  | nil => exact h.elim
  | cons c older ih =>
    rcases h with hsends | ⟨hunread, -⟩
    · refine ⟨c, List.mem_cons_self, ?_⟩
      obtain ⟨r, answer⟩ := c
      cases r with
      | mutate => exact hsends
      | prepare => exact hsends.elim
      | reconcile => exact hsends.elim
    · obtain ⟨c', hc', hid⟩ := ih hunread
      exact ⟨c', List.mem_cons_of_mem _ hc', hid⟩

/-- What an event does to the operations that were handed out. -/
theorem follows_event {e : Event} (hs : s.Sound)
    (hdrawn : ∀ env op, e.request = some (env, op) → Undrawn s.world env) {id : Uuid}
    (hissued : ∃ token, (id, token) ∈ s.world.issued) :
    s.world.journal.queue.Follows e.exempt (step s.world e).journal.queue ∧ ¬ e.exempt.new id := by
  refine ⟨step_follows e hs.journal.tidy.keyed, ?_⟩
  rintro ⟨env, op, hrequest, n, rfl⟩
  obtain ⟨token, htoken⟩ := hissued
  exact hdrawn env op hrequest n token htoken

theorem reserved_event {e : Event} (hs : s.Sound)
    (hdrawn : ∀ env op, e.request = some (env, op) → Undrawn s.world env) {id : Uuid}
    (hissued : ∃ token, (id, token) ∈ s.world.issued) {item : String} (h : s.Reserved id item) :
    Reserved { s with world := step s.world e } id item := by
  obtain ⟨hfollows, hnew⟩ := follows_event hs hdrawn hissued
  intro row' hrow'
  obtain ⟨row, hrow, hafter⟩ := hfollows.mutation id row' hnew hrow'
  exact hafter.keeps (h row hrow)

/-- No identity is reserved for the operation in the event. -/
theorem carries_event {e : Event} (hs : s.Sound)
    (hdrawn : ∀ env op, e.request = some (env, op) → Undrawn s.world env) {c : Call}
    (hissued : ∃ token, (c.operation, token) ∈ s.world.issued)
    (hprepare : ∀ env op, e.request = some (env, op) → op.reservesFor ≠ some c.operation)
    (h : s.Carries c) : Carries { s with world := step s.world e } c := by
  obtain ⟨hfollows, hnew⟩ := follows_event hs hdrawn hissued
  intro row' hrow'
  obtain ⟨row, hrow, hafter⟩ := hfollows.mutation _ row' hnew hrow'
  have hsame : row'.body.preparedItem = row.body.preparedItem := by
    refine hafter.prepared.resolve_right ?_
    rintro ⟨⟨env, op, hrequest, hreserves⟩, -⟩
    exact hprepare env op hrequest hreserves
  rw [hsame, h row hrow]

theorem meant_event {e : Event} (hs : s.Sound)
    (hdrawn : ∀ env op, e.request = some (env, op) → Undrawn s.world env) {c : Call}
    (hissued : ∃ token, (c.operation, token) ∈ s.world.issued) (h : s.Meant c) :
    Meant { s with world := step s.world e } c := by
  obtain ⟨hfollows, hnew⟩ := follows_event hs hdrawn hissued
  intro row' hrow' hmakes
  obtain ⟨row, hrow, hafter⟩ := hfollows.mutation _ row' hnew hrow'
  exact h row hrow (hafter.folder hmakes)

theorem waiting_event {e : Event} (hs : s.Sound)
    (hdrawn : ∀ env op, e.request = some (env, op) → Undrawn s.world env) {id : Uuid}
    (hissued : ∃ token, (id, token) ∈ s.world.issued)
    (hback : ∀ env op, e.request = some (env, op) → op.returnsChange ≠ some id)
    (h : ¬ s.world.journal.queue.WaitingChange id) :
    ¬ (step s.world e).journal.queue.WaitingChange id := by
  obtain ⟨hfollows, hnew⟩ := follows_event hs hdrawn hissued
  intro hwaiting
  refine h (hfollows.waitingChange hnew ?_ hwaiting)
  rintro ⟨env, op, hrequest, hreturns⟩
  exact hback env op hrequest hreturns

/-- An event that puts no change back that is unread. -/
theorem Sound.event {e : Event} (hs : s.Sound) (hpermitted : Permitted (fun _ => True) s.world e)
    (hdrawn : ∀ env op, e.request = some (env, op) → Undrawn s.world env)
    (hback : ∀ env op id, e.request = some (env, op) → op.returnsChange = some id →
      ¬ Mutation.unread s.calls id) :
    Sound { s with world := step s.world e } where
  journal := step_inv hpermitted hs.journal
  issued c hc := by
    obtain ⟨token, htoken⟩ := hs.issued c hc
    exact ⟨token, issued_step e htoken⟩
  unread id hunread := by
    obtain ⟨c, hc, rfl⟩ := mem_of_unread hunread
    exact waiting_event hs hdrawn (hs.issued c hc)
      (fun env op hrequest hreturns => hback env op _ hrequest hreturns hunread)
      (hs.unread _ hunread)
  meant c hc := meant_event hs hdrawn (hs.issued c hc) (hs.meant c hc)
  reserved c hc item hitem :=
    reserved_event hs hdrawn (hs.issued c hc) (hs.reserved c hc item hitem)
  orderly := hs.orderly

/-- The rules are about the journal and the tokens. -/
theorem Sound.running {w : World} {running : Bool} {calls : Calls} (hs : Sound ⟨w, calls⟩) :
    Sound ⟨{ w with running := running }, calls⟩ :=
  ⟨hs.journal, hs.issued, hs.unread, hs.meant, hs.reserved, hs.orderly⟩

theorem returnsChange_of_others {op : Op} {id : Uuid} (h : ofWorker op = false) :
    op.returnsChange ≠ some id := by
  cases op <;> simp_all [ofWorker, Op.returnsChange]

theorem reservesFor_of_others {op : Op} {id : Uuid} (h : ofWorker op = false) :
    op.reservesFor ≠ some id := by
  cases op <;> simp_all [ofWorker, Op.reservesFor]

theorem returnsChange_of_event {env env' : Env} {op op' : Op} {id : Uuid} {e : Event}
    (he : e.request = some (env, op)) (h : ofWorker op = false)
    (hrequest : e.request = some (env', op')) : op'.returnsChange ≠ some id := by
  rw [he] at hrequest
  cases hrequest
  exact returnsChange_of_others h

theorem reservesFor_of_event {env env' : Env} {op op' : Op} {id : Uuid} {e : Event}
    (he : e.request = some (env, op)) (h : ofWorker op = false)
    (hrequest : e.request = some (env', op')) : op'.reservesFor ≠ some id := by
  rw [he] at hrequest
  cases hrequest
  exact reservesFor_of_others h

theorem undrawn_of_event {env : Env} {op : Op} {e : Event} (he : e.request = some (env, op))
    (h : Undrawn s.world env) : ∀ env op, e.request = some (env, op) → Undrawn s.world env := by
  intro env' op' hrequest
  rw [he] at hrequest
  cases hrequest
  exact h

theorem Sound.stirs {w : World} (hs : s.Sound) (h : Stirs s.world w) :
    Sound { s with world := w } := by
  cases h with
  | call env op hpermitted hdrawn hop =>
    exact hs.event hpermitted (undrawn_of_event rfl hdrawn) fun _ _ _ hrequest hreturns =>
      absurd hreturns (returnsChange_of_event rfl hop hrequest)

/-- Opening the journal puts nothing back. -/
theorem Sound.openings {w w' : World} {calls : Calls} {events : List Event} (hs : Sound ⟨w, calls⟩)
    (hrun : Run step (Permitted fun _ => True) w events w')
    (hopen : ∀ e ∈ events, e.request = none) : Sound ⟨w', calls⟩ := by
  induction hrun with
  | start => exact hs
  | @next events v e hrun hpermitted ih =>
    have hv := ih fun e he => hopen e (List.mem_append_left _ he)
    have hnone := hopen e (List.mem_append_right _ List.mem_cons_self)
    refine hv.event (s := ⟨v, calls⟩) hpermitted ?_ ?_
    · intro env op hrequest
      rw [hnone] at hrequest
      cases hrequest
    · intro env op id hrequest
      rw [hnone] at hrequest
      cases hrequest

theorem Sound.dies {w : World} (hs : s.Sound) (h : Dies s.world w) :
    Sound { s with world := w } := by
  cases h with
  | dies env op commits openings w hpermitted hdrawn hop hrun hopen =>
    refine Sound.openings ?_ hrun hopen
    exact hs.event hpermitted (undrawn_of_event rfl hdrawn) fun _ _ _ hrequest hreturns =>
      absurd hreturns (returnsChange_of_event rfl hop hrequest)

theorem Sound.answered {op : Op} {answer : Except JournalError Reply} {w : World} (hs : s.Sound)
    (hallowed : allowed (.journal op) s) (h : Answers op s.world answer w) :
    Sound { s with world := w } := by
  cases h with
  | ends env hpermitted hdrawn =>
    refine hs.event hpermitted (undrawn_of_event rfl hdrawn) ?_
    rintro env' op' id ⟨⟩ hreturns
    exact hallowed id hreturns
  | dies env commits hpermitted hdrawn =>
    refine Sound.running (hs.event (e := .die env op commits) hpermitted
      (undrawn_of_event rfl hdrawn) ?_)
    rintro env' op' id ⟨⟩ hreturns
    exact hallowed id hreturns

theorem Sound.asked {c : Call} {answer : Option (CallAnswer c)} (hs : s.Sound) (h : s.Ready c) :
    Sound { s with calls := ⟨c, answer⟩ :: s.calls } where
  journal := hs.journal
  issued older hc := by
    rcases List.mem_cons.mp hc with rfl | hc
    · exact h.issued
    · exact hs.issued older hc
  unread := by
    rintro id (hsends | ⟨hunread, -⟩)
    · exact h.waiting id hsends
    · exact hs.unread id hunread
  meant older hc := by
    rcases List.mem_cons.mp hc with rfl | hc
    · exact h.meant
    · exact hs.meant older hc
  reserved older hc := by
    rcases List.mem_cons.mp hc with rfl | hc
    · intro item hitem row hrow
      rw [h.carries row hrow]
      exact hitem
    · exact hs.reserved older hc
  orderly := ⟨hs.orderly, h.agrees, h.unread⟩

end Sound

end Served

/-- The worker with the journal and the provider. -/
def serving : Game (WorkerAsk Call) (WorkerAnswer CallAnswer) Served where
  inv := Served.Sound
  stirs s t := ∃ w, Stirs s.world w ∧ t = { s with world := w }
  dies s t := ∃ w, Dies s.world w ∧ t = { s with world := w }
  allowed := Served.allowed
  answers := Served.answers
  inv_stirs := by
    rintro s t hs ⟨w, hst, rfl⟩
    exact hs.stirs hst
  inv_dies := by
    rintro s t hs ⟨w, hst, rfl⟩
    exact hs.dies hst
  inv_answers := by
    intro r s a t hs hallowed hanswer
    cases r with
    | cancelled =>
      cases hanswer
      exact hs
    | journal op =>
      obtain ⟨w, hanswers, rfl⟩ := hanswer
      exact hs.answered hallowed hanswers
    | remote c =>
      cases hanswer
      exact hs.asked hallowed

/-! ## What is known of a change -/

namespace Served

/-- The worker has taken this change. -/
structure Knows (r : MutationRecord) (s : Served) : Prop where
  issued : ∃ token, (r.id, token) ∈ s.world.issued
  meant : s.Meant (.reconcile r.id r.request r.preparedItem)
  carries : s.Carries (.reconcile r.id r.request r.preparedItem)
  agrees : Agrees s.calls (.reconcile r.id r.request r.preparedItem)

/-- It may send it. -/
structure Sendable (r : MutationRecord) (s : Served) : Prop extends Knows r s where
  unread : ¬ Mutation.unread s.calls r.id
  waiting : ¬ s.world.journal.queue.WaitingChange r.id

variable {r : MutationRecord} {s t : Served}

/-- It may look for it. -/
theorem Knows.ready (h : s.Knows r) : s.Ready (.reconcile r.id r.request r.preparedItem) :=
  ⟨h.issued, h.meant, h.carries, h.agrees, fun _ hsends => hsends.elim,
    fun _ hsends => hsends.elim⟩

theorem Knows.ready_prepare (h : s.Knows r) (hnone : r.preparedItem = none) :
    s.Ready (.prepare r.id r.request) := by
  obtain ⟨hissued, hmeant, hcarries, hagrees⟩ := h
  rw [hnone] at hmeant hcarries hagrees
  exact ⟨hissued, hmeant, hcarries, hagrees, fun _ hsends => hsends.elim,
    fun _ hsends => hsends.elim⟩

theorem Sendable.ready (h : s.Sendable r) : s.Ready (.mutate r.id r.request r.preparedItem) where
  issued := h.issued
  meant := h.meant
  carries := h.carries
  agrees := h.agrees
  unread := by
    rintro _ rfl
    exact h.unread
  waiting := by
    rintro _ rfl
    exact h.waiting

theorem Knows.event {e : Event} (h : s.Knows r) (hs : s.Sound)
    (hdrawn : ∀ env op, e.request = some (env, op) → Undrawn s.world env)
    (hprepare : ∀ env op, e.request = some (env, op) → op.reservesFor ≠ some r.id) :
    Knows r { s with world := step s.world e } where
  issued := by
    obtain ⟨token, htoken⟩ := h.issued
    exact ⟨token, issued_step e htoken⟩
  meant := meant_event hs hdrawn h.issued h.meant
  carries := carries_event hs hdrawn h.issued hprepare h.carries
  agrees := h.agrees

theorem Sendable.event {e : Event} (h : s.Sendable r) (hs : s.Sound)
    (hdrawn : ∀ env op, e.request = some (env, op) → Undrawn s.world env)
    (hprepare : ∀ env op, e.request = some (env, op) → op.reservesFor ≠ some r.id)
    (hback : ∀ env op, e.request = some (env, op) → op.returnsChange ≠ some r.id) :
    Sendable r { s with world := step s.world e } :=
  { h.toKnows.event hs hdrawn hprepare with
    unread := h.unread
    waiting := waiting_event hs hdrawn h.issued hback h.waiting }

theorem knows_stable : serving.Stable (Knows r) := by
  rintro s t hs h ⟨w, ⟨env, op, hpermitted, hdrawn, hop⟩, rfl⟩
  exact h.event hs (undrawn_of_event rfl hdrawn) fun _ _ => reservesFor_of_event rfl hop

theorem sendable_stable : serving.Stable (Sendable r) := by
  rintro s t hs h ⟨w, ⟨env, op, hpermitted, hdrawn, hop⟩, rfl⟩
  exact h.event hs (undrawn_of_event rfl hdrawn) (fun _ _ => reservesFor_of_event rfl hop)
    fun _ _ => returnsChange_of_event rfl hop

/-- Others make no calls of the provider. -/
theorem read_stable (id : Uuid) : serving.Stable fun s => ¬ Mutation.unread s.calls id := by
  rintro s t - h ⟨w, -, rfl⟩
  exact h

end Served

namespace Worker

variable {α : Type} {s : Served} {record : MutationRecord} {attempt : Uuid}

abbrev Works (post : α → Served → Prop) (d : Work Call CallAnswer α) (s : Served) : Prop :=
  serving.Tries post (fun _ _ => True) d s

theorem tries_onJournal {op : Op} {K : Served → Prop} (post : Reply → Served → Prop)
    (hK : serving.Stable K) (hs : s.Sound) (h : K s)
    (hback : ∀ t, K t → ∀ id, op.returnsChange = some id → ¬ unread t.calls id)
    (hpost : ∀ t env reply, t.Sound → K t → Permitted (fun _ => True) t.world (.call env op) →
      Undrawn t.world env → (exec env op t.world.journal).result = .ok reply →
      post reply { t with world := step t.world (.call env op) }) :
    Works post (onJournal op) s := by
  unfold onJournal
  have hask : Works (fun answer u => ∀ reply, answer = .ok reply → post reply u)
      (ask (.journal op)) s := by
    refine Game.tries_question hK hs h ?_
    intro t ht hk
    refine ⟨hback t hk, ?_⟩
    rintro answer u ⟨w, hanswers, rfl⟩ - reply rfl
    generalize hreply : (Except.ok reply : Except JournalError Reply) = result at hanswers
    cases hanswers with
    | ends env hpermitted hdrawn => exact hpost t env reply ht hk hpermitted hdrawn hreply.symm
    | dies => cases hreply
  refine hask.bind hs ?_
  intro answer u _ hanswer
  exact (Game.tries_ofExcept fun _ _ => trivial).mono
    (by rintro reply _ ⟨hok, rfl⟩; exact hanswer reply hok) fun _ _ h => h

/-- A call of the provider, or none when the worker was cancelled. -/
theorem tries_remote {r : Call} {f : Option (CallAnswer r) → Except MutationError α}
    {K : Served → Prop} {post : Except MutationError α → Served → Prop} (hK : serving.Stable K)
    (hs : s.Sound) (h : K s) (hallowed : ∀ t, K t → Served.allowed (.remote r) t)
    (hcancelled : ∀ t, K t → post (.error .uncertain) t)
    (hpost : ∀ t answer, K t → post (f answer) { t with calls := ⟨r, answer⟩ :: t.calls }) :
    Works post (remote (.ask r fun answer => .done (f answer))) s := by
  unfold remote
  have hask : Works (fun _ => K) (ask .cancelled) s := by
    refine Game.tries_question hK hs h ?_
    intro t _ hk
    refine ⟨trivial, ?_⟩
    rintro answer u rfl -
    exact hk
  refine hask.bind hs ?_
  intro (cancelled : Bool) t ht hk
  split
  · exact Game.tries_pure (hcancelled t hk)
  · refine Game.tries_lift ht fun u hst hu => ?_
    have hku := hK.stirred ht hk hst
    refine ⟨hallowed u hku, ?_⟩
    rintro answer v rfl -
    exact hpost u answer hku

/-! ## A change -/

/-- The worker holds a change that it may send, or is to look for. -/
structure Holds (r : MutationRecord) (s : Served) : Prop where
  knows : s.Knows r
  sendable : r.state ≠ .verifying → s.Sendable r

theorem holds_stable : serving.Stable (Holds record) := by
  intro s t hs h hst
  exact ⟨Served.knows_stable s t hs h.knows hst,
    fun hstate => Served.sendable_stable s t hs (h.sendable hstate) hst⟩

/-- A reservation that is asked for says nothing about the change. -/
theorem Holds.prepare {answer : Option (CallAnswer _)} (h : Holds record s) :
    Holds record
      { s with calls := ⟨.prepare record.id record.request, answer⟩ :: s.calls } := by
  have hknows : Served.Knows record
      { s with calls := ⟨.prepare record.id record.request, answer⟩ :: s.calls } := by
    refine ⟨h.knows.issued, h.knows.meant, h.knows.carries, ?_⟩
    intro hfolder older hc hid
    rcases List.mem_cons.mp hc with rfl | hc
    · exact ⟨hfolder, by rintro item ⟨⟩⟩
    · exact h.knows.agrees hfolder older hc hid
  refine ⟨hknows, fun hstate => ?_⟩
  obtain ⟨-, hunread, hwaiting⟩ := h.sendable hstate
  refine ⟨hknows, ?_, hwaiting⟩
  rintro (hsends | ⟨hunread', -⟩)
  · exact hsends.elim
  · exact hunread hunread'

/-- An identity that the journal has recorded. -/
theorem Holds.recorded {env : Env} {item : String} {reply : Reply} (hs : s.Sound)
    (h : Holds record s) (hnone : record.preparedItem = none)
    (hdrawn : Undrawn s.world env)
    (hresult : (exec env (.recordPreparedMutation record.id attempt item)
      s.world.journal).result = .ok reply) :
    Holds { record with preparedItem := some item } { s with
      world := step s.world (.call env (.recordPreparedMutation record.id attempt item)) } := by
  have hcommitted : s.world.journal.recordPreparedMutation record.id attempt item =
      .ok (step s.world (.call env (.recordPreparedMutation record.id attempt item))).journal := by
    rw [step_call_journal]
    exact answer_commit hresult
  have hissued : ∃ token, (record.id, token) ∈
      (step s.world (.call env (.recordPreparedMutation record.id attempt item))).issued := by
    obtain ⟨token, htoken⟩ := h.knows.issued
    exact ⟨token, Served.issued_step _ htoken⟩
  have hknows : Served.Knows { record with preparedItem := some item } { s with
      world := step s.world (.call env (.recordPreparedMutation record.id attempt item)) } := by
    have hmeant := Served.meant_event (c := .reconcile record.id record.request record.preparedItem)
      (e := .call env (.recordPreparedMutation record.id attempt item)) hs
      (Served.undrawn_of_event rfl hdrawn) h.knows.issued h.knows.meant
    refine ⟨hissued, hmeant, ?_, ?_⟩
    · intro row hrow
      exact recordPreparedMutation_row hs.journal.tidy.keyed hcommitted hrow
    · -- no call about this folder has carried an identity yet
      intro hfolder older hc hid
      obtain ⟨hmakes, hitems⟩ := h.knows.agrees hfolder older hc hid
      refine ⟨hmakes, fun other hother => ?_⟩
      have hnever := hitems other hother
      rw [show (Call.reconcile record.id record.request record.preparedItem).item =
        none from hnone] at hnever
      cases hnever
  refine ⟨hknows, fun hstate => ⟨hknows, (h.sendable hstate).unread, ?_⟩⟩
  exact Served.waiting_event (e := .call env (.recordPreparedMutation record.id attempt item)) hs
    (Served.undrawn_of_event rfl hdrawn) h.knows.issued (by rintro env' op' ⟨⟩ ⟨⟩)
    (h.sendable hstate).waiting

theorem works_prepared (hs : s.Sound) (h : Holds record s) :
    Works (fun result t => ∀ r, result = .ok r → Holds r t ∧ r.id = record.id)
      (prepared unknown record attempt) s := by
  unfold prepared
  split
  · next hfresh =>
    have happlying : record.state ≠ .verifying := by
      rw [hfresh.1]
      decide
    have hremote : Works (fun _ => Holds record)
        (remote (unknown.prepareMutation record.id record.request)) s :=
      tries_remote holds_stable hs h
        (fun t ht => ht.knows.ready_prepare (Option.isNone_iff_eq_none.mp hfresh.2))
        (fun _ ht => ht) fun _ _ ht => ht.prepare
    refine hremote.bind hs ?_
    rintro (e | _ | item) t ht hholds
    · -- nothing was sent, so that the change may go back
      have hback : ∀ u, Holds record u → ∀ id, record.id = id → ¬ unread u.calls id := by
        rintro u hu id rfl
        exact (hu.sendable happlying).unread
      dsimp only
      split
      · refine (tries_onJournal (fun _ _ => True) holds_stable ht hholds ?_ ?_).bind ht ?_
        · rintro u - id ⟨⟩
        · intros
          trivial
        · intro _ u _ _
          exact Game.tries_pure fun r hr => by cases hr
      · refine (tries_onJournal (fun _ _ => True) holds_stable ht hholds ?_ ?_).bind ht ?_
        · rintro u hu id hid
          exact hback u hu id (Option.some.inj hid)
        · intros
          trivial
        · intro _ u _ _
          exact Game.tries_pure fun r hr => by cases hr
    · refine Game.tries_pure ?_
      rintro r ⟨⟩
      exact ⟨hholds, rfl⟩
    · refine (tries_onJournal (fun _ => Holds { record with preparedItem := some item })
        holds_stable ht hholds ?_ ?_).bind ht ?_
      · rintro u - id ⟨⟩
      · intro u env reply hu hk _ hdrawn hresult
        exact hk.recorded hu (Option.isNone_iff_eq_none.mp hfresh.2) hdrawn hresult
      · intro _ u _ hu
        refine Game.tries_pure ?_
        rintro r ⟨⟩
        exact ⟨hu, rfl⟩
  · refine Game.tries_pure ?_
    rintro r ⟨⟩
    exact ⟨h, rfl⟩

/-- A change that was missed is not unread. -/
theorem works_sent (hs : s.Sound) (h : Holds record s) :
    Works (fun result t => result = .ok .uncommitted → ¬ unread t.calls record.id)
      (sent unknown record) s := by
  unfold sent
  split
  · refine tries_remote holds_stable hs h ?_ ?_ ?_
    · exact fun t ht => ht.knows.ready
    · rintro t - ⟨⟩
    · rintro t answer - hmissed (hsends | ⟨-, hnot⟩)
      · exact hsends.elim
      · refine hnot ⟨rfl, ?_⟩
        cases answer with
        | none => cases hmissed
        | some result => exact congrArg some hmissed
  · next hstate =>
    have hremote : Works (fun _ _ => True)
        (remote (unknown.mutate record.id record.request record.preparedItem)) s := by
      exact tries_remote holds_stable hs h (fun t ht => (ht.sendable hstate).ready)
        (fun _ _ => trivial) fun _ _ _ => trivial
    refine hremote.bind hs ?_
    rintro (e | receipt) t ht -
    · refine Game.tries_pure ?_
      rintro ⟨⟩
    · refine Game.tries_pure ?_
      rintro ⟨⟩

theorem works_reported {result : Except MutationError MutationReconciliation} (hs : s.Sound)
    (h : result = .ok .uncommitted → ¬ unread s.calls record.id) :
    Works (fun _ _ => True) (reported record attempt result) s := by
  have htrivial : serving.Stable fun _ => True := fun _ _ _ _ _ => trivial
  have hreport : ∀ {op : Op} {β : Type} {f : Reply → Work Call CallAnswer β},
      op.returnsChange = none → (∀ reply t, t.Sound → Works (fun _ _ => True) (f reply) t) →
        Works (fun _ _ => True) (onJournal op >>= f) s := by
    intro op β f hop hf
    refine (tries_onJournal (fun _ _ => True) htrivial hs trivial ?_ ?_).bind hs ?_
    · rintro t - id hid
      rw [hop] at hid
      cases hid
    · intros
      trivial
    · exact fun reply t ht _ => hf reply t ht
  have hacknowledged : ∀ reply t, t.Sound →
      Works (fun _ _ => True) (acknowledged reply) t := by
    intro reply t _
    unfold acknowledged
    split
    · exact Game.tries_pure trivial
    · exact Game.tries_throw trivial
  unfold reported
  split
  · exact hreport rfl hacknowledged
  · exact hreport rfl hacknowledged
  · refine (tries_onJournal (fun _ _ => True) (Served.read_stable record.id) hs (h rfl)
      ?_ ?_).bind hs ?_
    · rintro t ht id ⟨⟩
      exact ht
    · intros
      trivial
    · exact fun _ t _ _ => Game.tries_pure trivial
  · exact hreport rfl fun _ _ _ => Game.tries_pure trivial
  · exact hreport rfl fun _ _ _ => Game.tries_pure trivial
  · exact hreport rfl fun _ _ _ => Game.tries_pure trivial

theorem works_carried (hs : s.Sound) (h : Holds record s) :
    Works (fun _ _ => True) (carried unknown record attempt) s := by
  unfold carried
  refine (works_prepared hs h).bind hs ?_
  rintro (state | r) t ht hprepared
  · exact Game.tries_pure trivial
  · obtain ⟨hholds, hid⟩ := hprepared r rfl
    refine (works_sent ht hholds).bind ht ?_
    intro result u hu hread
    exact works_reported hu (hid ▸ hread)

/-- What a claim hands out. -/
theorem Holds.claimed {env : Env} {r : MutationRecord} (hs : s.Sound)
    (hpermitted : Permitted (fun _ => True) s.world (.call env .claimMutation))
    (hdrawn : Undrawn s.world env)
    (hresult : (exec env .claimMutation s.world.journal).result =
      .ok (.claimed (some (.mutation r)))) :
    Holds r { s with world := step s.world (.call env .claimMutation) } := by
  have hnext : Served.Sound { s with world := step s.world (.call env .claimMutation) } :=
    hs.event hpermitted (Served.undrawn_of_event rfl hdrawn) (by rintro env' op' id ⟨⟩ ⟨⟩)
  obtain ⟨hhanded, -⟩ := answered_of_call hpermitted hs.journal (.mutation r) (by rw [hresult]; rfl)
  obtain ⟨row, hrow, hbody⟩ := Queue.find_row_mutation hhanded.claimable.stored
  have hissued : (r.id, env.uuid 0) ∈ (step s.world (.call env .claimMutation)).issued := by
    show _ ∈ (World.learn _ _).issued
    rw [hresult]
    refine List.mem_append_right _ ?_
    have htoken : r.attempt = some (env.uuid 0) := hhanded.attempt
    show _ ∈ r.attempt.toList.map (r.id, ·)
    rw [htoken]
    exact List.mem_singleton.mpr rfl
  have hknows : Served.Knows r { s with world := step s.world (.call env .claimMutation) } := by
    refine ⟨⟨_, hissued⟩, ?_, ?_, ?_⟩
    · intro found hfound hmakes
      rw [show found = row from Option.some.inj (hfound.symm.trans hrow), hbody] at hmakes
      exact hmakes
    · intro found hfound
      rw [show found = row from Option.some.inj (hfound.symm.trans hrow), hbody]
      rfl
    · intro hfolder older hc hid
      have hmakes : row.body.makesFolder := hbody ▸ hfolder
      refine ⟨?_, fun other hother => ?_⟩
      · have hmeant := hnext.meant older hc
        rw [Served.Meant, hid] at hmeant
        exact hmeant row hrow hmakes
      · have hreserved := hnext.reserved older hc other hother
        rw [hid] at hreserved
        have hitem := hreserved row hrow
        rwa [hbody] at hitem
  refine ⟨hknows, fun hstate => ?_⟩
  have happlying : r.state = .applying := by
    have hflight : r.state.inFlight = true := hhanded.flight
    cases hr : r.state <;> simp_all [MutationState.inFlight]
  refine ⟨hknows, ?_, ?_⟩
  · intro hunread
    exact hs.unread r.id hunread (claimMutation_waiting hs.journal.tidy.keyed hresult happlying)
  · rintro ⟨found, hfound, hpending⟩
    rw [show found = row from Option.some.inj (hfound.symm.trans hrow), hbody,
      happlying] at hpending
    cases hpending

theorem claimed_eq_some {reply : Reply} {r : MutationRecord} (h : claimed reply = some r) :
    reply = .claimed (some (.mutation r)) := by
  unfold claimed at h
  split at h
  · cases h
    rfl
  · cases h

/-- The worker keeps to the rules, from whatever state it takes a change. -/
theorem runOnce_keeps (hs : s.Sound) : Works (fun _ _ => True) (runOnce unknown) s := by
  unfold runOnce
  have htrivial : serving.Stable fun _ => True := fun _ _ _ _ _ => trivial
  have hcancelled : Works (fun _ _ => True) (ask .cancelled) s :=
    Game.tries_question htrivial hs trivial fun _ _ _ => ⟨trivial, fun _ _ _ _ => trivial⟩
  refine hcancelled.bind hs ?_
  intro (cancelled : Bool) t ht _
  split
  · exact Game.tries_pure trivial
  have hclaim : Works (fun reply u => ∀ r, claimed reply = some r → Holds r u)
      (onJournal .claimMutation) t := by
    refine tries_onJournal _ htrivial ht trivial ?_ ?_
    · rintro u - id ⟨⟩
    · intro u env reply hu _ hpermitted hdrawn hresult r hr
      rw [claimed_eq_some hr] at hresult
      exact .claimed hu hpermitted hdrawn hresult
  refine hclaim.bind ht ?_
  intro reply u hu hholds
  split
  · exact Game.tries_pure trivial
  · next record hrecord =>
    split
    · exact Game.tries_throw trivial
    · refine (works_carried hu (hholds record hrecord)).bind hu ?_
      intro _ v _ _
      exact Game.tries_pure trivial

end Worker

/-! ## Every run -/

/-- A new journal, opened. -/
def Served.create (settings : Settings) : Served := ⟨World.create settings, []⟩

theorem Served.Sound.create (settings : Settings) : (Served.create settings).Sound where
  journal := Inv.create settings
  issued _ hc := by cases hc
  unread _ hunread := hunread.elim
  meant _ hc := by cases hc
  reserved _ hc := by cases hc
  orderly := trivial

/-- A change that was sent and is not unread was missed since. -/
theorem missed_of_unread {newer : Calls} (older : Calls)
    {c : (r : Call) × Option (CallAnswer r)} {id : Uuid} (hsent : sends c.1 id)
    (h : ¬ unread (newer ++ c :: older) id) :
    ∃ c' ∈ newer, missed c' id := by
  induction newer with
  | nil => exact absurd (.inl hsent) h
  | cons c' newer ih =>
    by_cases hunread : unread (newer ++ c :: older) id
    · refine ⟨c', List.mem_cons_self, ?_⟩
      by_contra hmissed
      exact h (.inr ⟨hunread, hmissed⟩)
    · obtain ⟨c'', hc'', hmissed⟩ := ih hunread
      exact ⟨c'', List.mem_cons_of_mem _ hc'', hmissed⟩

/-- A change that was sent and never missed is unread. -/
theorem unread_of_never {calls : Calls} {c : (r : Call) × Option (CallAnswer r)} {id : Uuid}
    (hc : c ∈ calls) (hsent : sends c.1 id) (hnever : ∀ c ∈ calls, ¬ missed c id) :
    unread calls id := by
  induction calls with
  | nil => cases hc
  | cons newest older ih =>
    rcases List.mem_cons.mp hc with rfl | hc
    · exact .inl hsent
    · exact .inr ⟨ih hc fun c hc => hnever c (List.mem_cons_of_mem _ hc),
        hnever newest List.mem_cons_self⟩

/-- The change was sent to make a folder. -/
def Call.creates (id : Uuid) : Call → Bool
  | .mutate operation request _ => operation = id && request.intent.before.isNone
  | _ => false

theorem Call.creates_iff {c : Call} {id : Uuid} :
    c.creates id = true ↔ sends c id ∧ c.makesFolder := by
  cases c with
  | mutate operation request item =>
    have hnone : request.intent.before = none ↔
        ∃ parent name, request.intent = .createFolder parent name := by
      cases request.intent <;> simp [MutationIntent.before]
    simp only [Call.creates, Bool.and_eq_true, decide_eq_true_eq, Option.isNone_iff_eq_none,
      hnone, sends, Call.makesFolder, Call.request]
  | prepare | reconcile => exact ⟨fun h => absurd h Bool.false_ne_true, fun h => h.1.elim⟩

theorem operation_of_sends {c : Call} {id : Uuid} (h : sends c id) : c.operation = id := by
  cases c with
  | mutate => exact h
  | prepare | reconcile => exact h.elim

theorem operation_of_missed {c : (r : Call) × Option (CallAnswer r)} {id : Uuid}
    (h : missed c id) : c.1.operation = id := by
  obtain ⟨c, answer⟩ := c
  cases c with
  | reconcile => exact h.1
  | prepare | mutate => exact h.elim

/-- The calls about a folder carry one identity. -/
theorem Orderly.item_agrees {calls : Calls} {a b : String} (h : Orderly calls)
    {c c' : (r : Call) × Option (CallAnswer r)} (hc : c ∈ calls) (hc' : c' ∈ calls)
    (hid : c.1.operation = c'.1.operation) (hmakes : c.1.makesFolder) (hmakes' : c'.1.makesFolder)
    (hitem : c.1.item = some a) (hitem' : c'.1.item = some b) : a = b := by
  induction calls with
  | nil => cases hc
  | cons last older ih =>
    obtain ⟨horderly, hagrees, -⟩ := h
    rcases List.mem_cons.mp hc with rfl | hold
    · rcases List.mem_cons.mp hc' with rfl | hold'
      · exact Option.some.inj (hitem.symm.trans hitem')
      · have hb := (hagrees hmakes c' hold' hid.symm).2 b hitem'
        exact Option.some.inj (hitem.symm.trans hb)
    · rcases List.mem_cons.mp hc' with rfl | hold'
      · have ha := (hagrees hmakes' c hold hid).2 a hitem
        exact Option.some.inj (ha.symm.trans hitem')
      · exact ih horderly hold hold'


/-- A folder that is never missed is sent once. -/
theorem Orderly.folder_once {calls : Calls} {id : Uuid} (h : Orderly calls)
    (hnever : ∀ c ∈ calls, c.1.makesFolder → ¬ missed c id) :
    calls.countP (fun c => c.1.creates id) ≤ 1 := by
  induction calls with
  | nil => exact Nat.zero_le 1
  | cons c older ih =>
    obtain ⟨horderly, hagrees, hsends⟩ := h
    have holder := ih horderly fun c hc => hnever c (List.mem_cons_of_mem _ hc)
    rw [List.countP_cons]
    split
    · next hcreates =>
      obtain ⟨hsent, hmakes⟩ := Call.creates_iff.mp hcreates
      -- all calls before this one were about a folder as well
      have hfolders : ∀ c' ∈ older, c'.1.operation = id → c'.1.makesFolder := fun c' hc' hid =>
        (hagrees hmakes c' hc' (hid.trans (operation_of_sends hsent).symm)).1
      have hnone : older.countP (fun c => c.1.creates id) = 0 := by
        refine List.countP_eq_zero.mpr fun c' hc' hcreates' => hsends id hsent ?_
        refine unread_of_never hc' (Call.creates_iff.mp hcreates').1 fun c'' hc'' hmissed => ?_
        exact hnever c'' (List.mem_cons_of_mem _ hc'')
          (hfolders c'' hc'' (operation_of_missed hmissed)) hmissed
      rw [hnone]
    · exact holder

/-- The work of a run of the worker. -/
abbrev Running := Dialogue (WorkerAsk Call) (WorkerAnswer CallAnswer)
  (Except JournalError (Option (Uuid × MutationState)))

/-- In every run, whatever is lost, cut off or begun again and whoever else uses the journal: a
    change is sent again only when it was looked for and missed since it was sent last; every call
    carries the identity that the journal has for its operation, and all calls about a folder agree
    on it. -/
theorem resends_looked_for {settings : Settings} {s : Served} {work : Option Running}
    {log : List ((r : WorkerAsk Call) × WorkerAnswer CallAnswer r)}
    (h : serving.Reaches (Worker.runOnce unknown).run (.create settings) log s work) :
    (∀ id request item next, work = some (.ask (.remote (.mutate id request item)) next) →
      ∀ newer c older, s.calls = newer ++ c :: older → sends c.1 id → ∃ c' ∈ newer, missed c' id) ∧
    ∀ call next, work = some (.ask (.remote call) next) →
      s.Carries call ∧ Agrees s.calls call := by
  have hworks : ∀ s, s.Sound → Worker.Works (fun _ _ => True) (Worker.runOnce unknown) s :=
    fun _ => Worker.runOnce_keeps
  obtain ⟨hs, hkeeps⟩ := h.keeps (Served.Sound.create settings) hworks fun result _ _ _ _ _ => by
    cases result <;> trivial
  refine ⟨?_, ?_⟩
  · rintro id request item next rfl newer c older hcalls hsent
    have hready : s.Ready (.mutate id request item) := (hkeeps _ rfl s .refl hs).1
    refine missed_of_unread older hsent ?_
    rw [← hcalls]
    exact hready.unread id rfl
  · rintro call next rfl
    have hready : s.Ready call := (hkeeps _ rfl s .refl hs).1
    exact ⟨hready.carries, hready.agrees⟩

/-! ## A folder whose answer is lost -/

section Sample

/-- The surroundings of a call that is made after a while. -/
def later (n : Nat) : Env := { Env.numbered n with now := 10 }

def sampleRequest : MutationRequest := ⟨sampleDrive, .createFolder "root" "letters"⟩

/-- What the worker and others call, up to the second time the folder is sent. -/
def sampleCalls : List (Env × Op) :=
  [(.numbered 1, .enqueueMutation sampleRequest), (.numbered 11, .claimMutation),
    (.numbered 21, .recordPreparedMutation ⟨1⟩ ⟨11⟩ "a"),
    (.numbered 31, .deferMutation ⟨1⟩ ⟨11⟩ .verifyRequired 2), (later 41, .claimMutation),
    (later 51, .retryUncommittedMutation ⟨1⟩ ⟨41⟩), (later 61, .claimMutation)]

/-- The world after so many of these calls. -/
def sampleWorld (n : Nat) : World :=
  ((sampleCalls.take n).map fun call => Event.call call.1 call.2).foldl step (World.create .sample)

def sampleChange (state : MutationState) (attempt : Option Uuid) (retryAt failedAttempts : Nat)
    (preparedItem : Option String) : MutationRecord :=
  { MutationRecord.new ⟨1⟩ 1 sampleRequest none none true with
    state := state
    attempt := attempt
    retryAt := retryAt
    failedAttempts := failedAttempts
    preparedItem := preparedItem }

/-- The call can be made. -/
def callable (w : World) (first : Nat) (op : Op) : Bool :=
  w.running && w.below first && w.issued.all (fun token => token.1.value < first) &&
    op.parent.all foreign && op.captured.all (fun entry => !Journal.isLocalDirectory entry.2.id)

def sampleReady (n first : Nat) (op : Op) : Bool := callable (sampleWorld n) first op

theorem permitted_of_ready {w : World} {first : Nat} (env : Env) {op : Op}
    (henv : env.uuid = (Env.numbered first).uuid) (h : callable w first op = true) :
    Permitted (fun _ => True) w (.call env op) ∧ Undrawn w env := by
  unfold callable at h
  simp only [Bool.and_eq_true] at h
  obtain ⟨⟨⟨⟨hrunning, hbelow⟩, hissued⟩, hparent⟩, hcaptured⟩ := h
  have hfresh : Fresh w (.numbered first) op := World.fresh_of_below hbelow hparent hcaptured
  refine ⟨⟨hrunning, ?_, fun _ _ => trivial⟩, ?_⟩
  · constructor
    · rw [henv]
      exact hfresh.injective
    · rw [henv]
      exact hfresh.unused
    · rw [henv]
      exact hfresh.unissued
    · rw [henv]
      exact hfresh.parent
    · exact hfresh.captured
  · intro i token hmem
    rw [henv] at hmem
    have hlt := of_decide_eq_true (List.all_eq_true.mp hissued _ hmem)
    exact absurd hlt (Nat.not_lt.mpr (Nat.le_add_right first i))

abbrev Sampled (log : List ((r : WorkerAsk Call) × WorkerAnswer CallAnswer r)) (s : Served)
    (work : Option Running) : Prop :=
  serving.Reaches (Worker.runOnce unknown).run (.create .sample) log s work

theorem sampled_next {log : List ((r : WorkerAsk Call) × WorkerAnswer CallAnswer r)} {s : Served}
    {r : WorkerAsk Call} {next : WorkerAnswer CallAnswer r → Running}
    (h : Sampled log s (some (.ask r next))) (a : WorkerAnswer CallAnswer r) (t : Served)
    (ha : serving.answers r s a t) : Sampled (⟨r, a⟩ :: log) t (some (next a)) := h.answers ha

theorem sampled_call (first : Nat) {n : Nat} {env : Env} {op : Op} {calls : Calls}
    {log : List ((r : WorkerAsk Call) × WorkerAnswer CallAnswer r)}
    {next : Except JournalError Reply → Running}
    (h : Sampled log ⟨sampleWorld n, calls⟩ (some (.ask (.journal op) next)))
    (hcall : sampleCalls[n]? = some (env, op)) (henv : env.uuid = (Env.numbered first).uuid)
    (hready : sampleReady n first op = true) (reply : Reply)
    (hresult : (exec env op (sampleWorld n).journal).result = .ok reply) :
    Sampled (⟨.journal op, Except.ok reply⟩ :: log) ⟨sampleWorld (n + 1), calls⟩
      (some (next (.ok reply))) := by
  obtain ⟨hpermitted, hdrawn⟩ := permitted_of_ready env henv hready
  have hworld : sampleWorld (n + 1) = step (sampleWorld n) (.call env op) := by
    unfold sampleWorld
    rw [List.take_add_one, hcall]
    simp
  have hanswers : Answers op (sampleWorld n) (Except.ok reply) (sampleWorld (n + 1)) := by
    rw [hworld, ← hresult]
    exact .ends env hpermitted hdrawn
  exact sampled_next h (Except.ok reply) _ ⟨_, hanswers, rfl⟩

/-- The folder is sent, and the answer is lost; it is looked for and missed. -/
def sampleAnswers : Calls :=
  [⟨.reconcile ⟨1⟩ sampleRequest (some "a"), some (Except.ok .uncommitted)⟩,
    ⟨.mutate ⟨1⟩ sampleRequest (some "a"), none⟩,
    ⟨.prepare ⟨1⟩ sampleRequest, some (Except.ok (some "a"))⟩]

theorem sampled_again : ∃ log next, Sampled log ⟨sampleWorld 7, sampleAnswers⟩
    (some (.ask (.remote (.mutate ⟨1⟩ sampleRequest (some "a"))) next)) := by
  have hqueued : Sampled [] ⟨sampleWorld 1, []⟩ none := by
    have hready : sampleReady 0 1 (.enqueueMutation sampleRequest) = true := by decide +kernel
    obtain ⟨hpermitted, hdrawn⟩ := permitted_of_ready (.numbered 1) rfl hready
    exact .stirs .start ⟨_, Stirs.call (w := World.create .sample) (.numbered 1)
      (.enqueueMutation sampleRequest) hpermitted hdrawn rfl, rfl⟩
  have h : Sampled _ _ _ := .begins hqueued
  have h := sampled_next h false ⟨sampleWorld 1, []⟩ rfl
  have h := sampled_call 11 h rfl rfl (by decide +kernel)
    (.claimed (some (.mutation (sampleChange .applying (some ⟨11⟩) 0 0 none)))) (by decide +kernel)
  have h := sampled_next h false ⟨sampleWorld 2, []⟩ rfl
  have h := sampled_next h (some (Except.ok (some "a"))) _ rfl
  have h := sampled_call 21 h rfl rfl (by decide +kernel) .done (by decide +kernel)
  have h := sampled_next h false ⟨sampleWorld 3, _⟩ rfl
  have h := sampled_next h none _ rfl
  have h := sampled_call 31 h rfl rfl (by decide +kernel) .done (by decide +kernel)
  have h : Sampled _ _ _ := .begins (.ends h)
  have h := sampled_next h false ⟨sampleWorld 4, _⟩ rfl
  have h := sampled_call 41 h rfl rfl (by decide +kernel)
    (.claimed (some (.mutation (sampleChange .verifying (some ⟨41⟩) 2 1 (some "a")))))
    (by decide +kernel)
  have h := sampled_next h false ⟨sampleWorld 5, _⟩ rfl
  have h := sampled_next h (some (Except.ok .uncommitted)) _ rfl
  have h := sampled_call 51 h rfl rfl (by decide +kernel) .done (by decide +kernel)
  have h : Sampled _ _ _ := .begins (.ends h)
  have h := sampled_next h false ⟨sampleWorld 6, _⟩ rfl
  have h := sampled_call 61 h rfl rfl (by decide +kernel)
    (.claimed (some (.mutation (sampleChange .applying (some ⟨61⟩) 0 1 (some "a")))))
    (by decide +kernel)
  have h := sampled_next h false ⟨sampleWorld 7, _⟩ rfl
  exact ⟨_, _, h⟩

/-- It is sent again with the identity in its row. -/
theorem resends_sampled : (∃ c ∈ sampleAnswers.take 1, missed c ⟨1⟩) ∧
    ∃ row, (sampleWorld 7).journal.queue.mutations.get ⟨1⟩ = some row ∧
      row.body.preparedItem = some "a" := by
  obtain ⟨log, next, h⟩ := sampled_again
  obtain ⟨hmissed, hcarried⟩ := resends_looked_for h
  have hthere : ((sampleWorld 7).journal.queue.mutations.get ⟨1⟩).isSome = true := by
    decide +kernel
  obtain ⟨row, hrow⟩ := Option.isSome_iff_exists.mp hthere
  exact ⟨hmissed _ _ _ _ rfl _ _ _ rfl rfl, row, hrow, (hcarried _ _ rfl).1 row hrow⟩

end Sample

end Cirrove.Mutation
