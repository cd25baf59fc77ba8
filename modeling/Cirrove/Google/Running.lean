import Cirrove.Google.Attempts

/-!
# A create makes one item

Every run of the worker keeps to the rules (`runOnce_keeps`), so that in every run the operation has
created one item at most, every creating request has the identity of the checkpoint the vault has,
and no identity is reserved while one is unread (`creates_once`).
-/

namespace Cirrove.Google

open Cirrove.Library
open Cirrove.Upload
open Cirrove.Journal (UploadIntent UploadRecord UploadState JournalError Uuid)

section Worker

variable {g : GoogleWriter} {w : Creation} {record : UploadRecord} {attempt : Uuid}
  {parent name : String} {α : Type} {K : Creation → Prop}

/-- What the worker knows when a step of its own fails is not used. -/
abbrev Works (g : GoogleWriter) (ok : α → Creation → Prop) (work : Worker.Work Ask Answer α)
    (w : Creation) : Prop :=
  (creation g).Tries ok (fun _ _ => True) work w

theorem works_refuseIf {fails : TransferError → Creation → Prop} {c : Prop} [Decidable c]
    {e : TransferError} (h : c → fails e w) :
    (creation g).Tries (fun _ t => ¬c ∧ t = w) fails (Worker.refuseIf c e) w := by
  unfold Worker.refuseIf
  split
  · next hc => exact Game.tries_throw (h hc)
  · next hc => exact Game.tries_pure ⟨hc, rfl⟩

/-- Asked for this, nothing changes. -/
theorem tries_cancelled {fails : TransferError → Creation → Prop} (hK : (creation g).Stable K)
    (hs : w.Sound g) (hw : K w) :
    (creation g).Tries (fun _ => K) fails (Worker.ask .cancelled) w := by
  refine Game.tries_question hK hs hw ?_
  intro t _ hKt
  refine ⟨trivial, ?_⟩
  rintro a u hanswer -
  rw [show u = t from hanswer]
  exact hKt

theorem works_payload {offset length : Nat} (hK : (creation g).Stable K) (hs : w.Sound g)
    (hw : K w) : Works g (fun _ => K) (Worker.ask (.payload offset length)) w := by
  refine Game.tries_question hK hs hw ?_
  intro t _ hKt
  refine ⟨trivial, ?_⟩
  rintro a u hanswer -
  rw [show u = t from hanswer]
  exact hKt

/-- A call of the provider keeps what is known; where it succeeds, more is. -/
theorem tries_remote {ok : α → Creation → Prop}
    {call : Dialogue Ask (fun r => Option (Answer r)) (Except UploadError α)}
    (hK : (creation g).Stable K) (hs : w.Sound g) (hw : K w)
    (hcall : ∀ t, t.Sound g → K t → Provides g K ok t call) :
    (creation g).Tries (fun a t => K t ∧ ok a t) (fun _ => K) (Worker.remote call) w := by
  unfold Worker.remote
  refine (tries_cancelled hK hs hw).bind hs ?_
  intro (cancelled : Bool) t ht hKt
  refine (works_refuseIf fun _ => hKt).bind ht ?_
  rintro _ t ht ⟨-, rfl⟩
  have hremote := Game.keeps_within (hcall t ht hKt)
  refine (Game.tries_lift ht hremote).bind ht ?_
  intro result u hu hresult
  cases result with
  | ok a => exact hresult
  | error e => exact hresult

theorem Creation.Continues.of_local {w' : Creation} {checkpoint : String}
    (h : w.Continues g checkpoint) (hunread : w'.unread = w.unread)
    (hsessions : w'.sessions = w.sessions) : w'.Continues g checkpoint := by
  obtain ⟨saved, hread, hsame, hsession⟩ := h
  refine ⟨saved, hread, by rw [hunread]; exact hsame, ?_⟩
  cases saved with
  | prepared _ _ _ => trivial
  | session _ _ id url _ _ =>
    intro other hother
    rw [hsessions] at hother
    exact hsession other hother

theorem ready_stable (step : UploadStep) :
    (creation g).Stable fun w => w.record.state.inFlight = true ∧ w.Ready g step := by
  intro w w' _ hw hst
  obtain ⟨_, hunread, hsessions⟩ := Creation.stirs_local hst
  refine ⟨Creation.stirs_inFlight hst hw.1, ?_⟩
  cases step with
  | prepared checkpoint => exact Creation.Continues.of_local hw.2 hunread hsessions
  | «continue» checkpoint _ _ => exact Creation.Continues.of_local hw.2 hunread hsessions
  | commit checkpoint => exact hw.2
  | complete node => trivial

/-- A checkpoint is stored and its reference recorded. -/
theorem works_checkpoint {checkpoint : String} {offset : Nat} (hs : w.Sound g)
    (hw : w.record.state.inFlight = true) (hcontinues : w.Continues g checkpoint) :
    Works g (fun _ => Creation.Holding (some checkpoint))
      (Worker.checkpoint attempt checkpoint offset) w := by
  unfold Worker.checkpoint
  have hsave : Works g (fun a t => ∀ u, a = .ok u → t.Holding (some checkpoint))
      (Worker.ask (.save checkpoint)) w := by
    refine Game.tries_question (ready_stable (.prepared checkpoint)) hs ⟨hw, hcontinues⟩ ?_
    rintro t _ ⟨hheld, hcontinues⟩
    refine ⟨hcontinues, ?_⟩
    rintro a u hanswer - _ rfl
    rw [show u = { t with vault := some checkpoint } from hanswer]
    exact ⟨hheld, rfl⟩
  refine hsave.bind hs ?_
  intro saved t ht hsaved
  refine (Game.tries_ofExcept fun _ _ => trivial).bind ht ?_
  rintro _ u hu ⟨rfl, rfl⟩
  have hrecord : Works g (fun a v => ∀ x, a = .ok x → v.Holding (some checkpoint))
      (Worker.ask (.recordSession attempt offset)) u := by
    refine Game.tries_question Creation.holding_stable hu (hsaved _ rfl) ?_
    intro v _ hold
    refine ⟨trivial, ?_⟩
    rintro a x hanswer - _ rfl
    obtain ⟨_, _, rfl⟩ := hanswer
    exact ⟨rfl, hold.2⟩
  refine hrecord.bind hu ?_
  intro recorded v hv hrecorded
  refine (Game.tries_ofExcept fun _ _ => trivial).mono ?_ fun _ _ h => h
  rintro _ x ⟨hok, rfl⟩
  cases recorded with
  | ok x => exact hrecorded x rfl
  | error e => cases hok

/-! ## The steps of a run -/

/-- Nothing is missing that was created: the checkpoint may go. -/
theorem works_cleanCheckpoint {K : Creation → Prop} (hK : (creation g).Stable K)
    (hremoved : ∀ t : Creation, K t → K { t with vault := none })
    (hallowed : ∀ t, K t → Creation.allowed g .remove t) (hs : w.Sound g) (hw : K w) :
    Works g (fun _ => K) Worker.cleanCheckpoint w := by
  unfold Worker.cleanCheckpoint
  refine (tries_cancelled hK hs hw).bind hs ?_
  intro (cancelled : Bool) t ht hKt
  split
  · exact Game.tries_pure hKt
  have hremove : Works g (fun _ => K) (Worker.ask .remove) t := by
    refine Game.tries_question hK ht hKt ?_
    intro u _ hKu
    refine ⟨hallowed u hKu, ?_⟩
    rintro a v hanswer -
    rcases Creation.comes_cases hanswer with ⟨_, _, rfl⟩ | rfl | rfl
    · exact hremoved u hKu
    · exact hKu
    · exact hremoved u hKu
  refine hremove.bind ht ?_
  intro _ u _ hKu
  exact Game.tries_pure hKu

theorem works_retryUncommitted (hs : w.Sound g) (hw : w.Unsent) :
    Works g (fun _ _ => True) (Worker.retryUncommitted attempt) w := by
  unfold Worker.retryUncommitted
  refine (works_cleanCheckpoint Creation.unsent_stable (fun _ ht => ht) (fun _ ht => .inl ht.2) hs
    hw).bind hs ?_
  intro _ t ht hold
  have hretry : Works g (fun _ _ => True) (Worker.ask (.retryUncommitted attempt)) t := by
    refine Game.tries_question Creation.unsent_stable ht hold ?_
    exact fun u _ hold => ⟨hold.2, fun _ _ _ _ => trivial⟩
  refine hretry.bind ht ?_
  intro _ u hu _
  refine (Game.tries_ofExcept fun _ _ => trivial).bind hu ?_
  intro _ v _ _
  exact Game.tries_pure trivial

theorem complete_stable :
    (creation g).Stable fun w => w.record.state.isComplete = true := by
  intro w w' _ hw hst
  cases hst with
  | lands id _ =>
    rcases Creation.creates_eq w id with heq | ⟨_, heq⟩
    · rw [heq]
      exact hw
    · rw [heq]
      exact hw
  | journal r hr => exact hr.complete hw
  | drive items _ => exact hw

/-- A complete step ends the run. -/
theorem works_complete {node : Node} (hs : w.Sound g) (hw : w.record.state.inFlight = true) :
    Works g (fun _ _ => True) (do
      Worker.ofJournal (← Worker.ask (.acknowledge attempt node))
      Worker.cleanCheckpoint
      return UploadState.uploaded) w := by
  have hacknowledge : Works g (fun a t => ∀ u, a = .ok u → t.record.state.isComplete = true)
      (Worker.ask (.acknowledge attempt node)) w := by
    have hheld : (creation g).Stable fun t => t.record.state.inFlight = true :=
      fun _ _ _ ht hst => Creation.stirs_inFlight hst ht
    refine Game.tries_question hheld hs hw ?_
    intro t _ _
    refine ⟨trivial, ?_⟩
    rintro a u hanswer - _ rfl
    obtain ⟨_, _, rfl⟩ := hanswer
    rfl
  refine hacknowledge.bind hs ?_
  intro acknowledged t ht hacknowledged
  refine (Game.tries_ofExcept fun _ _ => trivial).bind ht ?_
  rintro _ u hu ⟨hok, rfl⟩
  have hcomplete : u.record.state.isComplete = true := by
    cases acknowledged with
    | ok x => exact hacknowledged x rfl
    | error e => cases hok
  refine (works_cleanCheckpoint complete_stable (fun _ ht => ht) (fun _ ht => .inr ht) hu
    hcomplete).bind hu ?_
  intro _ v _ _
  exact Game.tries_pure trivial

/-- Whatever is next, if it may be stored: the loop keeps to the rules. -/
theorem works_steps (hnew : NewFile (Worker.requestOf record) parent name) :
    ∀ (left : Nat) (prepared : Bool) (commits : Nat) (step : UploadStep) {w : Creation},
      w.Sound g → w.record.state.inFlight = true → w.Ready g step →
      Works g (fun _ _ => True) (Worker.steps g.provider record attempt left prepared commits step)
        w := by
  intro left
  induction left with
  | zero => intro _ _ _ _ _ _ _; exact Game.tries_throw trivial
  | succ left ih =>
    intro prepared commits step w hs hheld hready
    unfold Worker.steps
    refine (tries_cancelled (ready_stable step) hs ⟨hheld, hready⟩).bind hs ?_
    rintro (cancelled : Bool) t ht ⟨hheld, hready⟩
    refine (works_refuseIf fun _ => trivial).bind ht ?_
    rintro _ t ht ⟨-, rfl⟩
    cases step with
    | prepared checkpoint =>
      refine (works_refuseIf fun _ => trivial).bind ht ?_
      rintro _ t ht ⟨-, rfl⟩
      refine (works_checkpoint ht hheld hready).bind ht ?_
      intro _ u hu hold
      have hinspect := tries_remote Creation.holding_stable hu hold fun v hv hold =>
        inspectUpload_provides hnew hv hold
      refine (hinspect.mono (fun _ _ h => h) fun _ _ _ => trivial).bind hu ?_
      rintro next v hv ⟨hold, hready⟩
      exact ih false commits next hv hold.1 hready
    | «continue» checkpoint offset length =>
      refine (works_refuseIf fun _ => trivial).bind ht ?_
      rintro _ t ht ⟨-, rfl⟩
      refine (works_checkpoint ht hheld hready).bind ht ?_
      intro _ u hu hold
      refine (works_payload Creation.holding_stable hu hold).bind hu ?_
      intro payload v hv hold
      refine (Game.tries_ofExcept fun _ _ => trivial).bind hv ?_
      rintro bytes v hv ⟨-, rfl⟩
      have hpart := tries_remote Creation.holding_stable hv hold fun x hx hold =>
        uploadPart_provides offset bytes hnew hx hold
      refine (hpart.mono (fun _ _ h => h) fun _ _ _ => trivial).bind hv ?_
      rintro next x hx ⟨hold, hready⟩
      refine (works_refuseIf fun _ => trivial).bind hx ?_
      rintro _ x hx ⟨-, rfl⟩
      exact ih false commits next hx hold.1 hready
    | commit checkpoint => exact hready.elim
    | complete node => exact works_complete ht hheld

/-! ## A run -/

/-- What is known where a run goes on from. -/
def First (g : GoogleWriter) : Option UploadStep × Option String → Creation → Prop
  | (some step, _), w => w.record.state.inFlight = true ∧ w.Ready g step
  | (none, saved), w => w.Holding saved

theorem inFlight_stable : (creation g).Stable fun w => w.record.state.inFlight = true :=
  fun _ _ _ hw hst => Creation.stirs_inFlight hst hw

/-- A run that verifies goes on from the checkpoint of the vault. -/
theorem works_verifying (hnew : NewFile (Worker.requestOf record) parent name)
    (hstate : record.state = .verifying) (hs : w.Sound g) (hw : w.record.state.inFlight = true) :
    Works g (First g) (Worker.firstStep g.provider record) w := by
  unfold Worker.firstStep
  rw [if_pos hstate]
  have hload : Works g (fun a t => t.record.state.inFlight = true ∧
      ∀ saved, a = .ok saved → t.Holding saved) (Worker.ask .load) w := by
    refine Game.tries_question inFlight_stable hs hw ?_
    intro t _ hheld
    refine ⟨trivial, ?_⟩
    rintro a u hanswer -
    rcases Creation.comes_cases hanswer with ⟨saved, rfl, rfl, rfl⟩ | rfl
    · refine ⟨hheld, ?_⟩
      rintro saved heq
      exact ⟨hheld, Except.ok.inj heq⟩
    · refine ⟨hheld, ?_⟩
      rintro saved rfl
      exact ⟨hheld, hanswer.1.symm⟩
  refine hload.bind hs ?_
  rintro answer t ht ⟨-, hanswer⟩
  refine (Game.tries_ofExcept fun _ _ => trivial).bind ht ?_
  rintro saved t ht ⟨hok, rfl⟩
  have hold := hanswer saved hok
  cases saved with
  | none => exact Game.tries_pure hold
  | some saved =>
    have hinspect := tries_remote Creation.holding_stable ht hold fun v hv hold =>
      inspectUpload_provides hnew hv hold
    refine (Game.Tries.attempt ht hinspect).bind ht ?_
    intro inspected u _ hinspected
    split
    · exact Game.tries_pure ⟨hinspected.1.1, hinspected.2⟩
    · exact Game.tries_pure hinspected
    · exact Game.tries_pure hinspected
    · exact Game.tries_pure hinspected
    · exact Game.tries_throw trivial

/-- A run of an operation that was not begun reserves an identity. -/
theorem works_beginning (hnew : NewFile (Worker.requestOf record) parent name)
    (hstate : record.state ≠ .verifying) (hs : w.Sound g) (hw : w.Unsent) :
    Works g (First g) (Worker.firstStep g.provider record) w := by
  unfold Worker.firstStep
  rw [if_neg hstate]
  have hbegin := tries_remote Creation.unsent_stable hs hw fun v hv hold =>
    beginUpload_provides hnew hv hold
  refine (hbegin.mono (fun _ _ h => h) fun _ _ _ => trivial).bind hs ?_
  rintro step t _ ⟨hold, hready⟩
  exact Game.tries_pure ⟨hold.1, hready⟩

/-- What is known when a step was looked for. -/
def Next (g : GoogleWriter) : Option UploadStep → Creation → Prop
  | some step, w => w.record.state.inFlight = true ∧ w.Ready g step
  | none, w => w.Unsent

theorem works_reconciled {saved : Option String}
    (hnew : NewFile (Worker.requestOf record) parent name) (hs : w.Sound g) (hw : w.Holding saved) :
    Works g (Next g) (Worker.reconciled g.provider record saved) w := by
  unfold Worker.reconciled
  have hreconcile := tries_remote Creation.holding_stable hs hw fun v hv hold =>
    reconcileUpload_provides hnew hv hold
  refine (hreconcile.mono (fun _ _ h => h) fun _ _ _ => trivial).bind hs ?_
  rintro result t _ ⟨hold, hfound⟩
  cases result with
  | committed node => exact Game.tries_pure ⟨hold.1, trivial⟩
  | conflict => exact Game.tries_throw trivial
  | uncommitted => exact Game.tries_pure ⟨hold.1, hfound rfl⟩

theorem works_execute (attempt : Uuid) (hnew : NewFile (Worker.requestOf record) parent name)
    (hs : w.Sound g) (hw : w.record.state.inFlight = true)
    (hstate : record.state = .verifying ∨ w.unread = []) :
    Works g (fun _ _ => True) (Worker.execute g.provider record attempt) w := by
  unfold Worker.execute
  have hfirst : Works g (First g) (Worker.firstStep g.provider record) w := by
    by_cases hverifying : record.state = .verifying
    · exact works_verifying hnew hverifying hs hw
    · exact works_beginning hnew hverifying hs ⟨hw, hstate.resolve_left hverifying⟩
  refine hfirst.bind hs ?_
  rintro ⟨step, saved⟩ t ht hknown
  cases step with
  | some step => exact works_steps hnew _ _ _ _ ht hknown.1 hknown.2
  | none =>
    refine (works_reconciled hnew ht hknown).bind ht ?_
    intro step u hu hnext
    cases step with
    | some step => exact works_steps hnew _ _ _ _ hu hnext.1 hnext.2
    | none => exact works_retryUncommitted hu hnext

/-- The worker keeps to the rules, from whatever state it takes the operation. -/
theorem runOnce_keeps (hs : w.Sound g) :
    Works g (fun _ _ => True) (Worker.runOnce g.provider) w := by
  unfold Worker.runOnce
  have htrivial : (creation g).Stable fun _ => True := fun _ _ _ _ _ => trivial
  refine (tries_cancelled htrivial hs trivial).bind hs ?_
  intro (cancelled : Bool) t ht _
  split
  · exact Game.tries_pure trivial
  have hclaim : Works g (fun a u => ∀ r, a = .ok (some r) → u.record = r ∧ r.state.inFlight = true ∧
      (r.state = .verifying ∨ u.unread = [])) (Worker.ask .claim) t := by
    refine Game.tries_question htrivial ht trivial ?_
    intro u hu _
    refine ⟨trivial, ?_⟩
    rintro a v hanswer - r rfl
    obtain ⟨⟨attempt, ⟨hstate, rfl⟩ | ⟨_, rfl⟩⟩, rfl⟩ := hanswer
    · exact ⟨rfl, rfl, .inr (hu.unbegun (.inl hstate))⟩
    · exact ⟨rfl, rfl, .inl rfl⟩
  refine hclaim.bind ht ?_
  intro answer u hu hanswer
  refine (Game.tries_ofExcept fun _ _ => trivial).bind hu ?_
  rintro claimed v hv ⟨hok, rfl⟩
  cases claimed with
  | none => exact Game.tries_pure trivial
  | some record =>
    cases answer with
    | error e => cases hok
    | ok found =>
      obtain rfl : found = some record := Except.ok.inj hok
      obtain ⟨hrecord, hheld, hstate⟩ := hanswer record rfl
      obtain ⟨parent, name, hnew⟩ := hv.creates
      rw [hrecord] at hnew
      dsimp only
      split
      · exact Game.tries_throw trivial
      · next attempt _ =>
        have hexecute := works_execute attempt hnew hv (hrecord ▸ hheld) hstate
        refine (Game.Tries.attempt hv hexecute).bind hv ?_
        intro result x hx _
        split
        · exact Game.tries_pure trivial
        · next e _ =>
          have hdefer : Works g (fun _ _ => True) (Worker.ask (.defer attempt
              (Worker.failedState e) (Worker.retryDelay record.failedAttempts e))) x :=
            Game.tries_question htrivial hx trivial fun _ _ _ => ⟨trivial, fun _ _ _ _ => trivial⟩
          refine hdefer.bind hx ?_
          intro _ y hy _
          refine (Game.tries_ofExcept fun _ _ => trivial).bind hy ?_
          intro _ z _ _
          exact Game.tries_pure trivial

end Worker

/-! ## Every run -/

/-- Nothing was sent for the operation. -/
structure Creation.New (w : Creation) : Prop where
  unread : w.unread = []
  created : w.created = []
  late : w.late = []
  pending : w.pending = []
  sessions : ∀ url, w.sessions url = none
  creates : ∃ parent name, NewFile (Worker.requestOf w.record) parent name

section Runs

variable {g : GoogleWriter} {w : Creation}

theorem Creation.New.sound (h : w.New) : w.Sound g where
  held _ id hid := by
    rw [h.unread] at hid
    cases hid
  same a ha := by
    rw [h.unread] at ha
    cases ha
  created id hid := by
    rw [h.created] at hid
    cases hid
  once := by
    rw [h.created]
    exact List.nodup_nil
  unbegun _ := h.unread
  session saved _ := by
    cases saved with
    | prepared _ _ _ => trivial
    | session _ _ _ url _ _ =>
      intro other hother
      rw [h.sessions] at hother
      cases hother
  creates := h.creates

/-- The items that were not created late have one identity, so that they are one. -/
theorem Creation.Sound.created_le_one (h : w.Sound g) :
    (w.created.filter (· ∉ w.late)).length ≤ 1 := by
  have honce := h.once.filter (· ∉ w.late)
  have hunread : ∀ a ∈ w.created.filter (· ∉ w.late), a ∈ w.unread := by
    intro a ha
    obtain ⟨hcreated, hprompt⟩ := List.mem_filter.mp ha
    exact (h.created a hcreated).2.resolve_right (of_decide_eq_true hprompt)
  rcases hcreated : w.created.filter (· ∉ w.late) with _ | ⟨a, _ | ⟨b, rest⟩⟩
  · exact Nat.zero_le _
  · exact Nat.le_refl _
  · rw [hcreated] at hunread honce
    have hab := h.same a (hunread a List.mem_cons_self) b
      (hunread b (List.mem_cons_of_mem _ List.mem_cons_self))
    rw [hab] at honce
    exact absurd List.mem_cons_self (List.nodup_cons.mp honce).1

/-- What was answered in a run. -/
abbrev Log := List ((r : WorkerAsk Ask) × WorkerAnswer Answer r)

section Sample

/-- A file without contents. -/
def emptyRequest : UploadRequest := { sampleRequest with
  size := 0
  sha256 := "e3b0c44298fc1c149afbf4c8996fb92427ae41e4649b934ca495991b7852b855" }

/-- The checkpoint of the identity that is reserved for it. -/
def reservedCheckpoint : String := (SavedUpload.prepared 1 emptyRequest "a").encoded

/-- Nothing was sent yet. -/
def sampleAt (state : UploadState) (attempt : Option Uuid) (retryAt failedAttempts : Nat) :
    Creation where
  record := ⟨⟨0⟩, 1, emptyRequest.scope, emptyRequest.intent, state, emptyRequest.size,
    emptyRequest.sha256, attempt, none, none, none, none, 0, retryAt, failedAttempts, 0⟩
  vault := none
  items := []
  sessions := fun _ => none
  created := []
  pending := []
  unread := []
  late := []

theorem sampleAt_new : (sampleAt .pending none 0 0).New where
  unread := rfl
  created := rfl
  late := rfl
  pending := rfl
  sessions _ := rfl
  creates := ⟨_, _, rfl, by decide⟩

/-- The checkpoint is in the vault, and the journal refers to it. -/
def sampleHeld : Creation := { sampleAt .uploading (some ⟨3⟩) 0 2 with
  record := { (sampleAt .uploading (some ⟨3⟩) 0 2).record with sessionKey := some ⟨0⟩ }
  vault := some reservedCheckpoint }

/-- The creating request was sent and not answered. -/
def sampleLost : Creation := { sampleHeld with
  pending := ["a"]
  unread := ["a"] }

/-- The process has died, and the request takes effect. -/
def sampleLanded : Creation := sampleLost.reopened.creates "a"

variable (state : UploadState) (attempt : Option Uuid) (retryAt failedAttempts : Nat)

theorem sample_request :
    Worker.requestOf (sampleAt state attempt retryAt failedAttempts).record = emptyRequest := rfl

theorem empty_checked : sampleWriter.checkUpload emptyRequest = .ok () := by decide +kernel

theorem empty_valid : validId "a" = .ok () := by decide +kernel

theorem sample_reserved : GoogleWriter.preparedCheckpoint emptyRequest "a" =
    .ok reservedCheckpoint := by
  unfold GoogleWriter.preparedCheckpoint
  rw [empty_valid]
  rfl

def generated : Except ProviderError GeneratedIds := .ok ⟨["a"], "drive", "drive#generatedIds"⟩

theorem sample_begin : ∃ f k, sampleWriter.provider.beginUpload
    (Worker.requestOf (sampleAt state attempt retryAt failedAttempts).record) = .ask .permit f ∧
      f (some (.ok ())) = .ask .generateIds k ∧
      k (some generated) = .done (.ok (.prepared reservedCheckpoint)) := by
  rw [show sampleWriter.provider.beginUpload = sampleWriter.beginUpload from rfl, sample_request]
  unfold GoogleWriter.beginUpload
  rw [empty_checked]
  refine ⟨_, _, rfl, rfl, ?_⟩
  show Dialogue.cut (.error .uncertain) ((do
    let id ← (do
      Exchange.refuseIf ("drive#generatedIds" ≠ "drive#generatedIds" ∨ "drive" ≠ "drive")
        (protocol "invalid Google generated IDs response")
      Exchange.ofProvider (validId "a")
      return "a")
    return .prepared (← Exchange.ofExcept (GoogleWriter.preparedCheckpoint emptyRequest id)) :
      Exchange UploadStep).run) = _
  rw [Exchange.refuseIf, if_neg (by decide), empty_valid]
  show Dialogue.done
    ((GoogleWriter.preparedCheckpoint emptyRequest "a").map UploadStep.prepared) = _
  rw [sample_reserved]
  rfl

theorem sample_inspect : ∃ f k l, sampleWriter.provider.inspectUpload
    (Worker.requestOf (sampleAt state attempt retryAt failedAttempts).record) reservedCheckpoint =
      .ask .permit f ∧
      f (some (.ok ())) = .ask (.file "a") k ∧
      k (some (.error .notFound)) = .ask (.send (.create "a" "folder" "note.txt")) l := by
  have hloaded : (sampleWriter.checkUpload emptyRequest >>= fun () =>
      sampleWriter.loadUpload emptyRequest reservedCheckpoint) =
        .ok (.prepared 1 emptyRequest "a") :=
    loads_checked empty_checked (prepared_loads (by decide) empty_valid (by decide +kernel))
  rw [show sampleWriter.provider.inspectUpload = sampleWriter.inspectUpload from rfl,
    sample_request]
  unfold GoogleWriter.inspectUpload
  rw [hloaded]
  show ∃ f k l, GoogleWriter.uploadCall (sampleWriter.inspectPrepared emptyRequest "a") =
    .ask .permit f ∧ _
  unfold GoogleWriter.uploadCall GoogleWriter.inspectPrepared GoogleWriter.readFile
  rw [empty_valid]
  exact ⟨_, _, _, rfl, rfl, rfl⟩

theorem sample_reconcile : sampleWriter.provider.reconcileUpload
    (Worker.requestOf (sampleAt state attempt retryAt failedAttempts).record) none =
      pure (.ok .uncommitted) := by
  rw [show sampleWriter.provider.reconcileUpload = sampleWriter.reconcileUpload from rfl,
    sample_request]
  unfold GoogleWriter.reconcileUpload
  rw [empty_checked]

/-- The runs of the worker from there. -/
abbrev Sampled (log : Log) (w : Creation) (work : Option (Dialogue (WorkerAsk Ask)
    (WorkerAnswer Answer) (Except TransferError (Option UploadState)))) : Prop :=
  (creation sampleWriter).Reaches (Worker.runOnce sampleWriter.provider).run
    (sampleAt .pending none 0 0) log w work

theorem sampled_next {log : Log} {w : Creation} {r : WorkerAsk Ask}
    {next : WorkerAnswer Answer r → Dialogue (WorkerAsk Ask) (WorkerAnswer Answer) _}
    (h : Sampled log w (some (.ask r next))) (a : WorkerAnswer Answer r) (t : Creation)
    (ha : Creation.answers r w a t) : Sampled (⟨r, a⟩ :: log) t (some (next a)) := h.answers ha

/-- The vault fails, so that the identity is lost that was reserved; the next run finds nothing to
    verify. -/
theorem sampled_lost : ∃ log, Sampled log (sampleAt .pending none 0 2) none := by
  obtain ⟨f, k, hbegin, hpermit, hids⟩ := sample_begin .uploading (some ⟨1⟩) 0 0
  have h : Sampled _ _ _ := .begins .start
  have h := sampled_next h false (sampleAt .pending none 0 0) rfl
  have h := sampled_next h (Except.ok (some (sampleAt .uploading (some ⟨1⟩) 0 0).record))
    (sampleAt .uploading (some ⟨1⟩) 0 0) ⟨⟨⟨1⟩, .inl ⟨rfl, rfl⟩⟩, rfl⟩
  have h := sampled_next h false (sampleAt .uploading (some ⟨1⟩) 0 0) rfl
  rw [hbegin] at h
  have h := sampled_next h (some (Except.ok ())) (sampleAt .uploading (some ⟨1⟩) 0 0) rfl
  beta_reduce at h
  rw [hpermit] at h
  have h := sampled_next h (some generated) (sampleAt .uploading (some ⟨1⟩) 0 0) rfl
  beta_reduce at h
  rw [hids] at h
  have h := sampled_next h false (sampleAt .uploading (some ⟨1⟩) 0 0) rfl
  have h := sampled_next h (Except.error TransferError.vault) (sampleAt .uploading (some ⟨1⟩) 0 0)
    (.inl rfl)
  have h := sampled_next h (Except.ok ()) (sampleAt .verifyRequired none 2 1)
    ⟨⟨rfl, rfl⟩, rfl, 2, rfl⟩
  have h : Sampled _ _ _ := .begins (.ends h)
  have h := sampled_next h false (sampleAt .verifyRequired none 2 1) rfl
  have h := sampled_next h (Except.ok (some (sampleAt .verifying (some ⟨2⟩) 2 1).record))
    (sampleAt .verifying (some ⟨2⟩) 2 1) ⟨⟨⟨2⟩, .inr ⟨rfl, rfl⟩⟩, rfl⟩
  have h := sampled_next h (Except.ok none) (sampleAt .verifying (some ⟨2⟩) 2 1) ⟨rfl, rfl⟩
  have h := sampled_next h false (sampleAt .verifying (some ⟨2⟩) 2 1) rfl
  rw [sample_reconcile] at h
  have h := sampled_next h false (sampleAt .verifying (some ⟨2⟩) 2 1) rfl
  have h := sampled_next h (Except.ok ()) (sampleAt .verifying (some ⟨2⟩) 2 1) rfl
  have h := sampled_next h (Except.ok ()) (sampleAt .pending none 0 2) ⟨⟨rfl, rfl⟩, rfl⟩
  exact ⟨_, .ends h⟩

/-- Another identity is reserved, and stored before the file is created; the request is lost, and
    takes effect after the process has died. -/
theorem sampled_again : (∃ log next,
      Sampled log (sampleAt .uploading (some ⟨3⟩) 0 2) (some (.ask (.remote .generateIds) next))) ∧
    (∃ log next, Sampled log sampleHeld
      (some (.ask (.remote (.send (.create "a" "folder" "note.txt"))) next))) ∧
    ∃ log, Sampled log sampleLanded none := by
  obtain ⟨f, k, hbegin, hpermit, hids⟩ := sample_begin .uploading (some ⟨3⟩) 0 2
  obtain ⟨f', k', l, hinspect, hpermit', hfile⟩ := sample_inspect .uploading (some ⟨3⟩) 0 2
  obtain ⟨log, h⟩ := sampled_lost
  have h : Sampled _ _ _ := .begins h
  have h := sampled_next h false (sampleAt .pending none 0 2) rfl
  have h := sampled_next h (Except.ok (some (sampleAt .uploading (some ⟨3⟩) 0 2).record))
    (sampleAt .uploading (some ⟨3⟩) 0 2) ⟨⟨⟨3⟩, .inl ⟨rfl, rfl⟩⟩, rfl⟩
  have h := sampled_next h false (sampleAt .uploading (some ⟨3⟩) 0 2) rfl
  rw [hbegin] at h
  have h := sampled_next h (some (Except.ok ())) (sampleAt .uploading (some ⟨3⟩) 0 2) rfl
  beta_reduce at h
  rw [hpermit] at h
  refine ⟨⟨_, _, h⟩, ?_⟩
  have h := sampled_next h (some generated) (sampleAt .uploading (some ⟨3⟩) 0 2) rfl
  beta_reduce at h
  rw [hids] at h
  have h := sampled_next h false (sampleAt .uploading (some ⟨3⟩) 0 2) rfl
  have h := sampled_next h (Except.ok ())
    { sampleAt .uploading (some ⟨3⟩) 0 2 with vault := some reservedCheckpoint } rfl
  have h := sampled_next h (Except.ok ()) sampleHeld ⟨⟨rfl, rfl⟩, by decide, rfl⟩
  have h := sampled_next h false sampleHeld rfl
  beta_reduce at h
  rw [hinspect] at h
  have h := sampled_next h (some (Except.ok ())) sampleHeld rfl
  beta_reduce at h
  rw [hpermit'] at h
  have h := sampled_next h (some (Except.error ProviderError.notFound)) sampleHeld
    ⟨List.not_mem_nil, rfl⟩
  beta_reduce at h
  rw [hfile] at h
  refine ⟨⟨_, _, h⟩, ?_⟩
  have h := sampled_next h none sampleLost (.inr (.inr rfl))
  have h : Sampled _ sampleLost.reopened none := .dies h rfl
  exact ⟨_, .stirs h (.lands "a" List.mem_cons_self)⟩

end Sample

end Runs

end Cirrove.Google
