import Cirrove.Google.Asking
import Cirrove.Google.Creating

/-!
# A worker that creates keeps to the rules

Call by call of the adapter: what is known when a question is open (`Holding`, `Unsent`) is left
alone by others and by everything the drive answers, and the checkpoint of a step may be stored when
the step is reached (`Ready`).
-/

namespace Cirrove.Google

open Cirrove.Library
open Cirrove.Upload
open Cirrove.Journal (UploadIntent UploadRecord UploadState JournalError Uuid)

/-- The world of the calls of the adapter. -/
def service (g : GoogleWriter) : Game Ask (fun r => Option (Answer r)) Creation :=
  (creation g).within .remote fun _ x => x

/-- The world of a call that is not cut off. -/
def drive (g : GoogleWriter) : Game Ask Answer Creation := (service g).uncut

namespace Creation

/-- The worker has the operation, and the vault this checkpoint. -/
def Holding (vault : Option String) (w : Creation) : Prop :=
  w.record.state.inFlight = true ∧ w.vault = vault

/-- The worker has the operation, and no creating request is unread. -/
def Unsent (w : Creation) : Prop := w.record.state.inFlight = true ∧ w.unread = []

/-- The checkpoint of a step may be stored. -/
def Ready (g : GoogleWriter) (w : Creation) : UploadStep → Prop
  | .prepared checkpoint => w.Continues g checkpoint
  | .continue checkpoint _ _ => w.Continues g checkpoint
  | .commit _ => False
  | .complete _ => True

section

variable {g : GoogleWriter} {w w' : Creation} {vault : Option String}

/-! ## What stays as it is -/

theorem stirs_local (h : w.Stirs w') :
    w'.vault = w.vault ∧ w'.unread = w.unread ∧ w'.sessions = w.sessions := by
  cases h with
  | lands id _ =>
    rcases creates_eq w id with heq | ⟨_, heq⟩
    · rw [heq]
      exact ⟨rfl, rfl, rfl⟩
    · rw [heq]
      exact ⟨rfl, rfl, rfl⟩
  | journal r _ => exact ⟨rfl, rfl, rfl⟩
  | drive items _ => exact ⟨rfl, rfl, rfl⟩

theorem stirs_inFlight (h : w.Stirs w') (hheld : w.record.state.inFlight = true) :
    w'.record.state.inFlight = true := by
  cases h with
  | lands id _ =>
    rcases creates_eq w id with heq | ⟨_, heq⟩
    · rw [heq]
      exact hheld
    · rw [heq]
      exact hheld
  | journal r hr =>
    show r.state.inFlight = true
    rw [(hr.held hheld).1]
    exact hheld
  | drive items _ => exact hheld

theorem sends_local {id : String} (h : w.Sends id w') :
    w'.record = w.record ∧ w'.vault = w.vault := by
  rcases h with rfl | rfl | rfl
  · exact ⟨rfl, rfl⟩
  · rcases creates_eq { w with unread := id :: w.unread } id with heq | ⟨_, heq⟩
    · rw [heq]
      exact ⟨rfl, rfl⟩
    · rw [heq]
      exact ⟨rfl, rfl⟩
  · exact ⟨rfl, rfl⟩

/-- The drive has no part in the journal and the vault. -/
theorem remote_local {r : Ask} {a : Option (Answer r)} (h : w.remote r a w') :
    w'.record = w.record ∧ w'.vault = w.vault := by
  cases r with
  | file id =>
    have hfile : if missing a then id ∉ w.items ∧ w' = w.finds id else w' = w := h
    split at hfile
    · rw [hfile.2]
      exact ⟨rfl, rfl⟩
    · rw [hfile]
      exact ⟨rfl, rfl⟩
  | send message =>
    cases message with
    | createSession id parent name size =>
      cases h
      exact ⟨rfl, rfl⟩
    | create id parent name => exact sends_local h
    | put url range bytes =>
      cases hid : w.sessions url with
      | none =>
        rw [(remote_put_none hid).mp h]
        exact ⟨rfl, rfl⟩
      | some id => exact sends_local ((remote_put_some hid).mp h)
    | replaceSession _ _ _ | replaceSessionV2 _ _ _ | replaceEmpty _ _ | createFolder _ _ _
    | relocate _ _ _ _ | relocateV2 _ _ _ _ | trash _ _ | trashV2 _ _ =>
      rw [show w' = w from h]
      exact ⟨rfl, rfl⟩
  | permit | generateIds | taggedFile _ | v2File _ | list _ _ | download _ _ _ | wait =>
    rw [show w' = w from h]
    exact ⟨rfl, rfl⟩

theorem holding_stable : (creation g).Stable (Holding vault) := by
  intro w w' _ hw hst
  exact ⟨stirs_inFlight hst hw.1, (stirs_local hst).1.trans hw.2⟩

theorem holding_framed : (service g).Framed (fun _ => True) (Holding vault) where
  stable := holding_stable
  answers := by
    rintro r w a w' - - hw ⟨_, _, hanswer⟩
    obtain ⟨hrecord, hvault⟩ := remote_local hanswer
    exact ⟨hrecord ▸ hw.1, hvault.trans hw.2⟩

theorem unsent_stable : (creation g).Stable Unsent := by
  intro w w' _ hw hst
  exact ⟨stirs_inFlight hst hw.1, (stirs_local hst).2.1.trans hw.2⟩

end

end Creation

/-! ## Calls of the drive -/

section Calls

variable {g : GoogleWriter} {w : Creation} {text : String} {saved : SavedUpload}
  {request : UploadRequest} {parent name : String} {α : Type}

theorem drive_framed {P : Ask → Prop} {vault : Option String} :
    (drive g).Framed P (Creation.Holding vault) where
  stable := Creation.holding_stable
  answers _ hs hw hanswer := Creation.holding_framed.answers trivial hs hw hanswer

theorem tries_reads {vault : Option String} {call : Exchange α} (hcall : call.run.Only Reads)
    (hs : w.Sound g) (hw : w.Holding vault) :
    (drive g).Tries (fun _ => Creation.Holding vault) (fun _ => Creation.Holding vault) call w := by
  refine Game.tries_only hcall drive_framed ?_ hs hw
  intro r t hr _ _
  cases r with
  | send message => cases hr
  | generateIds => cases hr
  | permit | file _ | taggedFile _ | v2File _ | list _ _ | download _ _ _ | wait => trivial

/-- The vault has the checkpoint that was read. -/
theorem saved_of_holding (hw : w.Holding (some text)) (hread : g.saved.fromStr text = some saved) :
    w.saved g = some saved := by
  unfold Creation.saved
  rw [hw.2]
  exact hread

/-- While a checkpoint is held, another one of the same identity may follow. -/
theorem continues_of_holding {saved' : SavedUpload} (hfits : saved'.Fits) (hs : w.Sound g)
    (hw : w.Holding (some text)) (hread : g.saved.fromStr text = some saved)
    (hid : saved'.id = saved.id) (hsession : w.SessionFor saved') :
    w.Continues g saved'.encoded := by
  refine ⟨saved', g.saved.reads saved' hfits, ?_, hsession⟩
  intro id hunread
  obtain ⟨held, hheld, rfl⟩ := hs.held (Creation.idle_of_inFlight hw.1).1 id hunread
  rw [hid, Option.some.inj (hheld.symm.trans (saved_of_holding hw hread))]

/-- The session that a message has opened is for its identity. -/
def Opens (message : Message) (response : Response) (w : Creation) : Prop :=
  ∀ id parent name size, message = .createSession id parent name size →
    ∀ url, response.location = some url → w.sessions url = some id

/-- A request that creates under the identity of the checkpoint, or creates nothing. -/
theorem send_tries {message : Message} {fails : UploadError → Creation → Prop} (hs : w.Sound g)
    (hw : w.Holding (some text)) (hread : g.saved.fromStr text = some saved)
    (hmessage : ∀ t : Creation, t.Sound g → t.Holding (some text) →
      ∀ id, t.creating message = some id → id = saved.id) :
    (drive g).Tries (fun a t => t.Holding (some text) ∧
      ∀ response, a = .ok response → Opens message response t) fails
      (Exchange.ask (.send message)) w := by
  refine Game.tries_question Creation.holding_stable hs hw ?_
  intro t ht hold
  constructor
  · intro id hid
    obtain rfl := hmessage t ht hold id hid
    exact ⟨hold.1, saved, saved_of_holding hold hread, rfl⟩
  · rintro a u ⟨_, rfl, hanswer⟩ _
    obtain ⟨hrecord, hvault⟩ := Creation.remote_local hanswer
    refine ⟨⟨hrecord ▸ hold.1, hvault.trans hold.2⟩, ?_⟩
    rintro response rfl id parent name size rfl url hurl
    have hopened : u = { t with
        unread := id :: t.unread
        sessions := fun url =>
          if Creation.opened (some (.ok response)) = some url then some id else t.sessions url } :=
      hanswer
    rw [hopened]
    exact if_pos hurl

theorem uploadResponse_eq_ok {response result : Response} {session : Bool}
    (h : uploadResponse response session = .ok result) : result = response := by
  unfold uploadResponse at h
  dsimp only at h
  split at h
  · exact (Except.ok.inj h).symm
  all_goals grind

theorem sendAuthorized_tries {message : Message} (hs : w.Sound g) (hw : w.Holding (some text))
    (hread : g.saved.fromStr text = some saved)
    (hmessage : ∀ t : Creation, ∀ id, t.creating message = some id → id = saved.id) :
    (drive g).Tries (fun response t => t.Holding (some text) ∧ Opens message response t)
      (fun _ => Creation.Holding (some text)) (GoogleWriter.sendAuthorized message) w := by
  unfold GoogleWriter.sendAuthorized
  refine (send_tries hs hw hread fun t _ _ => hmessage t).bind hs ?_
  rintro sent t ht ⟨hold, hopens⟩
  refine (Game.tries_ofExcept fun _ _ => hold).bind ht ?_
  rintro first u hu ⟨hfirst, rfl⟩
  split
  · refine (send_tries hu hold hread fun t _ _ => hmessage t).bind hu ?_
    rintro sent t ht ⟨hold, hopens⟩
    refine (Game.tries_ofExcept fun _ _ => hold).bind ht ?_
    rintro second u hu ⟨hsecond, rfl⟩
    refine (Game.tries_ofExcept fun _ _ => hold).mono ?_ fun _ _ h => h
    rintro response u ⟨hresponse, rfl⟩
    rw [uploadResponse_eq_ok hresponse]
    exact ⟨hold, hopens second hsecond⟩
  · refine (Game.tries_ofExcept fun _ _ => hold).mono ?_ fun _ _ h => h
    rintro response u ⟨hresponse, rfl⟩
    rw [uploadResponse_eq_ok hresponse]
    exact ⟨hold, hopens first hfirst⟩

/-- What a call of the adapter comes to: its step may be stored. -/
def Steps (g : GoogleWriter) (vault : Option String) (w : Creation) (call : Exchange UploadStep) :
    Prop :=
  (drive g).Tries (fun step t => t.Holding vault ∧ t.Ready g step)
    (fun _ => Creation.Holding vault) call w

theorem sessionCheckpoint_eq_ok {id url : String} {offset : Nat} {step : UploadStep}
    (h : g.sessionCheckpoint request id url offset = .ok step) :
    ∃ length, offset < request.size ∧ length ≤ partSize ∧ step =
      .continue (SavedUpload.session 1 request id url offset length).encoded offset length := by
  unfold GoogleWriter.sessionCheckpoint at h
  obtain ⟨_, _, h⟩ := bind_eq_ok h
  dsimp only at h
  split at h
  · cases h
  next hoffset =>
  split at h
  · cases h
  · exact ⟨_, Nat.not_le.mp hoffset, Nat.min_le_right _ _, (Except.ok.inj h).symm⟩

theorem preparedCheckpoint_eq_ok {id checkpoint : String}
    (h : GoogleWriter.preparedCheckpoint request id = .ok checkpoint) :
    checkpoint = (SavedUpload.prepared 1 request id).encoded := by
  unfold GoogleWriter.preparedCheckpoint at h
  split at h
  · cases h
  · exact (Except.ok.inj h).symm

theorem prepared_eq_ok {id : String} {step : UploadStep}
    (h : (GoogleWriter.preparedCheckpoint request id).map .prepared = .ok step) :
    step = .prepared (SavedUpload.prepared 1 request id).encoded := by
  cases hprepared : GoogleWriter.preparedCheckpoint request id with
  | error e =>
    rw [hprepared] at h
    cases h
  | ok checkpoint =>
    rw [hprepared, preparedCheckpoint_eq_ok hprepared] at h
    exact (Except.ok.inj h).symm

theorem NewFile.prepared_fits (hnew : NewFile request parent name) (id : String) :
    (SavedUpload.prepared 1 request id).Fits := ⟨show 1 < 2 ^ 8 by decide, hnew.size, trivial⟩

theorem continues_prepared {id : String} (hnew : NewFile request parent name) (hs : w.Sound g)
    (hw : w.Holding (some text)) (hread : g.saved.fromStr text = some saved) (hid : saved.id = id) :
    w.Continues g (SavedUpload.prepared 1 request id).encoded :=
  continues_of_holding (hnew.prepared_fits id) hs hw hread hid.symm trivial

theorem steps_session {id url : String} {offset : Nat} (hnew : NewFile request parent name)
    (hs : w.Sound g) (hw : w.Holding (some text)) (hread : g.saved.fromStr text = some saved)
    (hid : saved.id = id) (hsession : ∀ other, w.sessions url = some other → other = id) :
    Steps g (some text) w (Exchange.ofExcept (g.sessionCheckpoint request id url offset)) := by
  refine (Game.tries_ofExcept fun _ _ => hw).mono ?_ fun _ _ h => h
  rintro step t ⟨hstep, rfl⟩
  obtain ⟨length, hoffset, hlength, rfl⟩ := sessionCheckpoint_eq_ok hstep
  have hfits : (SavedUpload.session 1 request id url offset length).Fits :=
    ⟨show 1 < 2 ^ 8 by decide, hnew.size, hoffset.trans hnew.size,
      hlength.trans_lt (by decide)⟩
  exact ⟨hw, continues_of_holding hfits hs hw hread hid.symm hsession⟩

/-- What completes an upload is found by reading. -/
theorem steps_complete {call : Exchange Node} (hcall : call.run.Only Reads) (hs : w.Sound g)
    (hw : w.Holding (some text)) :
    Steps g (some text) w (do return .complete (← call)) := by
  refine (tries_reads hcall hs hw).bind hs ?_
  intro node t _ hold
  exact Game.tries_pure ⟨hold, trivial⟩

theorem openSession_steps {id : String} (hnew : NewFile request parent name) (hs : w.Sound g)
    (hw : w.Holding (some text)) (hread : g.saved.fromStr text = some saved)
    (hid : saved.id = id) :
    Steps g (some text) w (g.openSession request id
      (.createSession id parent name request.size)) := by
  unfold GoogleWriter.openSession
  have hmessage : ∀ t : Creation, ∀ other,
      t.creating (.createSession id parent name request.size) = some other → other = saved.id :=
    fun _ _ h => (Option.some.inj h).symm.trans hid.symm
  refine (sendAuthorized_tries hs hw hread hmessage).bind hs ?_
  rintro response t ht ⟨hold, hopens⟩
  refine (tries_refuseIf fun _ => hold).bind ht ?_
  rintro _ u _ ⟨-, rfl⟩
  split
  · exact Game.tries_throw hold
  · next location hlocation =>
    refine steps_session hnew ht hold hread hid ?_
    intro other hother
    have hfor := hopens _ _ _ _ rfl location hlocation
    exact Option.some.inj (hother.symm.trans hfor)

theorem beginSession_steps {id : String} (hnew : NewFile request parent name)
    (hs : w.Sound g) (hw : w.Holding (some text)) (hread : g.saved.fromStr text = some saved)
    (hid : saved.id = id) :
    Steps g (some text) w (g.beginSession request id) := by
  unfold GoogleWriter.beginSession
  rw [hnew.intent]
  exact openSession_steps hnew hs hw hread hid

theorem createEmpty_steps {id : String} (hnew : NewFile request parent name)
    (hs : w.Sound g) (hw : w.Holding (some text)) (hread : g.saved.fromStr text = some saved)
    (hid : saved.id = id) :
    Steps g (some text) w (g.createEmpty request id parent name) := by
  unfold GoogleWriter.createEmpty
  have hmessage : ∀ t : Creation, ∀ other,
      t.creating (.create id parent name) = some other → other = saved.id :=
    fun _ _ h => (Option.some.inj h).symm.trans hid.symm
  refine (sendAuthorized_tries hs hw hread hmessage).bind hs ?_
  rintro response t ht ⟨hold, -⟩
  exact steps_complete (receipt_only hnew.intent) ht hold

theorem inspectPrepared_steps {id : String} (hnew : NewFile request parent name)
    (hs : w.Sound g) (hw : w.Holding (some text)) (hread : g.saved.fromStr text = some saved)
    (hid : saved.id = id) :
    Steps g (some text) w (g.inspectPrepared request id) := by
  unfold GoogleWriter.inspectPrepared
  rw [hnew.intent]
  refine (Game.Tries.attempt hs (tries_reads readFile_only hs hw)).bind hs ?_
  intro found t ht hfound
  split
  · next file =>
    have hold : t.Holding (some text) := hfound
    refine (Game.tries_ofExcept fun _ _ => hold).bind ht ?_
    rintro node u hu ⟨-, rfl⟩
    exact steps_complete settleWrittenNode_only hu hold
  · have hold : t.Holding (some text) := hfound
    split
    · exact createEmpty_steps hnew ht hold hread hid
    · exact beginSession_steps hnew ht hold hread hid
  · have hold : t.Holding (some text) := hfound
    exact Game.tries_throw hold

/-! ## Sessions -/

section Session

variable {version offset length : Nat} {request' : UploadRequest} {id url : String}

theorem sessionRequest_tries {range : String} {bytes : Bytes} {conditional : Bool} (hs : w.Sound g)
    (hw : w.Holding (some text))
    (hread : g.saved.fromStr text = some (.session version request' id url offset length)) :
    (drive g).Tries (fun _ => Creation.Holding (some text)) (fun _ => Creation.Holding (some text))
      (GoogleWriter.sessionRequest url range bytes conditional) w := by
  unfold GoogleWriter.sessionRequest
  have hmessage : ∀ t : Creation, t.Sound g → t.Holding (some text) →
      ∀ other, t.creating (.put url range bytes) = some other → other = id := by
    intro t ht hold other hother
    exact ht.session _ (saved_of_holding hold hread) other hother
  refine (send_tries hs hw hread hmessage).bind hs ?_
  rintro sent t ht ⟨hold, -⟩
  refine (Game.tries_ofExcept fun _ _ => hold).bind ht ?_
  rintro response u hu ⟨-, rfl⟩
  refine (tries_refuseIf fun _ => hold).bind hu ?_
  rintro _ u - ⟨-, rfl⟩
  refine (Game.tries_ofExcept fun _ _ => hold).mono ?_ fun _ _ h => h
  rintro _ u ⟨-, rfl⟩
  exact hold

theorem sessionAnswer_steps {next : Response → Except UploadError Nat}
    {sent : Except UploadError Response} (hnew : NewFile request parent name)
    (hs : w.Sound g) (hw : w.Holding (some text))
    (hread : g.saved.fromStr text = some (.session version request' id url offset length)) :
    Steps g (some text) w (g.sessionAnswer request id url next sent) := by
  unfold GoogleWriter.sessionAnswer
  split
  · split
    · refine (Game.tries_ofExcept fun _ _ => hw).bind hs ?_
      rintro next t ht ⟨-, rfl⟩
      exact steps_session hnew ht hw hread rfl (hs.session _ (saved_of_holding hw hread))
    · exact steps_complete (receipt_only hnew.intent) hs hw
  · -- Another session may be begun, under the same identity.
    refine (Game.tries_ofExcept fun _ _ => hw).mono ?_ fun _ _ h => h
    rintro step t ⟨hstep, rfl⟩
    rw [prepared_eq_ok hstep]
    exact ⟨hw, continues_prepared hnew hs hw hread rfl⟩
  · exact Game.tries_throw hw

end Session

/-! ## The provider -/

/-- What a call of the provider comes to. -/
def Provides (g : GoogleWriter) {β : Type} (K : Creation → Prop) (ok : β → Creation → Prop)
    (w : Creation) (call : Dialogue Ask (fun r => Option (Answer r)) (Except UploadError β)) :
    Prop :=
  (service g).Keeps (Game.Outcome (fun a t => K t ∧ ok a t) fun _ => K) call w

theorem uploadCall_provides {β : Type} {P : Ask → Prop} {K : Creation → Prop}
    {ok : β → Creation → Prop} {call : Exchange β} (hcall : call.run.Only P) (hpermit : P .permit)
    (hK : (service g).Framed P K) (hs : w.Sound g) (hw : K w)
    (h : ∀ t, t.Sound g → K t → (drive g).Tries (fun a t => K t ∧ ok a t) (fun _ => K) call t) :
    Provides g K ok w (GoogleWriter.uploadCall call) := by
  unfold GoogleWriter.uploadCall
  refine Game.keeps_cut ?_ hK hs hw ?_ fun t _ ht => ht
  · refine Dialogue.only_tries (only_ask hpermit) fun _ => ?_
    exact Dialogue.only_tries only_ofProvider fun _ => hcall
  · have hask : (drive g).Tries (fun _ => K) (fun _ => K) (Exchange.ask .permit) w :=
      Game.tries_question hK.stable hs hw fun t ht hKt =>
        ⟨trivial, fun a u hanswer _ => hK.answers hpermit ht hKt hanswer⟩
    refine hask.bind hs ?_
    intro permit t ht hKt
    refine (Game.tries_ofExcept fun _ _ => hKt).bind ht ?_
    rintro _ u hu ⟨-, rfl⟩
    exact h u hu hKt

theorem provides_error {β : Type} {K : Creation → Prop} {ok : β → Creation → Prop} {e : UploadError}
    (hw : K w) : Provides g K ok w (pure (.error e)) := hw

/-- Only checkpoints of the request that are read back are used. -/
theorem loaded {checkpoint : String}
    (h : (g.checkUpload request >>= fun () => g.loadUpload request checkpoint) = .ok saved) :
    g.saved.fromStr checkpoint = some saved := by
  obtain ⟨_, _, h⟩ := bind_eq_ok h
  exact (loadUpload_eq_ok h).1

theorem inspectUpload_provides (hnew : NewFile request parent name) (hs : w.Sound g)
    (hw : w.Holding (some text)) :
    Provides g (Creation.Holding (some text)) (fun step t => t.Ready g step) w
      (g.inspectUpload request text) := by
  unfold GoogleWriter.inspectUpload
  split
  · exact provides_error hw
  · next hload =>
    refine uploadCall_provides (Dialogue.only_true _) trivial Creation.holding_framed hs hw ?_
    intro t ht hold
    have hread := loaded hload
    exact inspectPrepared_steps hnew ht hold hread rfl
  · next hload =>
    refine uploadCall_provides (Dialogue.only_true _) trivial Creation.holding_framed hs hw ?_
    intro t ht hold
    refine (Game.Tries.attempt ht (sessionRequest_tries ht hold (loaded hload))).bind ht ?_
    intro sent u hu hsent
    have hold : u.Holding (some text) := by cases sent <;> exact hsent
    exact sessionAnswer_steps hnew hu hold (loaded hload)

theorem uploadPart_provides (offset : Nat) (bytes : Bytes)
    (hnew : NewFile request parent name) (hs : w.Sound g)
    (hw : w.Holding (some text)) :
    Provides g (Creation.Holding (some text)) (fun step t => t.Ready g step) w
      (g.uploadPart request text offset bytes) := by
  unfold GoogleWriter.uploadPart
  split
  · exact provides_error hw
  · exact provides_error hw
  · next hload =>
    split
    · exact provides_error hw
    refine uploadCall_provides (Dialogue.only_true _) trivial Creation.holding_framed hs hw ?_
    intro t ht hold
    refine (Game.Tries.attempt ht (sessionRequest_tries ht hold (loaded hload))).bind ht ?_
    intro sent u hu hsent
    have hold : u.Holding (some text) := by cases sent <;> exact hsent
    exact sessionAnswer_steps hnew hu hold (loaded hload)

/-! ## Reservations -/

theorem unsent_framed : (service g).Framed Reserves Creation.Unsent where
  stable := Creation.unsent_stable
  answers := by
    rintro r w a w' hr - hw ⟨_, _, hanswer⟩
    cases r with
    | permit | generateIds =>
      rw [show w' = w from hanswer]
      exact hw
    | file _ | taggedFile _ | v2File _ | list _ _ | download _ _ _ | send _ | wait => cases hr

theorem reserves_allowed {r : Ask} (hr : Reserves r) (hw : w.Unsent) :
    w.allowed g (.remote r) := by
  cases r with
  | permit => trivial
  | generateIds => exact hw.2
  | file _ | taggedFile _ | v2File _ | list _ _ | download _ _ _ | send _ | wait => cases hr

theorem continues_unsent {saved : SavedUpload} (hfits : saved.Fits) (hw : w.Unsent)
    (hsession : w.SessionFor saved) : w.Continues g saved.encoded := by
  refine ⟨saved, g.saved.reads saved hfits, ?_, hsession⟩
  intro id hid
  rw [hw.2] at hid
  cases hid

theorem beginUpload_provides (hnew : NewFile request parent name) (hs : w.Sound g)
    (hw : w.Unsent) :
    Provides g Creation.Unsent (fun step t => t.Ready g step) w (g.beginUpload request) := by
  unfold GoogleWriter.beginUpload
  split
  · exact provides_error hw
  rw [hnew.intent]
  have hstep : ∀ id : String, (do return .prepared (← Exchange.ofExcept
      (GoogleWriter.preparedCheckpoint request id)) : Exchange UploadStep).run.Only Reserves :=
    fun id => Dialogue.only_tries only_ofExcept fun _ => only_return
  refine uploadCall_provides (Dialogue.only_tries generatedId_only hstep) trivial unsent_framed hs
    hw ?_
  intro t ht hold
  have hgenerated : (drive g).Tries (fun _ => Creation.Unsent) (fun _ => Creation.Unsent)
      GoogleWriter.generatedId t :=
    Game.tries_only generatedId_only
      ⟨Creation.unsent_stable, fun hr hs hw hanswer => unsent_framed.answers hr hs hw hanswer⟩
      (fun r s hr _ hw => reserves_allowed hr hw) ht hold
  refine hgenerated.bind ht ?_
  intro id u hu hold
  refine (Game.tries_ofExcept fun _ _ => hold).bind hu ?_
  rintro checkpoint v _ ⟨hcheckpoint, rfl⟩
  refine Game.tries_pure ⟨hold, ?_⟩
  rw [preparedCheckpoint_eq_ok hcheckpoint]
  exact continues_unsent (hnew.prepared_fits _) hold trivial

/-! ## Reconciliation -/

/-- What was not committed was looked for and not found. -/
def Found (result : Reconciliation) (w : Creation) : Prop := result = .uncommitted → w.unread = []

/-- An item that is not found was not created by a request that is still unread. -/
theorem readFile_tries {id : String} (hs : w.Sound g) (hw : w.Holding (some text))
    (hread : g.saved.fromStr text = some saved) (hid : saved.id = id) :
    (drive g).Tries (fun _ => Creation.Holding (some text))
      (fun e t => t.Holding (some text) ∧ (e = .provider .notFound → t.unread = []))
      (g.readFile id) w := by
  have hother : ∀ {e : UploadError} {t : Creation}, t.Holding (some text) →
      e ≠ .provider .notFound → t.Holding (some text) ∧
        (e = .provider .notFound → t.unread = []) :=
    fun hold hne => ⟨hold, fun heq => absurd heq hne⟩
  unfold GoogleWriter.readFile
  refine (Game.tries_ofExcept ?_).bind hs ?_
  · intro e he
    refine hother hw ?_
    rintro rfl
    unfold validId at he
    split at he
    · cases he
    · cases he
  rintro _ t ht ⟨-, rfl⟩
  have hask : (drive g).Tries
      (fun a u => u.Holding (some text) ∧ (a = .error .notFound → u.unread = []))
      (fun e u => u.Holding (some text) ∧ (e = .provider .notFound → u.unread = []))
      (Exchange.ask (.file id)) t := by
    refine Game.tries_question Creation.holding_stable ht hw ?_
    intro u hu hold
    refine ⟨trivial, ?_⟩
    rintro a v ⟨_, rfl, hanswer⟩ -
    have hremote : u.remote (.file id) (some a) v := hanswer
    obtain ⟨hrecord, hvault⟩ := Creation.remote_local hremote
    refine ⟨⟨hrecord ▸ hold.1, hvault.trans hold.2⟩, ?_⟩
    rintro rfl
    have hfound : id ∉ u.items ∧ v = u.finds id := hanswer
    rw [hfound.2]
    apply List.filter_eq_nil_iff.mpr
    intro other hunread
    obtain ⟨held, hheld, rfl⟩ := hu.held (Creation.idle_of_inFlight hold.1).1 other hunread
    rw [← hid, Option.some.inj (hheld.symm.trans (saved_of_holding hold hread))]
    simp
  refine hask.bind ht ?_
  rintro file u hu ⟨hold, hmissing⟩
  refine (Game.tries_ofExcept ?_).bind hu ?_
  · intro e he
    refine ⟨hold, ?_⟩
    rintro rfl
    cases file with
    | ok f => cases he
    | error e =>
      obtain rfl : e = .notFound := by simpa [Except.mapError] using he
      exact hmissing rfl
  rintro f v hv ⟨-, rfl⟩
  refine (tries_refuseIf fun _ => hother hold (by rintro ⟨⟩)).bind hv ?_
  rintro _ v hv ⟨-, rfl⟩
  refine (tries_refuseIf fun _ => hother hold (by rintro ⟨⟩)).bind hv ?_
  rintro _ v hv ⟨-, rfl⟩
  exact Game.tries_pure hold

theorem reconciledFile_tries (hnew : NewFile request parent name) (hs : w.Sound g)
    (hw : w.Holding (some text)) (hread : g.saved.fromStr text = some saved) :
    (drive g).Tries
      (fun found t => t.Holding (some text) ∧ ∀ result, found = .error result → Found result t)
      (fun _ => Creation.Holding (some text)) (g.reconciledFile request saved) w := by
  unfold GoogleWriter.reconciledFile
  rw [hnew.intent]
  refine (Game.Tries.attempt hs (readFile_tries hs hw hread rfl)).bind hs ?_
  intro found t ht hfound
  split
  · exact Game.tries_pure ⟨hfound, by rintro _ ⟨⟩⟩
  · obtain ⟨hold, hunread⟩ := hfound
    cases saved with
    | prepared _ _ _ =>
      refine Game.tries_pure ⟨hold, ?_⟩
      rintro result heq -
      exact hunread rfl
    | session _ _ _ _ _ _ => exact Game.tries_throw hold
  · exact Game.tries_throw hfound.1

theorem reconcileContents_tries (hnew : NewFile request parent name) (hs : w.Sound g)
    (hw : w.Holding (some text)) (hread : g.saved.fromStr text = some saved) :
    (drive g).Tries (fun result t => t.Holding (some text) ∧ Found result t)
      (fun _ => Creation.Holding (some text)) (g.reconcileContents request saved) w := by
  have hunwritten : ∀ node, GoogleWriter.unwritten request node = .conflict := by
    intro node
    rw [GoogleWriter.unwritten, hnew.intent]
  unfold GoogleWriter.reconcileContents
  refine (reconciledFile_tries hnew hs hw hread).bind hs ?_
  rintro found t ht ⟨hold, hfound⟩
  split
  · next result => exact Game.tries_pure ⟨hold, hfound result rfl⟩
  dsimp only
  split
  · exact Game.tries_pure ⟨hold, by rintro ⟨⟩⟩
  split
  · rw [hunwritten]
    exact Game.tries_pure ⟨hold, by rintro ⟨⟩⟩
  · refine (tries_reads readContents_only ht hold).bind ht ?_
    intro read u hu hold
    split
    · exact Game.tries_pure ⟨hold, by rintro ⟨⟩⟩
    · rw [hunwritten]
      exact Game.tries_pure ⟨hold, by rintro ⟨⟩⟩

/-- Without a checkpoint in the vault nothing was created. -/
theorem unread_of_holding_none (hs : w.Sound g) (hw : w.Holding none) : w.unread = [] := by
  cases hunread : w.unread with
  | nil => rfl
  | cons id ids =>
    obtain ⟨saved, hsaved, _⟩ := hs.held (Creation.idle_of_inFlight hw.1).1 id
      (hunread ▸ List.mem_cons_self)
    rw [Creation.saved, hw.2] at hsaved
    cases hsaved

theorem reconcileUpload_provides {vault : Option String}
    (hnew : NewFile request parent name) (hs : w.Sound g) (hw : w.Holding vault) :
    Provides g (Creation.Holding vault) Found w (g.reconcileUpload request vault) := by
  unfold GoogleWriter.reconcileUpload
  split
  · exact provides_error hw
  split
  · exact ⟨hw, fun _ => unread_of_holding_none hs hw⟩
  split
  · exact provides_error hw
  · next hload =>
    have hread := (loadUpload_eq_ok hload).1
    have hunder : GoogleWriter.underVersion request = false := by
      rw [GoogleWriter.underVersion, hnew.intent]
    rw [hunder]
    refine uploadCall_provides (Dialogue.only_true _) trivial Creation.holding_framed hs hw ?_
    exact fun t ht hold => reconcileContents_tries hnew ht hold hread

end Calls

end Cirrove.Google
