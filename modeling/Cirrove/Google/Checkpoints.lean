import Cirrove.Google.Asking
import Cirrove.Library.Runs

/-!
# Checkpoints of Google uploads

Every checkpoint the adapter writes is one it loads again, and every part it asks for is one of the
file (`Emitted`): the two sides of the arithmetic, that of `session_checkpoint` and that of
`load_upload`, agree.
-/

namespace Cirrove.Google

open Cirrove.Library
open Cirrove.Upload

theorem partSize_pos : 0 < partSize := by decide

theorem alignment_dvd_partSize : alignment ∣ partSize := by decide

/-! ## Checkpoints are read back -/

theorem SavedUpload.encoded_injective : Function.Injective SavedUpload.encoded := by
  intro a b h
  have hphase : ∀ rest rest' : List Char, Json.quoted "prepared".toList ++ rest ≠
      Json.quoted "session".toList ++ rest' := by
    intro rest rest' heq
    exact absurd (String.toList_injective (Json.quoted_append_inj heq).1) (by decide)
  cases a with
  | prepared version request id =>
    cases b with
    | prepared version' request' id' =>
      have h := String.ofList_injective h
      simp only [List.cons.injEq, true_and, List.append_cancel_left_eq] at h
      obtain ⟨hversion, h⟩ := Json.number_append_inj (by decide) (by decide) h
      simp only [List.cons.injEq, true_and, List.append_cancel_left_eq] at h
      obtain ⟨hrequest, h⟩ := UploadRequest.encoded_append_inj h
      simp only [List.cons.injEq, true_and, List.append_cancel_left_eq] at h
      obtain ⟨hid, -⟩ := Json.quoted_append_inj h
      rw [hversion, hrequest, String.toList_injective hid]
    | session version' request' id' url' offset' length' =>
      have h := String.ofList_injective h
      simp only [List.cons.injEq, true_and, List.append_cancel_left_eq] at h
      exact absurd h (hphase _ _)
  | session version request id url offset length =>
    cases b with
    | prepared version' request' id' =>
      have h := String.ofList_injective h
      simp only [List.cons.injEq, true_and, List.append_cancel_left_eq] at h
      exact absurd h.symm (hphase _ _)
    | session version' request' id' url' offset' length' =>
      have h := String.ofList_injective h
      simp only [List.cons.injEq, true_and, List.append_cancel_left_eq] at h
      obtain ⟨hversion, h⟩ := Json.number_append_inj (by decide) (by decide) h
      simp only [List.cons.injEq, true_and, List.append_cancel_left_eq] at h
      obtain ⟨hrequest, h⟩ := UploadRequest.encoded_append_inj h
      simp only [List.cons.injEq, true_and, List.append_cancel_left_eq] at h
      obtain ⟨hid, h⟩ := Json.quoted_append_inj h
      simp only [List.cons.injEq, true_and, List.append_cancel_left_eq] at h
      obtain ⟨hurl, h⟩ := Json.quoted_append_inj h
      simp only [List.cons.injEq, true_and, List.append_cancel_left_eq] at h
      obtain ⟨hoffset, h⟩ := Json.number_append_inj (by decide) (by decide) h
      simp only [List.cons.injEq, true_and, List.append_cancel_left_eq] at h
      obtain ⟨hlength, -⟩ := Json.number_append_inj (by decide) (by decide) h
      rw [hversion, hrequest, String.toList_injective hid, String.toList_injective hurl, hoffset,
        hlength]

open Classical in
/-- A reader that knows nothing but the text checkpoints are written as. -/
noncomputable def CheckpointReader.canonical : CheckpointReader where
  fromStr text := if h : ∃ saved : SavedUpload, saved.encoded = text then some h.choose else none
  reads saved _ := by
    have hsome : ∃ saved' : SavedUpload, saved'.encoded = saved.encoded := ⟨saved, rfl⟩
    rw [dif_pos hsome, SavedUpload.encoded_injective hsome.choose_spec]

/-! ## What is written -/

/-- What loading the checkpoint comes to: it is read back, or it is too long. A session's URL is the
    service's, and nothing bounds it when the checkpoint is written. -/
def Loads (g : GoogleWriter) (request : UploadRequest) (checkpoint : String) (saved : SavedUpload) :
    Prop :=
  checkpoint = saved.encoded ∧ g.loadUpload request checkpoint =
    if checkpoint.utf8ByteSize ≤ maxCheckpoint then .ok saved else .error .checkpointInvalid

/-- What the adapter writes it reads again, and the part it asks for is one of the file. -/
def Emitted (g : GoogleWriter) (request : UploadRequest) : UploadStep → Prop
  | .prepared checkpoint => ∃ id, Loads g request checkpoint (.prepared 1 request id)
  | .continue checkpoint offset length =>
    (∃ id url, Loads g request checkpoint (.session 1 request id url offset length)) ∧
    0 < length ∧ offset + length ≤ request.size ∧ length ≤ partSize ∧
    (offset + length = request.size ∨ alignment ∣ length)
  | .commit _ => False
  | .complete _ => True

section

variable {g : GoogleWriter} {request : UploadRequest} {id url checkpoint : String} {offset : Nat}
  {step : UploadStep}

/-- A checkpoint that is loaded is one of the request, under a valid identity. -/
theorem loadUpload_eq_ok {saved : SavedUpload} (h : g.loadUpload request checkpoint = .ok saved) :
    g.saved.fromStr checkpoint = some saved ∧ validId saved.id = .ok () := by
  unfold GoogleWriter.loadUpload at h
  split at h
  · cases h
  split at h
  · cases h
  next saved' hread =>
  split at h
  · cases h
  next hsound =>
  have hid : validId saved'.id = .ok () := by
    cases hvalid : validId saved'.id with
    | ok u => rfl
    | error e =>
      rw [hvalid] at hsound
      exact absurd (.inr (.inr rfl)) hsound
  cases saved' with
  | prepared version request' id' =>
    cases h
    exact ⟨hread, hid⟩
  | session version request' id' url' offset' length' =>
    dsimp only at h
    split at h
    · cases h
    split at h
    · cases h
    cases h
    exact ⟨hread, hid⟩

theorem Loads.of_short {saved : SavedUpload}
    (h : saved.encoded.utf8ByteSize ≤ maxCheckpoint →
      g.loadUpload request saved.encoded = .ok saved) : Loads g request saved.encoded saved := by
  refine ⟨rfl, ?_⟩
  split
  · next hshort => exact h hshort
  · next hlong => rw [GoogleWriter.loadUpload, if_pos (Nat.not_le.mp hlong)]

variable (hsize : request.size < 2 ^ 64)
include hsize

/-- A reserved identity is loaded as it was written. -/
theorem prepared_loads (hid : validId id = .ok ())
    (hshort : (SavedUpload.prepared 1 request id).encoded.utf8ByteSize ≤ maxCheckpoint) :
    g.loadUpload request (SavedUpload.prepared 1 request id).encoded =
      .ok (.prepared 1 request id) := by
  have hfits : (SavedUpload.prepared 1 request id).Fits := ⟨show 1 < 2 ^ 8 by decide, hsize, trivial⟩
  rw [GoogleWriter.loadUpload, if_neg (Nat.not_lt.mpr hshort), g.saved.reads _ hfits]
  simp only [SavedUpload.version, SavedUpload.request, SavedUpload.id, hid]
  rw [if_neg (by simp [Except.toBool])]

theorem preparedCheckpoint_emitted
    (h : GoogleWriter.preparedCheckpoint request id = .ok checkpoint) :
    Emitted g request (.prepared checkpoint) := by
  unfold GoogleWriter.preparedCheckpoint at h
  split at h
  · cases h
  · next hid =>
    obtain rfl := Except.ok.inj h
    exact ⟨id, .of_short (prepared_loads hsize hid)⟩

/-- The part of a session is one of the file, and is checked alike when it is loaded. -/
theorem sessionCheckpoint_emitted (hid : validId id = .ok ())
    (h : g.sessionCheckpoint request id url offset = .ok step) : Emitted g request step := by
  unfold GoogleWriter.sessionCheckpoint at h
  obtain ⟨parsed, hurl, h⟩ := bind_eq_ok h
  dsimp only at h
  split at h
  · cases h
  next hoffset =>
  split at h
  · cases h
  next hwhole =>
  have hpos := partSize_pos
  have hpart : partSize < 2 ^ 32 := by decide
  generalize hlength : min (request.size - offset) partSize = length at h hwhole
  have hbounds : 0 < length ∧ offset + length ≤ request.size ∧ length ≤ partSize := by omega
  have hend : offset + length = request.size ∨ length % alignment = 0 := by
    by_cases hmore : length < request.size - offset
    · exact .inr (not_not.mp fun hunaligned => hwhole ⟨hmore, hunaligned⟩)
    · left
      omega
  cases h
  have hfits : (SavedUpload.session 1 request id url offset length).Fits :=
    ⟨show 1 < 2 ^ 8 by decide, hsize, by omega, by omega⟩
  refine ⟨⟨id, url, .of_short fun hshort => ?_⟩, hbounds.1, hbounds.2.1, hbounds.2.2,
    hend.imp_right Nat.dvd_of_mod_eq_zero⟩
  rw [GoogleWriter.loadUpload, if_neg (Nat.not_lt.mpr hshort), g.saved.reads _ hfits]
  simp only [SavedUpload.version, SavedUpload.request, SavedUpload.id, hid, hurl]
  rw [if_neg (by simp [Except.toBool]), if_neg]
  rintro (hzero | hlong | hpast | hover | ⟨hmore, hunaligned⟩)
  · omega
  · omega
  · omega
  · omega
  · exact hunaligned (hend.resolve_left (by omega))

/-! ## The steps of the calls -/

theorem openSession_emitted {message : Message} (hid : validId id = .ok ())
    (h : (g.openSession request id message).run.Ends (.ok step)) : Emitted g request step := by
  unfold GoogleWriter.openSession at h
  obtain ⟨response, -, h⟩ := Dialogue.ends_ok h
  obtain ⟨_, -, h⟩ := Dialogue.ends_ok h
  split at h
  · cases not_ends_throw h
  · exact sessionCheckpoint_emitted hsize hid (ends_ofExcept h)

theorem beginSession_emitted (hid : validId id = .ok ())
    (h : (g.beginSession request id).run.Ends (.ok step)) : Emitted g request step := by
  unfold GoogleWriter.beginSession at h
  split at h
  · exact openSession_emitted hsize hid h
  split at h
  · obtain ⟨_, -, h⟩ := Dialogue.ends_ok h
    obtain ⟨current, -, h⟩ := Dialogue.ends_ok h
    obtain ⟨version, -, h⟩ := Dialogue.ends_ok h
    obtain ⟨_, -, h⟩ := Dialogue.ends_ok h
    obtain ⟨etag, -, h⟩ := Dialogue.ends_ok h
    obtain ⟨session, -, h⟩ := Dialogue.ends_ok h
    exact sessionCheckpoint_emitted hsize hid (ends_ofExcept h)
  · obtain ⟨_, -, h⟩ := Dialogue.ends_ok h
    exact openSession_emitted hsize hid h

omit hsize in
/-- A receipt completes the upload. -/
theorem completed_emitted {call : Exchange Node}
    (h : (do return .complete (← call) : Exchange UploadStep).run.Ends (.ok step)) :
    Emitted g request step := by
  obtain ⟨node, -, h⟩ := Dialogue.ends_ok h
  rw [← ends_return h]
  trivial

omit hsize in
theorem observed_emitted {node : Node} (h : (g.observed request node).run.Ends (.ok step)) :
    Emitted g request step := by
  unfold GoogleWriter.observed at h
  obtain ⟨_, -, h⟩ := Dialogue.ends_ok h
  obtain ⟨digest, -, h⟩ := Dialogue.ends_ok h
  obtain ⟨_, -, h⟩ := Dialogue.ends_ok h
  exact completed_emitted h

theorem inspectPrepared_emitted (hid : validId id = .ok ())
    (h : (g.inspectPrepared request id).run.Ends (.ok step)) : Emitted g request step := by
  unfold GoogleWriter.inspectPrepared at h
  split at h
  · obtain ⟨file, -, h⟩ := Dialogue.ends_ok h
    split at h
    · obtain ⟨node, -, h⟩ := Dialogue.ends_ok h
      exact completed_emitted h
    · split at h
      · unfold GoogleWriter.createEmpty at h
        obtain ⟨response, -, h⟩ := Dialogue.ends_ok h
        exact completed_emitted h
      · exact beginSession_emitted hsize hid h
    · cases not_ends_throw h
  split at h
  · obtain ⟨current, -, h⟩ := Dialogue.ends_ok h
    obtain ⟨version, -, h⟩ := Dialogue.ends_ok h
    obtain ⟨file, -, h⟩ := Dialogue.ends_ok h
    obtain ⟨_, -, h⟩ := Dialogue.ends_ok h
    obtain ⟨node, -, h⟩ := Dialogue.ends_ok h
    dsimp only at h
    split at h
    · split at h
      · obtain ⟨etag, -, h⟩ := Dialogue.ends_ok h
        unfold GoogleWriter.replaceV2Empty at h
        obtain ⟨response, -, h⟩ := Dialogue.ends_ok h
        obtain ⟨file, -, h⟩ := Dialogue.ends_ok h
        obtain ⟨node, -, h⟩ := Dialogue.ends_ok h
        exact completed_emitted h
      · exact beginSession_emitted hsize hid h
    · exact observed_emitted h
  · obtain ⟨⟨file, etag⟩, -, h⟩ := Dialogue.ends_ok h
    obtain ⟨node, -, h⟩ := Dialogue.ends_ok h
    split at h
    · exact beginSession_emitted hsize hid h
    · exact observed_emitted h

theorem sessionAnswer_emitted {next : Response → Except UploadError Nat}
    {sent : Except UploadError Response} (hid : validId id = .ok ())
    (h : (g.sessionAnswer request id url next sent).run.Ends (.ok step)) :
    Emitted g request step := by
  unfold GoogleWriter.sessionAnswer at h
  split at h
  · split at h
    · obtain ⟨offset, -, h⟩ := Dialogue.ends_ok h
      exact sessionCheckpoint_emitted hsize hid (ends_ofExcept h)
    · exact completed_emitted h
  · have hprepared := ends_ofExcept h
    cases hcheckpoint : GoogleWriter.preparedCheckpoint request id with
    | error e =>
      rw [hcheckpoint] at hprepared
      cases hprepared
    | ok checkpoint =>
      rw [hcheckpoint] at hprepared
      cases hprepared
      exact preparedCheckpoint_emitted hsize hcheckpoint
  · cases not_ends_throw h

theorem beginUpload_emitted (h : (g.beginUpload request).Ends (.ok step)) :
    Emitted g request step := by
  unfold GoogleWriter.beginUpload at h
  split at h
  · cases Dialogue.ends_done h
  split at h
  · obtain ⟨id, -, h⟩ := Dialogue.ends_ok (ends_uploadCall h)
    obtain ⟨checkpoint, hcheckpoint, h⟩ := Dialogue.ends_ok h
    rw [← ends_return h]
    exact preparedCheckpoint_emitted hsize (ends_ofExcept hcheckpoint)
  · next item _ _ =>
    have hprepared := Dialogue.ends_done h
    cases hcheckpoint : GoogleWriter.preparedCheckpoint request item with
    | error e =>
      rw [hcheckpoint] at hprepared
      cases hprepared
    | ok checkpoint =>
      rw [hcheckpoint] at hprepared
      cases hprepared
      exact preparedCheckpoint_emitted hsize hcheckpoint

omit hsize in
theorem loads_checked {saved : SavedUpload} (hcheck : g.checkUpload request = .ok ())
    (h : g.loadUpload request checkpoint = .ok saved) :
    (g.checkUpload request >>= fun () => g.loadUpload request checkpoint) = .ok saved := by
  rw [hcheck, ← h]
  rfl

omit hsize in
theorem loaded_of_checked {saved : SavedUpload}
    (h : (g.checkUpload request >>= fun () => g.loadUpload request checkpoint) = .ok saved) :
    validId saved.id = .ok () := by
  obtain ⟨_, -, h⟩ := bind_eq_ok h
  exact (loadUpload_eq_ok h).2

theorem inspectUpload_emitted (h : (g.inspectUpload request checkpoint).Ends (.ok step)) :
    Emitted g request step := by
  unfold GoogleWriter.inspectUpload at h
  split at h
  · cases Dialogue.ends_done h
  · next hload => exact inspectPrepared_emitted hsize (loaded_of_checked hload) (ends_uploadCall h)
  · next hload =>
    obtain ⟨sent, -, h⟩ := Dialogue.ends_ok (ends_uploadCall h)
    exact sessionAnswer_emitted hsize (loaded_of_checked hload) h

theorem uploadPart_emitted {bytes : Bytes}
    (h : (g.uploadPart request checkpoint offset bytes).Ends (.ok step)) :
    Emitted g request step := by
  unfold GoogleWriter.uploadPart at h
  split at h
  · cases Dialogue.ends_done h
  · cases Dialogue.ends_done h
  · next hload =>
    split at h
    · cases Dialogue.ends_done h
    · obtain ⟨sent, -, h⟩ := Dialogue.ends_ok (ends_uploadCall h)
      exact sessionAnswer_emitted hsize (loaded_of_checked hload) h

end

theorem sample_named : "me" ≠ "" := by decide

theorem sample_valid : validId "drive" = .ok () := by decide +kernel

theorem sample_real : "drive" ≠ "root" := by decide

/-- A drive that is written to. -/
noncomputable def sampleWriter : GoogleWriter where
  account := "me"
  collection := "drive"
  sharedDrive := false
  rfc3339 := fun _ => none
  reader := .canonical
  account_named := sample_named
  collection_valid := sample_valid
  collection_real := sample_real
  settleWriteReceipts := false
  endpoint := ⟨"", none, none, some ("https", "www.googleapis.com", 443), "/",
    "https://www.googleapis.com/"⟩
  parseUrl := fun _ => none
  saved := .canonical
  sha256 := fun _ => ""

/-- A file of one byte. -/
def sampleRequest : UploadRequest where
  scope := ⟨"me", "googledrive", "drive"⟩
  intent := .create "folder" "note.txt"
  size := 1
  sha256 := "ca978112ca1bbdcafac231b39a23dc4da786eff8147c4e72b9807785afee48bb"

/-- Where the drive opens a session. -/
def sampleSession : String :=
  "https://www.googleapis.com/upload/drive/v3/files?uploadType=resumable&upload_id=1"

/-- A drive that opens sessions. -/
noncomputable def sampleSessions : GoogleWriter :=
  { sampleWriter with
    parseUrl := fun text => if text = sampleSession then
      some ⟨"", none, none, some ("https", "www.googleapis.com", 443), "/upload/drive/v3/files",
        sampleSession⟩ else none }

def sampleOpened : Response where
  status := 200
  location := some sampleSession
  range := none
  etag := none
  retryAfter := 1
  reasons := []
  broken := none
  file := none
  v2File := none

/-- A file of more than one part. -/
def longRequest : UploadRequest := { sampleRequest with size := partSize + 1 }

/-- The file is not there, and a session is opened for it. -/
theorem long_opened : (sampleSessions.inspectUpload longRequest
    (SavedUpload.prepared 1 longRequest "a").encoded).Ends (.ok (.continue
      (SavedUpload.session 1 longRequest "a" sampleSession 0 partSize).encoded 0 partSize)) := by
  have hcheck : sampleSessions.checkUpload longRequest = .ok () := by decide +kernel
  have hvalid : validId "a" = .ok () := by decide +kernel
  have hloaded : (sampleSessions.checkUpload longRequest >>= fun () =>
      sampleSessions.loadUpload longRequest (SavedUpload.prepared 1 longRequest "a").encoded) =
        .ok (.prepared 1 longRequest "a") :=
    loads_checked hcheck (prepared_loads (by decide) hvalid (by decide +kernel))
  have hsession : sampleSessions.sessionCheckpoint longRequest "a" sampleSession 0 = .ok (.continue
      (SavedUpload.session 1 longRequest "a" sampleSession 0 partSize).encoded 0 partSize) := by
    have hurl : (sampleSessions.sessionUrl sampleSession).toBool = true := by decide +kernel
    unfold GoogleWriter.sessionCheckpoint
    cases h : sampleSessions.sessionUrl sampleSession with
    | error e =>
      rw [h] at hurl
      cases hurl
    | ok url => rfl
  unfold GoogleWriter.inspectUpload
  rw [hloaded]
  show (GoogleWriter.uploadCall (sampleSessions.inspectPrepared longRequest "a")).Ends _
  unfold GoogleWriter.uploadCall GoogleWriter.inspectPrepared GoogleWriter.readFile
  rw [hvalid]
  refine .ask (some (Except.ok ())) (.ask (some (Except.error .notFound))
    (.ask (some (Except.ok sampleOpened)) ?_))
  show (Dialogue.done (sampleSessions.sessionCheckpoint longRequest "a" sampleSession 0)).Ends _
  rw [hsession]
  exact .done

end Cirrove.Google
