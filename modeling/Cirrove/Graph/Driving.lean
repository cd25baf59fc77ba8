import Cirrove.Graph.Replies
import Cirrove.Library.Utf8

/-!
# Transfers that are driven to their end

The worker's loop over `upload_part`, from a session that was just begun or was inspected after an
interruption. The service keeps a beginning of whole parts and reports what is missing (`Honest`);
then every missing byte is sent once and in order, in as few parts as there can be, and the transfer
ends, unless a session on the way is too long as text to be loaded (`drive_iff`, `transfer_iff`).
-/

namespace Cirrove.Graph

open Cirrove.Library
open Cirrove.Upload
open Cirrove.Journal (UploadIntent)

/-! ## A whole transfer -/

/-- How a transfer is taken up: begun, or inspected after an interruption. -/
inductive Opening where
  | begun (metadata : Except UploadError (Option DriveItem)) (answer : Except UploadError Response)
  | inspected (begun : Nat) (checkpoint : String) (answer : Except UploadError Response)

def Opening.answer : Opening → Except UploadError Response
  | .begun _ answer => answer
  | .inspected _ _ answer => answer

/-- A transfer and what answers it: the service keeps `kept` bytes when it is taken up, knows the
session under one URL and lets it expire at `expires k` when it asks for part `k`. Part `k` is under
way between the two moments of `clock k`. -/
structure Course where
  opening : Opening
  answered : Nat
  clock : Nat → Nat × Nat
  send : Nat → SentPart → Except UploadError Response
  kept : Nat
  url : String
  target : Option (String × String)
  expires : Nat → Nat

section

variable (od : OneDrive) (request : UploadRequest) (payload : List UInt8) (course : Course)

def Course.first : Except UploadError UploadStep :=
  match course.opening with
  | .begun metadata answer => od.beginUpload course.answered request metadata answer
  | .inspected begun checkpoint answer =>
    od.inspectUpload begun course.answered request checkpoint answer

/-- The worker's loop over the parts of a payload. -/
def Course.drive : Nat → Nat → UploadStep → List SentPart × Except UploadError UploadStep
  | fuel + 1, k, .continue checkpoint offset length =>
    match od.uploadPart (course.clock k).1 (course.clock k).2 request checkpoint offset
        ((payload.drop offset).take length) (course.send k) with
    | (sent, .error e) => (sent.toList, .error e)
    | (sent, .ok next) =>
      let (more, result) := Course.drive fuel (k + 1) next
      (sent.toList ++ more, result)
  | _, _, step => ([], .ok step)

/-- The transfer with at most `fuel` parts: what is sent and the step it stops at. -/
def Course.transfer (fuel : Nat) : List SentPart × Except UploadError UploadStep :=
  match course.first od request with
  | .error e => ([], .error e)
  | .ok step => course.drive od request payload fuel 0 step

/-! ## A service that keeps whole parts -/

/-- A reply about the session. -/
structure Course.Says (answered expires : Nat) (reply : SessionReply) : Prop where
  url : reply.uploadUrl = none ∨ reply.uploadUrl = some course.url
  expiry : od.rfc3339 reply.expirationDateTime = some (expires : Int)
  valid : answered < expires

/-- An item that is the file a request creates. -/
structure Created (parent name : String) (item : DriveItem) : Prop where
  id : item.id ≠ ""
  name : item.name = some name
  parent : item.parentReference.bind Parent.id = some parent
  drive : item.driveId = some request.scope.collection
  size : item.size = some request.size
  file : item.file = true ∧ item.folder = false ∧ item.package = false ∧ item.deleted = false ∧
    item.remoteItem = none
  revision : item.cTag.any (· ≠ "") = true ∨ item.eTag.any (· ≠ "") = true

/-- The answer to a part that was kept. -/
def Course.Keeps (k : Nat) (sent : SentPart) : Prop :=
  if sent.last + 1 < request.size then
    ∃ response reply, course.send k sent = .ok response ∧ response.status = 202 ∧
      response.body = true ∧ response.reply = some reply ∧
      course.Says od (course.clock k).2 (course.expires (k + 1)) reply ∧
      (course.clock (k + 1)).1 < course.expires (k + 1) ∧
      ∃ ranges, reply.nextExpectedRanges = some ranges ∧
        MissingFrom request.size (sent.last + 1) ranges
  else
    match request.intent with
    | .create parent name =>
      ∃ response item, course.send k sent = .ok response ∧
        (response.status = 200 ∨ response.status = 201) ∧ response.body = true ∧
        response.item = some item ∧ Created request parent name item
    | .replace _ _ =>
      ∃ response reply, course.send k sent = .ok response ∧ response.status = 202 ∧
        response.body = true ∧ response.reply = some reply ∧
        course.Says od (course.clock k).2 (course.expires (k + 1)) reply ∧
        ∀ ranges, reply.nextExpectedRanges = some ranges →
          MissingFrom request.size request.size ranges

/-- The answer a transfer is taken up with. The ranges may be missing where nothing is kept or
everything. -/
def Course.Opens (reply : SessionReply) : Prop :=
  match course.opening with
  | .begun metadata _ =>
    course.kept = 0 ∧ reply.uploadUrl = some course.url ∧
      (∀ ranges, reply.nextExpectedRanges = some ranges → MissingFrom request.size 0 ranges) ∧
      uploadTarget request metadata = .ok course.target
  | .inspected begun checkpoint _ =>
    (∃ session, od.loadSession begun request checkpoint = .ok session ∧
      session.url = course.url ∧ session.commitTarget = course.target) ∧
    (reply.nextExpectedRanges = none → course.kept = request.size) ∧
    ∀ ranges, reply.nextExpectedRanges = some ranges →
      MissingFrom request.size course.kept ranges

/-- The parts that are missing when the transfer is taken up. -/
def Course.missing : List (Nat × Nat) :=
  partsFrom partSize request.size (partCount partSize request.size course.kept) course.kept

/-- A part of the payload under way. -/
def Course.part (part : Nat × Nat) : SentPart where
  url := course.url
  first := part.1
  last := part.1 + part.2 - 1
  size := request.size
  bytes := (payload.drop part.1).take part.2

/-- The session when part `k` is asked for. -/
def Course.session (k : Nat) (part : Nat × Nat) : Session where
  version := 1
  request := request
  url := course.url
  expiresAt := course.expires k
  offset := part.1
  length := part.2
  commitTarget := course.target

/-- The step that asks for the longest part at an offset, as part `k`. -/
def Course.asks (k offset : Nat) : UploadStep :=
  let part := (offset, partLength partSize request.size offset)
  .continue (course.session request k part).encoded part.1 part.2

/-- A service that keeps a beginning of whole parts and reports what is missing. -/
structure Course.Honest : Prop where
  deferred : course.target.isSome = (request.intent matches .replace _ _)
  url : ∃ url, od.sessionUrl course.url = .ok url
  kept : Kept alignment partSize request.size course.kept
  unfinished : course.target = none → course.kept < request.size
  opening : ∃ response reply, course.opening.answer = .ok response ∧ response.status = 200 ∧
    response.body = true ∧ response.reply = some reply ∧
    course.Says od course.answered (course.expires 0) reply ∧ course.Opens od request reply
  timely : course.kept < request.size → (course.clock 0).1 < course.expires 0
  parts : ∀ k part, (course.missing request)[k]? = some part →
    course.Keeps od request k (course.part request payload part)

/-! ## Delivery -/

/-- The steps a transfer ends with. -/
def Ended : UploadStep → Prop
  | .complete _ => ∃ parent name, request.intent = .create parent name
  | .commit _ => ∃ item etag, request.intent = .replace item etag
  | _ => False

/-- Every missing byte is sent once, in increasing order, and the transfer ends. -/
structure Course.Delivered (result : List SentPart × Except UploadError UploadStep) : Prop where
  bytes : result.1.flatMap SentPart.bytes = payload.drop course.kept
  positions : result.1.flatMap (fun sent => List.range' sent.first (sent.last + 1 - sent.first)) =
    List.range' course.kept (request.size - course.kept)
  parts : result.1.length = (request.size - course.kept) ⌈/⌉ partSize
  ended : ∃ step, result.2 = .ok step ∧ Ended request step

/-- What a transfer relies on: the sessions of its parts are short enough as text, and a session
that was inspected with nothing missing was reported with its ranges. -/
structure Course.Short : Prop where
  sessions : ∀ k part, (course.missing request)[k]? = some part →
    (course.session request k part).encoded.utf8ByteSize ≤ maxResponse
  ranges : course.kept = request.size → ∀ response reply, course.opening.answer = .ok response →
    response.reply = some reply → reply.nextExpectedRanges ≠ none

end

section

variable {od : OneDrive} {request : UploadRequest} {payload : List UInt8} {course : Course}

/-! ## One part -/

/-- A part whose session can be loaded is sent. -/
theorem uploadPart_short (hcheck : od.checkUpload request = .ok ())
    (hurl : ∃ url, od.sessionUrl course.url = .ok url) (hpayload : payload.length = request.size)
    {k offset length begun : Nat} (ended : Nat)
    (hpart : IsPart alignment partSize request.size offset length)
    (hbegun : begun < course.expires k) (send : SentPart → Except UploadError Response)
    (hshort : (course.session request k (offset, length)).encoded.utf8ByteSize ≤ maxResponse) :
    od.uploadPart begun ended request (course.session request k (offset, length)).encoded offset
        ((payload.drop offset).take length) send =
      (some (course.part request payload (offset, length)),
        (send (course.part request payload (offset, length))).bind
          (od.partAnswered ended request (course.session request k (offset, length))
            (offset + length))) := by
  have hemits : Emits request (.continue (course.session request k (offset, length)).encoded offset
      length) (course.session request k (offset, length)) := .continue hpart
  have hload : od.loadSession begun request (course.session request k (offset, length)).encoded =
      .ok (course.session request k (offset, length)) :=
    (loadSession_iff hemits rfl rfl hurl hbegun).mpr hshort
  have hbytes : ((payload.drop offset).take length).length = length := by
    have hinside := hpart.inside
    rw [List.length_take, List.length_drop, hpayload]
    omega
  have hlength : (course.session request k (offset, length)).length = length := rfl
  have hfirst : (course.session request k (offset, length)).offset = offset := rfl
  have hpos : length ≠ 0 := Nat.pos_iff_ne_zero.mp hpart.pos
  simp only [OneDrive.uploadPart, hcheck, hload, bind, Except.bind, hlength, hfirst, hbytes, hpos,
    ne_eq, not_true, or_self, if_false]
  rfl

/-- A part whose session is too long as text is not sent. -/
theorem uploadPart_long (hcheck : od.checkUpload request = .ok ()) {checkpoint : String}
    (offset begun ended : Nat) (bytes : List UInt8)
    (send : SentPart → Except UploadError Response)
    (hlong : maxResponse < checkpoint.utf8ByteSize) :
    od.uploadPart begun ended request checkpoint offset bytes send =
      (none, .error .checkpointInvalid) := by
  simp [OneDrive.uploadPart, hcheck, OneDrive.loadSession, hlong, bind, Except.bind]

theorem Course.Says.expiry_ok {answered expires : Nat} {reply : SessionReply}
    (h : course.Says od answered expires reply) :
    od.expiry answered reply.expirationDateTime = .ok expires := by
  have hvalid := h.valid
  simp only [OneDrive.expiry, h.expiry, Int.toNat_natCast]
  rw [if_neg (by omega), if_neg (by omega)]

theorem missing_not_ready {kept : Nat} {ranges : List String} (hkept : kept < request.size)
    (h : MissingFrom request.size kept ranges) (initial : Bool)
    (target : Option (String × String)) : isReady request initial target ranges = false := by
  have hother : ∀ rest : String, toString kept ++ "-" ++ rest ≠ toString request.size ++ "-" := by
    intro rest heq
    have hsplit := splitDash_number request.size ""
    rw [String.append_empty, ← heq, splitDash_number, Option.some.injEq, Prod.mk.injEq] at hsplit
    have hsame : kept = request.size := Json.number_injective (congrArg String.toList hsplit.1)
    omega
  rw [MissingFrom, if_pos hkept] at h
  rcases h with rfl | rfl
  · have hplain := hother ""
    rw [String.append_empty] at hplain
    simp only [isReady, List.cons_ne_nil, List.cons.injEq, and_true, hplain, decide_false,
      Bool.or_self, Bool.and_false]
  · simp only [isReady, List.cons_ne_nil, List.cons.injEq, and_true, hother, decide_false,
      Bool.or_self, Bool.and_false]

/-- A reply that says what is missing asks for the next part. -/
theorem progress_missing {now k offset : Nat} {reply : SessionReply} {existing : Option Session}
    (initial final : Bool) (ranges : List String)
    (hsize : request.size < 2 ^ 64) (hurl : ∃ url, od.sessionUrl course.url = .ok url)
    (hreply : replyUrl reply existing = .ok course.url)
    (hranges : replyRanges reply initial final course.target = .ok ranges)
    (hmissing : MissingFrom request.size offset ranges) (hoffset : offset < request.size)
    (haligned : alignment ∣ offset) (hinitial : initial = true → offset = 0)
    (hsaid : course.Says od now (course.expires k) reply) :
    od.progress now request reply existing initial course.target final =
      .ok (course.asks request k offset) := by
  obtain ⟨url, hurl⟩ := hurl
  have hnext := nextRange_missing hsize hoffset haligned hmissing
  have hready := missing_not_ready hoffset hmissing initial course.target
  have hstart : ¬ (initial = true ∧ offset ≠ 0) := by
    rintro ⟨htrue, hne⟩
    exact hne (hinitial htrue)
  simp only [OneDrive.progress, hreply, hurl, hranges, hready, replyPart, hnext, hsaid.expiry_ok,
    bind, Except.bind, hstart, if_false, Bool.false_eq_true]
  rfl

/-- A deferred transfer with nothing missing is ready for its commit. -/
theorem progress_ready {now k : Nat} {reply : SessionReply} {existing : Option Session}
    (final : Bool) (ranges : List String) (hurl : ∃ url, od.sessionUrl course.url = .ok url)
    (hreply : replyUrl reply existing = .ok course.url)
    (hranges : replyRanges reply false final course.target = .ok ranges)
    (hmissing : MissingFrom request.size request.size ranges)
    (htarget : course.target.isSome = true)
    (hsaid : course.Says od now (course.expires k) reply) :
    od.progress now request reply existing false course.target final =
      .ok (.commit (course.session request k (request.size, 0)).encoded) := by
  obtain ⟨url, hurl⟩ := hurl
  have hready : isReady request false course.target ranges = true := by
    rw [MissingFrom, if_neg (Nat.lt_irrefl _)] at hmissing
    simp only [isReady, htarget, Bool.not_false, Bool.and_self, Bool.true_and, Bool.or_eq_true,
      decide_eq_true_eq]
    exact hmissing
  simp only [OneDrive.progress, hreply, hurl, hranges, hready, replyPart, hsaid.expiry_ok,
    bind, Except.bind, if_true, Bool.false_eq_true, false_and, if_false]
  rfl

/-- The created file is a receipt. -/
theorem receipt_created (od : OneDrive) {parent name : String} {item : DriveItem} {response : Response}
    (hintent : request.intent = .create parent name) (hitem : response.item = some item)
    (h : Created request parent name item) : ∃ node, od.receipt request response = .ok node := by
  obtain ⟨hfile, hfolder, hpackage, hdeleted, hremote⟩ := h.file
  have hmap := mapItem_file od.rfc3339 h.id h.name hdeleted hremote hfolder hpackage hfile
  have hrevision : (item.fileNode od.rfc3339 name).contentRevision ≠ none := by
    have hsome : ∀ {tag : Option String}, tag.any (· ≠ "") = true →
        ∃ value, tag = some value ∧ value ≠ "" := by
      intro tag htag
      cases tag with
      | none => cases htag
      | some value => exact ⟨value, rfl, by simpa using htag⟩
    simp only [Node.contentRevision, DriveItem.fileNode, ne_eq, Option.or_eq_none_iff,
      Option.map_eq_none_iff, Option.filter_eq_none_iff]
    rintro ⟨hcontent, hetag⟩
    rcases h.revision with hany | hany
    · obtain ⟨value, hvalue, hne⟩ := hsome hany
      exact hcontent value hvalue (by simpa using hne)
    · obtain ⟨value, hvalue, hne⟩ := hsome hany
      exact hetag value hvalue (by simpa using hne)
  refine ⟨item.fileNode od.rfc3339 name, ?_⟩
  have hparent : (item.fileNode od.rfc3339 name).parentId = some parent := h.parent
  have hname : (item.fileNode od.rfc3339 name).name = name := rfl
  have hkind : (item.fileNode od.rfc3339 name).kind = .file := rfl
  simp [OneDrive.receipt, readAs, hitem, h.size, h.drive, hmap, hintent, hparent, hname, hkind,
    hrevision, bind, Except.bind]

theorem Course.Says.replyUrl {answered expires : Nat} {reply : SessionReply}
    (h : course.Says od answered expires reply) (session : Session) (hsession : session.url = course.url) :
    replyUrl reply (some session) = .ok course.url := by
  rcases h.url with hnone | hsome
  · simp [Graph.replyUrl, hnone, hsession]
  · simp [Graph.replyUrl, hsome, hsession]

theorem Course.part_last {offset length : Nat}
    (hpart : IsPart alignment partSize request.size offset length) :
    (course.part request payload (offset, length)).last + 1 = offset + length := by
  have hpos := hpart.pos
  show offset + length - 1 + 1 = offset + length
  omega

/-- A part that is not the last is answered with the next. -/
theorem partAnswered_more (hsize : request.size < 2 ^ 64)
    (hurl : ∃ url, od.sessionUrl course.url = .ok url) {k offset length : Nat}
    (hpart : IsPart alignment partSize request.size offset length)
    (hmore : offset + length < request.size)
    (hkeeps : course.Keeps od request k (course.part request payload (offset, length))) :
    (course.clock (k + 1)).1 < course.expires (k + 1) ∧
    (course.send k (course.part request payload (offset, length))).bind
      (od.partAnswered (course.clock k).2 request (course.session request k (offset, length))
        (offset + length)) = .ok (course.asks request (k + 1) (offset + length)) := by
  have haligned : alignment ∣ offset + length := by
    rcases hpart.whole with hend | hwhole
    · omega
    · exact Nat.dvd_add hpart.aligned hwhole
  rw [Course.Keeps, Course.part_last hpart, if_pos hmore] at hkeeps
  obtain ⟨response, reply, hsend, hstatus, hbody, hreply, hsaid, hbegun, ranges, hranges,
    hmissing⟩ := hkeeps
  refine ⟨hbegun, ?_⟩
  have hprogress := progress_missing false (decide (offset + length = request.size)) ranges hsize
    hurl (hsaid.replyUrl (course.session request k (offset, length)) rfl)
    (by simp [replyRanges, hranges]) hmissing hmore haligned (by simp) hsaid
  have htarget : (course.session request k (offset, length)).commitTarget = course.target := rfl
  simp only [hsend, Except.bind, OneDrive.partAnswered, uploadBody, hstatus, hbody, if_true,
    hreply, readAs, bind, htarget, hprogress]
  simp only [Course.asks, Nat.lt_irrefl, if_false]

/-- The last part is answered with the end of the transfer. -/
theorem partAnswered_last (hurl : ∃ url, od.sessionUrl course.url = .ok url)
    (hdeferred : course.target.isSome = (request.intent matches .replace _ _))
    {k offset length : Nat} (hpart : IsPart alignment partSize request.size offset length)
    (hlast : offset + length = request.size)
    (hkeeps : course.Keeps od request k (course.part request payload (offset, length))) :
    ∃ step, (course.send k (course.part request payload (offset, length))).bind
      (od.partAnswered (course.clock k).2 request (course.session request k (offset, length))
        (offset + length)) = .ok step ∧ Ended request step := by
  have htarget : (course.session request k (offset, length)).commitTarget = course.target := rfl
  rw [Course.Keeps, Course.part_last hpart, hlast, if_neg (Nat.lt_irrefl _)] at hkeeps
  cases hintent : request.intent with
  | create parent name =>
    simp only [hintent] at hkeeps hdeferred
    obtain ⟨response, item, hsend, hstatus, hbody, hitem, hcreated⟩ := hkeeps
    obtain ⟨node, hnode⟩ := receipt_created od hintent hitem hcreated
    refine ⟨.complete node, ?_, parent, name, hintent⟩
    rcases hstatus with hstatus | hstatus <;>
      simp [hsend, Except.bind, OneDrive.partAnswered, uploadBody, hstatus, hbody, htarget,
        hdeferred, hnode, bind, Except.map]
  | replace item etag =>
    simp only [hintent] at hkeeps hdeferred
    obtain ⟨response, reply, hsend, hstatus, hbody, hreply, hsaid, hmissing⟩ := hkeeps
    -- ranges that are missing are read as none
    have hranges : ∃ ranges, replyRanges reply false true course.target = .ok ranges ∧
        MissingFrom request.size request.size ranges := by
      cases hnext : reply.nextExpectedRanges with
      | none => exact ⟨[], by simp [replyRanges, hnext, hdeferred], by simp [MissingFrom]⟩
      | some ranges => exact ⟨ranges, by simp [replyRanges, hnext], hmissing ranges hnext⟩
    obtain ⟨ranges, hranges, hnone⟩ := hranges
    have hprogress := progress_ready true ranges hurl
      (hsaid.replyUrl (course.session request k (offset, length)) rfl) hranges hnone
      hdeferred hsaid
    refine ⟨.commit (course.session request (k + 1) (request.size, 0)).encoded, ?_, item, etag,
      hintent⟩
    simp only [hsend, Except.bind, OneDrive.partAnswered, uploadBody, hstatus, hbody, if_true,
      hreply, readAs, bind, htarget, hlast, decide_true, hprogress]

/-! ## All parts -/

/-- One turn of the loop. -/
theorem drive_sent {fuel k offset length : Nat} {checkpoint : String} {sent : SentPart}
    {next : UploadStep}
    (h : od.uploadPart (course.clock k).1 (course.clock k).2 request checkpoint offset
      ((payload.drop offset).take length) (course.send k) = (some sent, .ok next)) :
    course.drive od request payload (fuel + 1) k (.continue checkpoint offset length) =
      (sent :: (course.drive od request payload fuel (k + 1) next).1,
        (course.drive od request payload fuel (k + 1) next).2) := by
  rw [Course.drive, h]
  rfl

theorem drive_refused {fuel k offset length : Nat} {checkpoint : String} {e : UploadError}
    (h : od.uploadPart (course.clock k).1 (course.clock k).2 request checkpoint offset
      ((payload.drop offset).take length) (course.send k) = (none, .error e)) :
    course.drive od request payload (fuel + 1) k (.continue checkpoint offset length) =
      ([], .error e) := by
  rw [Course.drive, h]
  rfl

/-- From any part on: the parts that are left are sent and the transfer ends, if the sessions are
short enough as text; otherwise the transfer stops with an error. -/
theorem drive_iff (hcheck : od.checkUpload request = .ok ()) (hsize : request.size < 2 ^ 64)
    (hpayload : payload.length = request.size) (h : course.Honest od request payload)
    (n k offset fuel : Nat) (hn : partCount partSize request.size offset = n)
    (hoffset : offset < request.size) (haligned : alignment ∣ offset)
    (hmissing : ∀ i part, (partsFrom partSize request.size n offset)[i]? = some part →
      (course.missing request)[k + i]? = some part)
    (hbegun : (course.clock k).1 < course.expires k) (hfuel : n ≤ fuel) :
    let result := course.drive od request payload fuel k (course.asks request k offset)
    let short := ∀ i part, (partsFrom partSize request.size n offset)[i]? = some part →
      (course.session request (k + i) part).encoded.utf8ByteSize ≤ maxResponse
    (short → result.1 = (partsFrom partSize request.size n offset).map
        (course.part request payload) ∧ ∃ step, result.2 = .ok step ∧ Ended request step) ∧
      (¬ short → ∃ e, result.2 = .error e) := by
  induction n generalizing k offset fuel with
  | zero =>
    rw [partCount_succ partSize_pos hoffset] at hn
    exact absurd hn (Nat.succ_ne_zero _)
  | succ n ih =>
    rw [partCount_succ partSize_pos hoffset, Nat.add_right_cancel_iff] at hn
    obtain ⟨fuel, rfl⟩ : ∃ fuel', fuel = fuel' + 1 := ⟨fuel - 1, by omega⟩
    intro result short
    have hpart := isPart_longest haligned hoffset
    have hparts : partsFrom partSize request.size (n + 1) offset =
        (offset, partLength partSize request.size offset) :: partsFrom partSize request.size n
          (offset + partLength partSize request.size offset) := rfl
    have hasks : course.asks request k offset =
        .continue (course.session request k
          (offset, partLength partSize request.size offset)).encoded offset
          (partLength partSize request.size offset) := rfl
    have hnextAligned := @partLength_aligned alignment partSize request.size offset
      alignment_dvd_partSize haligned
    have hinside : partLength partSize request.size offset ≤ request.size - offset :=
      Nat.min_le_left ..
    have hresult : result = course.drive od request payload (fuel + 1) k
        (course.asks request k offset) := rfl
    have hshort : short ↔ ∀ i part, (partsFrom partSize request.size (n + 1) offset)[i]? =
        some part → (course.session request (k + i) part).encoded.utf8ByteSize ≤ maxResponse :=
      Iff.rfl
    clear_value result short
    rw [hparts] at hshort hmissing ⊢
    rw [hasks] at hresult
    generalize partLength partSize request.size offset = length at *
    have hkeeps := h.parts k (offset, length) (hmissing 0 _ rfl)
    have hsplit : short ↔
        (course.session request k (offset, length)).encoded.utf8ByteSize ≤ maxResponse ∧
        ∀ i p, (partsFrom partSize request.size n (offset + length))[i]? = some p →
          (course.session request (k + 1 + i) p).encoded.utf8ByteSize ≤ maxResponse := by
      rw [hshort]
      constructor
      · intro hall
        refine ⟨hall 0 _ rfl, ?_⟩
        intro i p hp
        have hnext := hall (i + 1) p (by rw [List.getElem?_cons_succ]; exact hp)
        rwa [show k + 1 + i = k + (i + 1) by omega]
      · rintro ⟨hfirst, hrest⟩ i p hp
        cases i with
        | zero =>
          rw [List.getElem?_cons_zero, Option.some.injEq] at hp
          exact hp ▸ hfirst
        | succ i =>
          rw [List.getElem?_cons_succ] at hp
          have hnext := hrest i p hp
          rwa [show k + 1 + i = k + (i + 1) by omega] at hnext
    rw [hsplit]
    by_cases hfits :
        (course.session request k (offset, length)).encoded.utf8ByteSize ≤ maxResponse
    · have hupload := uploadPart_short hcheck h.url hpayload (course.clock k).2 hpart hbegun
        (course.send k) hfits
      by_cases hmore : offset + length < request.size
      · obtain ⟨hnextBegun, hanswered⟩ := partAnswered_more hsize h.url hpart hmore hkeeps
        have hmissing' : ∀ i p,
            (partsFrom partSize request.size n (offset + length))[i]? = some p →
            (course.missing request)[k + 1 + i]? = some p := by
          intro i p hp
          have hnext := hmissing (i + 1) p (by rw [List.getElem?_cons_succ]; exact hp)
          rwa [show k + 1 + i = k + (i + 1) by omega]
        have hrest := ih (k + 1) (offset + length) fuel hn hmore (hnextAligned hmore) hmissing'
          hnextBegun (by omega)
        rw [hanswered] at hupload
        rw [hresult, drive_sent hupload]
        refine ⟨?_, ?_⟩
        · rintro ⟨-, hshort⟩
          obtain ⟨hsent, hended⟩ := hrest.1 hshort
          exact ⟨by rw [List.map_cons, ← hsent], hended⟩
        · intro hlong
          exact hrest.2 fun hshort => hlong ⟨hfits, hshort⟩
      · have hlast : offset + length = request.size := by omega
        obtain ⟨step, hanswered, hended⟩ :=
          partAnswered_last h.url h.deferred hpart hlast hkeeps
        have hnone : n = 0 := by
          rw [← hn]
          exact partCount_eq_zero (le_of_eq hlast.symm)
        subst hnone
        have hstop : course.drive od request payload fuel (k + 1) step = ([], .ok step) := by
          cases step with
          | complete node => cases fuel <;> rfl
          | commit checkpoint => cases fuel <;> rfl
          | _ => cases hended
        rw [hanswered] at hupload
        rw [hresult, drive_sent hupload, hstop]
        refine ⟨fun _ => ⟨rfl, step, rfl, hended⟩, ?_⟩
        intro hlong
        exact absurd ⟨hfits, by simp [partsFrom]⟩ hlong
    · have hupload := uploadPart_long hcheck offset (course.clock k).1 (course.clock k).2
        ((payload.drop offset).take length) (course.send k) (Nat.lt_of_not_le hfits)
      rw [hresult, drive_refused hupload]
      exact ⟨fun hshort => absurd hshort.1 hfits, fun _ => ⟨_, rfl⟩⟩

/-! ## Taking a transfer up -/

/-- A transfer with missing bytes is taken up with its next part. -/
theorem first_asks (hcheck : od.checkUpload request = .ok ()) (hsize : request.size < 2 ^ 64)
    (h : course.Honest od request payload) (hkept : course.kept < request.size) :
    course.first od request = .ok (course.asks request 0 course.kept) := by
  have haligned : alignment ∣ course.kept := by
    rcases h.kept.aligned.2 with hend | haligned
    · omega
    · exact haligned
  obtain ⟨response, reply, hanswer, hstatus, hbody, hreply, hsaid, hopens⟩ := h.opening
  have hpos : request.size ≠ 0 := by omega
  unfold Course.Opens at hopens
  unfold Course.first
  cases hopening : course.opening with
  | begun metadata answer =>
    simp only [hopening] at hopens ⊢
    obtain ⟨hzero, hurl, hmissing, htarget⟩ := hopens
    rw [hopening] at hanswer
    have hanswer : answer = .ok response := hanswer
    have hranges : ∃ ranges, replyRanges reply true false course.target = .ok ranges ∧
        MissingFrom request.size 0 ranges := by
      cases hnext : reply.nextExpectedRanges with
      | none => exact ⟨["0-"], by simp [replyRanges, hnext], by
          rw [MissingFrom, if_pos (by omega)]
          exact .inl rfl⟩
      | some ranges => exact ⟨ranges, by simp [replyRanges, hnext], hmissing ranges hnext⟩
    obtain ⟨ranges, hranges, hexact⟩ := hranges
    have hreplyUrl : replyUrl reply none = .ok course.url := by simp [replyUrl, hurl]
    have hprogress := progress_missing true false ranges hsize h.url hreplyUrl hranges (hzero ▸ hexact) hkept
      haligned (fun _ => hzero) hsaid
    simp only [OneDrive.beginUpload, hcheck, hpos, if_false, hanswer, uploadBody, hstatus, hbody,
      hreply, readAs, bind, Except.bind, if_true, ne_eq, not_true, htarget, hprogress]
  | inspected begun checkpoint answer =>
    simp only [hopening] at hopens ⊢
    obtain ⟨⟨session, hload, hurl, htarget⟩, hnone, hmissing⟩ := hopens
    rw [hopening] at hanswer
    have hanswer : answer = .ok response := hanswer
    have hranges : ∃ ranges, replyRanges reply false false course.target = .ok ranges ∧
        MissingFrom request.size course.kept ranges := by
      cases hnext : reply.nextExpectedRanges with
      | none => exact absurd (hnone hnext) (by omega)
      | some ranges => exact ⟨ranges, by simp [replyRanges, hnext], hmissing ranges hnext⟩
    obtain ⟨ranges, hranges, hexact⟩ := hranges
    have hprogress := progress_missing false false ranges hsize h.url (hsaid.replyUrl session hurl) hranges hexact hkept
      haligned (by simp) hsaid
    simp only [OneDrive.inspectUpload, hcheck, hload, hanswer, uploadBody, hstatus, hbody, hreply,
      readAs, bind, Except.bind, if_true, ne_eq, not_true, if_false, htarget, hprogress]

/-- A transfer with nothing missing is taken up with its commit, if it is reported with ranges. -/
theorem first_ready (hcheck : od.checkUpload request = .ok ()) (hpos : 0 < request.size)
    (h : course.Honest od request payload) (hkept : course.kept = request.size) :
    ∃ response reply, course.opening.answer = .ok response ∧ response.reply = some reply ∧
      course.first od request = match reply.nextExpectedRanges with
        | none => .error (protocol "upload status has no ranges")
        | some _ => .ok (.commit (course.session request 0 (request.size, 0)).encoded) := by
  obtain ⟨response, reply, hanswer, hstatus, hbody, hreply, hsaid, hopens⟩ := h.opening
  refine ⟨response, reply, hanswer, hreply, ?_⟩
  unfold Course.Opens at hopens
  unfold Course.first
  cases hopening : course.opening with
  | begun metadata answer =>
    simp only [hopening] at hopens
    omega
  | inspected begun checkpoint answer =>
    simp only [hopening] at hopens ⊢
    obtain ⟨⟨session, hload, hurl, htarget⟩, -, hmissing⟩ := hopens
    rw [hopening] at hanswer
    have hanswer : answer = .ok response := hanswer
    have hdeferred : course.target.isSome = true := by
      cases htarget : course.target with
      | none => exact absurd (h.unfinished htarget) (by omega)
      | some target => rfl
    cases hnext : reply.nextExpectedRanges with
    | none =>
      obtain ⟨url, hvalid⟩ := h.url
      have hranges : replyRanges reply false false course.target =
          .error (protocol "upload status has no ranges") := by
        simp [replyRanges, hnext]
      simp only [OneDrive.inspectUpload, hcheck, hload, hanswer, uploadBody, hstatus, hbody,
        hreply, readAs, bind, Except.bind, if_true, ne_eq, not_true, if_false, htarget,
        OneDrive.progress, hsaid.replyUrl session hurl, hvalid, hranges]
    | some ranges =>
      have hexact := hmissing ranges hnext
      rw [hkept] at hexact
      have hprogress := progress_ready false ranges h.url
        (hsaid.replyUrl session hurl) (by simp [replyRanges, hnext]) hexact hdeferred hsaid
      simp only [OneDrive.inspectUpload, hcheck, hload, hanswer, uploadBody, hstatus, hbody,
        hreply, readAs, bind, Except.bind, if_true, ne_eq, not_true, if_false, htarget, hprogress]

/-! ## Delivery -/

/-- The parts that are missing are every missing byte, once and in order. -/
theorem delivered_missing (hpayload : payload.length = request.size)
    {result : Except UploadError UploadStep} (hended : ∃ step, result = .ok step ∧ Ended request step) :
    course.Delivered request payload
      ((course.missing request).map (course.part request payload), result) where
  ended := hended
  parts := by
    rw [List.length_map, Course.missing, length_partsFrom]
    rfl
  bytes := by
    rw [List.flatMap_map]
    exact partsFrom_bytes partSize_pos payload hpayload
  positions := by
    rw [List.flatMap_map, ← partsFrom_positions partSize_pos]
    apply List.flatMap_congr
    intro part hpart
    have hlength := partsFrom_pos partSize_pos part hpart
    show List.range' part.1 (part.1 + part.2 - 1 + 1 - part.1) = _
    congr 1
    omega

/-- A transfer delivers what is missing exactly when its sessions are short enough as text. -/
theorem transfer_iff (hcheck : od.checkUpload request = .ok ()) (hpos : 0 < request.size)
    (hsize : request.size < 2 ^ 64) (hpayload : payload.length = request.size)
    (h : course.Honest od request payload) (fuel : Nat)
    (hfuel : (request.size - course.kept) ⌈/⌉ partSize ≤ fuel) :
    course.Delivered request payload (course.transfer od request payload fuel) ↔
      course.Short request := by
  by_cases hkept : course.kept < request.size
  · have haligned : alignment ∣ course.kept := by
      rcases h.kept.aligned.2 with hend | haligned
      · omega
      · exact haligned
    obtain ⟨hgood, hbad⟩ := drive_iff hcheck hsize hpayload h _ 0 course.kept fuel rfl hkept haligned
      (fun i part hp => by rw [Nat.zero_add]; exact hp) (h.timely hkept) hfuel
    have htransfer : course.transfer od request payload fuel =
        course.drive od request payload fuel 0 (course.asks request 0 course.kept) := by
      rw [Course.transfer, first_asks hcheck hsize h hkept]
    rw [htransfer]
    simp only [Nat.zero_add] at hgood hbad
    constructor
    · intro hdelivered
      refine ⟨?_, fun hend => absurd hend (by omega)⟩
      by_contra hlong
      obtain ⟨e, he⟩ := hbad hlong
      obtain ⟨step, hstep, -⟩ := hdelivered.ended
      rw [he] at hstep
      cases hstep
    · intro hshort
      obtain ⟨hsent, hended⟩ := hgood hshort.sessions
      rw [show course.drive od request payload fuel 0 (course.asks request 0 course.kept) =
        ((course.missing request).map (course.part request payload), _) from Prod.ext hsent rfl]
      exact delivered_missing hpayload hended
  · have hend : course.kept = request.size := by
      have hle := h.kept.aligned.1
      omega
    obtain ⟨response, reply, hanswer, hreply, hfirst⟩ := first_ready hcheck hpos h hend
    have hnothing : course.missing request = [] := by
      rw [Course.missing, partCount_eq_zero (by omega)]
      rfl
    have hdeferred : ∃ item etag, request.intent = .replace item etag := by
      have htarget : course.target ≠ none := by
        intro hnone
        exact absurd (h.unfinished hnone) (by omega)
      have hintent := h.deferred
      cases hrequest : request.intent with
      | create parent name =>
        rw [hrequest] at hintent
        exact absurd (Option.not_isSome_iff_eq_none.mp (by simpa using hintent)) htarget
      | replace item etag => exact ⟨item, etag, rfl⟩
    have hshort : course.Short request ↔ reply.nextExpectedRanges ≠ none := by
      constructor
      · intro hshort
        exact hshort.ranges hend response reply hanswer hreply
      · intro hsome
        refine ⟨by simp [hnothing], ?_⟩
        intro _ response' reply' hanswer' hreply'
        rw [hanswer] at hanswer'
        cases hanswer'
        rw [hreply] at hreply'
        cases hreply'
        exact hsome
    rw [hshort, Course.transfer, hfirst]
    cases hnext : reply.nextExpectedRanges with
    | none =>
      refine iff_of_false ?_ (by simp)
      intro hdelivered
      obtain ⟨step, hstep, -⟩ := hdelivered.ended
      cases hstep
    | some ranges =>
      refine iff_of_true ?_ (by simp)
      have hdelivered := @delivered_missing request payload course hpayload
        (.ok (.commit (course.session request 0 (request.size, 0)).encoded)) ⟨_, rfl, hdeferred⟩
      rw [hnothing] at hdelivered
      cases fuel <;> exact hdelivered

end

/-- For every non-empty request and every accepted reply, the checkpoint announces a part of the file
and is loaded until it expires, if and only if it is short enough as text. From every beginning of
whole parts the ranges lead on, and a transfer over an honest service delivers what is missing, if
and only if its sessions are short. -/
theorem session_iff (od : OneDrive) (request : UploadRequest) (hpos : 0 < request.size)
    (hsize : request.size < 2 ^ 64) :
    (∀ (now : Nat) (reply : SessionReply) (existing : Option Session) (initial final : Bool)
      (target : Option (String × String)) (step : UploadStep),
      od.progress now request reply existing initial target final = .ok step →
      ∃ s : Session, Emits request step s ∧ now < s.expiresAt ∧
        ((∀ t < s.expiresAt, od.loadSession t request s.encoded = .ok s) ↔
          s.encoded.utf8ByteSize ≤ maxResponse)) ∧
    (∀ (kept : Nat) (ranges : List String), Kept alignment partSize request.size kept →
      kept < request.size → MissingFrom request.size kept ranges →
      nextRange ranges request.size = .ok (kept, partLength partSize request.size kept)) ∧
    ∀ (payload : List UInt8) (course : Course), od.checkUpload request = .ok () →
      payload.length = request.size → course.Honest od request payload →
      ∀ fuel, (request.size - course.kept) ⌈/⌉ partSize ≤ fuel →
      (course.Delivered request payload (course.transfer od request payload fuel) ↔
        course.Short request) := by
  refine ⟨?_, ?_, ?_⟩
  · intro now reply existing initial final target step h
    obtain ⟨s, hemits, hversion, hrequest, hnow, hurl⟩ := progress_eq_ok h
    refine ⟨s, hemits, hnow, ?_⟩
    constructor
    · intro hloads
      exact (loadSession_iff hemits hversion hrequest hurl hnow).mp (hloads now hnow)
    · intro hshort t ht
      exact (loadSession_iff hemits hversion hrequest hurl ht).mpr hshort
  · intro kept ranges hkept hlt hmissing
    have haligned : alignment ∣ kept := by
      rcases hkept.aligned.2 with hend | haligned
      · omega
      · exact haligned
    exact nextRange_missing hsize hlt haligned hmissing
  · intro payload course hcheck hpayload hhonest fuel hfuel
    exact transfer_iff hcheck hpos hsize hpayload hhonest fuel hfuel

/-! ## A file of two parts and one byte -/

def sampleUrl : Url := ⟨"https", "", none, some "h", none, some ("https", "h", 443)⟩

noncomputable def sampleDrive : OneDrive where
  account := "account"
  endpoint := ⟨"https", "", none, some "graph", none, some ("https", "graph", 443)⟩
  parseUrl text :=
    if text.toList.take 10 = "https://h/".toList then some sampleUrl else none
  rfc3339 text := if text = "2030-01-01T00:00:00Z" then some 1893456000 else none
  reader := .canonical

def sampleRequest : UploadRequest where
  scope := ⟨"account", "onedrive", "drive"⟩
  intent := .create "root" "notes"
  size := 1
  sha256 := String.ofList (List.replicate 64 '0')

def sampleReply (url : String) : SessionReply := ⟨some url, "2030-01-01T00:00:00Z", none⟩

/-- The same file, of two whole parts and one more byte. -/
def partedRequest : UploadRequest := { sampleRequest with size := 2 * partSize + 1 }

def partedItem : DriveItem where
  id := "item"
  name := some "notes"
  size := some (2 * partSize + 1)
  eTag := some "e"
  cTag := some "c"
  lastModified := none
  parentReference := some ⟨some "root", some "drive"⟩
  file := true
  folder := false
  package := false
  deleted := false
  remoteItem := none

/-- The answer to a part: what is missing behind it, or the file. -/
def partedAnswer (sent : SentPart) : Response :=
  if sent.last + 1 < partedRequest.size then
    ⟨202, 0, true, some { sampleReply "https://h/u" with
      nextExpectedRanges := some [toString (sent.last + 1) ++ "-"] }, none⟩
  else ⟨201, 0, true, none, some partedItem⟩

/-- The file is created with its third part. -/
def partedCourse : Course where
  opening := .begun (.error .uncertain) (.ok ⟨200, 0, true, some (sampleReply "https://h/u"), none⟩)
  answered := 0
  clock k := (k, k + 1)
  send _ sent := .ok (partedAnswer sent)
  kept := 0
  url := "https://h/u"
  target := none
  expires _ := 1893456000

theorem sampleDrive_url (path : String) :
    sampleDrive.sessionUrl ("https://h/" ++ path) = .ok sampleUrl := by
  have hparse : sampleDrive.parseUrl ("https://h/" ++ path) = some sampleUrl := by
    have htake : ("https://h/" ++ path).toList.take 10 = "https://h/".toList := by
      rw [String.toList_append]
      rfl
    exact if_pos htake
  rw [OneDrive.sessionUrl, hparse]
  decide

theorem sampleDrive_date : sampleDrive.rfc3339 "2030-01-01T00:00:00Z" = some 1893456000 := by
  show (if "2030-01-01T00:00:00Z" = "2030-01-01T00:00:00Z" then some (1893456000 : Int)
    else none) = some 1893456000
  exact if_pos rfl

theorem partedRequest_parts : partCount partSize partedRequest.size 0 = 3 := by
  rw [partCount_succ partSize_pos (by decide), partCount_succ partSize_pos (by decide),
    partCount_succ partSize_pos (by decide), partCount_eq_zero]
  decide

theorem partedCourse_missing : partedCourse.missing partedRequest =
    [(0, partSize), (partSize, partSize), (2 * partSize, 1)] := by
  show partsFrom partSize partedRequest.size (partCount partSize partedRequest.size 0) 0 = _
  rw [partedRequest_parts]
  decide

theorem partedItem_created : Created partedRequest "root" "notes" partedItem where
  id := by decide
  name := rfl
  parent := rfl
  drive := rfl
  size := rfl
  file := ⟨rfl, rfl, rfl, rfl, rfl⟩
  revision := .inl (by decide)

theorem partedCourse_keeps (payload : List UInt8) {k : Nat} {part : Nat × Nat} (hk : k < 3)
    (hpart : 0 < part.2) :
    partedCourse.Keeps sampleDrive partedRequest k
      (partedCourse.part partedRequest payload part) := by
  have hsent : (partedCourse.part partedRequest payload part).last + 1 = part.1 + part.2 := by
    show part.1 + part.2 - 1 + 1 = part.1 + part.2
    omega
  unfold Course.Keeps
  rw [hsent]
  by_cases hend : part.1 + part.2 < partedRequest.size
  · have hanswer : partedAnswer (partedCourse.part partedRequest payload part) =
        ⟨202, 0, true, some { sampleReply "https://h/u" with
          nextExpectedRanges := some [toString (part.1 + part.2) ++ "-"] }, none⟩ := by
      rw [partedAnswer, hsent, if_pos hend]
    rw [if_pos hend]
    refine ⟨_, _, congrArg Except.ok hanswer, rfl, rfl, rfl, ⟨.inr rfl, sampleDrive_date, ?_⟩, ?_,
      _, rfl, ?_⟩
    · show k + 1 < 1893456000
      omega
    · show k + 1 < 1893456000
      omega
    · rw [MissingFrom, if_pos hend]
      exact .inl rfl
  · have hanswer : partedAnswer (partedCourse.part partedRequest payload part) =
        ⟨201, 0, true, none, some partedItem⟩ := by
      rw [partedAnswer, hsent, if_neg hend]
    rw [if_neg hend]
    exact ⟨_, partedItem, congrArg Except.ok hanswer, .inr rfl, rfl, rfl, partedItem_created⟩

theorem partedCourse_honest (payload : List UInt8) :
    partedCourse.Honest sampleDrive partedRequest payload where
  deferred := rfl
  url := ⟨sampleUrl, sampleDrive_url "u"⟩
  kept := .nothing
  unfinished _ := by decide
  opening := by
    refine ⟨_, _, rfl, rfl, rfl, rfl, ⟨.inr rfl, sampleDrive_date, by decide⟩, rfl, rfl, ?_, rfl⟩
    intro ranges hranges
    cases hranges
  timely _ := by decide
  parts k part hpart := by
    rw [partedCourse_missing] at hpart
    obtain ⟨hk, rfl⟩ := List.getElem?_eq_some_iff.mp hpart
    refine partedCourse_keeps payload hk ?_
    revert k
    decide

theorem partedCourse_short : partedCourse.Short partedRequest where
  sessions k part hpart := by
    rw [partedCourse_missing] at hpart
    obtain ⟨hk, rfl⟩ := List.getElem?_eq_some_iff.mp hpart
    rw [Session.encoded, utf8ByteSize_ofList]
    revert k
    decide +kernel
  ranges hkept := absurd hkept (by decide)

/-- In three parts every byte of the file arrives. -/
theorem partedCourse_delivered : partedCourse.Delivered partedRequest
    (List.replicate partedRequest.size 7)
    (partedCourse.transfer sampleDrive partedRequest (List.replicate partedRequest.size 7) 3) := by
  have hcheck : sampleDrive.checkUpload partedRequest = .ok () := by
    have hvalid : partedRequest.validate = .ok () := by decide +kernel
    rw [OneDrive.checkUpload, hvalid]
    exact if_neg (by decide)
  have hfuel : (partedRequest.size - partedCourse.kept) ⌈/⌉ partSize ≤ 3 := by
    have hparts : partCount partSize partedRequest.size 0 ≤ 3 := partedRequest_parts.le
    exact hparts
  exact ((session_iff sampleDrive partedRequest (by decide) (by decide)).2.2 _ partedCourse hcheck
    List.length_replicate (partedCourse_honest _) 3 hfuel).mpr partedCourse_short

/-! ## A URL that is too long -/

/-- A URL that still fits a response with its quotes and the expiry. -/
def longUrl : String := "https://h/" ++ String.ofList (List.replicate (maxResponse - 100) 'a')

def longSession : Session := ⟨1, sampleRequest, longUrl, 1893456000, 0, 1, none⟩

/-- A checkpoint is at least as long as its request and its URL together. -/
theorem Session.length_encoded (s : Session) :
    s.request.encoded.length + s.url.toList.length ≤ s.encoded.utf8ByteSize := by
  have hurl := Json.length_le_quoted s.url.toList
  rw [Session.encoded, utf8ByteSize_ofList]
  refine Nat.le_trans ?_ (length_le_utf8Length _)
  simp only [List.length_cons, List.length_append]
  omega

theorem sampleDrive_begins {url : String} (hurl : sampleDrive.sessionUrl url = .ok sampleUrl) :
    sampleDrive.progress 0 sampleRequest (sampleReply url) none true none false =
      .ok (.continue (Session.mk 1 sampleRequest url 1893456000 0 1 none).encoded 0 1) := by
  have hnext : nextRange ["0-"] sampleRequest.size = .ok (0, 1) := by decide +kernel
  have hreply : replyUrl (sampleReply url) none = .ok url := rfl
  have hranges : replyRanges (sampleReply url) true false none = .ok ["0-"] := rfl
  have hready : isReady sampleRequest true none ["0-"] = false := rfl
  have hexpiry : sampleDrive.expiry 0 (sampleReply url).expirationDateTime = .ok 1893456000 := by
    rw [OneDrive.expiry, sampleReply, sampleDrive_date]
    decide
  simp only [OneDrive.progress, hreply, hurl, hranges, hready, replyPart, hnext, hexpiry, bind,
    Except.bind, Bool.false_eq_true, if_false]
  rfl

/-- The reply is accepted and its checkpoint is not. -/
theorem longSession_refused :
    sampleDrive.progress 0 sampleRequest (sampleReply longUrl) none true none false =
        .ok (.continue longSession.encoded 0 1) ∧
      ∀ now, sampleDrive.loadSession now sampleRequest longSession.encoded =
        .error .checkpointInvalid := by
  refine ⟨sampleDrive_begins (sampleDrive_url _), ?_⟩
  intro now
  have hrequest : 100 ≤ sampleRequest.encoded.length := by decide +kernel
  have hlength : longUrl.toList.length = 10 + (maxResponse - 100) := by
    have hhost : "https://h/".toList.length = 10 := rfl
    rw [longUrl, String.toList_append, List.length_append, hhost,
      @String.toList_ofList (List.replicate (maxResponse - 100) 'a'), List.length_replicate]
  have hlong := longSession.length_encoded
  have hsession : longSession.request = sampleRequest ∧ longSession.url = longUrl := ⟨rfl, rfl⟩
  have hmax : maxResponse < longSession.encoded.utf8ByteSize := by
    have hresponse : 100 ≤ maxResponse := by
      unfold maxResponse
      omega
    rw [hsession.1, hsession.2, hlength] at hlong
    omega
  rw [OneDrive.loadSession, if_pos hmax]

end Cirrove.Graph
