import Cirrove.Graph.Reads
import Cirrove.Library.Runs

/-!
# A read session serves one version

Each look at the item shows it as it is, each download takes its bytes and its tag from one version
(that of a checked read from one the item had since the first look), a content tag is never reused,
and two contents never have one strong tag at one effective URL. Then whatever the requests of the
reads are interleaved with, a read that succeeds has the bytes of the version the session was
opened for (`session_exact`).

* `downloadResponse_eq_ok`, `receive_spec`: what a download brings.
* `Call.Sound`, `State.Sound`: what holds at every point of a read, and of the session.
* `step_sound`: a step keeps it.
* `rank`: a read takes few steps, and one that waits waits for one that can go on.
-/

namespace Cirrove.Graph.Reads

open Cirrove.Library
open Cirrove.Google (ProviderError)

/-! ## What the provider promises -/

def Version.revision (version : Version) : RevisionSpace → Option String
  | .content => version.cTag
  | .etag => version.eTag

/-- The item shows a version. -/
structure Version.Shows (version : Version) (item : DriveItem) : Prop where
  size : item.size = some version.content.length
  eTag : item.eTag = version.eTag
  cTag : item.cTag = version.cTag

/-- The revision of a node is that of a version. -/
def Version.Matches (version : Version) (node : Node) : Prop :=
  ∃ revision ∈ node.contentRevision, version.revision revision.1 = some revision.2

/-- A content tag that comes back comes back without another content in between. -/
def NeverReused (node : Node) (versions : List Version) : Prop :=
  ∀ revision ∈ node.contentRevision, ∀ (tag : String) (i j k : Nat) (u v w : Version),
    i ≤ j → j ≤ k → versions[i]? = some u → versions[j]? = some v → versions[k]? = some w →
    u.revision revision.1 = some tag → w.revision revision.1 = some tag → v.content = u.content

/-- The bytes that are asked for. -/
def part (content : Bytes) (size offset length : Nat) : Bytes :=
  (content.drop offset).take (min (size - offset) length)

/-- The body of a reply is this, up to where it breaks off. -/
def Reply.Carries (reply : Reply) (bytes : Bytes) : Prop :=
  reply.chunks.flatten <+: bytes ∧ (reply.broken = false → reply.chunks.flatten = bytes)

/-- A download answers from a version: a part with the range it names, or everything; and a strong
    tag belongs to its content. -/
structure Version.Answers (tagged : String → Bytes → Bytes) (version : Version)
    (size offset length : Nat) (reply : Reply) : Prop where
  ranged : reply.status = 206 →
    reply.contentRange =
      some (rangeText offset (offset + min (size - offset) length - 1) size) →
    reply.Carries (part version.content size offset length)
  whole : reply.status = 200 → reply.Carries version.content
  tag : ∀ tag, reply.etag = some tag → strongEtag tag → tagged reply.url tag = version.content

/-- The version a download may be answered from: of a checked read one that there has been since
    the first look, under a binding any. -/
def Phase.since : Phase → Nat
  | .download _ _ _ since => since
  | _ => 0

def Allowed (tagged : String → Bytes → Bytes) (node : Node) (s : State) : Event → Prop
  | .edited version => NeverReused node (s.versions ++ [version])
  | .shown _ (.ok metadata) => ∃ version ∈ s.versions.getLast?, version.Shows metadata.item
  | .answered i (.ok reply) =>
    ∀ call ∈ s.calls[i]?, ∃ (k : Nat) (version : Version), call.phase.since ≤ k ∧
      s.versions[k]? = some version ∧
      version.Answers tagged node.size call.offset call.length reply
  | .stopped i sent _ _ _ =>
    ∀ call ∈ s.calls[i]?, call.kind = .window ∧ ∃ (k : Nat) (version : Version),
      call.phase.since ≤ k ∧ s.versions[k]? = some version ∧
      version.Answers tagged node.size call.offset call.length sent
  | _ => True

/-! ## Downloads -/

section Downloads

variable {size offset length : Nat}

theorem sub_eq_ok {a b : Nat} (h : b ≤ a) : sub a b = .ok (a - b) := if_pos h

theorem wanted_eq_ok (h : offset < size) :
    wanted size offset length = .ok (min (size - offset) length) := by
  rw [wanted, sub_eq_ok h.le]
  rfl

/-- What a reply that is taken is like. -/
structure Taken (size offset length : Nat) (bound : Option Bound) (reply : Reply) : Prop where
  bound : ∀ b ∈ bound, bindingHolds b reply = true
  shape : (reply.status = 206 ∧ reply.contentRange =
      some (rangeText offset (offset + min (size - offset) length - 1) size)) ∨
    (reply.status = 200 ∧ offset = 0 ∧ min (size - offset) length = size)

theorem checkReply_eq_ok {bound : Option Bound} {reply reply' : Reply}
    (h : checkReply size offset (min (size - offset) length)
      (offset + min (size - offset) length - 1) bound reply = .ok reply') :
    reply' = reply ∧ Taken size offset length bound reply := by
  unfold checkReply at h
  split at h
  · cases h
  split at h
  · cases h
  split at h
  · cases h
  split at h
  · cases h
  next hbound =>
  have hholds : ∀ b ∈ bound, bindingHolds b reply = true := by
    intro b hb
    cases hb
    simpa using hbound
  split at h
  · cases h
  split at h
  · next hstatus =>
    split at h
    · cases h
    · next hrange =>
      cases h
      exact ⟨rfl, hholds, .inl ⟨hstatus, not_not.mp hrange⟩⟩
  · split at h
    · cases h
    · next hwhole =>
      cases h
      simp only [not_or, ne_eq, not_not] at hwhole
      exact ⟨rfl, hholds, .inr hwhole⟩

theorem checkReply_ne_underflow {count last : Nat} {bound : Option Bound} {reply : Reply} :
    checkReply size offset count last bound reply ≠ .error (.failure .underflow) := by
  intro h
  unfold checkReply at h
  split at h
  · cases h
  split at h
  · cases h
  split at h
  · split at h <;> cases h
  split at h
  · cases h
  split at h
  · cases h
  split at h
  · split at h <;> cases h
  · split at h <;> cases h

/-- Inside the file nothing is subtracted that is too large. -/
theorem downloadResponse_eq {bound : Option Bound} {sent : Except ProviderError Reply}
    (hoffset : offset < size) (hlength : 0 < length) :
    downloadResponse size offset length bound sent =
      sent.mapError .provider >>= checkReply size offset (min (size - offset) length)
        (offset + min (size - offset) length - 1) bound := by
  have hlast : sub (offset + min (size - offset) length) 1 =
      .ok (offset + min (size - offset) length - 1) := sub_eq_ok (by omega)
  rw [downloadResponse, wanted_eq_ok hoffset]
  show (Except.mapError DownloadError.failure (sub (offset + min (size - offset) length) 1) >>= _)
    = _
  rw [hlast]
  rfl

theorem downloadResponse_eq_ok {bound : Option Bound} {sent : Except ProviderError Reply}
    {reply : Reply} (hoffset : offset < size) (hlength : 0 < length)
    (h : downloadResponse size offset length bound sent = .ok reply) :
    sent = .ok reply ∧ Taken size offset length bound reply := by
  rw [downloadResponse_eq hoffset hlength] at h
  cases sent with
  | error e => cases h
  | ok reply' =>
    obtain ⟨rfl, htaken⟩ := checkReply_eq_ok h
    exact ⟨rfl, htaken⟩

theorem downloadResponse_ne_underflow {bound : Option Bound} {sent : Except ProviderError Reply}
    (hoffset : offset < size) (hlength : 0 < length) :
    downloadResponse size offset length bound sent ≠ .error (.failure .underflow) := by
  rw [downloadResponse_eq hoffset hlength]
  cases sent with
  | error e => rintro ⟨⟩
  | ok reply => exact checkReply_ne_underflow

/-- What arrives is a beginning of the body, and all of it when the reply is complete. -/
theorem receive_spec {expected : Nat} {broken : Bool} {chunks : List Bytes} {received : Bytes}
    (hreceived : received.length ≤ expected) :
    ∃ taken, (receive expected broken chunks received).1 = received ++ taken ∧
      taken <+: chunks.flatten ∧
      ((receive expected broken chunks received).2 = .ok () →
        broken = false ∧ taken = chunks.flatten ∧ (received ++ taken).length = expected) ∧
      (receive expected broken chunks received).2 ≠ .error .underflow := by
  induction chunks generalizing received with
  | nil =>
    refine ⟨[], (List.append_nil _).symm, List.prefix_rfl, fun h => ?_, ?_⟩
    · rw [receive] at h
      dsimp only at h
      split at h
      · cases h
      · next hbroken =>
        split at h
        · cases h
        · next hlength =>
          rw [List.append_nil]
          exact ⟨Bool.eq_false_iff.mpr hbroken, rfl, not_not.mp hlength⟩
    · rw [receive]
      dsimp only
      split
      · rintro ⟨⟩
      · split <;> rintro ⟨⟩
  | cons chunk rest ih =>
    rw [receive, sub_eq_ok hreceived]
    dsimp only
    split
    · -- more than was asked for
      exact ⟨[], (List.append_nil _).symm, List.nil_prefix, by rintro ⟨⟩, by rintro ⟨⟩⟩
    · next hfits =>
      obtain ⟨taken, hbytes, hbegins, hok, hunder⟩ :=
        @ih (received ++ chunk) (by rw [List.length_append]; omega)
      refine ⟨chunk ++ taken, ?_, ?_, fun h => ?_, hunder⟩
      · rw [hbytes, List.append_assoc]
      · rw [List.flatten_cons]
        exact (List.prefix_append_right_inj _).mpr hbegins
      · obtain ⟨hbroken, htaken, hlength⟩ := hok h
        rw [List.flatten_cons, htaken]
        rw [List.append_assoc, htaken] at hlength
        exact ⟨hbroken, rfl, hlength⟩

/-- What a reply that is taken brings is a beginning of the version's part, and the part when it is
    complete. -/
theorem receive_answer {tagged : String → Bytes → Bytes} {version : Version}
    {bound : Option Bound} {reply : Reply}
    (hanswers : version.Answers tagged size offset length reply)
    (htaken : Taken size offset length bound reply) :
    (receive (min (size - offset) length) reply.broken reply.chunks []).1 <+:
        version.content.drop offset ∧
      ((receive (min (size - offset) length) reply.broken reply.chunks []).2 = .ok () →
        (receive (min (size - offset) length) reply.broken reply.chunks []).1 =
          part version.content size offset length) ∧
      (receive (min (size - offset) length) reply.broken reply.chunks []).2 ≠
        .error .underflow := by
  obtain ⟨taken, hbytes, hbegins, hok, hunder⟩ :=
    @receive_spec (min (size - offset) length) reply.broken reply.chunks [] (Nat.zero_le _)
  rw [List.nil_append] at hbytes
  rw [hbytes]
  refine ⟨?_, fun h => ?_, hunder⟩
  · rcases htaken.shape with ⟨hstatus, hrange⟩ | ⟨hstatus, hzero, -⟩
    · have hcarries := hanswers.ranged hstatus hrange
      exact (hbegins.trans hcarries.1).trans (List.take_prefix _ _)
    · rw [hzero, List.drop_zero]
      exact hbegins.trans (hanswers.whole hstatus).1
  · obtain ⟨hbroken, hflatten, hlength⟩ := hok h
    rw [hflatten]
    rcases htaken.shape with ⟨hstatus, hrange⟩ | ⟨hstatus, hzero, hall⟩
    · exact (hanswers.ranged hstatus hrange).2 hbroken
    · have hcontent := (hanswers.whole hstatus).2 hbroken
      rw [List.nil_append, hflatten, hcontent] at hlength
      rw [hcontent, part, hzero, List.drop_zero, List.take_of_length_le]
      rw [hzero] at hlength
      omega

/-- What a stream that stops has written is a beginning of the version's part. -/
theorem streamed_prefix {tagged : String → Bytes → Bytes} {version : Version} {call : Call}
    {bound : Option Bound} {sent : Reply} {count : Nat} (hoffset : call.offset < size)
    (hlength : 0 < call.length)
    (hanswers : version.Answers tagged size call.offset call.length sent) :
    streamed size call bound sent count <+: version.content.drop call.offset := by
  unfold streamed
  split
  · next reply expected hreply hexpected =>
    obtain ⟨hsent, htaken⟩ := downloadResponse_eq_ok hoffset hlength hreply
    obtain rfl := Except.ok.inj hsent
    rw [wanted_eq_ok hoffset] at hexpected
    obtain rfl := Except.ok.inj hexpected
    exact (List.take_prefix _ _).trans (receive_answer hanswers htaken).1
  · exact List.nil_prefix

end Downloads

/-! ## What holds at every point of a read -/

/-- The version a session was opened for, and what the tags stand for. -/
structure Opening where
  node : Node
  content : Bytes
  /-- Its place among the versions of the item. -/
  index : Nat
  tagged : String → Bytes → Bytes

structure Opening.Holds (o : Opening) (versions : List Version) : Prop where
  version : ∃ version, versions[o.index]? = some version ∧ version.Matches o.node ∧
    version.content = o.content
  size : o.content.length = o.node.size
  reused : NeverReused o.node versions

/-- A read has the bytes of a content: a range as its result, a window in its sink. -/
def Call.Has (o : Opening) (call : Call) (content bytes : Bytes) : Prop :=
  match call.kind with
  | .range => bytes = part content o.node.size call.offset call.length ∧ call.sink = []
  | .window => call.sink = part content o.node.size call.offset call.length

/-- What a read has done so far, in each phase. -/
def Call.Stands (o : Opening) (versions : List Version) (bindings : Nat) (call : Call) :
    Phase → Prop
  | .entered => call.sink = [] ∧ call.downloads = 0
  | .turning round _ => call.sink = [] ∧ call.downloads ≤ round ∧ round ≤ 2
  | .conditional round id =>
    call.sink = [] ∧ call.downloads ≤ round + 1 ∧ round ≤ 1 ∧ id < bindings
  | .waiting round _ => call.sink = [] ∧ call.downloads ≤ round + 1 ∧ round ≤ 1
  | .before _ _ => call.sink = [] ∧ call.downloads ≤ 2
  | .download _ _ _ since => call.sink = [] ∧ call.downloads ≤ 3 ∧ o.index ≤ since
  | .after _ _ _ effectiveUrl tag bytes => call.downloads ≤ 3 ∧
      ∃ (k : Nat) (version : Version), o.index ≤ k ∧ versions[k]? = some version ∧
        call.Has o version.content bytes ∧
        ∀ t, tag = some t → strongEtag t → o.tagged effectiveUrl t = version.content
  | .finished (.ok bytes) => call.downloads ≤ 3 ∧ call.Has o o.content bytes
  | .finished (.error f) => call.downloads ≤ 3 ∧ f ≠ .underflow ∧
      ∃ version ∈ versions, call.sink <+: version.content.drop call.offset

/-- A read that goes on is of something inside the file. -/
structure Call.Sound (o : Opening) (versions : List Version) (bindings : Nat) (call : Call) :
    Prop where
  inside : (∀ result, call.phase ≠ .finished result) →
    call.offset < o.node.size ∧ 0 < call.length
  stands : call.Stands o versions bindings call.phase

/-- Whether a read holds the gate. -/
def Phase.holdsGate : Phase → Bool
  | .before setup _ | .download setup _ _ _ | .after setup _ _ _ _ _ => setup
  | _ => false

structure State.Sound (o : Opening) (s : State) : Prop where
  opening : o.Holds s.versions
  bindings : ∀ b ∈ s.bindings, o.tagged b.effectiveUrl b.tag = o.content
  session : ∀ id, s.session = .bound id → id < s.bindings.length
  gate : ∀ i, s.gate = some i → ∃ call, s.calls[i]? = some call ∧ call.phase.holdsGate = true
  calls : ∀ call ∈ s.calls, call.Sound o s.versions s.bindings.length

section Points

variable {o : Opening} {versions versions' : List Version} {n n' : Nat} {call : Call}

/-- Between the version the session was opened for and another one that matches it, the content has
    not changed. -/
theorem Opening.Holds.content_eq (h : o.Holds versions) {j k : Nat} {v w : Version}
    (hj : o.index ≤ j) (hjk : j ≤ k) (hv : versions[j]? = some v) (hw : versions[k]? = some w)
    (hmatches : w.Matches o.node) : v.content = o.content := by
  obtain ⟨version, hversion, ⟨revision, hrevision, htag⟩, hcontent⟩ := h.version
  obtain ⟨revision', hrevision', htag'⟩ := hmatches
  obtain rfl : revision = revision' := Option.some.inj (hrevision.symm.trans hrevision')
  rw [← hcontent]
  exact h.reused revision hrevision revision.2 o.index j k version v w hj hjk hversion hv hw htag
    htag'

theorem Opening.Holds.mem (h : o.Holds versions) :
    ∃ version ∈ versions, version.content = o.content := by
  obtain ⟨version, hversion, -, hcontent⟩ := h.version
  exact ⟨version, List.mem_of_getElem? hversion, hcontent⟩

/-- The item that is shown is the version. -/
theorem Version.Shows.matches {version : Version} {item : DriveItem} (scope : Scope) {node : Node}
    (h : version.Shows item) (hread : item.matchesRead scope node = true) :
    version.Matches node := by
  unfold DriveItem.matchesRead at hread
  rw [Bool.and_eq_true, Option.any_eq_true] at hread
  obtain ⟨-, revision, hrevision, hcontent⟩ := hread
  refine ⟨revision, hrevision, ?_⟩
  unfold DriveItem.matchesContent at hcontent
  rw [Bool.and_eq_true, decide_eq_true_eq] at hcontent
  obtain ⟨htag, -⟩ := hcontent
  cases hspace : revision.1 with
  | content =>
    rw [hspace] at htag
    exact h.cTag.symm.trans htag
  | etag =>
    rw [hspace] at htag
    exact h.eTag.symm.trans htag

theorem getElem?_of_prefix {k : Nat} {version : Version} (h : versions <+: versions')
    (hk : versions[k]? = some version) : versions'[k]? = some version := by
  obtain ⟨more, rfl⟩ := h
  obtain ⟨hlt, -⟩ := List.getElem?_eq_some_iff.mp hk
  rw [List.getElem?_append_left hlt, hk]

/-- Versions and bindings are only added. -/
theorem Call.Stands.extend {phase : Phase} (h : call.Stands o versions n phase)
    (hversions : versions <+: versions') (hn : n ≤ n') : call.Stands o versions' n' phase := by
  cases phase with
  | entered | turning | waiting | before | download => exact h
  | conditional round id => exact ⟨h.1, h.2.1, h.2.2.1, h.2.2.2.trans_le hn⟩
  | after =>
    obtain ⟨hdownloads, k, version, hk, hversion, hrest⟩ := h
    exact ⟨hdownloads, k, version, hk, getElem?_of_prefix hversions hversion, hrest⟩
  | finished result =>
    cases result with
    | ok bytes => exact h
    | error f =>
      obtain ⟨hdownloads, hf, version, hversion, hsink⟩ := h
      exact ⟨hdownloads, hf, version, hversions.subset hversion, hsink⟩

theorem Call.Sound.extend (h : call.Sound o versions n) (hversions : versions <+: versions')
    (hn : n ≤ n') : call.Sound o versions' n' :=
  ⟨h.inside, h.stands.extend hversions hn⟩

theorem Call.Has.sink {content bytes : Bytes} (h : call.Has o content bytes) :
    call.sink <+: content.drop call.offset := by
  unfold Call.Has at h
  split at h
  · rw [h.2]
    exact List.nil_prefix
  · rw [h]
    exact List.take_prefix _ _

/-- In every phase there are few downloads, and the sink has a beginning of one version. -/
theorem Call.Stands.partial_sink {phase : Phase} (h : call.Stands o versions n phase)
    (ho : o.Holds versions) :
    call.downloads ≤ 3 ∧ ∃ version ∈ versions, call.sink <+: version.content.drop call.offset := by
  obtain ⟨version, hversion, hcontent⟩ := ho.mem
  have hempty : call.sink = [] → ∃ version ∈ versions,
      call.sink <+: version.content.drop call.offset := by
    intro hsink
    rw [hsink]
    exact ⟨version, hversion, List.nil_prefix⟩
  cases phase with
  | entered => exact ⟨by have := h.2; omega, hempty h.1⟩
  | turning => exact ⟨h.2.1.trans (h.2.2.trans (by decide)), hempty h.1⟩
  | conditional => exact ⟨by have := h.2; omega, hempty h.1⟩
  | waiting => exact ⟨by have := h.2; omega, hempty h.1⟩
  | before => exact ⟨h.2.trans (by decide), hempty h.1⟩
  | download => exact ⟨h.2.1, hempty h.1⟩
  | after =>
    obtain ⟨hdownloads, k, version, -, hversion, hhas, -⟩ := h
    exact ⟨hdownloads, version, List.mem_of_getElem? hversion, hhas.sink⟩
  | finished result =>
    cases result with
    | ok bytes =>
      refine ⟨h.1, version, hversion, ?_⟩
      rw [hcontent]
      exact h.2.sink
    | error f => exact ⟨h.1, h.2.2⟩

theorem Call.Sound.failed {f : Failure} (h : call.Sound o versions n) (ho : o.Holds versions)
    (hf : f ≠ .underflow) :
    ({ call with phase := .finished (.error f) } : Call).Sound o versions n' := by
  obtain ⟨hdownloads, hsink⟩ := h.stands.partial_sink ho
  exact ⟨fun hnot => absurd rfl (hnot _), hdownloads, hf, hsink⟩

end Points

/-! ## One read moves -/

/-- How many steps a read still has, at most. -/
def Phase.rank : Phase → Nat
  | .entered => 40
  | .turning round _ => 36 - 10 * round
  | .conditional round _ => 34 - 10 * round
  | .waiting round _ => 32 - 10 * round
  | .before _ _ => 12
  | .download _ _ _ _ => 8
  | .after _ _ _ _ _ _ => 4
  | .finished _ => 0

/-- A step of one read: the others are as they were, the gate is held by a read that looks at the
    item, and the read is nearer to its end. -/
structure Moves (o : Opening) (s s' : State) (i : Nat) (call call' : Call) : Prop where
  versions : s'.versions = s.versions
  bindings : s.bindings.length ≤ s'.bindings.length
  bound : ∀ b ∈ s'.bindings, o.tagged b.effectiveUrl b.tag = o.content
  session : ∀ id, s'.session = .bound id → id < s'.bindings.length
  gate : ∀ k, s'.gate = some k →
    k = i ∧ call'.phase.holdsGate = true ∨ s.gate = some k ∧ k ≠ i
  calls : ∀ j, s'.calls[j]? = if i = j then some call' else s.calls[j]?
  sound : call'.Sound o s'.versions s'.bindings.length
  rank : call'.phase.rank < call.phase.rank

section Moving

variable {o : Opening} {s s' : State} {i : Nat} {call call' : Call}

theorem Moves.keeps (h : Moves o s s' i call call') (hs : s.Sound o) : s'.Sound o := by
  refine ⟨?_, h.bound, h.session, fun k hk => ?_, fun c hc => ?_⟩
  · rw [h.versions]
    exact hs.opening
  · rcases h.gate k hk with ⟨rfl, hgate⟩ | ⟨hold, hne⟩
    · exact ⟨call', by rw [h.calls, if_pos rfl], hgate⟩
    · obtain ⟨holder, hholder, hgate⟩ := hs.gate k hold
      exact ⟨holder, by rw [h.calls, if_neg hne.symm, hholder], hgate⟩
  · obtain ⟨j, hj⟩ := List.mem_iff_getElem?.mp hc
    rw [h.calls] at hj
    split at hj
    · obtain rfl := Option.some.inj hj
      exact h.sound
    · rw [h.versions]
      exact (hs.calls c (List.mem_of_getElem? hj)).extend List.prefix_rfl h.bindings

theorem getElem?_setCall {f : Call → Call} (hcall : s.calls[i]? = some call) (j : Nat) :
    (s.setCall i f).calls[j]? = if i = j then some (f call) else s.calls[j]? := by
  rw [State.setCall, List.getElem?_modify]
  split
  · next hij =>
    subst hij
    rw [hcall]
    rfl
  · rw [id_map']

/-- States that differ in the gate, and in the failure that is kept. -/
structure Beside (s s' : State) : Prop where
  versions : s'.versions = s.versions
  bindings : s'.bindings = s.bindings
  session : s'.session = s.session
  calls : s'.calls = s.calls

theorem Beside.refl : Beside s s := ⟨rfl, rfl, rfl, rfl⟩

theorem checkFailure_spec : Beside s s.checkFailure.1 ∧ s.checkFailure.1.gate = s.gate := by
  unfold State.checkFailure
  split
  · split
    · exact ⟨Beside.refl, rfl⟩
    · exact ⟨⟨rfl, rfl, rfl, rfl⟩, rfl⟩
  · exact ⟨Beside.refl, rfl⟩

/-- A step that changes only the read, and who holds the gate. -/
theorem moves_setCall {f : Call → Call} (hs : s.Sound o) (hb : Beside s s')
    (hcall : s.calls[i]? = some call)
    (hsound : (f call).Sound o s.versions s.bindings.length)
    (hgate : ∀ k, s'.gate = some k →
      k = i ∧ (f call).phase.holdsGate = true ∨ s.gate = some k ∧ k ≠ i)
    (hrank : (f call).phase.rank < call.phase.rank) :
    Moves o s (s'.setCall i f) i call (f call) := by
  have hcall' : s'.calls[i]? = some call := by
    rw [hb.calls]
    exact hcall
  refine ⟨hb.versions, ?_, ?_, ?_, hgate, fun j => ?_, ?_, hrank⟩
  · show _ ≤ s'.bindings.length
    rw [hb.bindings]
  · intro b hmem
    have hmem : b ∈ s'.bindings := hmem
    rw [hb.bindings] at hmem
    exact hs.bindings b hmem
  · intro id hid
    have hid : s'.session = .bound id := hid
    rw [hb.session] at hid
    show id < s'.bindings.length
    rw [hb.bindings]
    exact hs.session id hid
  · rw [getElem?_setCall hcall', hb.calls]
  · show (f call).Sound o s'.versions s'.bindings.length
    rw [hb.versions, hb.bindings]
    exact hsound

/-- The gate of a read that goes on looking at the item, or that does not. -/
theorem gate_kept {phase : Phase} (hs : s.Sound o) (hgate : s'.gate = s.gate)
    (hcall : s.calls[i]? = some call)
    (hholds : call.phase.holdsGate = true → phase.holdsGate = true) :
    ∀ k, s'.gate = some k → k = i ∧ phase.holdsGate = true ∨ s.gate = some k ∧ k ≠ i := by
  intro k hk
  rw [hgate] at hk
  by_cases hki : k = i
  · obtain ⟨holder, hholder, hheld⟩ := hs.gate k hk
    rw [hki] at hholder
    obtain rfl := Option.some.inj (hholder.symm.trans hcall)
    exact .inl ⟨hki, hholds hheld⟩
  · exact .inr ⟨hk, hki⟩

/-- A read that does not hold the gate ends with an error. -/
theorem moves_fail {f : Failure} (hs : s.Sound o) (hb : Beside s s') (hgate : s'.gate = s.gate)
    (hcall : s.calls[i]? = some call) (hf : f ≠ .underflow)
    (hfree : call.phase.holdsGate = false) (hrank : 0 < call.phase.rank) :
    Moves o s (s'.fail i f) i call { call with phase := .finished (.error f) } := by
  apply moves_setCall hs hb hcall
  · exact (hs.calls call (List.mem_of_getElem? hcall)).failed hs.opening hf
  · apply gate_kept hs hgate hcall
    intro hholds
    rw [hfree] at hholds
    cases hholds
  · exact hrank

/-- A checked read ends with an error, and gives the gate up if it has it. -/
theorem moves_failChecked {setup : Bool} {f : Failure} {written : Bytes} (hs : s.Sound o)
    (hcall : s.calls[i]? = some call) (hf : f ≠ .underflow)
    (hwritten : ∃ version ∈ s.versions, call.sink ++ written <+: version.content.drop call.offset)
    (hsetup : call.phase.holdsGate = setup) (hrank : 0 < call.phase.rank) :
    ∃ call', Moves o s (s.failChecked i setup f written) i call call' := by
  have hsound : ({ call with sink := call.sink ++ written, phase := .finished (.error f) } :
      Call).Sound o s.versions s.bindings.length := by
    obtain ⟨hdownloads, -⟩ :=
      (hs.calls call (List.mem_of_getElem? hcall)).stands.partial_sink hs.opening
    exact ⟨fun hnot => absurd rfl (hnot _), hdownloads, hf, hwritten⟩
  unfold State.failChecked
  split
  · exact ⟨_, moves_setCall hs ⟨rfl, rfl, rfl, rfl⟩ hcall hsound (fun k hk => by cases hk) hrank⟩
  · exact ⟨_, moves_setCall hs ⟨rfl, rfl, rfl, rfl⟩ hcall hsound (fun k hk => by cases hk) hrank⟩
  · refine ⟨_, moves_setCall hs Beside.refl hcall hsound (gate_kept hs rfl hcall ?_) hrank⟩
    rw [hsetup]
    rintro ⟨⟩

/-- A turn of the loop. -/
theorem moves_turn {round : Nat} {rejected : Option Nat} (hs : s.Sound o)
    (hcall : s.calls[i]? = some call) (hphase : call.phase = .turning round rejected) :
    ∃ call', Moves o s (s.turn i round rejected) i call call' := by
  have hsound := hs.calls call (List.mem_of_getElem? hcall)
  have hinside := hsound.inside (by
    intro result hresult
    rw [hphase] at hresult
    cases hresult)
  have hstands := hsound.stands
  rw [hphase] at hstands
  obtain ⟨hsink, hdownloads, hround⟩ := hstands
  have hgate : ∀ phase : Phase, ∀ k, s.gate = some k →
      k = i ∧ phase.holdsGate = true ∨ s.gate = some k ∧ k ≠ i := by
    intro phase
    apply gate_kept hs rfl hcall
    rw [hphase]
    rintro ⟨⟩
  unfold State.turn
  split
  · refine ⟨_, moves_fail hs Beside.refl rfl hcall (by decide) ?_ ?_⟩
    · rw [hphase]
      rfl
    · rw [hphase, Phase.rank]
      omega
  next hround' =>
  split
  · next id husable =>
    refine ⟨_, moves_setCall hs Beside.refl hcall ⟨fun _ => hinside, hsink, ?_, ?_, ?_⟩ (hgate _)
      ?_⟩
    · show call.downloads + 1 ≤ round + 1
      omega
    · omega
    · unfold State.usable at husable
      split at husable
      · next id' hsession =>
        split at husable
        · obtain rfl := Option.some.inj husable
          exact hs.session _ hsession
        · cases husable
      · cases husable
    · rw [hphase]
      show 34 - 10 * round < 36 - 10 * round
      omega
  · split
    · refine ⟨_, moves_setCall hs Beside.refl hcall ⟨fun _ => hinside, hsink, ?_⟩ (hgate _) ?_⟩
      · show call.downloads ≤ 2
        omega
      · rw [hphase]
        show 12 < 36 - 10 * round
        omega
    · refine ⟨_, moves_setCall hs Beside.refl hcall ⟨fun _ => hinside, hsink, ?_, ?_⟩ (hgate _) ?_⟩
      · show call.downloads ≤ round + 1
        omega
      · omega
      · rw [hphase]
        show 32 - 10 * round < 36 - 10 * round
        omega

/-- The gate is free: another read has bound the session, or this one looks at the item. -/
theorem moves_enter {round : Nat} {rejected : Option Nat} (hs : s.Sound o)
    (hcall : s.calls[i]? = some call) (hphase : call.phase = .waiting round rejected)
    (hfree : s.gate = none) : ∃ call', Moves o s (s.enter i round rejected) i call call' := by
  have hsound := hs.calls call (List.mem_of_getElem? hcall)
  have hinside := hsound.inside (by
    intro result hresult
    rw [hphase] at hresult
    cases hresult)
  have hstands := hsound.stands
  rw [hphase] at hstands
  obtain ⟨hsink, hdownloads, hround⟩ := hstands
  obtain ⟨hb, hgate⟩ := checkFailure_spec (s := s)
  have hnone : ∀ phase : Phase, ∀ k, s.checkFailure.1.gate = some k →
      k = i ∧ phase.holdsGate = true ∨ s.gate = some k ∧ k ≠ i := by
    intro phase k hk
    rw [hgate, hfree] at hk
    cases hk
  unfold State.enter
  split
  · next s₁ e heq =>
    rw [heq] at hb hgate
    refine ⟨_, moves_fail hs hb hgate hcall (by rintro ⟨⟩) ?_ ?_⟩
    · rw [hphase]
      rfl
    · rw [hphase, Phase.rank]
      omega
  · next s₁ heq =>
    rw [heq] at hb hnone
    split
    · refine ⟨_, moves_setCall hs hb hcall ⟨fun _ => hinside, hsink, hdownloads, ?_⟩ (hnone _) ?_⟩
      · omega
      · rw [hphase]
        show 36 - 10 * (round + 1) < 32 - 10 * round
        omega
    · have hb' : Beside s { s₁ with gate := some i } :=
        ⟨hb.versions, hb.bindings, hb.session, hb.calls⟩
      refine ⟨_, moves_setCall (f := fun call => { call with phase := .before true s₁.now }) hs hb'
        hcall ⟨fun _ => hinside, hsink, ?_⟩ ?_ ?_⟩
      · show call.downloads ≤ 2
        omega
      · intro k hk
        obtain rfl := Option.some.inj hk
        exact .inl ⟨rfl, rfl⟩
      · rw [hphase]
        show 12 < 32 - 10 * round
        omega

/-- What a read that has everything it asked for has. -/
theorem Call.Has.range {content : Bytes} (hkind : call.kind = .range) (hsink : call.sink = []) :
    call.Has o content (part content o.node.size call.offset call.length) := by
  rw [Call.Has, hkind]
  exact ⟨rfl, hsink⟩

theorem Call.Has.window {content bytes : Bytes} (hkind : call.kind = .window)
    (hsink : call.sink = part content o.node.size call.offset call.length) :
    call.Has o content bytes := by
  rw [Call.Has, hkind]
  exact hsink

/-- A reply under a binding is of the version the session was opened for. -/
theorem bound_content {version : Version} {bound : Bound} {reply : Reply} {offset length : Nat}
    (hbound : o.tagged bound.effectiveUrl bound.tag = o.content)
    (hanswers : version.Answers o.tagged o.node.size offset length reply)
    (htaken : Taken o.node.size offset length (some bound) reply) :
    version.content = o.content := by
  have hholds := htaken.bound bound rfl
  unfold bindingHolds at hholds
  simp only [Bool.and_eq_true, decide_eq_true_eq] at hholds
  obtain ⟨⟨hurl, hstrong⟩, htag⟩ := hholds
  rw [htag] at hstrong
  rw [← hanswers.tag bound.tag htag hstrong, hurl, hbound]

theorem moves_answerBound {round id : Nat} {bound : Bound} {sent : Except ProviderError Reply}
    (hs : s.Sound o) (hcall : s.calls[i]? = some call) (hphase : call.phase = .conditional round id)
    (hbound : s.bindings[id]? = some bound)
    (hsent : ∀ reply, sent = .ok reply → ∃ version ∈ s.versions,
      version.Answers o.tagged o.node.size call.offset call.length reply) :
    ∃ call', Moves o s (s.answerBound o.node.size i call round id bound sent) i call call' := by
  have hsound := hs.calls call (List.mem_of_getElem? hcall)
  obtain ⟨hoffset, hlength⟩ := hsound.inside (by
    intro result hresult
    rw [hphase] at hresult
    cases hresult)
  have hstands := hsound.stands
  rw [hphase] at hstands
  obtain ⟨hsink, hdownloads, hround, -⟩ := hstands
  have hfree : call.phase.holdsGate = false := by
    rw [hphase]
    rfl
  have hrank : 0 < call.phase.rank := by
    rw [hphase, Phase.rank]
    omega
  have hgate : ∀ phase : Phase, ∀ k, s.gate = some k →
      k = i ∧ phase.holdsGate = true ∨ s.gate = some k ∧ k ≠ i := by
    intro phase
    apply gate_kept hs rfl hcall
    rw [hfree]
    rintro ⟨⟩
  -- the binding is rejected
  have hrenew : ∃ call', Moves o s (s.setPhase i (.waiting round (some id))) i call call' := by
    refine ⟨_, moves_setCall hs Beside.refl hcall ⟨fun _ => ⟨hoffset, hlength⟩, hsink, hdownloads,
      hround⟩ (hgate _) ?_⟩
    rw [hphase]
    show 32 - 10 * round < 34 - 10 * round
    omega
  unfold State.answerBound
  split
  · exact hrenew
  · next f hf =>
    refine ⟨_, moves_fail hs Beside.refl rfl hcall ?_ hfree hrank⟩
    rintro rfl
    exact downloadResponse_ne_underflow hoffset hlength hf
  · next reply hreply =>
    obtain ⟨hok, htaken⟩ := downloadResponse_eq_ok hoffset hlength hreply
    obtain ⟨version, hversion, hanswers⟩ := hsent reply hok
    have hcontent := bound_content (hs.bindings bound (List.mem_of_getElem? hbound)) hanswers htaken
    obtain ⟨hbegins, hall, hunder⟩ := receive_answer hanswers htaken
    rw [wanted_eq_ok hoffset]
    dsimp only
    cases hkind : call.kind with
    | range =>
      dsimp only
      split
      · next f hf =>
        refine ⟨_, moves_fail hs Beside.refl rfl hcall ?_ hfree hrank⟩
        rintro rfl
        exact hunder hf
      · next hdone =>
        split
        · refine ⟨_, moves_setCall hs Beside.refl hcall ⟨fun hnot => absurd rfl (hnot _), ?_, ?_⟩
            (hgate _) hrank⟩
          · show call.downloads ≤ 3
            omega
          · rw [hall hdone, hcontent]
            exact Call.Has.range hkind hsink
        · exact hrenew
    | window =>
      dsimp only
      refine ⟨_, moves_setCall hs Beside.refl hcall ⟨fun hnot => absurd rfl (hnot _), ?_⟩
        (hgate _) hrank⟩
      dsimp only
      rw [hsink, List.nil_append]
      -- the sink has a beginning of the version in any case
      have hpartial : ∀ f : Failure, f ≠ .underflow → Call.Stands o s.versions s.bindings.length
          { call with
            sink := (receive (min (o.node.size - call.offset) call.length) reply.broken
              reply.chunks []).1
            phase := .finished (.error f) } (.finished (.error f)) := by
        intro f hf
        refine ⟨?_, hf, version, hversion, hbegins⟩
        show call.downloads ≤ 3
        omega
      cases hdone : (receive (min (o.node.size - call.offset) call.length) reply.broken
          reply.chunks []).2 with
      | error f =>
        apply hpartial
        rintro rfl
        exact hunder hdone
      | ok u =>
        show Call.Stands o s.versions s.bindings.length _ (.finished (if _ then _ else _))
        split
        · exact hpartial _ (by rintro ⟨⟩)
        · refine ⟨?_, ?_⟩
          · show call.downloads ≤ 3
            omega
          · refine Call.Has.window hkind ?_
            show (receive _ _ _ _).1 = _
            rw [hall hdone, hcontent]

theorem moves_answerChecked {setup : Bool} {begun since : Nat} {url : String}
    {sent : Except ProviderError Reply} (hs : s.Sound o) (hcall : s.calls[i]? = some call)
    (hphase : call.phase = .download setup begun url since)
    (hsent : ∀ reply, sent = .ok reply → ∃ (k : Nat) (version : Version), since ≤ k ∧
      s.versions[k]? = some version ∧
      version.Answers o.tagged o.node.size call.offset call.length reply) :
    ∃ call', Moves o s (s.answerChecked o.node.size i call setup begun url sent) i call call' := by
  have hsound := hs.calls call (List.mem_of_getElem? hcall)
  obtain ⟨hoffset, hlength⟩ := hsound.inside (by
    intro result hresult
    rw [hphase] at hresult
    cases hresult)
  have hstands := hsound.stands
  rw [hphase] at hstands
  obtain ⟨hsink, hdownloads, hsince⟩ := hstands
  have hsetup : call.phase.holdsGate = setup := by
    rw [hphase]
    rfl
  have hrank : 0 < call.phase.rank := by
    rw [hphase, Phase.rank]
    omega
  have hfail : ∀ (f : Failure) (written : Bytes), f ≠ .underflow →
      (∃ version ∈ s.versions, written <+: version.content.drop call.offset) →
      ∃ call', Moves o s (s.failChecked i setup f written) i call call' := by
    intro f written hf hwritten
    refine moves_failChecked hs hcall hf ?_ hsetup hrank
    rw [hsink, List.nil_append]
    exact hwritten
  obtain ⟨opened, hopened, -⟩ := hs.opening.mem
  have hnothing : ∃ version ∈ s.versions, [] <+: version.content.drop call.offset :=
    ⟨opened, hopened, List.nil_prefix⟩
  unfold State.answerChecked
  split
  · exact hfail _ _ (by rintro ⟨⟩) hnothing
  · next f hf =>
    refine hfail _ _ ?_ hnothing
    rintro rfl
    exact downloadResponse_ne_underflow hoffset hlength hf
  · next reply hreply =>
    obtain ⟨hok, htaken⟩ := downloadResponse_eq_ok hoffset hlength hreply
    obtain ⟨k, version, hk, hversion, hanswers⟩ := hsent reply hok
    obtain ⟨hbegins, hall, hunder⟩ := receive_answer hanswers htaken
    have hgate : ∀ phase : Phase, phase.holdsGate = setup → ∀ k, s.gate = some k →
        k = i ∧ phase.holdsGate = true ∨ s.gate = some k ∧ k ≠ i := by
      intro phase hphase'
      apply gate_kept hs rfl hcall
      rw [hsetup, hphase']
      exact id
    have hafter : ∀ (written bytes : Bytes),
        ({ call with
          sink := call.sink ++ written
          phase := .after setup begun url reply.url reply.etag bytes } : Call).Has o
          version.content bytes →
        ∃ call', Moves o s (s.setCall i fun call =>
          { call with
            sink := call.sink ++ written
            phase := .after setup begun url reply.url reply.etag bytes }) i call call' := by
      intro written bytes hhas
      refine ⟨_, moves_setCall hs Beside.refl hcall ⟨fun _ => ⟨hoffset, hlength⟩, hdownloads, k,
        version, hsince.trans hk, hversion, hhas, hanswers.tag⟩ (hgate _ rfl) ?_⟩
      rw [hphase]
      show 4 < 8
      decide
    rw [wanted_eq_ok hoffset]
    dsimp only
    cases hkind : call.kind with
    | range =>
      dsimp only
      split
      · next f hf =>
        refine hfail _ _ ?_ hnothing
        rintro rfl
        exact hunder hf
      · next hdone =>
        apply hafter
        rw [hall hdone]
        refine Call.Has.range hkind ?_
        show call.sink ++ [] = []
        rw [hsink]
        rfl
    | window =>
      dsimp only
      split
      · next f hf =>
        refine hfail _ _ ?_ ⟨version, List.mem_of_getElem? hversion, hbegins⟩
        rintro rfl
        exact hunder hf
      · next hdone =>
        apply hafter
        refine Call.Has.window hkind ?_
        show call.sink ++ _ = _
        rw [hsink, List.nil_append, hall hdone]

theorem getLast?_eq {version : Version} (h : version ∈ s.versions.getLast?) :
    s.versions[s.versions.length - 1]? = some version := by
  rw [← List.getLast?_eq_getElem?]
  exact h

/-- The item was still the version: what was read is of it, and so is the tag. -/
theorem moves_complete {setup : Bool} {begun : Nat} {url effectiveUrl : String}
    {tag : Option Bytes} {bytes : Bytes} (hs : s.Sound o) (hcall : s.calls[i]? = some call)
    (hphase : call.phase = .after setup begun url effectiveUrl tag bytes)
    (hlast : ∃ version ∈ s.versions.getLast?, version.Matches o.node) :
    ∃ call', Moves o s (s.complete i setup begun url effectiveUrl tag bytes) i call call' := by
  have hstands := (hs.calls call (List.mem_of_getElem? hcall)).stands
  rw [hphase] at hstands
  obtain ⟨hdownloads, k, version, hk, hversion, hhas, htag⟩ := hstands
  obtain ⟨last, hlast, hmatches⟩ := hlast
  obtain ⟨hlt, -⟩ := List.getElem?_eq_some_iff.mp hversion
  have hcontent := hs.opening.content_eq hk (by omega) hversion (getLast?_eq hlast) hmatches
  rw [hcontent] at hhas htag
  have hrank : 0 < call.phase.rank := by
    rw [hphase]
    show 0 < 4
    decide
  have hsound : ∀ n, ({ call with phase := .finished (.ok bytes) } : Call).Sound o s.versions n :=
    fun n => ⟨fun hnot => absurd rfl (hnot _), hdownloads, hhas⟩
  have hcalls := getElem?_setCall (f := fun call => { call with phase := .finished (.ok bytes) })
    hcall
  unfold State.complete
  split
  · -- the session is bound to the tag, or falls back
    split
    · next tag' htag' =>
      obtain ⟨hsome, hstrong⟩ := Option.filter_eq_some_iff.mp htag'
      refine ⟨{ call with phase := .finished (.ok bytes) }, rfl, ?_, fun b hb => ?_,
        fun id hid => ?_, (fun k hk => by cases hk), hcalls, hsound _, hrank⟩
      · show s.bindings.length ≤ (s.bindings ++ [_]).length
        rw [List.length_append]
        exact Nat.le_add_right _ _
      · rcases List.mem_append.mp hb with hb | hb
        · exact hs.bindings b hb
        · obtain rfl := List.mem_singleton.mp hb
          exact htag tag' hsome hstrong
      · obtain rfl : s.bindings.length = id := SessionState.bound.inj hid
        show s.bindings.length < (s.bindings ++ [_]).length
        rw [List.length_append]
        exact Nat.lt_succ_self _
    · exact ⟨{ call with phase := .finished (.ok bytes) }, rfl, le_rfl, hs.bindings,
        (fun id hid => by cases hid), (fun k hk => by cases hk), hcalls, hsound _, hrank⟩
  · next hsetup =>
    refine ⟨_, moves_setCall hs Beside.refl hcall (hsound _) (gate_kept hs rfl hcall ?_) hrank⟩
    rw [hphase]
    intro hholds
    exact absurd hholds hsetup

theorem moves_look {scope : Scope} {shown : Except ProviderError Metadata} (hs : s.Sound o)
    (hcall : s.calls[i]? = some call)
    (hshown : ∀ metadata, shown = .ok metadata →
      ∃ version ∈ s.versions.getLast?, version.Shows metadata.item) :
    s.look scope o.node i call shown = s ∨
      ∃ call', Moves o s (s.look scope o.node i call shown) i call call' := by
  have hsound := hs.calls call (List.mem_of_getElem? hcall)
  obtain ⟨-, hsink⟩ := hsound.stands.partial_sink hs.opening
  have hfail : ∀ (setup : Bool) (f : Failure), f ≠ .underflow → call.phase.holdsGate = setup →
      0 < call.phase.rank → ∃ call', Moves o s (s.failChecked i setup f) i call call' := by
    intro setup f hf hsetup hrank
    refine moves_failChecked hs hcall hf ?_ hsetup hrank
    rw [List.append_nil]
    exact hsink
  unfold State.look
  split
  · next setup begun hphase =>
    right
    have hsetup : call.phase.holdsGate = setup := by
      rw [hphase]
      rfl
    have hrank : 0 < call.phase.rank := by
      rw [hphase, Phase.rank]
      omega
    split
    · exact hfail _ _ (by rintro ⟨⟩) hsetup hrank
    · next metadata =>
      split
      · exact hfail _ _ (by rintro ⟨⟩) hsetup hrank
      · split
        · exact hfail _ _ (by rintro ⟨⟩) hsetup hrank
        · next url hurl =>
          have hstands := hsound.stands
          rw [hphase] at hstands
          have hinside := hsound.inside (by
            intro result hresult
            rw [hphase] at hresult
            cases hresult)
          obtain ⟨opened, hopened, -⟩ := hs.opening.version
          obtain ⟨hlt, -⟩ := List.getElem?_eq_some_iff.mp hopened
          refine ⟨_, moves_setCall hs Beside.refl hcall ⟨fun _ => hinside, hstands.1, ?_, ?_⟩
            (gate_kept hs rfl hcall ?_) ?_⟩
          · show call.downloads + 1 ≤ 3
            have := hstands.2
            omega
          · omega
          · rw [hsetup]
            exact id
          · rw [hphase]
            show 8 < 12
            decide
  · next setup begun url effectiveUrl tag bytes hphase =>
    right
    have hsetup : call.phase.holdsGate = setup := by
      rw [hphase]
      rfl
    have hrank : 0 < call.phase.rank := by
      rw [hphase, Phase.rank]
      omega
    split
    · exact hfail _ _ (by rintro ⟨⟩) hsetup hrank
    · next metadata =>
      split
      · exact hfail _ _ (by rintro ⟨⟩) hsetup hrank
      · next hmatches =>
        obtain ⟨version, hversion, hshows⟩ := hshown metadata rfl
        refine moves_complete hs hcall hphase ⟨version, hversion, hshows.matches scope ?_⟩
        simpa using hmatches
  · exact .inl rfl

theorem moves_begin {cooldown : Option ProviderError} (hs : s.Sound o)
    (hcall : s.calls[i]? = some call) (hphase : call.phase = .entered) {scope : Scope} :
    ∃ call', Moves o s (s.stepCall scope o.node i call (.begun i cooldown)) i call call' := by
  have hsound := hs.calls call (List.mem_of_getElem? hcall)
  have hinside := hsound.inside (by
    intro result hresult
    rw [hphase] at hresult
    cases hresult)
  have hstands := hsound.stands
  rw [hphase] at hstands
  have hfree : call.phase.holdsGate = false := by
    rw [hphase]
    rfl
  have hrank : 0 < call.phase.rank := by
    rw [hphase, Phase.rank]
    omega
  obtain ⟨hb, hgate⟩ := checkFailure_spec (s := s)
  unfold State.stepCall
  dsimp only
  rw [hphase]
  cases cooldown with
  | some e => exact ⟨_, moves_fail hs Beside.refl rfl hcall (by rintro ⟨⟩) hfree hrank⟩
  | none =>
    dsimp only
    split
    · next s₁ e heq =>
      rw [heq] at hb hgate
      exact ⟨_, moves_fail hs hb hgate hcall (by rintro ⟨⟩) hfree hrank⟩
    · next s₁ heq =>
      rw [heq] at hb hgate
      refine ⟨_, moves_setCall hs hb hcall ⟨fun _ => hinside, hstands.1, hstands.2.le, ?_⟩
        (gate_kept hs hgate hcall ?_) ?_⟩
      · decide
      · rw [hfree]
        rintro ⟨⟩
      · rw [hphase]
        show 36 - 10 * 0 < 40
        decide

/-- A read that has not ended has steps left. -/
theorem rank_pos (hs : s.Sound o) (hcall : s.calls[i]? = some call)
    (hunfinished : ∀ result, call.phase ≠ .finished result) : 0 < call.phase.rank := by
  have hstands := (hs.calls call (List.mem_of_getElem? hcall)).stands
  cases hphase : call.phase with
  | entered | before | download | after => exact Nat.succ_pos _
  | turning round rejected =>
    rw [hphase] at hstands
    show 0 < 36 - 10 * round
    have := hstands.2.2
    omega
  | conditional round id =>
    rw [hphase] at hstands
    show 0 < 34 - 10 * round
    have := hstands.2.2.1
    omega
  | waiting round rejected =>
    rw [hphase] at hstands
    show 0 < 32 - 10 * round
    have := hstands.2.2
    omega
  | finished result => exact absurd hphase (hunfinished result)

/-- A read is given up with a beginning of one version in its sink. -/
theorem moves_drop {e : ProviderError} {written : Bytes} (hs : s.Sound o)
    (hcall : s.calls[i]? = some call) (hrank : 0 < call.phase.rank)
    (hwritten : ∃ version ∈ s.versions,
      call.sink ++ written <+: version.content.drop call.offset) :
    ∃ call', Moves o s (s.drop i e written) i call call' := by
  have hb : Beside s { s with gate := if s.gate = some i then none else s.gate } :=
    ⟨rfl, rfl, rfl, rfl⟩
  refine ⟨_, moves_setCall (f := fun call =>
    { call with sink := call.sink ++ written, phase := .finished (.error (.provider e)) })
    hs hb hcall ?_ (fun k hk => .inr ?_) hrank⟩
  · obtain ⟨hdownloads, -⟩ :=
      (hs.calls call (List.mem_of_getElem? hcall)).stands.partial_sink hs.opening
    exact ⟨fun hnot => absurd rfl (hnot _), hdownloads, by rintro ⟨⟩, hwritten⟩
  · have hheld : (if s.gate = some i then none else s.gate) = some k := hk
    split at hheld
    · cases hheld
    · next hother =>
      refine ⟨hheld, fun hki => hother ?_⟩
      rw [hheld, hki]

theorem moves_dropped {e : ProviderError} (hs : s.Sound o) (hcall : s.calls[i]? = some call)
    (hrank : 0 < call.phase.rank) : ∃ call', Moves o s (s.drop i e []) i call call' := by
  apply moves_drop hs hcall hrank
  rw [List.append_nil]
  exact ((hs.calls call (List.mem_of_getElem? hcall)).stands.partial_sink hs.opening).2

/-- A stream that stops leaves what it has written. -/
theorem moves_stopped {scope : Scope} {sent : Reply} {count : Nat} {e : ProviderError}
    {dropped : Bool} (hs : s.Sound o) (hcall : s.calls[i]? = some call)
    (hsent : ∃ version ∈ s.versions,
      version.Answers o.tagged o.node.size call.offset call.length sent) :
    s.stepCall scope o.node i call (.stopped i sent count e dropped) = s ∨
      ∃ call', Moves o s (s.stepCall scope o.node i call (.stopped i sent count e dropped)) i call
        call' := by
  have hsound := hs.calls call (List.mem_of_getElem? hcall)
  obtain ⟨version, hversion, hanswers⟩ := hsent
  have hwritten : call.sink = [] → (∀ result, call.phase ≠ .finished result) →
      ∀ bound : Option Bound, ∃ version ∈ s.versions,
        call.sink ++ streamed o.node.size call bound sent count <+:
          version.content.drop call.offset := by
    intro hsink hopen bound
    obtain ⟨hoffset, hlength⟩ := hsound.inside hopen
    rw [hsink, List.nil_append]
    exact ⟨version, hversion, streamed_prefix hoffset hlength hanswers⟩
  have hstands := hsound.stands
  unfold State.stepCall
  dsimp only
  split
  · next round id hphase =>
    rw [hphase] at hstands
    have hopen : ∀ result, call.phase ≠ .finished result := by
      rw [hphase]
      rintro result ⟨⟩
    split
    · exact .inr (moves_drop hs hcall (rank_pos hs hcall hopen) (hwritten hstands.1 hopen _))
    · exact .inl rfl
  · next setup begun url since hphase =>
    rw [hphase] at hstands
    have hopen : ∀ result, call.phase ≠ .finished result := by
      rw [hphase]
      rintro result ⟨⟩
    right
    split
    · exact moves_drop hs hcall (rank_pos hs hcall hopen) (hwritten hstands.1 hopen _)
    · refine moves_failChecked hs hcall (by rintro ⟨⟩) (hwritten hstands.1 hopen _) ?_
        (rank_pos hs hcall hopen)
      rw [hphase]
      rfl
  · exact .inl rfl

/-- A step of a read changes nothing, or the read moves. -/
theorem stepCall_moves (scope : Scope) {e : Event} (hs : s.Sound o)
    (hallowed : Allowed o.tagged o.node s e) (he : e.call = some i)
    (hcall : s.calls[i]? = some call) :
    s.stepCall scope o.node i call e = s ∨
      ∃ call', Moves o s (s.stepCall scope o.node i call e) i call call' := by
  cases e with
  | edited | passed | read => cases he
  | begun i' cooldown =>
    obtain rfl := Option.some.inj he
    cases hphase : call.phase with
    | entered => exact .inr (moves_begin hs hcall hphase)
    | _ =>
      left
      unfold State.stepCall
      simp only [hphase]
  | turned i' =>
    unfold State.stepCall
    dsimp only
    split
    · next hphase => exact .inr (moves_turn hs hcall hphase)
    · exact .inl rfl
  | entered i' =>
    unfold State.stepCall
    dsimp only
    split
    · next hphase =>
      split
      · next hfree =>
        exact .inr (moves_enter hs hcall hphase (Option.isNone_iff_eq_none.mp hfree))
      · exact .inl rfl
    · exact .inl rfl
  | answered i' sent =>
    obtain rfl := Option.some.inj he
    have hsent : ∀ reply, sent = .ok reply → ∃ (k : Nat) (version : Version),
        call.phase.since ≤ k ∧ s.versions[k]? = some version ∧
        version.Answers o.tagged o.node.size call.offset call.length reply := by
      rintro reply rfl
      exact hallowed call hcall
    unfold State.stepCall
    dsimp only
    split
    · next round id hphase =>
      split
      · next bound hbound =>
        refine .inr (moves_answerBound hs hcall hphase hbound fun reply hreply => ?_)
        obtain ⟨k, version, -, hversion, hanswers⟩ := hsent reply hreply
        exact ⟨version, List.mem_of_getElem? hversion, hanswers⟩
      · exact .inl rfl
    · next setup begun url since hphase =>
      refine .inr (moves_answerChecked hs hcall hphase fun reply hreply => ?_)
      obtain ⟨k, version, hk, hrest⟩ := hsent reply hreply
      rw [hphase] at hk
      exact ⟨k, version, hk, hrest⟩
    · exact .inl rfl
  | shown i' shown =>
    apply moves_look hs hcall
    rintro metadata rfl
    exact hallowed
  | dropped i' error =>
    unfold State.stepCall
    dsimp only
    split
    · exact .inl rfl
    · next hunfinished => exact .inr (moves_dropped hs hcall (rank_pos hs hcall hunfinished))
  | stopped i' sent count error dropped =>
    obtain rfl := Option.some.inj he
    obtain ⟨-, k, version, -, hversion, hanswers⟩ := hallowed call hcall
    exact moves_stopped hs hcall ⟨version, List.mem_of_getElem? hversion, hanswers⟩

theorem step_call {scope : Scope} {e : Event} (he : e.call = some i)
    (hcall : s.calls[i]? = some call) :
    step scope o.node s e = s.stepCall scope o.node i call e := by
  cases e with
  | edited | passed | read => cases he
  | _ =>
    obtain rfl := Option.some.inj he
    simp only [step, Event.call, hcall]

/-- A read that begins. -/
theorem admission_sound (hs : s.Sound o) (kind : Kind) (offset length : Nat) :
    ({ kind, offset, length, phase := admission o.node s kind offset length } : Call).Sound o
      s.versions s.bindings.length := by
  obtain ⟨opened, hopened, -⟩ := hs.opening.mem
  have hended : ∀ f : Failure, f ≠ .underflow →
      ({ kind, offset, length, phase := .finished (.error f) } : Call).Sound o s.versions
        s.bindings.length := fun f hf =>
    ⟨fun hnot => absurd rfl (hnot _), Nat.zero_le _, hf, opened, hopened, List.nil_prefix⟩
  unfold admission
  cases kind with
  | range =>
    dsimp only
    split
    · next hnothing =>
      refine ⟨fun hnot => absurd rfl (hnot _), Nat.zero_le _, ?_, rfl⟩
      have hzero : min (o.node.size - offset) length = 0 := by omega
      rw [part, hzero]
      rfl
    · next hsome =>
      split
      · exact hended _ (by rintro ⟨⟩)
      · exact ⟨fun _ => by dsimp only; omega, rfl, rfl⟩
  | window =>
    dsimp only
    generalize (if s.session = .cold then 0 else windowLimit) = limit
    split
    · exact hended _ (by rintro ⟨⟩)
    · exact ⟨fun _ => by dsimp only; omega, rfl, rfl⟩

/-- A step keeps the session. -/
theorem step_sound {scope : Scope} {e : Event} (hs : s.Sound o)
    (hallowed : Allowed o.tagged o.node s e) : (step scope o.node s e).Sound o := by
  have hread : ∀ i, e.call = some i → (step scope o.node s e).Sound o := by
    intro i he
    cases hcall : s.calls[i]? with
    | none =>
      have hsame : step scope o.node s e = s := by
        cases e with
        | edited | passed | read => cases he
        | _ =>
          obtain rfl := Option.some.inj he
          simp only [step, Event.call, hcall]
      rw [hsame]
      exact hs
    | some call =>
      rw [step_call he hcall]
      rcases stepCall_moves scope hs hallowed he hcall with hsame | ⟨call', hmoves⟩
      · rw [hsame]
        exact hs
      · exact hmoves.keeps hs
  cases e with
  | edited version =>
    refine ⟨?_, hs.bindings, hs.session, hs.gate, fun c hc => ?_⟩
    · obtain ⟨opened, hopened, hrest⟩ := hs.opening.version
      exact ⟨⟨opened, getElem?_of_prefix (List.prefix_append _ _) hopened, hrest⟩,
        hs.opening.size, hallowed⟩
    · exact (hs.calls c hc).extend (List.prefix_append _ _) le_rfl
  | passed seconds => exact ⟨hs.opening, hs.bindings, hs.session, hs.gate, hs.calls⟩
  | read kind offset length =>
    refine ⟨hs.opening, hs.bindings, hs.session, fun i hi => ?_, fun c hc => ?_⟩
    · obtain ⟨holder, hholder, hholds⟩ := hs.gate i hi
      obtain ⟨hlt, -⟩ := List.getElem?_eq_some_iff.mp hholder
      refine ⟨holder, ?_, hholds⟩
      show (s.calls ++ [_])[i]? = some holder
      rw [List.getElem?_append_left hlt, hholder]
    · rcases List.mem_append.mp hc with hc | hc
      · exact hs.calls c hc
      · obtain rfl := List.mem_singleton.mp hc
        exact admission_sound hs kind offset length
  | _ => exact hread _ rfl

/-! ## A read ends -/

/-- Whatever happens, a read stays as it is or is nearer to its end. -/
theorem step_rank {scope : Scope} {e : Event} (hs : s.Sound o)
    (hallowed : Allowed o.tagged o.node s e) (hcall : s.calls[i]? = some call) :
    ∃ call', (step scope o.node s e).calls[i]? = some call' ∧
      (call' = call ∨ call'.phase.rank < call.phase.rank) := by
  have hread : ∀ j, e.call = some j → ∃ call', (step scope o.node s e).calls[i]? = some call' ∧
      (call' = call ∨ call'.phase.rank < call.phase.rank) := by
    intro j he
    cases hother : s.calls[j]? with
    | none =>
      have hsame : step scope o.node s e = s := by
        cases e with
        | edited | passed | read => cases he
        | _ =>
          obtain rfl := Option.some.inj he
          simp only [step, Event.call, hother]
      rw [hsame]
      exact ⟨call, hcall, .inl rfl⟩
    | some other =>
      rw [step_call he hother]
      rcases stepCall_moves scope hs hallowed he hother with hsame | ⟨other', hmoves⟩
      · rw [hsame]
        exact ⟨call, hcall, .inl rfl⟩
      · rw [hmoves.calls]
        split
        · next hji =>
          subst hji
          obtain rfl := Option.some.inj (hother.symm.trans hcall)
          exact ⟨other', rfl, .inr hmoves.rank⟩
        · exact ⟨call, hcall, .inl rfl⟩
  cases e with
  | edited | passed => exact ⟨call, hcall, .inl rfl⟩
  | read kind offset length =>
    obtain ⟨hlt, -⟩ := List.getElem?_eq_some_iff.mp hcall
    refine ⟨call, ?_, .inl rfl⟩
    show (s.calls ++ [_])[i]? = some call
    rw [List.getElem?_append_left hlt, hcall]
  | _ => exact hread _ rfl

/-- A read that is not at its end and does not wait for the gate has a step of its own. -/
theorem can_move (scope : Scope) (hs : s.Sound o) (hcall : s.calls[i]? = some call)
    (hunfinished : ∀ result, call.phase ≠ .finished result)
    (hgate : ∀ round rejected, call.phase = .waiting round rejected → s.gate = none) :
    ∃ e, Allowed o.tagged o.node s e ∧ e.goesOn = true ∧
      ∃ call', Moves o s (step scope o.node s e) i call call' := by
  have hsound := hs.calls call (List.mem_of_getElem? hcall)
  have hnone : ∀ reply, (.error .unavailable : Except ProviderError Reply) = .ok reply → False := by
    rintro reply ⟨⟩
  have hfailed : ∀ setup, call.phase.holdsGate = setup →
      ∃ call', Moves o s (s.failChecked i setup (.provider .unavailable)) i call call' := by
    intro setup hsetup
    refine moves_failChecked hs hcall (by rintro ⟨⟩) ?_ hsetup (rank_pos hs hcall hunfinished)
    rw [List.append_nil]
    exact (hsound.stands.partial_sink hs.opening).2
  cases hphase : call.phase with
  | entered =>
    refine ⟨.begun i none, trivial, rfl, ?_⟩
    rw [step_call rfl hcall]
    exact moves_begin hs hcall hphase
  | turning round rejected =>
    refine ⟨.turned i, trivial, rfl, ?_⟩
    rw [step_call rfl hcall]
    simp only [State.stepCall, hphase]
    exact moves_turn hs hcall hphase
  | conditional round id =>
    refine ⟨.answered i (.error .unavailable), trivial, rfl, ?_⟩
    have hstands := hsound.stands
    rw [hphase] at hstands
    have hbound := List.getElem?_eq_getElem hstands.2.2.2
    rw [step_call rfl hcall]
    simp only [State.stepCall, hphase, hbound]
    exact moves_answerBound hs hcall hphase hbound fun reply hreply => (hnone reply hreply).elim
  | waiting round rejected =>
    refine ⟨.entered i, trivial, rfl, ?_⟩
    have hfree := hgate round rejected hphase
    rw [step_call rfl hcall]
    simp only [State.stepCall, hphase, hfree, Option.isNone_none, if_true]
    exact moves_enter hs hcall hphase hfree
  | before setup begun =>
    refine ⟨.shown i (.error .unavailable), trivial, rfl, ?_⟩
    rw [step_call rfl hcall]
    simp only [State.stepCall, State.look, hphase]
    exact hfailed setup (by rw [hphase]; rfl)
  | download setup begun url since =>
    refine ⟨.answered i (.error .unavailable), trivial, rfl, ?_⟩
    rw [step_call rfl hcall]
    simp only [State.stepCall, hphase]
    exact moves_answerChecked hs hcall hphase fun reply hreply => (hnone reply hreply).elim
  | after setup begun url effectiveUrl tag bytes =>
    refine ⟨.shown i (.error .unavailable), trivial, rfl, ?_⟩
    rw [step_call rfl hcall]
    simp only [State.stepCall, State.look, hphase]
    exact hfailed setup (by rw [hphase]; rfl)
  | finished result => exact absurd hphase (hunfinished result)

/-- A read that has not ended has a step of its own, or the one that holds the gate has. -/
theorem can_go_on {scope : Scope} (hs : s.Sound o) (hcall : s.calls[i]? = some call)
    (hunfinished : ∀ result, call.phase ≠ .finished result) :
    ∃ j, (j = i ∨ s.gate = some j) ∧ ∃ e, Allowed o.tagged o.node s e ∧
      e.goesOn = true ∧ ∃ c c', s.calls[j]? = some c ∧
        (step scope o.node s e).calls[j]? = some c' ∧ c'.phase.rank < c.phase.rank := by
  have hown : ∀ (j : Nat) (c : Call), s.calls[j]? = some c →
      (∀ result, c.phase ≠ .finished result) →
      (∀ round rejected, c.phase = .waiting round rejected → s.gate = none) →
      ∃ e, Allowed o.tagged o.node s e ∧ e.goesOn = true ∧
        ∃ c c', s.calls[j]? = some c ∧ (step scope o.node s e).calls[j]? = some c' ∧
          c'.phase.rank < c.phase.rank := by
    intro j c hc hopen hfree
    obtain ⟨e, hallowed, hkind, c', hmoves⟩ := can_move scope hs hc hopen hfree
    exact ⟨e, hallowed, hkind, c, c', hc, by rw [hmoves.calls, if_pos rfl], hmoves.rank⟩
  cases hgate : s.gate with
  | none => exact ⟨i, .inl rfl, hown i call hcall hunfinished fun _ _ _ => hgate⟩
  | some j =>
    obtain ⟨holder, hholder, hholds⟩ := hs.gate j hgate
    refine ⟨j, .inr rfl, hown j holder hholder ?_ ?_⟩
    · intro result hresult
      rw [hresult] at hholds
      cases hholds
    · intro round rejected hwaiting
      rw [hwaiting] at hholds
      cases hholds

theorem part_eq {content : Bytes} {size offset length : Nat} (h : content.length = size) :
    part content size offset length = (content.drop offset).take length := by
  rw [part, List.take_eq_take_iff, List.length_drop]
  omega

theorem run_sound {scope : Scope} {versions : List Version} {events : List Event}
    (hopening : o.Holds versions)
    (h : Run (step scope o.node) (Allowed o.tagged o.node) { versions } events s) :
    s.Sound o := by
  apply h.invariant (State.Sound o)
  · refine ⟨hopening, fun b hb => ?_, fun id hid => ?_, fun i hi => ?_, fun c hc => ?_⟩
    · cases hb
    · cases hid
    · cases hi
    · cases hc
  · intro s e hs hallowed
    exact step_sound hs hallowed

/-- Over every run: a range that succeeds is the part of the version the session was opened for, a
    window that succeeds has written it to its sink, and one that fails has written a beginning of
    the part of one version. A read begins at most three downloads, subtracts nothing that is too
    large, and ends: every step of its own brings it nearer to its end, no step takes it away, and
    it has one, or the read it waits for has. -/
theorem session_exact {scope : Scope} {versions : List Version} {events : List Event}
    (hopening : o.Holds versions)
    (h : Run (step scope o.node) (Allowed o.tagged o.node) { versions } events s)
    (hcall : s.calls[i]? = some call) :
    (∀ bytes, call.phase = .finished (.ok bytes) →
      match call.kind with
      | .range => bytes = (o.content.drop call.offset).take call.length
      | .window => call.sink = (o.content.drop call.offset).take call.length) ∧
    (∃ version ∈ s.versions, call.sink <+: version.content.drop call.offset) ∧
    call.downloads ≤ 3 ∧ call.phase ≠ .finished (.error .underflow) ∧
    (∀ e, Allowed o.tagged o.node s e → ∃ call', (step scope o.node s e).calls[i]? = some call' ∧
      (call' = call ∨ call'.phase.rank < call.phase.rank)) ∧
    ((∀ result, call.phase ≠ .finished result) →
      ∃ j, (j = i ∨ s.gate = some j) ∧ ∃ e, Allowed o.tagged o.node s e ∧
        e.goesOn = true ∧ ∃ c c', s.calls[j]? = some c ∧
          (step scope o.node s e).calls[j]? = some c' ∧ c'.phase.rank < c.phase.rank) := by
  have hs := run_sound hopening h
  have hsound := hs.calls call (List.mem_of_getElem? hcall)
  obtain ⟨hdownloads, hsink⟩ := hsound.stands.partial_sink hs.opening
  refine ⟨fun bytes hphase => ?_, hsink, hdownloads, fun hphase => ?_,
    fun e hallowed => step_rank hs hallowed hcall, can_go_on hs hcall⟩
  · have hstands := hsound.stands
    rw [hphase] at hstands
    have hhas := hstands.2
    unfold Call.Has at hhas
    rw [part_eq hs.opening.size] at hhas
    cases hkind : call.kind with
    | range =>
      rw [hkind] at hhas
      exact hhas.1
    | window =>
      rw [hkind] at hhas
      exact hhas
  · have hstands := hsound.stands
    rw [hphase] at hstands
    exact hstands.2.1 rfl

end Moving

/-! ## A range binds the session, and a window uses it -/

def sampleVersion : Version := ⟨[1, 2, 3], none, some "c"⟩

/-- The item under another name. -/
def sampleRenamed : Version := ⟨[1, 2, 3], some "e", some "c"⟩

/-- Another content of the item. -/
def sampleChanged : Version := ⟨[4, 5], some "f", some "d"⟩

def sampleNode : Node where
  id := "n"
  parentId := none
  name := "n"
  kind := .file
  size := 3
  modifiedUnix := 0
  etag := none
  contentVersion := some "c"
  target := none
  package := false

def sampleOpening : Opening := ⟨sampleNode, [1, 2, 3], 0, fun _ _ => [1, 2, 3]⟩

def sampleScope : Scope := ⟨"a", "onedrive", "d"⟩

def sampleMetadata : Metadata where
  item :=
    { id := "n", name := none, size := some 3, eTag := none, cTag := some "c", lastModified := none
      parentReference := none, file := true, folder := false, package := false, deleted := false
      remoteItem := none }
  download := .ok "u"

/-- The bytes from an offset, under one strong tag. -/
def sampleReply (offset : Nat) (bytes : Bytes) : Reply :=
  ⟨206, "u", some [0x22, 0x22], none, some (rangeText offset (offset + bytes.length - 1) 3), 0,
    [bytes], false⟩

def sampleEvents : List Event :=
  [.read .range 0 2, .begun 0 none, .turned 0, .entered 0, .shown 0 (.ok sampleMetadata),
    .answered 0 (.ok (sampleReply 0 [1, 2])), .shown 0 (.ok sampleMetadata),
    .edited sampleRenamed, .read .window 1 2, .begun 1 none, .turned 1, .read .window 0 3,
    .begun 2 none, .turned 2, .stopped 2 (sampleReply 0 [1, 2, 3]) 2 .cancelled true,
    .edited sampleChanged, .answered 1 (.ok (sampleReply 1 [2, 3]))]

theorem sample_opening : sampleOpening.Holds [sampleVersion] := by
  refine ⟨⟨sampleVersion, rfl, ⟨(.content, "c"), rfl, rfl⟩, rfl⟩, rfl, ?_⟩
  intro _ _ _ i j k u v w _ _ hu hv _ _ _
  rw [List.mem_singleton.mp (List.mem_of_getElem? hu),
    List.mem_singleton.mp (List.mem_of_getElem? hv)]

/-- The tag of the content comes back with the content only. -/
theorem sample_neverReused (versions : List Version)
    (h : versions <+: [sampleVersion, sampleRenamed, sampleChanged]) :
    NeverReused sampleNode versions := by
  intro revision hrevision tag i j k u v w hij hjk hu hv hw htag htag'
  obtain rfl : (RevisionSpace.content, "c") = revision := Option.some.inj hrevision
  have hu := getElem?_of_prefix h hu
  have hv := getElem?_of_prefix h hv
  have hw := getElem?_of_prefix h hw
  have hk : k < 3 := (List.getElem?_eq_some_iff.mp hw).1
  have hsame : u.cTag = w.cTag := htag.trans htag'.symm
  interval_cases k <;> interval_cases j <;> interval_cases i <;>
    obtain rfl := Option.some.inj hu <;> obtain rfl := Option.some.inj hv <;>
    obtain rfl := Option.some.inj hw
  all_goals first
    | rfl
    | exact absurd hsame (by decide)

theorem sample_answers (offset : Nat) (bytes : Bytes)
    (h : bytes = part [1, 2, 3] 3 offset bytes.length) :
    sampleVersion.Answers sampleOpening.tagged 3 offset bytes.length (sampleReply offset bytes) := by
  have hflatten : (sampleReply offset bytes).chunks.flatten = bytes := List.flatten_singleton
  have hpart : part sampleVersion.content 3 offset bytes.length = bytes := h.symm
  refine ⟨fun _ _ => ⟨?_, fun _ => ?_⟩, fun hstatus => (by cases hstatus), fun _ _ _ => rfl⟩
  · rw [hflatten, hpart]
  · rw [hflatten, hpart]

theorem sample_follows :
    Run.Follows (step sampleScope sampleNode) (Allowed sampleOpening.tagged sampleNode)
      { versions := [sampleVersion] } sampleEvents := by
  have hshown : ∃ version ∈ [sampleVersion].getLast?, version.Shows sampleMetadata.item :=
    ⟨sampleVersion, rfl, rfl, rfl, rfl⟩
  have hfirst : sampleVersion.Answers sampleOpening.tagged 3 0 2 (sampleReply 0 [1, 2]) :=
    sample_answers 0 [1, 2] rfl
  have hrest : sampleVersion.Answers sampleOpening.tagged 3 1 2 (sampleReply 1 [2, 3]) :=
    sample_answers 1 [2, 3] rfl
  have hwhole : sampleVersion.Answers sampleOpening.tagged 3 0 3 (sampleReply 0 [1, 2, 3]) :=
    sample_answers 0 [1, 2, 3] rfl
  refine ⟨trivial, trivial, trivial, trivial, hshown, ?_, hshown, ?_, trivial, trivial, trivial,
    trivial, trivial, trivial, ?_, ?_, ?_, trivial⟩
  · rintro call hcall
    cases hcall
    exact ⟨0, sampleVersion, Nat.zero_le _, rfl, hfirst⟩
  · exact sample_neverReused _ ⟨[sampleChanged], rfl⟩
  · rintro call hcall
    cases hcall
    exact ⟨rfl, 0, sampleVersion, Nat.zero_le _, rfl, hwhole⟩
  · exact sample_neverReused _ List.prefix_rfl
  -- the request was answered before the content changed
  · rintro call hcall
    cases hcall
    exact ⟨0, sampleVersion, Nat.zero_le _, rfl, hrest⟩

def sampleCalls : List Call :=
  [{ kind := .range, offset := 0, length := 2, downloads := 1, phase := .finished (.ok [1, 2]) },
    { kind := .window, offset := 1, length := 2, sink := [2, 3], downloads := 1
      phase := .finished (.ok []) },
    { kind := .window, offset := 0, length := 3, sink := [1, 2], downloads := 1
      phase := .finished (.error (.provider .cancelled)) }]

theorem sample_calls :
    (sampleEvents.foldl (step sampleScope sampleNode) { versions := [sampleVersion] }).calls =
      sampleCalls := by
  rfl

/-- In that run the window has the part of the content that was bound, though the content changed
    before it arrived. -/
theorem sample_window :
    ∃ call ∈ (sampleEvents.foldl (step sampleScope sampleNode)
        { versions := [sampleVersion] }).calls,
      call.kind = .window ∧ call.phase = .finished (.ok []) ∧
        call.sink = ([1, 2, 3] : Bytes).drop 1 ∧ call.downloads ≤ 3 := by
  have hrun := Run.start.extend sample_follows
  have hcall : (sampleEvents.foldl (step sampleScope sampleNode)
      { versions := [sampleVersion] }).calls[1]? = some
        { kind := .window, offset := 1, length := 2, sink := [2, 3], downloads := 1
          phase := .finished (.ok []) } := by
    rw [sample_calls]
    rfl
  obtain ⟨hexact, -, hdownloads, -⟩ := session_exact sample_opening hrun hcall
  exact ⟨_, List.mem_of_getElem? hcall, rfl, rfl, hexact [] rfl, hdownloads⟩

end Cirrove.Graph.Reads
