import Cirrove.Graph.Items
import Cirrove.Library.Bytes

/-!
# Read sessions of a drive

`cirrove-onedrive/src/read_sessions.rs`: the reads of one version of a file share a session. A read
between two looks at the item binds the session to a download URL and the strong entity tag it
answered with; the reads after it only ask the URL for that tag. A binding that is rejected is
renewed once by each read, behind a gate.

Steps are what happens between two awaits, so that reads interleave with each other and with what
happens to the item. A body is streamed in one step, to its end or until the read is dropped or its
sink refuses a part (`Event.stopped`). A subtraction that would underflow ends the read
(`Failure.underflow`).
-/

namespace Cirrove.Graph.Reads

open Cirrove.Library
open Cirrove.Google (ProviderError)

def sessionLease : Nat := 60
def windowLimit : Nat := 64 * 1024 * 1024
def memoryLimit : Nat := 8 * 1024 * 1024

inductive Failure where
  | provider (e : ProviderError)
  | underflow
  deriving DecidableEq, Repr

/-- `u64` subtraction. -/
def sub (a b : Nat) : Except Failure Nat := if b ≤ a then .ok (a - b) else .error .underflow

/-! ## Downloads -/

/-- `strong_etag` -/
def strongEtag (tag : Bytes) : Bool :=
  2 ≤ tag.length && tag.head? = some 0x22 && tag.getLast? = some 0x22 &&
    (tag.drop 1).dropLast.all fun b => b = 0x21 || (0x23 ≤ b && b ≤ 0x7e) || 0x80 ≤ b

structure Bound where
  url : String
  effectiveUrl : String
  tag : Bytes
  expires : Nat
  deriving DecidableEq, Repr

/-- The answer to a download: its headers, and the chunks of its body. A body that breaks off ends
    with an error. -/
structure Reply where
  status : Nat
  url : String
  etag : Option Bytes
  encoding : Option String
  contentRange : Option String
  retryAfter : Nat
  chunks : List Bytes
  broken : Bool

inductive DownloadError where
  | failure (f : Failure)
  | renew
  deriving DecidableEq, Repr

def DownloadError.provider (e : ProviderError) : DownloadError := .failure (.provider e)

/-- The text of a content range. -/
def rangeText (first last size : Nat) : String :=
  "bytes " ++ toString first ++ "-" ++ toString last ++ "/" ++ toString size

/-- What is asked for. -/
def wanted (size offset length : Nat) : Except Failure Nat := do
  let rest ← sub size offset
  .ok (min rest length)

/-- What the tag of a reply to a conditional request has to be. -/
def bindingHolds (bound : Bound) (reply : Reply) : Bool :=
  reply.url = bound.effectiveUrl && reply.etag.any strongEtag && reply.etag = some bound.tag

/-- What `download_response` makes of an answer. -/
def checkReply (size offset count last : Nat) (bound : Option Bound) (reply : Reply) :
    Except DownloadError Reply :=
  if reply.status = 429 ∨ reply.status = 503 then
    .error (.provider (.throttled reply.retryAfter))
  else if bound.isSome ∧
      (reply.status = 401 ∨ reply.status = 403 ∨ reply.status = 404 ∨ reply.status = 410) then
    .error .renew
  else if reply.status = 412 then
    .error (if bound.isSome then .renew else .provider .versionChanged)
  else if !bound.all (bindingHolds · reply) then .error .renew
  else if reply.encoding.any (· ≠ "identity") then
    .error (.provider (.protocol "encoded download representation"))
  else if reply.status = 206 then
    if reply.contentRange ≠ some (rangeText offset last size) then
      .error (.provider (.protocol "download range mismatch"))
    else .ok reply
  else if reply.status ≠ 200 ∨ offset ≠ 0 ∨ count ≠ size then .error (.provider .unavailable)
  else .ok reply

/-- `download_response`; there is an answer, or an error instead of one. -/
def downloadResponse (size offset length : Nat) (bound : Option Bound)
    (sent : Except ProviderError Reply) : Except DownloadError Reply := do
  let count ← (wanted size offset length).mapError .failure
  let last ← (sub (offset + count) 1).mapError .failure
  let reply ← sent.mapError .provider
  checkReply size offset count last bound reply

/-- The loop over the chunks, which are taken as long as they fit: what has arrived, and whether the
    reply was complete. It is `stream_window` and the loop of `download_range`. -/
def receive (expected : Nat) (broken : Bool) : List Bytes → Bytes → Bytes × Except Failure Unit
  | [], received =>
    (received,
      if broken then .error (.provider .unavailable)
      else if received.length ≠ expected then .error (.provider .unavailable)
      else .ok ())
  | chunk :: rest, received =>
    match sub expected received.length with
    | .error f => (received, .error f)
    | .ok room =>
      if room < chunk.length then
        (received, .error (.provider (.protocol "download exceeded requested range")))
      else receive expected broken rest (received ++ chunk)

/-! ## The session -/

inductive SessionState where
  | cold
  /-- The number of a binding. -/
  | bound (id : Nat)
  | fallback
  deriving DecidableEq, Repr

inductive Kind where
  | range
  | window
  deriving DecidableEq, Repr

/-- Where a read stands. `round` and `rejected` are the loop's. -/
inductive Phase where
  | entered
  | turning (round : Nat) (rejected : Option Nat)
  /-- A request with `If-Match` is under way. -/
  | conditional (round : Nat) (id : Nat)
  /-- Waiting for the gate. -/
  | waiting (round : Nat) (rejected : Option Nat)
  /-- The item is asked for, to bind the session or not; since when. -/
  | before (setup : Bool) (begun : Nat)
  /-- The content is asked for; the versions there were. -/
  | download (setup : Bool) (begun : Nat) (url : String) (since : Nat)
  /-- The item is asked for again. -/
  | after (setup : Bool) (begun : Nat) (url effectiveUrl : String) (tag : Option Bytes)
      (bytes : Bytes)
  | finished (result : Except Failure Bytes)

/-- A read, with what it has written to its sink and the downloads it has begun. -/
structure Call where
  kind : Kind
  offset : Nat
  length : Nat
  sink : Bytes := []
  downloads : Nat := 0
  phase : Phase := .entered

/-- What the item was like, one version after the other. -/
structure Version where
  content : Bytes
  eTag : Option String
  cTag : Option String

structure State where
  versions : List Version
  now : Nat := 0
  session : SessionState := .cold
  bindings : List Bound := []
  gate : Option Nat := none
  failure : Option (ProviderError × Nat) := none
  calls : List Call := []

/-- What has entered the sink of a window when its stream stops after so many bytes of the body. -/
def streamed (size : Nat) (call : Call) (bound : Option Bound) (sent : Reply) (count : Nat) :
    Bytes :=
  match downloadResponse size call.offset call.length bound (.ok sent),
      wanted size call.offset call.length with
  | .ok reply, .ok expected => (receive expected reply.broken reply.chunks []).1.take count
  | _, _ => []

namespace State

def setCall (s : State) (i : Nat) (f : Call → Call) : State :=
  { s with calls := s.calls.modify i f }

def setPhase (s : State) (i : Nat) (phase : Phase) : State :=
  s.setCall i fun call => { call with phase }

/-- `check_failure` -/
def checkFailure (s : State) : State × Option ProviderError :=
  match s.failure with
  | some (e, until_) => if s.now < until_ then (s, some e) else ({ s with failure := none }, none)
  | none => (s, none)

/-- `record_failure` -/
def recordFailure (s : State) (e : ProviderError) : State :=
  let delay :=
    match e with
    | .throttled seconds => seconds
    | _ => 2
  { s with failure := some (e, s.now + delay) }

/-- The binding a read may use. -/
def usable (s : State) (rejected : Option Nat) : Option Nat :=
  match s.session with
  | .bound id =>
    if s.bindings[id]?.any (s.now < ·.expires) ∧ rejected ≠ some id then some id else none
  | _ => none

def fail (s : State) (i : Nat) (f : Failure) : State := s.setPhase i (.finished (.error f))

/-- A checked read ends with an error, after it has written something to its sink. The error is kept
    for others when the read was to bind the session. -/
def failChecked (s : State) (i : Nat) (setup : Bool) (f : Failure) (written : Bytes := []) : State :=
  let s :=
    match setup, f with
    | true, .provider e => { s.recordFailure e with gate := none }
    | true, .underflow => { s with gate := none }
    | false, _ => s
  s.setCall i fun call =>
    { call with sink := call.sink ++ written, phase := .finished (.error f) }

/-- A read is given up, after it has written something to its sink. The gate is free if it had
    it. -/
def drop (s : State) (i : Nat) (e : ProviderError) (written : Bytes) : State :=
  { s.setCall i fun call =>
      { call with sink := call.sink ++ written, phase := .finished (.error (.provider e)) } with
    gate := if s.gate = some i then none else s.gate }

/-- One turn of the loop of `range` and `window`. -/
def turn (s : State) (i round : Nat) (rejected : Option Nat) : State :=
  if 2 ≤ round then s.fail i (.provider .unavailable)
  else
    match s.usable rejected with
    | some id =>
      s.setCall i fun call =>
        { call with downloads := call.downloads + 1, phase := .conditional round id }
    | none =>
      if s.session = .fallback then s.setPhase i (.before false s.now)
      else s.setPhase i (.waiting round rejected)

/-- The gate is free. -/
def enter (s : State) (i round : Nat) (rejected : Option Nat) : State :=
  match s.checkFailure with
  | (s, some e) => s.fail i (.provider e)
  | (s, none) =>
    if (s.usable rejected).isSome ∨ s.session = .fallback then
      s.setPhase i (.turning (round + 1) rejected)
    else { s.setPhase i (.before true s.now) with gate := some i }

/-- The answer to a request under a binding. -/
def answerBound (s : State) (size i : Nat) (call : Call) (round id : Nat) (bound : Bound)
    (sent : Except ProviderError Reply) : State :=
  match downloadResponse size call.offset call.length (some bound) sent with
  | .error .renew => s.setPhase i (.waiting round (some id))
  | .error (.failure f) => s.fail i f
  | .ok reply =>
    match wanted size call.offset call.length with
    | .error f => s.fail i f
    | .ok expected =>
      let received := receive expected reply.broken reply.chunks []
      match call.kind with
      | .range =>
        match received.2 with
        | .error f => s.fail i f
        | .ok () =>
          if s.now < bound.expires then s.setPhase i (.finished (.ok received.1))
          else s.setPhase i (.waiting round (some id))
      -- Once any bytes enter the sink, there is no other attempt.
      | .window =>
        s.setCall i fun call =>
          { call with
            sink := call.sink ++ received.1
            phase := .finished (received.2.bind fun _ =>
              if bound.expires ≤ s.now then .error (.provider .unavailable) else .ok []) }

/-- The answer to the download of a checked read. -/
def answerChecked (s : State) (size i : Nat) (call : Call) (setup : Bool) (begun : Nat)
    (url : String) (sent : Except ProviderError Reply) : State :=
  match downloadResponse size call.offset call.length none sent with
  | .error .renew => s.failChecked i setup (.provider .unavailable)
  | .error (.failure f) => s.failChecked i setup f
  | .ok reply =>
    match wanted size call.offset call.length with
    | .error f => s.failChecked i setup f
    | .ok expected =>
      let received := receive expected reply.broken reply.chunks []
      let (written, bytes) :=
        match call.kind with
        | .range => ([], received.1)
        | .window => (received.1, [])
      match received.2 with
      | .error f => s.failChecked i setup f written
      | .ok () =>
        s.setCall i fun call =>
          { call with
            sink := call.sink ++ written
            phase := .after setup begun url reply.url reply.etag bytes }

/-- The item is still the version after a checked read, which may bind the session. -/
def complete (s : State) (i : Nat) (setup : Bool) (begun : Nat) (url effectiveUrl : String)
    (tag : Option Bytes) (bytes : Bytes) : State :=
  let s := s.setPhase i (.finished (.ok bytes))
  if setup then
    match tag.filter strongEtag with
    | some tag =>
      { s with
        bindings := s.bindings ++ [⟨url, effectiveUrl, tag, begun + sessionLease⟩]
        session := .bound s.bindings.length
        gate := none }
    | none => { s with session := .fallback, gate := none }
  else s

end State

/-- What is read of an item: what it looks like, and its download URL if that is safe. -/
structure Metadata where
  item : DriveItem
  download : Except ProviderError String

inductive Event where
  /-- The item changes, in its content or only in its metadata. -/
  | edited (version : Version)
  | passed (seconds : Nat)
  | read (kind : Kind) (offset length : Nat)
  | begun (call : Nat) (cooldown : Option ProviderError)
  | turned (call : Nat)
  | entered (call : Nat)
  | answered (call : Nat) (sent : Except ProviderError Reply)
  | shown (call : Nat) (shown : Except ProviderError Metadata)
  /-- A read is cancelled or takes too long. -/
  | dropped (call : Nat) (e : ProviderError)
  /-- A window stops after so many bytes of its body: it is dropped, or its sink takes no more. -/
  | stopped (call : Nat) (sent : Reply) (count : Nat) (e : ProviderError) (dropped : Bool)

section

variable (scope : Scope) (node : Node)

/-- `read_range` and `read_window` before they wait for a permit. -/
def admission (s : State) (kind : Kind) (offset length : Nat) : Phase :=
  match kind with
  | .range =>
    if node.size ≤ offset ∨ length = 0 then .finished (.ok [])
    else if memoryLimit < length then
      .finished (.error (.provider (.protocol "range exceeds memory limit")))
    else .entered
  | .window =>
    let limit := if s.session = .cold then 0 else windowLimit
    if length = 0 ∨ limit < length ∨ node.size ≤ offset then
      .finished (.error (.provider (.protocol "invalid read window")))
    else .entered

/-- What a look at the item is taken for. -/
def State.look (s : State) (i : Nat) (call : Call) (shown : Except ProviderError Metadata) :
    State :=
  match call.phase with
  | .before setup begun =>
    match shown with
    | .error e => s.failChecked i setup (.provider e)
    | .ok metadata =>
      if !metadata.item.matchesRead scope node then
        s.failChecked i setup (.provider .versionChanged)
      else
        match metadata.download with
        | .error e => s.failChecked i setup (.provider e)
        | .ok url =>
          s.setCall i fun call =>
            { call with
              downloads := call.downloads + 1
              phase := .download setup begun url (s.versions.length - 1) }
  | .after setup begun url effectiveUrl tag bytes =>
    match shown with
    | .error e => s.failChecked i setup (.provider e)
    | .ok metadata =>
      if !metadata.item.matchesRead scope node then
        s.failChecked i setup (.provider .versionChanged)
      else s.complete i setup begun url effectiveUrl tag bytes
  | _ => s

/-- A step of one read. -/
def State.stepCall (s : State) (i : Nat) (call : Call) : Event → State
  | .begun _ cooldown =>
    match call.phase, cooldown with
    | .entered, some e => s.fail i (.provider e)
    | .entered, none =>
      match s.checkFailure with
      | (s, some e) => s.fail i (.provider e)
      | (s, none) => s.setPhase i (.turning 0 none)
    | _, _ => s
  | .turned _ =>
    match call.phase with
    | .turning round rejected => s.turn i round rejected
    | _ => s
  | .entered _ =>
    match call.phase with
    | .waiting round rejected => if s.gate.isNone then s.enter i round rejected else s
    | _ => s
  | .answered _ sent =>
    match call.phase with
    | .conditional round id =>
      match s.bindings[id]? with
      | some bound => s.answerBound node.size i call round id bound sent
      | none => s
    | .download setup begun url _ => s.answerChecked node.size i call setup begun url sent
    | _ => s
  | .shown _ shown => s.look scope node i call shown
  | .dropped _ e =>
    match call.phase with
    | .finished _ => s
    | _ => s.drop i e []
  | .stopped _ sent count e dropped =>
    match call.phase with
    | .conditional _ id =>
      match s.bindings[id]? with
      | some bound => s.drop i e (streamed node.size call (some bound) sent count)
      | none => s
    | .download setup _ _ _ =>
      let written := streamed node.size call none sent count
      -- only an error of the sink is kept for others
      if dropped then s.drop i e written else s.failChecked i setup (.provider e) written
    | _ => s
  | _ => s

/-- The read an event is about. -/
def Event.call : Event → Option Nat
  | .begun i _ | .turned i | .entered i | .answered i _ | .shown i _ | .dropped i _
  | .stopped i _ _ _ _ => some i
  | _ => none

/-- No read is given up. -/
def Event.goesOn : Event → Bool
  | .dropped _ _ | .stopped _ _ _ _ _ => false
  | _ => true

def step (s : State) (e : Event) : State :=
  match e with
  | .edited version => { s with versions := s.versions ++ [version] }
  | .passed seconds => { s with now := s.now + seconds }
  | .read kind offset length =>
    { s with calls := s.calls ++ [{ kind, offset, length, phase := admission node s kind offset length }] }
  | e =>
    match e.call with
    | some i =>
      match s.calls[i]? with
      | some call => s.stepCall scope node i call e
      | none => s
    | none => s

end

end Cirrove.Graph.Reads
