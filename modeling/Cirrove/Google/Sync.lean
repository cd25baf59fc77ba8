import Cirrove.Google.Feed
import Cirrove.Library.Replica
import Cirrove.Library.Runs
import Cirrove.Library.Table

/-!
# Synchronising a drive that changes

The other side of the feed: a drive whose files other clients change at any time, what its
replies say, and the machine of one synchronisation. `Service` gives the opaque tokens of
Drive their meaning. The rules for replies (`Service.Starts`, `Service.Lists`,
`Service.Finds`, `Service.Records`) are what the documentation of the interface promises:

- a listing page shows files as they are, and by the last page of a listing every file that
  did not change since its first page has been shown;
- a page of the change log has a record for every file changed in the stretch of the log it
  covers, with the state of the file when the page is read;
- the token for a next round is given only at the end of the log.

Files may change between any two requests, within a call as well.
-/

namespace Cirrove.Google

open Cirrove.Library

/-! ## The drive -/

/-- The files of a drive, trashed ones included, and the identities of those that were
    changed, in order. -/
structure Remote where
  files : Table String File
  log : List String

/-- What another client can do. -/
inductive RemoteChange where
  /-- Create, edit, move, trash or restore a file. -/
  | write (f : File)
  | remove (id : String)
  deriving DecidableEq, Repr

namespace Remote

/-- One change, with its entry in the log. -/
def change (r : Remote) : RemoteChange → Remote
  | .write f => ⟨r.files.set f.id f, r.log ++ [f.id]⟩
  | .remove id => ⟨r.files.erase id, r.log ++ [id]⟩

def changeAll (r : Remote) (cs : List RemoteChange) : Remote := cs.foldl change r

end Remote

/-- How far a listing has come: the length of the log at its first page and the files shown
    so far. -/
structure Scan where
  since : Nat
  shown : List String
  deriving DecidableEq, Repr

/-- What the tokens of Drive stand for, and which identities are those of shared drives. -/
structure Service where
  /-- The position of a change token in the log. -/
  position : String → Nat
  /-- The listing a page token continues. -/
  scan : String → Scan
  drives : String → Prop

/-- The item a record is about. -/
def FileChange.subject (c : FileChange) : Option String :=
  if c.changeType = some "drive" then c.driveId else c.fileId

namespace Service

variable (service : Service)

/-- Files are kept under their identity, and the identity of a shared drive is that of its
    top folder. -/
structure Holds (r : Remote) : Prop where
  keyed : ∀ id f, r.files.get id = some f → f.id = id
  drives : ∀ id f, service.drives id → r.files.get id = some f → f.driveId = some id

/-- A client cannot turn a shared drive into something else. -/
def Possible : RemoteChange → Prop
  | .write f => service.drives f.id → f.driveId = some f.id
  | .remove _ => True

/-- The token for the log from now on. -/
def Starts (r : Remote) (reply : Except ProviderError String) : Prop :=
  ∀ start, reply = .ok start → service.position start ≤ r.log.length

/-- The listing a request belongs to; without a token it begins now. -/
def scanOf (r : Remote) : Option String → Scan
  | none => ⟨r.log.length, []⟩
  | some token => service.scan token

/-- A page of a listing: files as they are now; what the next token counts as shown was
    shown; and at the end all unchanged files were. The top folder of a shared drive need
    not be listed. -/
structure Lists (g : GoogleDrive) (r : Remote) (token : Option String)
    (reply : Except ProviderError FileList) : Prop where
  current : ∀ page, reply = .ok page → ∀ f ∈ page.files, r.files.get f.id = some f
  since : ∀ page next, reply = .ok page → page.nextPageToken = some next →
    (service.scanOf r token).since ≤ (service.scan next).since
  shown : ∀ page next, reply = .ok page → page.nextPageToken = some next →
    ∀ id ∈ (service.scan next).shown,
      id ∈ (service.scanOf r token).shown ∨ id ∈ page.files.map File.id
  all : ∀ page, reply = .ok page → page.nextPageToken = none → ∀ id f,
    r.files.get id = some f → f.trashed = false → g.acceptsFile f = true →
    ¬ (g.sharedDrive = true ∧ id = g.collection) →
    id ∉ r.log.drop (service.scanOf r token).since →
      id ∈ (service.scanOf r token).shown ∨ id ∈ page.files.map File.id

/-- One file as it is now. -/
def Finds (r : Remote) (reply : Except ProviderError File) : Prop :=
  ∀ f, reply = .ok f → r.files.get f.id = some f

/-- A record says what its item is now. -/
structure Accurate (r : Remote) (c : FileChange) : Prop where
  removed : ∀ id, c.subject = some id → c.removed = true → r.files.get id = none
  drive : ∀ id, c.changeType = some "drive" → c.driveId = some id → service.drives id
  current : c.changeType ≠ some "drive" → ∀ id f, c.fileId = some id → c.removed = false →
    c.file = some f → f.id = id → r.files.get id = some f

/-- A page of the change log that covers a stretch of it. -/
def Records (r : Remote) (token : String) (reply : Except ProviderError Changes) : Prop :=
  ∀ page, reply = .ok page → ∃ upTo, service.position token ≤ upTo ∧ upTo ≤ r.log.length ∧
    (∀ c ∈ page.changes, service.Accurate r c) ∧
    (∀ id ∈ (r.log.drop (service.position token)).take (upTo - service.position token),
      ∃ c ∈ page.changes, c.subject = some id) ∧
    (∀ next, page.nextPageToken = some next → service.position next ≤ upTo) ∧
    (∀ next, page.newStartPageToken = some next →
      upTo = r.log.length ∧ service.position next ≤ upTo)

end Service

/-! ## One synchronisation -/

/-- What is kept between calls: the cursor and the changes of all pages so far. -/
structure Sync where
  remote : Remote
  cursor : Option Cursor
  changes : List Change

/-- A call of `changes` and what happens while it is under way. -/
structure Call where
  cancelled : Bool
  replies : Replies
  /-- Between the request for the start token and the page. -/
  before : List RemoteChange
  /-- Between the page and the request for the root of a shared drive. -/
  after : List RemoteChange
  /-- Did the page get saved, or did the process end before? -/
  saved : Bool

inductive Event where
  | remote (c : RemoteChange)
  | call (c : Call)

namespace Sync

/-- Nothing was read yet. -/
def start (r : Remote) : Sync := ⟨r, none, []⟩

/-- The remote files when the page of a call is read. -/
def pageTime (s : Sync) (c : Call) : Remote := s.remote.changeAll c.before

/-- The remote files when the root of a shared drive is read, and when the call ends. -/
def rootTime (s : Sync) (c : Call) : Remote := (s.pageTime c).changeAll c.after

/-- A failed page, and a page that was not saved, is requested again with the same cursor. -/
def call (g : GoogleDrive) (scope : Scope) (s : Sync) (c : Call) : Sync :=
  match g.changes c.cancelled c.replies scope s.cursor with
  | .ok page =>
    if c.saved then
      ⟨s.rootTime c, some page.checkpoint.cursor, s.changes ++ page.changes⟩
    else { s with remote := s.rootTime c }
  | .error _ => { s with remote := s.rootTime c }

def step (g : GoogleDrive) (scope : Scope) (s : Sync) : Event → Sync
  | .remote c => { s with remote := s.remote.change c }
  | .call c => s.call g scope c

/-- Every reply keeps to the rules at the moment of its request. -/
structure Answered (service : Service) (g : GoogleDrive) (s : Sync) (c : Call) : Prop where
  possible : ∀ x ∈ c.before ++ c.after, service.Possible x
  start : service.Starts s.remote c.replies.start
  list : ∀ token, service.Lists g (s.pageTime c) token (c.replies.list token)
  file : ∀ id, Service.Finds (s.rootTime c) (c.replies.file id)
  changes : ∀ token, service.Records (s.pageTime c) token (c.replies.changes token)

def Allowed (service : Service) (g : GoogleDrive) (s : Sync) : Event → Prop
  | .remote c => service.Possible c
  | .call c => s.Answered service g c

/-- The changes of all pages, folded: the last one of an item counts. -/
def folded (s : Sync) : String → Option Node :=
  Replica.fold (fun _ => none) (s.changes.map fun c => (c.id, c.body))

end Sync

/-- What an item is presented as: nothing, if it does not exist, is trashed or belongs to
    another collection. -/
def GoogleDrive.presents (g : GoogleDrive) (scope : Scope) (r : Remote) (id : String) :
    Option (Except ProviderError Node) :=
  (r.files.get id).bind fun f =>
    if f.trashed || !g.acceptsFile f then none else some (f.node g.rfc3339 scope.collection)

/-! ## What a call returns -/

namespace GoogleDrive

variable {g : GoogleDrive} {r : Replies} {scope : Scope}

theorem validToken_bind {α : Type} {token : String} {x : Except ProviderError α} {a : α}
    (h : (do validToken token; x) = .ok a) : x = .ok a := by
  obtain ⟨_, _, h⟩ := bind_eq_ok h
  exact h

/-- A cursor that is resumed stands for its phase and scope. -/
theorem resume_eq_ok {cursor : Cursor} {phase : Option Phase}
    (h : g.resume scope (some cursor) = .ok phase) :
    ∃ p, phase = some p ∧ g.reader.fromStr cursor.value = some ⟨scope, p⟩ := by
  unfold resume at h
  obtain ⟨_, _, h⟩ := bind_eq_ok h
  dsimp only at h
  split at h
  · cases h
  · split at h
    · cases h
    · next fc hread =>
      split at h
      · cases h
      · next hscope =>
        cases h
        obtain ⟨sc, p⟩ := fc
        obtain rfl : sc = scope := not_not.mp hscope
        exact ⟨p, rfl, hread⟩

/-- The three ways a call returns a page. -/
theorem changes_eq_ok {cancelled : Bool} {cursor : Option Cursor} {page : ChangePage}
    (h : g.changes cancelled r scope cursor = .ok page) :
    (cursor = none ∧ ∃ start, r.start = .ok start ∧ g.baseline r scope start none = .ok page) ∨
    (∃ c start token, cursor = some c ∧
      g.reader.fromStr c.value = some ⟨scope, .listing start token⟩ ∧
      g.baseline r scope start (some token) = .ok page) ∨
    (∃ c token, cursor = some c ∧ g.reader.fromStr c.value = some ⟨scope, .changes token⟩ ∧
      g.incremental r scope token = .ok page) := by
  unfold changes at h
  obtain ⟨phase, hresume, h⟩ := bind_eq_ok h
  split at h
  · cases h
  cases cursor with
  | none =>
    obtain rfl : phase = none := by
      unfold resume at hresume
      obtain ⟨_, _, hresume⟩ := bind_eq_ok hresume
      cases hresume
      rfl
    obtain ⟨start, hstart, h⟩ := bind_eq_ok h
    exact .inl ⟨rfl, start, hstart, validToken_bind h⟩
  | some c =>
    obtain ⟨p, rfl, hread⟩ := resume_eq_ok hresume
    cases p with
    | listing start token =>
      exact .inr (.inl ⟨c, start, token, rfl, hread, validToken_bind (validToken_bind h)⟩)
    | changes token =>
      exact .inr (.inr ⟨c, token, rfl, hread, validToken_bind h⟩)

theorem listFiles_eq_ok {token : Option String} {page : FileList}
    (h : listFiles r token = .ok page) : r.list token = .ok page := by
  unfold listFiles at h
  obtain ⟨_, _, h⟩ := bind_eq_ok h
  obtain ⟨reply, hreply, h⟩ := bind_eq_ok h
  split at h
  · cases h
  · split at h
    · cases h
      exact hreply
    · have h := validToken_bind h
      split at h
      · cases h
      · cases h
        exact hreply

/-- What a page of the listing is made of. -/
theorem baseline_eq_ok {start : String} {token : Option String} {page : ChangePage}
    (h : g.baseline r scope start token = .ok page) :
    ∃ listing changes root, r.list token = .ok listing ∧
      g.listed scope listing.files = .ok changes ∧ page.changes = changes ++ root ∧
      ((root = [] ∧ (g.sharedDrive = true → token = none → ∃ c ∈ changes, c.id = g.collection)) ∨
        ∃ c, root = [c] ∧ g.sharedRoot r scope = .ok c ∧ g.sharedDrive = true) ∧
      page.checkpoint = .continue (encode scope (match listing.nextPageToken with
        | some next => .listing start next
        | none => .changes start)) := by
  unfold baseline at h
  obtain ⟨listing, hlisting, h⟩ := bind_eq_ok h
  obtain ⟨changes, hchanges, h⟩ := bind_eq_ok h
  obtain ⟨root, hroot, h⟩ := bind_eq_ok h
  cases h
  refine ⟨listing, changes, root, listFiles_eq_ok hlisting, hchanges, rfl, ?_, rfl⟩
  unfold missingRoot at hroot
  split at hroot
  · next hmissing =>
    obtain ⟨c, hc, hroot⟩ := bind_eq_ok hroot
    cases hroot
    exact .inr ⟨c, rfl, hc, hmissing.1⟩
  · next hlisted =>
    cases hroot
    refine .inl ⟨rfl, ?_⟩
    intro hshared htoken
    by_contra hmissing
    apply hlisted
    refine ⟨hshared, by rw [htoken]; rfl, ?_⟩
    simpa using hmissing

/-- What a page of the change log is made of. -/
theorem incremental_eq_ok {token : String} {page : ChangePage}
    (h : g.incremental r scope token = .ok page) :
    ∃ response lists, r.changes token = .ok response ∧
      response.changes.mapM (g.recordChange r scope) = .ok lists ∧
      page.changes = lists.flatten ∧
      ((∃ next, response.nextPageToken = some next ∧
          page.checkpoint = .continue (encode scope (.changes next))) ∨
        ∃ next, response.newStartPageToken = some next ∧
          page.checkpoint = .complete (encode scope (.changes next))) := by
  unfold incremental at h
  obtain ⟨response, hresponse, h⟩ := bind_eq_ok h
  obtain ⟨lists, hlists, h⟩ := bind_eq_ok h
  obtain ⟨cp, hcp, h⟩ := bind_eq_ok h
  cases h
  refine ⟨response, lists, hresponse, hlists, rfl, ?_⟩
  unfold checkpoint at hcp
  split at hcp
  · next next hnext _ =>
    have hcp := validToken_bind hcp
    split at hcp
    · cases hcp
    · cases hcp
      exact .inl ⟨next, hnext, rfl⟩
  · next next _ hstart =>
    have hcp := validToken_bind hcp
    cases hcp
    exact .inr ⟨next, hstart, rfl⟩
  · cases hcp

/-- Every page ends with a cursor for the scope it was read for. -/
theorem changes_cursor {cancelled : Bool} {cursor : Option Cursor} {page : ChangePage}
    (h : g.changes cancelled r scope cursor = .ok page) :
    ∃ phase, page.checkpoint.cursor = encode scope phase := by
  rcases changes_eq_ok h with ⟨_, _, _, h⟩ | ⟨_, _, _, _, _, h⟩ | ⟨_, _, _, _, h⟩
  · obtain ⟨_, _, _, _, _, _, _, hcheckpoint⟩ := baseline_eq_ok h
    rw [hcheckpoint]
    exact ⟨_, rfl⟩
  · obtain ⟨_, _, _, _, _, _, _, hcheckpoint⟩ := baseline_eq_ok h
    rw [hcheckpoint]
    exact ⟨_, rfl⟩
  · obtain ⟨_, _, _, _, _, ⟨_, _, hcheckpoint⟩ | ⟨_, _, hcheckpoint⟩⟩ := incremental_eq_ok h
    · rw [hcheckpoint]
      exact ⟨_, rfl⟩
    · rw [hcheckpoint]
      exact ⟨_, rfl⟩

end GoogleDrive

end Cirrove.Google
