import Cirrove.Google.Files
import Cirrove.Store.Encoding

/-!
# The change feed of a drive

`cirrove-googledrive/src/feed.rs`. The first round reads a complete listing and then the
change log from a token taken before the listing began; later rounds read the log only.
Where a round stands is in the cursor it hands out: the phase and the scope, as JSON text.

A call sends between one and three kinds of requests. It is a function of the replies to
them; a failed request is a reply, and a cancelled call has no other effect than its error.
The reader of cursors is third-party code. It is a parameter that reads back what the
writer wrote; `CursorReader.canonical` is one.
-/

namespace Cirrove.Google

open Cirrove.Library

/-! ## Cursors -/

/-- Where a round stands. -/
inductive Phase where
  | listing (start page : String)
  | changes (page : String)
  deriving DecidableEq, Repr

structure FeedCursor where
  scope : Scope
  phase : Phase
  deriving DecidableEq, Repr

/-- The text of a phase, with its tag first. -/
def Phase.encoded : Phase → List Char
  | .listing start page =>
    "\x7b\"phase\":\"listing\",\"start\":".toList ++ (Json.quoted start.toList ++
      (",\"page\":".toList ++ (Json.quoted page.toList ++ ['}'])))
  | .changes page =>
    "\x7b\"phase\":\"changes\",\"page\":".toList ++ (Json.quoted page.toList ++ ['}'])

/-- `serde_json::to_string` of a cursor. -/
def FeedCursor.encoded (c : FeedCursor) : String :=
  String.ofList ("\x7b\"scope\":".toList ++ (c.scope.encoded.toList ++
    (",\"phase\":".toList ++ (c.phase.encoded ++ ['}']))))

/-- `FeedCursor::encode` -/
def encode (scope : Scope) (phase : Phase) : Cursor := ⟨(FeedCursor.mk scope phase).encoded⟩

/-- `serde_json::from_str`, of which the feed needs that it reads a written cursor back. -/
structure CursorReader where
  fromStr : String → Option FeedCursor
  reads : ∀ c : FeedCursor, fromStr c.encoded = some c

/-- `feed.rs` and `lib.rs`: the drive a provider is bound to. -/
structure GoogleDrive where
  account : String
  collection : String
  sharedDrive : Bool
  /-- `chrono::DateTime::parse_from_rfc3339` -/
  rfc3339 : String → Option Int
  reader : CursorReader
  account_named : account ≠ ""
  collection_valid : validId collection = .ok ()
  /-- The collection is a real identity, resolved during connection, not the alias. -/
  collection_real : collection ≠ "root"

def providerId : String := "googledrive"

/-! ## Replies -/

/-- A page of `files.list`. -/
structure FileList where
  files : List File
  nextPageToken : Option String
  incompleteSearch : Bool
  deriving DecidableEq, Repr

/-- A record of `changes.list`. -/
structure FileChange where
  changeType : Option String
  driveId : Option String
  fileId : Option String
  removed : Bool
  file : Option File
  deriving DecidableEq, Repr

/-- A page of `changes.list`. -/
structure Changes where
  changes : List FileChange
  nextPageToken : Option String
  newStartPageToken : Option String
  deriving DecidableEq, Repr

/-- What Drive answers to the requests of one call. -/
structure Replies where
  /-- `changes/startPageToken` -/
  start : Except ProviderError String
  /-- `files`, with the page token -/
  list : Option String → Except ProviderError FileList
  /-- `files/<id>` -/
  file : String → Except ProviderError File
  /-- `changes`, with the page token -/
  changes : String → Except ProviderError Changes

namespace GoogleDrive

variable (g : GoogleDrive)

/-- `GoogleDrive::check_scope` -/
def checkScope (scope : Scope) : Except ProviderError Unit :=
  if scope.account ≠ g.account ∨ scope.provider ≠ providerId ∨ scope.collection ≠ g.collection then
    .error .permission
  else .ok ()

/-- `GoogleDrive::accepts_file` -/
def acceptsFile (f : File) : Bool :=
  if g.sharedDrive then f.driveId = some g.collection else f.driveId.isNone

/-- `GoogleDrive::file` -/
def file (r : Replies) (id : String) : Except ProviderError File := do
  validId id
  let f ← r.file id
  if id ≠ "root" ∧ f.id ≠ id then .error (.protocol "Google returned a different item")
  else if !g.acceptsFile f then .error .permission
  else .ok f

/-- `GoogleDrive::list_files` without a parent. -/
def listFiles (r : Replies) (token : Option String) : Except ProviderError FileList := do
  token.toList.forM validToken
  let page ← r.list token
  if page.incompleteSearch then .error (.protocol "Google directory search incomplete")
  else
    match page.nextPageToken with
    | none => .ok page
    | some next => do
      validToken next
      if some next = token then .error (.protocol "repeated Google page token")
      else .ok page

/-- The root of a shared drive, read on its own. -/
def sharedRoot (r : Replies) (scope : Scope) : Except ProviderError Change := do
  let root ← g.file r g.collection
  if root.mimeType ≠ folderMime ∨ root.parents ≠ [] then
    .error (.protocol "invalid shared-drive root")
  else do
    let n ← root.node g.rfc3339 scope.collection
    .ok (.upsert n)

/-- The listed files that are presented. -/
def listed (scope : Scope) (files : List File) : Except ProviderError (List Change) :=
  (files.filter fun f => !f.trashed && g.acceptsFile f).mapM fun f => do
    let n ← f.node g.rfc3339 scope.collection
    .ok (.upsert n)

/-- The first page of a shared drive's listing adds its root unless the page has it. -/
def missingRoot (r : Replies) (scope : Scope) (page : Option String) (changes : List Change) :
    Except ProviderError (List Change) :=
  if g.sharedDrive ∧ page.isNone ∧ ¬ changes.any (fun c => c.id = g.collection) then do
    let root ← g.sharedRoot r scope
    .ok [root]
  else .ok []

/-- `GoogleDrive::baseline` -/
def baseline (r : Replies) (scope : Scope) (start : String) (page : Option String) :
    Except ProviderError ChangePage := do
  let listing ← listFiles r page
  let changes ← g.listed scope listing.files
  let root ← g.missingRoot r scope page changes
  .ok {
    changes := changes ++ root
    checkpoint := .continue (encode scope (match listing.nextPageToken with
      | some next => .listing start next
      | none => .changes start)) }

/-- A record about a drive. A My Drive feed can mention shared drives; they are separate
    collections. -/
def driveChange (r : Replies) (scope : Scope) (c : FileChange) :
    Except ProviderError (List Change) :=
  match c.driveId with
  | none => .error (.protocol "Google drive change missing ID")
  | some driveId => do
    validId driveId
    if c.fileId.isSome ∨ c.file.isSome then .error (.protocol "invalid Google drive change")
    else if !g.sharedDrive then .ok []
    else if driveId ≠ g.collection then .error (.protocol "foreign Google drive change")
    else if c.removed then .ok [.delete g.collection]
    else do
      let root ← g.sharedRoot r scope
      .ok [root]

/-- A record about a file. -/
def fileChange (scope : Scope) (c : FileChange) : Except ProviderError (List Change) :=
  match c.fileId with
  | none => .error (.protocol "Google file change missing ID")
  | some fileId => do
    validId fileId
    if c.removed then .ok [.delete fileId]
    else
      match c.file with
      | none => .error (.protocol "Google change missing file")
      | some f =>
        if f.id ≠ fileId then .error (.protocol "Google change identity mismatch")
        else if f.trashed ∨ !g.acceptsFile f then .ok [.delete fileId]
        else do
          let n ← f.node g.rfc3339 scope.collection
          .ok [.upsert n]

/-- One record of the change log. -/
def recordChange (r : Replies) (scope : Scope) (c : FileChange) :
    Except ProviderError (List Change) :=
  if c.changeType = some "drive" then g.driveChange r scope c
  else if c.changeType = some "file" ∨ c.changeType = none then g.fileChange scope c
  else .error (.protocol "unsupported Google change type")

/-- Where a page of the change log ends. -/
def checkpoint (scope : Scope) (page : String) (response : Changes) :
    Except ProviderError Checkpoint :=
  match response.nextPageToken, response.newStartPageToken with
  | some next, none => do
    validToken next
    if next = page then .error (.protocol "repeated Google change token")
    else .ok (.continue (encode scope (.changes next)))
  | none, some next => do
    validToken next
    .ok (.complete (encode scope (.changes next)))
  | _, _ => .error (.protocol "Google changes missing an unambiguous checkpoint")

/-- `GoogleDrive::incremental` -/
def incremental (r : Replies) (scope : Scope) (page : String) :
    Except ProviderError ChangePage := do
  let response ← r.changes page
  let changes ← response.changes.mapM (g.recordChange r scope)
  let checkpoint ← checkpoint scope page response
  .ok { changes := changes.flatten, checkpoint := checkpoint }

/-- The first part of `changes`: the phase a cursor stands for. -/
def resume (scope : Scope) (cursor : Option Cursor) : Except ProviderError (Option Phase) := do
  g.checkScope scope
  match cursor with
  | none => .ok none
  | some c =>
    if c.value.utf8ByteSize > 4 * maxTokenBytes then
      .error (.protocol "Google cursor exceeds limit")
    else
      match g.reader.fromStr c.value with
      | none => .error (.protocol "invalid Google feed cursor")
      | some cursor => if cursor.scope ≠ scope then .error .permission else .ok (some cursor.phase)

/-- `GoogleDrive::changes` -/
def changes (cancelled : Bool) (r : Replies) (scope : Scope) (cursor : Option Cursor) :
    Except ProviderError ChangePage := do
  let phase ← g.resume scope cursor
  if cancelled then .error .cancelled
  else
    match phase with
    | none => do
      -- The change frontier is captured before the listing begins.
      let start ← r.start
      validToken start
      g.baseline r scope start none
    | some (.listing start page) => do
      validToken start
      validToken page
      g.baseline r scope start (some page)
    | some (.changes page) => do
      validToken page
      g.incremental r scope page

end GoogleDrive

/-! ## A reader of cursors -/

/-- Read a string value after a fixed text. -/
def readField (before text : List Char) : Option (String × List Char) :=
  if (before ++ ['"']).isPrefixOf text then
    (Json.unquote (text.drop (before ++ ['"']).length)).map fun (cs, rest) =>
      (String.ofList cs, rest)
  else none

@[simp]
theorem readField_quoted (before rest : List Char) (value : String) :
    readField before (before ++ (Json.quoted value.toList ++ rest)) = some (value, rest) := by
  have hshape : before ++ (Json.quoted value.toList ++ rest) =
      (before ++ ['"']) ++ (Json.quotedTail value.toList ++ rest) := by
    simp [Json.quoted]
  unfold readField
  rw [hshape, if_pos (List.isPrefixOf_iff_prefix.mpr (List.prefix_append _ _)),
    List.drop_left, Json.unquote_quotedTail]
  simp

/-- Read a phase. -/
def readPhase (text : List Char) : Option (Phase × List Char) :=
  match readField "\x7b\"phase\":\"listing\",\"start\":".toList text with
  | some (start, text) => do
    let (page, text) ← readField ",\"page\":".toList text
    some (.listing start page, text)
  | none => do
    let (page, text) ← readField "\x7b\"phase\":\"changes\",\"page\":".toList text
    some (.changes page, text)

theorem readPhase_encoded (phase : Phase) (rest : List Char) :
    readPhase (phase.encoded ++ rest) = some (phase, '}' :: rest) := by
  cases phase with
  | listing start page =>
    unfold readPhase Phase.encoded
    simp only [List.append_assoc, readField_quoted, Option.bind_eq_bind, Option.bind_some]
    rfl
  | changes page =>
    have hother : readField "\x7b\"phase\":\"listing\",\"start\":".toList
        ((Phase.changes page).encoded ++ rest) = none := by
      unfold readField
      rw [if_neg]
      unfold Phase.encoded
      simp [List.isPrefixOf]
    unfold readPhase
    rw [hother]
    unfold Phase.encoded
    simp only [List.append_assoc, readField_quoted, Option.bind_eq_bind, Option.bind_some]
    rfl

/-- Read the text a cursor is written as. -/
def readCursor (text : String) : Option FeedCursor := do
  let (account, text) ← readField "\x7b\"scope\":\x7b\"account\":".toList text.toList
  let (provider, text) ← readField ",\"provider\":".toList text
  let (collection, text) ← readField ",\"collection\":".toList text
  if "\x7d,\"phase\":".toList.isPrefixOf text then do
    let (phase, _) ← readPhase (text.drop "\x7d,\"phase\":".toList.length)
    some ⟨⟨account, provider, collection⟩, phase⟩
  else none

theorem readCursor_encoded (c : FeedCursor) : readCursor c.encoded = some c := by
  obtain ⟨⟨account, provider, collection⟩, phase⟩ := c
  have hshape : (FeedCursor.mk ⟨account, provider, collection⟩ phase).encoded.toList =
      "\x7b\"scope\":\x7b\"account\":".toList ++ (Json.quoted account.toList ++
        (",\"provider\":".toList ++ (Json.quoted provider.toList ++
        (",\"collection\":".toList ++ (Json.quoted collection.toList ++
        ("\x7d,\"phase\":".toList ++ (phase.encoded ++ ['}']))))))) := by
    unfold FeedCursor.encoded Scope.encoded
    simp [List.append_assoc]
  unfold readCursor
  rw [hshape]
  simp only [readField_quoted, Option.bind_eq_bind, Option.bind_some]
  rw [if_pos (List.isPrefixOf_iff_prefix.mpr (List.prefix_append _ _)), List.drop_left,
    readPhase_encoded]
  rfl

/-- A reader that knows nothing but the text cursors are written as. -/
def CursorReader.canonical : CursorReader := ⟨readCursor, readCursor_encoded⟩

end Cirrove.Google
