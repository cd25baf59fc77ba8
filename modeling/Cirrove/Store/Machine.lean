import Cirrove.Library.Runs
import Cirrove.Store.Feed
import Cirrove.Store.Handoff
import Cirrove.Store.Publication

/-!
# The store as a machine

One event is one committed transaction of some connection. SQLite serialises them, so
any interleaving of any number of callers is a list of events.

`World` adds to the database the log of what was answered. The log is how a caller
comes by a ticket (its fields are private, only `observation` makes one), and it is
what the claims about earlier replies speak of.
-/

namespace Cirrove.Store

open Cirrove.Library

/-- The committing operations of the store. -/
inductive Op where
  | nodeObservation (scope : Scope) (item : String)
  | directoryObservation (scope : Scope) (parent : String)
  | publishNode (ticket : ObservationTicket) (node : Node)
  | publishAbsence (ticket : ObservationTicket)
  | publishDirectory (ticket : ObservationTicket) (nodes : List Node)
  | publishStaged (listing : DirectoryPublication) (cancelled : Bool)
  | observeNode (scope : Scope) (node : Node)
  | observeDirectory (scope : Scope) (parent : String) (nodes : List Node)
  | begin (scope : Scope) (reset : Bool)
  | beginSnapshot (scope : Scope)
  | stage (scope : Scope) (expected : Option Cursor) (page : ChangePage)
  | publishOrdinaryHandoffBackup (scope : Scope) (original currentNode backup : Node)
  | publishNativeHandoff (scope : Scope) (original currentNode backup : Node)

/-- What a committed operation answers. -/
inductive Reply where
  | ticket (ticket : ObservationTicket)
  | node (result : ObservationResult Node)
  | absence (result : AbsenceResult)
  | directory (result : ObservationResult (List Node))
  | staged (result : DirectoryPublicationResult)
  | cursor (cursor : Option Cursor)
  | settled (value : Bool)
  | done
  deriving DecidableEq, Repr

/-- Perform one operation. -/
def exec (s : Store) : Op → Except StoreError (Reply × Store)
  | .nodeObservation scope item => do
    let (t, s) ← s.nodeObservation scope item
    return (.ticket t, s)
  | .directoryObservation scope parent => do
    let (t, s) ← s.directoryObservation scope parent
    return (.ticket t, s)
  | .publishNode ticket node => do
    let (r, s) ← s.publishNode ticket node
    return (.node r, s)
  | .publishAbsence ticket => do
    let (r, s) ← s.publishAbsence ticket
    return (.absence r, s)
  | .publishDirectory ticket nodes => do
    let (r, s) ← s.publishDirectory ticket nodes
    return (.directory r, s)
  | .publishStaged listing cancelled => do
    let (r, s) ← s.publishStaged listing cancelled
    return (.staged r, s)
  | .observeNode scope node => do
    let s ← s.observeNode scope node
    return (.done, s)
  | .observeDirectory scope parent nodes => do
    let (changed, s) ← s.observeDirectory scope parent nodes
    return (.settled changed, s)
  | .begin scope reset => do
    let (c, s) ← s.begin scope reset
    return (.cursor c, s)
  | .beginSnapshot scope => do
    let (c, s) ← s.beginSnapshot scope
    return (.cursor c, s)
  | .stage scope expected page => do
    let s ← s.stage scope expected page
    return (.done, s)
  | .publishOrdinaryHandoffBackup scope original currentNode backup => do
    let (r, s) ← s.publishOrdinaryHandoffBackup scope original currentNode backup
    return (.settled r, s)
  | .publishNativeHandoff scope original currentNode backup => do
    let (r, s) ← s.publishNativeHandoff scope original currentNode backup
    return (.settled r, s)

/-- Does the operation begin or continue a feed round? -/
def Op.isFeed : Op → Bool
  | .begin _ _ => true
  | .beginSnapshot _ => true
  | .stage _ _ _ => true
  | _ => false

/-- The ticket a reply is published with. -/
def Op.ticket : Op → Option ObservationTicket
  | .publishNode ticket _ => some ticket
  | .publishAbsence ticket => some ticket
  | .publishDirectory ticket _ => some ticket
  | .publishStaged listing _ => some listing.ticket
  | _ => none

/-- The items a reply reports as present. -/
def Op.nodes : Op → List Node
  | .publishNode _ node => [node]
  | .publishDirectory _ nodes => nodes
  | .publishStaged listing _ => listing.incoming.nodes
  | _ => []

/-- The directory and the members of a complete listing. -/
def Op.listing : Op → Option (Scope × String × List Node)
  | .publishDirectory ticket nodes =>
    match ticket.target with
    | .directory parent => some (ticket.scope, parent, nodes)
    | .node _ => none
  | .publishStaged listing _ =>
    some (listing.ticket.scope, listing.parent, listing.incoming.nodes)
  | .observeDirectory scope parent nodes => some (scope, parent, nodes)
  | _ => none

/-- The items a reply reports: the item read or not found, or the members of a
    complete listing. -/
def Op.reports : Op → List String
  | .publishNode _ node => [node.id]
  | .publishAbsence ticket =>
    match ticket.target with
    | .node id => [id]
    | .directory _ => []
  | .publishDirectory _ nodes => nodes.map Node.id
  | .publishStaged listing _ => listing.incoming.nodes.map Node.id
  | _ => []

/-- Was a reply accepted? -/
def Reply.isPublished : Reply → Bool
  | .node (.published _ _) => true
  | .absence (.published _) => true
  | .directory (.published _ _) => true
  | .staged (.published _) => true
  | _ => false

/-- Was a reply turned away in favour of the committed view? -/
def Reply.isSuperseded : Reply → Bool
  | .node (.superseded _) => true
  | .absence (.superseded _) => true
  | .directory (.superseded _) => true
  | .staged (.superseded _) => true
  | _ => false

/-- A database and what it has answered so far. -/
structure World where
  store : Store
  log : List (Op × Reply)

/-- A new database nobody has used. -/
def World.create (identity : String) : World := ⟨.create identity, []⟩

/-- Perform one operation; an error commits nothing. -/
def World.step (w : World) (op : Op) : World :=
  match w.store.exec op with
  | .ok (reply, s) => ⟨s, w.log ++ [(op, reply)]⟩
  | .error _ => w

/-- Was this ticket handed out? -/
def World.Granted (w : World) (t : ObservationTicket) : Prop :=
  ∃ op, (op, Reply.ticket t) ∈ w.log

/-- Has a reply for ticket `t` that reported item `id` been published? -/
def World.Reported (w : World) (t : ObservationTicket) (id : String) : Prop :=
  ∃ op reply, (op, reply) ∈ w.log ∧ op.ticket = some t ∧ id ∈ op.reports ∧ reply.isPublished

/-- A complete listing reports children of the listed directory. `page` checks this for
    every staged row. -/
def Op.wellFormed : Op → Prop
  | .publishDirectory ticket nodes =>
    ∀ parent, ticket.target = .directory parent → ∀ n ∈ nodes, n.parentId = some parent
  | .observeDirectory _ parent nodes => ∀ n ∈ nodes, n.parentId = some parent
  | _ => True

/-- What every caller keeps: replies are published with tickets this database handed out
    (or with a ticket of another database, which is refused), and listings are listings. -/
def Permitted (w : World) (op : Op) : Prop :=
  (∀ t, op.ticket = some t → w.Granted t ∨ t.database ≠ w.store.identity) ∧ op.wellFormed

/-- The states of a database, however its operations are interleaved. -/
def Reachable (w : World) : Prop :=
  ∃ identity ops, Run World.step Permitted (World.create identity) ops w

/-! ## Fixed inputs -/

/-- An ordinary file, for runs on fixed inputs. -/
def fileAt (id parent : String) : Node where
  id := id
  parentId := some parent
  name := id
  kind := .file
  size := 0
  modifiedUnix := 0
  etag := some "1"
  contentVersion := none
  target := none
  package := false

/-- A collection, for runs on fixed inputs. -/
def drive : Scope := ⟨"account", "provider", "drive"⟩

/-- The end of a feed, for runs on fixed inputs. -/
def pageTo (changes : List Change) (cursor : String) : ChangePage :=
  ⟨changes, .complete ⟨cursor⟩⟩

end Cirrove.Store
