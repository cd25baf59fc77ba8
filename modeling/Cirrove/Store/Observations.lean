import Cirrove.Store.State

/-!
# Publication of network observations

`cirrove-store/src/observations.rs`: tickets, the supersession check `current`,
the revision marks of `changed_items`, and the six publishing operations.

Every operation runs in one immediate transaction. It is a function to
`Except StoreError`; on an error nothing is committed, so the error carries no
store.
-/

namespace Cirrove.Store

open Cirrove.Library

/-- What a ticket was taken for. -/
inductive Target where
  | node (id : String)
  | directory (id : String)
  deriving DecidableEq, Repr

/-- A revision taken before a network request. Only `observation` makes one. -/
structure ObservationTicket where
  scope : Scope
  target : Target
  database : String
  revision : Nat
  deriving DecidableEq, Repr

/-- The outcome of publishing a reply. A superseded reply is answered with the
    committed view instead. -/
inductive ObservationResult (α : Type) where
  | published (value : α) (changed : Bool)
  | superseded (view : Option α)
  deriving DecidableEq, Repr

inductive AbsenceResult where
  | published (changed : Bool)
  | superseded (view : Option Node)
  deriving DecidableEq, Repr

/-! ## The supersession check -/

/-- `observations::current`: may the reply for `ticket` that reports `nodes` still
    be published? -/
def current (s : Store) (ticket : ObservationTicket) (nodes : List Node) :
    Except StoreError Bool :=
  if s.identity ≠ ticket.database then .error .outOfOrder
  else .ok <|
    !s.changedAfter ticket.scope .scope "" ticket.revision &&
    (match ticket.target with
      | .node id => !s.changedAfter ticket.scope .item id ticket.revision
      | .directory id =>
        !s.changedAfter ticket.scope .directory id ticket.revision &&
        !s.changedAfter ticket.scope .item id ticket.revision) &&
    -- A moved or deleted item may have had no indexed parent when its delta arrived.
    !nodes.any (fun n => s.changedAfter ticket.scope .item n.id ticket.revision) &&
    (match ticket.target with
      | .node _ =>
        !(nodes.head?.bind Node.parentId).any
          (fun parent => s.changedAfter ticket.scope .directory parent ticket.revision)
      | .directory _ => true)

/-! ## Marks and rows of one publication -/

/-- The parents `changed_items` marks for one node: the reported one and the one
    the item is visible under. -/
def touchedParents (s : Store) (scope : Scope) (n : Node) : List String :=
  n.parentId.toList ++ ((s.nodeOn scope n.id).bind Node.parentId).toList

/-- `observations::changed_items` -/
def changedItems (s : Store) (scope : Scope) (nodes removed : List Node)
    (parent : Option String) : Except StoreError Store := do
  let (revision, s) ← s.advance
  let touched := nodes ++ removed
  let parents := parent.toList ++ touched.flatMap (s.touchedParents scope)
  return (s.markAll scope .item (touched.map Node.id) revision).markAll
    scope .directory parents revision

/-- `observations::write_node` -/
def writeNode (s : Store) (scope : Scope) (node : Node) (sourceRevision : Nat) : Store :=
  { s with
    observedAbsent := s.observedAbsent.erase (scope, node.id)
    observed := s.observed.set (scope, node.id) ⟨node, sourceRevision⟩ }

/-- Write the rows of a whole reply. -/
def writeNodes (s : Store) (scope : Scope) (nodes : List Node) (sourceRevision : Nat) : Store :=
  nodes.foldl (fun s n => s.writeNode scope n sourceRevision) s

/-- Turn an item into a negative observation. -/
def hideNode (s : Store) (scope : Scope) (id : String) (sourceRevision : Nat) : Store :=
  { s with
    observed := s.observed.erase (scope, id)
    observedAbsent := s.observedAbsent.set (scope, id) sourceRevision }

/-- `directories::write_snapshot`. The plain `INSERT` refuses a listing that
    repeats an identity. -/
def writeSnapshot (s : Store) (scope : Scope) (parent : String) (nodes : List Node)
    (sourceRevision : Nat) : Except StoreError Store :=
  if (nodes.map Node.id).Nodup then
    .ok { s with
      directories := s.directories.set (scope, parent) sourceRevision
      directoryEntries :=
        (s.directoryEntries.deleteWhere (fun key _ => key.1 = scope ∧ key.2.1 = parent)).setRows
          (nodes.map fun n => ((scope, parent, n.id), n))
      directorySources := s.directorySources.erase (scope, parent) }
  else
    .error .database

/-- Items of `observed` and of the committed index that name `parent` and are not
    in the listing. A committed row replaces an observed one of the same item, as in
    the map the source collects them in. -/
def removedFrom (s : Store) (scope : Scope) (parent : String) (ids : List String) :
    Table String Node :=
  let observed := s.observed.select fun key row =>
    if key.1 = scope ∧ row.body.parentId = some parent ∧ key.2 ∉ ids then
      some (row.body.id, row.body) else none
  let indexed := s.nodes.select fun key body =>
    if key.1 = scope ∧ body.parentId = some parent ∧ key.2 ∉ ids then
      some (body.id, body) else none
  (Table.empty.setRows observed).setRows indexed

/-- A known move to another parent keeps that newer location. -/
def hiddenBy (s : Store) (scope : Scope) (parent id : String) : Bool :=
  match s.nodeOn scope id with
  | none => true
  | some n => n.parentId = some parent

/-- Hide the removed items of a listing. -/
def hideRemoved (s : Store) (scope : Scope) (parent : String) (removed : List Node)
    (sourceRevision : Nat) : Store :=
  removed.foldl (fun s n =>
    if s.hiddenBy scope parent n.id then s.hideNode scope n.id sourceRevision else s) s

/-- `observations::write_directory` -/
def writeDirectory (s : Store) (scope : Scope) (parent : String) (nodes : List Node)
    (sourceRevision : Nat) : Except StoreError (Bool × Store) := do
  let previous := s.childrenOn scope parent
  let changed := previous ≠ some nodes
  let old := fun id => (previous.getD []).reverse.find? (fun n => n.id = id)
  let updated := nodes.filter (fun n => old n.id ≠ some n)
  let removed := (s.removedFrom scope parent (nodes.map Node.id)).rows.map Prod.snd
  -- Even an unchanged complete listing marks its directory.
  let s ← s.changedItems scope updated removed (some parent)
  let s := s.hideRemoved scope parent removed sourceRevision
  let s := s.writeNodes scope nodes sourceRevision
  let s ← s.writeSnapshot scope parent nodes sourceRevision
  return (changed, s)

/-! ## Operations -/

/-- `Store::observation`: take the next revision as a ticket. -/
def observation (s : Store) (scope : Scope) (target : Target) :
    Except StoreError (ObservationTicket × Store) := do
  let (revision, s) ← s.advance
  return (⟨scope, target, s.identity, revision⟩, s)

def nodeObservation (s : Store) (scope : Scope) (item : String) :
    Except StoreError (ObservationTicket × Store) :=
  s.observation scope (.node item)

def directoryObservation (s : Store) (scope : Scope) (parent : String) :
    Except StoreError (ObservationTicket × Store) :=
  s.observation scope (.directory parent)

/-- `Store::publish_absence`: a provider's NotFound. -/
def publishAbsence (s : Store) (ticket : ObservationTicket) :
    Except StoreError (AbsenceResult × Store) :=
  match ticket.target with
  | .directory _ => .error .outOfOrder
  | .node id => do
    let old := s.nodeOn ticket.scope id
    if !(← s.current ticket old.toList) then
      return (.superseded old, s)
    let absent := (s.observedAbsent.get (ticket.scope, id)).isSome
    let (revision, s) ← s.advance
    let s := s.mark ticket.scope .item id revision
    let s := s.mark ticket.scope .directory id revision
    let s := s.markAll ticket.scope .directory (old.bind Node.parentId).toList revision
    let s := s.hideNode ticket.scope id ticket.revision
    return (.published (old.isSome || !absent), s)

/-- `Store::publish_node` -/
def publishNode (s : Store) (ticket : ObservationTicket) (node : Node) :
    Except StoreError (ObservationResult Node × Store) :=
  match ticket.target with
  | .directory _ => .error .outOfOrder
  | .node id =>
    if id ≠ node.id then .error .outOfOrder
    else do
      if !(← s.current ticket [node]) then
        return (.superseded (s.nodeOn ticket.scope id), s)
      let changed := s.nodeOn ticket.scope id ≠ some node
      let s ← s.changedItems ticket.scope [node] [] none
      return (.published node changed, s.writeNode ticket.scope node ticket.revision)

/-- `Store::publish_directory` -/
def publishDirectory (s : Store) (ticket : ObservationTicket) (nodes : List Node) :
    Except StoreError (ObservationResult (List Node) × Store) :=
  match ticket.target with
  | .node _ => .error .outOfOrder
  | .directory parent => do
    if !(← s.current ticket nodes) then
      return (.superseded (s.childrenOn ticket.scope parent), s)
    let (changed, s) ← s.writeDirectory ticket.scope parent nodes ticket.revision
    return (.published nodes changed, s)

/-- `Store::observe_node`: metadata that is already at hand. The source revision
    is taken after the marks. -/
def observeNode (s : Store) (scope : Scope) (node : Node) : Except StoreError Store := do
  let s ← s.changedItems scope [node] [] none
  let (sourceRevision, s) ← s.advance
  return s.writeNode scope node sourceRevision

/-- `Store::observe_directory` -/
def observeDirectory (s : Store) (scope : Scope) (parent : String) (nodes : List Node) :
    Except StoreError (Bool × Store) := do
  let (sourceRevision, s) ← s.advance
  s.writeDirectory scope parent nodes sourceRevision

end Cirrove.Store
