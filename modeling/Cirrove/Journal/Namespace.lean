import Cirrove.Journal.State

/-!
# Local names

`cirrove-service/src/journal/namespace.rs` and the slot check of `ancestry.rs`. An object
is stored by `save`, which keeps the directory entries, the cloud bindings and the owners
of operations in step with it.
-/

namespace Cirrove.Journal

open Cirrove.Library

/-- `checked_add(1).ok_or(Quota)` -/
def increment (n : Nat) : Except JournalError Nat :=
  if n + 1 < 2 ^ 64 then .ok (n + 1) else .error .quota

/-- Compare a name as its scope does. -/
def NamespaceNames.fold (names : NamespaceNames) (lowercase : String → String) (name : String) :
    String :=
  match names with
  | .sensitive => name
  | .insensitive => lowercase name

/-! ## Retained routes -/

/-- The folders and links a walk goes to from an object: the folder it is in, and the links
    that lead to that folder or to the object itself. -/
def NamespaceObject.routes (objects : List NamespaceObject) (o : NamespaceObject) :
    List NamespaceObject :=
  let linked := objects.filter (fun x => !x.unlinked)
  let folder (item : String) := (linked.filter (fun x =>
    x.node.kind = .folder && x.scope = o.scope && x.node.id = item)).getLast?.toList
  let links (item : String) := linked.filter (fun x => x.node.target.any (fun target =>
    { x.scope with collection := target.collection } = o.scope && target.item = item))
  (o.node.parentId.toList.flatMap (fun parent => folder parent ++ links parent)) ++
    o.remote.toList.flatMap (fun remote => links remote.id)

/-- The loop of `RetainedAncestors::new`. Every object is taken once, and taking one adds at
    most its routes to the stack. -/
def retainLoop (objects : List NamespaceObject) :
    Nat → List NamespaceObject → List NamespaceObject → List NamespaceObject
  | 0, _, retained => retained
  | _, [], retained => retained
  | fuel + 1, o :: pending, retained =>
    if retained.any (fun x => x.id = o.id) then retainLoop objects fuel pending retained
    else retainLoop objects fuel ((o.routes objects).reverse ++ pending) (retained ++ [o])

/-- `RetainedAncestors::new` -/
def retainedAncestors (objects : List NamespaceObject) : List NamespaceObject :=
  let pending := objects.filter (fun o => !o.followsRemote && !o.unlinked)
  let n := objects.length
  retainLoop objects (2 * n * n + 2 * n + 1) pending.reverse []

/-- `ancestry::slot` -/
def NamespaceObject.slot (lowercase : String → String) (o : NamespaceObject) : Option Slot :=
  o.node.parentId.map (fun parent => (o.scope, parent, o.names.fold lowercase o.node.name))

namespace Namespace

/-! ## Queries -/

def allObjects (n : Namespace) : List NamespaceObject := n.objects.select (fun _ row => some row.body)

/-- `namespace::by_id` -/
def byId (n : Namespace) (id : Uuid) : Except JournalError NamespaceObject :=
  match n.objects.get id with
  | some row => .ok row.body
  | none => .error .missing

/-- `namespace::by_local` -/
def byLocal (n : Namespace) (scope : Scope) (item : String) : Option NamespaceObject :=
  (n.objects.select (fun _ row =>
    if row.identity = (scope, item) then some row.body else none)).head?

/-- `namespace::by_remote` -/
def byRemote (n : Namespace) (scope : Scope) (item : String) : Option NamespaceObject := do
  let object ← n.remote.get (scope, item)
  let row ← n.objects.get object
  return row.body

/-- `UploadJournal::namespace_for_operation` -/
def forOperation (n : Namespace) (operation : Uuid) : Option NamespaceObject := do
  let object ← n.operations.get operation
  let row ← n.objects.get object
  return row.body

/-- `namespace::policy` -/
def policy (n : Namespace) (scope : Scope) : Except JournalError NamespaceNames :=
  match n.scopes.get scope with
  | some names => .ok names
  | none =>
    if n.allObjects.any (fun o => o.scope = scope) then .error .corrupt else .ok .insensitive

/-- `namespace::ensure_legacy_policy` -/
def ensureLegacyPolicy (n : Namespace) (scope : Scope) : Namespace :=
  if (n.scopes.get scope).isSome then n
  else { n with scopes := n.scopes.set scope .insensitive }

/-- `namespace::entry_slot` -/
def entrySlot (n : Namespace) (lowercase : String → String) (scope : Scope)
    (parent name : String) : Except JournalError Slot := do
  let names ← n.policy scope
  return (scope, parent, names.fold lowercase name)

/-- `directories::local_parent` -/
def localParent (n : Namespace) (scope : Scope) (parent : String) : String :=
  match (n.byRemote scope parent).filter (fun o => o.node.kind = .folder && !o.unlinked) with
  | some o => o.node.id
  | none => parent

/-- `directories::localize_parent` -/
def localizeParent (n : Namespace) (scope : Scope) (node : Node) : Node :=
  { node with parentId := node.parentId.map (n.localParent scope) }

/-- The limit on local objects. -/
def room (n : Namespace) : Except JournalError Unit :=
  check (n.objects.rows.length < 10000) .quota

/-! ## Storing an object -/

/-- `ancestry::check_new_slot` -/
def checkNewSlot (n : Namespace) (lowercase : String → String) (o : NamespaceObject) :
    Except JournalError Unit :=
  let keepsSlot := match n.objects.get o.id with
    | some row => !row.body.followsRemote && !row.body.unlinked &&
        row.body.node.parentId = o.node.parentId && row.body.node.name = o.node.name
    | none => false
  let taken := (retainedAncestors n.allObjects).any (fun x =>
    x.id ≠ o.id && (o.slot lowercase).isSome && x.slot lowercase = o.slot lowercase)
  check (o.unlinked || o.followsRemote || keepsSlot || !taken) .stale

/-- The rows of one object. The identity column is written once. -/
def write (n : Namespace) (slot : Slot) (o : NamespaceObject) : Namespace where
  scopes := n.scopes
  objects := n.objects.set o.id
    ⟨((n.objects.get o.id).map ObjectRow.identity).getD (o.scope, o.node.id), o⟩
  entries :=
    let entries := n.entries.deleteWhere (fun _ object => object = o.id)
    if o.followsRemote || o.unlinked then entries else entries.set slot o.id
  remote :=
    let remote := n.remote.deleteWhere (fun _ object => object = o.id)
    match o.remoteOwned, o.remote with
    | true, some node => remote.set (o.scope, node.id) o.id
    | _, _ => remote
  operations :=
    match o.latest with
    | some operation => n.operations.set operation o.id
    | none => n.operations

/-- `namespace::save`. An object without a cloud identity of its own that has a name is one
    of a native document's streams, which this journal does not have. -/
def save (n : Namespace) (lowercase : String → String) (o : NamespaceObject) :
    Except JournalError Namespace := do
  n.checkNewSlot lowercase o
  check (o.remoteOwned || o.unlinked) .storage
  check (!o.followsRemote ||
    !(o.unlinked || o.workingFile.isSome || o.latest.isSome || o.remote.isNone)) .corrupt
  let names ← n.policy o.scope
  check (o.names = names) .corrupt
  let some parent := o.node.parentId | .error .intent
  let slot ← n.entrySlot lowercase o.scope parent o.node.name
  let occupied := (n.entries.get slot).any (· ≠ o.id)
  check (!occupied || o.followsRemote || o.unlinked) .stale
  -- The unique columns of the table.
  check ((n.objects.get o.id).isSome || (n.byLocal o.scope o.node.id).isNone) .storage
  check (o.workingFile.isNone ||
    n.allObjects.all (fun x => x.id = o.id || x.workingFile ≠ o.workingFile)) .storage
  check (!(o.remoteOwned && o.remote.any (fun node =>
    (n.remote.get (o.scope, node.id)).any (· ≠ o.id)))) .stale
  check (o.latest.all (fun operation => (n.operations.get operation).all (· = o.id))) .stale
  return n.write slot o

/-- `namespace::confirm` -/
def confirm (n : Namespace) (lowercase : String → String) (operation : Uuid) (sequence : Nat)
    (remote : Node) : Except JournalError Namespace :=
  match n.operations.get operation with
  | none => .ok n
  | some id => do
    let o ← n.byId id
    if sequence ≤ o.remoteSequence then return n
    check (o.remote.all (fun old => old.id = remote.id) && remote.kind = o.node.kind &&
      remote.target.isNone) .corrupt
    let revision ← increment o.revision
    let node := if o.workingFile.isSome then o.node else { o.node with
      etag := remote.etag
      contentVersion := remote.contentVersion
      size := remote.size
      modifiedUnix := remote.modifiedUnix }
    n.save lowercase { o with
      node := node
      remote := some remote
      remoteSequence := sequence
      revision := revision }

end Namespace

end Cirrove.Journal
