import Cirrove.Google.Files

/-!
# Items of a drive

`DriveItem` and `map_item` of `cirrove-onedrive/src/lib.rs`: one item as Graph reports it and the
change it stands for. Of a facet only its presence is looked at.

The parser of RFC 3339 times is third-party code and a parameter.
-/

namespace Cirrove.Graph

open Cirrove.Google (ProviderError)

structure Parent where
  id : Option String
  driveId : Option String
  deriving DecidableEq, Repr

structure RemoteItem where
  id : String
  file : Bool
  folder : Bool
  package : Bool
  parentReference : Parent
  deriving DecidableEq, Repr

structure DriveItem where
  id : String
  name : Option String
  size : Option Nat
  eTag : Option String
  cTag : Option String
  lastModified : Option String
  parentReference : Option Parent
  file : Bool
  folder : Bool
  package : Bool
  deleted : Bool
  remoteItem : Option RemoteItem
  deriving DecidableEq, Repr

namespace DriveItem

/-- The drive an item says it is in. -/
def driveId (item : DriveItem) : Option String := item.parentReference.bind Parent.driveId

/-- `DriveItem::matches_content` -/
def matchesContent (item : DriveItem) (expected : RevisionSpace × String) (size : Nat) : Bool :=
  let revision := match expected.1 with
    | .content => item.cTag
    | .etag => item.eTag
  revision = some expected.2 && item.size = some size

/-- `DriveItem::matches_read` -/
def matchesRead (item : DriveItem) (scope : Scope) (node : Node) : Bool :=
  item.id = node.id && item.file && !item.folder && !item.deleted && item.remoteItem.isNone &&
    item.driveId.all (· = scope.collection) &&
    node.contentRevision.any fun revision => item.matchesContent revision node.size

end DriveItem

/-- The target of a shortcut. -/
def mapTarget (remote : RemoteItem) : Except ProviderError RemoteRef :=
  if remote.id = "" then .error (.protocol "empty shortcut target")
  else
    match remote.parentReference.driveId.filter (· ≠ "") with
    | none => .error (.protocol "shortcut missing target drive")
    | some collection =>
      .ok {
        collection := collection
        item := remote.id
        kind := if remote.folder || remote.package then some .folder
          else if remote.file then some .file else none }

/-- `map_item`. A package is a folder as well. -/
def mapItem (rfc3339 : String → Option Int) (item : DriveItem) : Except ProviderError Change := do
  if item.id = "" then .error (.protocol "empty item ID")
  else if item.deleted then .ok (.delete item.id)
  else
    let target ← match item.remoteItem with
      | none => .ok none
      | some remote => (mapTarget remote).map some
    let kind ← if target.isSome then .ok NodeKind.shortcut
      else if item.folder || item.package then .ok .folder
      else if item.file then .ok .file
      else .error (.protocol "unsupported item facet")
    match item.name with
    | none => .error (.protocol "item missing name")
    | some name =>
      .ok (.upsert {
        id := item.id
        parentId := item.parentReference.bind Parent.id
        name := name
        kind := kind
        size := item.size.getD 0
        modifiedUnix := ((item.lastModified.bind rfc3339).map fun t => t.toNat).getD 0
        etag := item.eTag
        contentVersion := item.cTag
        target := target
        package := item.package })

/-- The node of an ordinary file. -/
def DriveItem.fileNode (rfc3339 : String → Option Int) (item : DriveItem) (name : String) : Node where
  id := item.id
  parentId := item.parentReference.bind Parent.id
  name := name
  kind := .file
  size := item.size.getD 0
  modifiedUnix := ((item.lastModified.bind rfc3339).map fun t => t.toNat).getD 0
  etag := item.eTag
  contentVersion := item.cTag
  target := none
  package := false

/-- An ordinary file is mapped to its node. -/
theorem mapItem_file (rfc3339 : String → Option Int) {item : DriveItem} {name : String}
    (hid : item.id ≠ "") (hname : item.name = some name) (hdeleted : item.deleted = false)
    (hremote : item.remoteItem = none) (hfolder : item.folder = false)
    (hpackage : item.package = false) (hfile : item.file = true) :
    mapItem rfc3339 item = .ok (.upsert (item.fileNode rfc3339 name)) := by
  simp only [mapItem, hid, hname, hdeleted, hremote, hfolder, hpackage, hfile, if_false,
    Bool.false_eq_true, Bool.or_self, if_true]
  rfl

end Cirrove.Graph
