import Cirrove.Store.Observations

/-!
# Receipt-bound relocations

`Store::publish_ordinary_handoff_backup` and `Store::publish_native_handoff`: after a
provider installed a replacement under a new identity, the old item is moved to its
backup location. Both compare the exact old view first and never overwrite metadata
that changed independently.
-/

namespace Cirrove.Store

open Cirrove.Library

/-- `directories::child_id_on`: one identity in a known directory. The outer `none` is
    an unknown directory. -/
def childIdOn (s : Store) (scope : Scope) (parent id : String) : Option (Option Node) :=
  (s.readSource scope parent false).map fun source =>
    (s.sourceRows scope parent source).find? (fun n => n.id = id)

/-- The shape of an ordinary file that carries a content revision. -/
def ordinaryFile (n : Node) : Bool :=
  n.kind = .file && !n.package && n.target.isNone && n.contentRevision.isSome

/-- The receipt checks of `publish_ordinary_handoff_backup`. -/
def validBackup (original currentNode backup : Node) : Bool :=
  original.id ≠ "" && backup.id = original.id && currentNode.id ≠ original.id &&
    ordinaryFile original && original.parentId.isSome &&
    ordinaryFile backup && backup.size = original.size && backup.parentId.isSome &&
    ordinaryFile currentNode && currentNode.parentId = original.parentId &&
    currentNode.name = original.name &&
    !(backup.parentId = original.parentId && backup.name = original.name)

/-- `Store::publish_ordinary_handoff_backup` -/
def publishOrdinaryHandoffBackup (s : Store) (scope : Scope)
    (original currentNode backup : Node) : Except StoreError (Bool × Store) :=
  if !validBackup original currentNode backup then .error .outOfOrder
  else
    match original.parentId with
    | none => .error .outOfOrder
    | some parent =>
      -- A newer negative observation of the identity is preserved.
      if (s.observedAbsent.get (scope, original.id)).isSome then .ok (true, s)
      else
        let known := s.nodeOn scope original.id
        let directory := s.childIdOn scope parent original.id
        let listed := directory.bind id
        if known = some backup then .ok (true, s)
        else if known.any (· ≠ original) ∨ listed.any (· ≠ original) then .ok (true, s)
        else if known.isNone ∧ listed.isNone then .ok (false, s)
        else if directory.isSome ∧ listed.isNone then .ok (true, s)
        else do
          let s ← s.changedItems scope [backup] [original] none
          let (revision, s) ← s.advance
          return (true, s.writeNode scope backup revision)

/-- `FOLDER::com.apple.CloudDocs::TRASH_ROOT` -/
def trashRoot : String := "FOLDER::com.apple.CloudDocs::TRASH_ROOT"

/-- The shape of a native document in a receipt. -/
def nativeDocument (n : Node) : Bool :=
  "FILE::com.apple.CloudDocs::".toList.isPrefixOf n.id.toList &&
    !"::".toList.isSuffixOf n.id.toList && n.kind = .folder && n.package &&
    n.target.isNone && n.contentVersion.isNone &&
    n.etag.any (fun etag => etag ≠ "" && etag.utf8ByteSize ≤ 4096 &&
      etag.toList.all (fun c => c ≠ '\x00' && c ≠ '\r' && c ≠ '\n' && c ≠ '*'))

/-- The receipt checks of `publish_native_handoff`. -/
def validNativeHandoff (scope : Scope) (original currentNode backup : Node) : Bool :=
  scope.provider = "icloud" && scope.collection = "drive" &&
    nativeDocument original && nativeDocument currentNode && nativeDocument backup &&
    original.parentId.isSome && original.parentId ≠ some trashRoot && original.name ≠ "" &&
    currentNode.id ≠ original.id && currentNode.parentId = original.parentId &&
    currentNode.name = original.name && backup.id = original.id &&
    backup.parentId = some trashRoot && backup.name = original.name &&
    backup.size = original.size

/-- `Store::publish_native_handoff` -/
def publishNativeHandoff (s : Store) (scope : Scope)
    (original currentNode backup : Node) : Except StoreError (Bool × Store) :=
  if !validNativeHandoff scope original currentNode backup then .error .outOfOrder
  else
    match original.parentId with
    | none => .error .outOfOrder
    | some parent =>
      let currentKnown := s.nodeOn scope currentNode.id
      let currentDirectory := s.childIdOn scope parent currentNode.id
      let currentListed := currentDirectory.bind id
      let currentAbsent := (s.observedAbsent.get (scope, currentNode.id)).isSome
      if currentKnown.isNone ∧ currentListed.isNone ∧ ¬ currentAbsent then .ok (false, s)
      else
        let currentSuperseded := currentAbsent || currentKnown.any (· ≠ currentNode) ||
          currentListed.any (· ≠ currentNode) || currentDirectory = some none
        let originalKnown := s.nodeOn scope original.id
        let originalDirectory := s.childIdOn scope parent original.id
        let originalListed := originalDirectory.bind id
        let originalAbsent := (s.observedAbsent.get (scope, original.id)).isSome
        if originalKnown.isNone ∧ originalListed.isNone ∧ ¬ originalAbsent then .ok (false, s)
        else if originalAbsent ∨ originalKnown = some backup ∨
            originalKnown.any (· ≠ original) ∨ originalListed.any (· ≠ original) ∨
            originalDirectory = some none then
          .ok (true, s)
        else do
          let published := backup :: (if currentSuperseded then [] else [currentNode])
          let s ← s.changedItems scope published [original] none
          let (revision, s) ← s.advance
          return (true, s.writeNodes scope published revision)

end Cirrove.Store
