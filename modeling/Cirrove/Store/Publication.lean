import Cirrove.Store.Encoding
import Cirrove.Store.Observations

/-!
# Staged publication of a complete listing

`cirrove-store/src/observations/directory_publication.rs`: pages of one listing are
collected in temporary tables of a connection of their own and published after the
terminal page in one transaction.

A cancelled token or a passed deadline ends any call with `Cancelled`; the calls take
the answer of that check as an argument.
-/

namespace Cirrove.Store

open Cirrove.Library

def maxInputBytes : Nat := 256 * 1024 * 1024
def maxNodeBytes : Nat := 1024 * 1024
def maxPageBytes : Nat := 16 * 1024 * 1024
def maxPages : Nat := 65536
def maxCursorBytes : Nat := 16 * 1024

/-- The temporary table `incoming` of one listing. Its primary key and the checks of
    `page` are fields, so a staged row is always a child of the listed directory. -/
structure Incoming (parent : String) where
  nodes : List Node
  distinct : (nodes.map Node.id).Nodup
  children : ∀ n ∈ nodes, n.parentId = some parent ∧ n.id ≠ ""

def Incoming.empty (parent : String) : Incoming parent where
  nodes := []
  distinct := List.nodup_nil
  children := by simp

/-- `INSERT INTO incoming`, after the checks of the row. -/
def Incoming.insert {parent : String} (i : Incoming parent) (n : Node)
    (hchild : n.parentId = some parent ∧ n.id ≠ "") : Except StoreError (Incoming parent) :=
  if hid : n.id ∈ i.nodes.map Node.id then .error .database
  else .ok {
    nodes := i.nodes ++ [n]
    distinct := by
      rw [List.map_append, List.nodup_append]
      refine ⟨i.distinct, List.nodup_singleton _, ?_⟩
      intro id hmem id' hmem' heq
      rw [List.map_singleton, List.mem_singleton] at hmem'
      exact hid (hmem' ▸ heq ▸ hmem)
    children := by
      intro m hm
      rcases List.mem_append.mp hm with hm | hm
      · exact i.children m hm
      · rw [List.mem_singleton.mp hm]
        exact hchild }

/-- A listing being staged. -/
structure DirectoryPublication where
  ticket : ObservationTicket
  parent : String
  target : ticket.target = .directory parent
  incoming : Incoming parent
  cursors : List String
  inputBytes : Nat
  pages : Nat
  complete : Bool
  source : Option Node

inductive DirectoryPublicationResult where
  | sourceChanged
  | published (changed : Bool)
  | superseded (known : Bool)
  deriving DecidableEq, Repr

/-- `directory_sources::valid` -/
def validSource (n : Node) : Bool :=
  n.package && n.kind = .folder && n.target.isNone && n.contentRevision.isSome

/-- `directory_sources::same` -/
def sameSource (before after : Node) : Bool :=
  validSource before && validSource after && before.id = after.id &&
    before.parentId = after.parentId && before.name = after.name &&
    before.size = after.size && before.contentRevision = after.contentRevision

/-- `Store::directory_publication`: take the ticket before the first page is fetched. -/
def directoryPublication (s : Store) (scope : Scope) (parent : String) (cancelled : Bool) :
    Except StoreError (DirectoryPublication × Store) :=
  if cancelled then .error .cancelled
  else if s.revision + 1 ≤ maxRevision then
    .ok ({ ticket := ⟨scope, .directory parent, s.identity, s.revision + 1⟩
           parent := parent
           target := rfl
           incoming := Incoming.empty parent
           cursors := []
           inputBytes := 0
           pages := 0
           complete := false
           source := none },
      { s with revision := s.revision + 1 })
  else .error .outOfOrder

namespace DirectoryPublication

/-- `DirectoryPublication::bind_source` -/
def bindSource (d : DirectoryPublication) (source : Node) :
    Except StoreError DirectoryPublication :=
  if !validSource source || source.id ≠ d.parent then .error .invalidDirectorySnapshot
  else if source.encoded.utf8ByteSize > maxNodeBytes then .error .directoryLimit
  else .ok { d with source := some source }

/-- The strings of a node, measured before they are escaped. -/
def stringBytes (parent : String) (n : Node) : Nat :=
  n.id.utf8ByteSize + n.name.utf8ByteSize + parent.utf8ByteSize +
    (n.etag.map String.utf8ByteSize).getD 0 + (n.contentVersion.map String.utf8ByteSize).getD 0 +
    (n.target.map fun t => t.collection.utf8ByteSize + t.item.utf8ByteSize).getD 0

/-- Stage one row of a page; the second component counts the bytes of the page. -/
def stageNode {parent : String} (staged : Incoming parent × Nat) (n : Node) :
    Except StoreError (Incoming parent × Nat) :=
  if hchild : n.parentId = some parent ∧ n.id ≠ "" then
    if stringBytes parent n > maxNodeBytes then .error .directoryLimit
    else
      let size := n.encoded.utf8ByteSize
      if size > maxNodeBytes ∨ staged.2 + size > maxPageBytes then .error .directoryLimit
      else do
        let incoming ← staged.1.insert n hchild
        return (incoming, staged.2 + size)
  else .error .invalidDirectorySnapshot

/-- `DirectoryPublication::page`: a malformed page consumes the builder. -/
def page (d : DirectoryPublication) (cancelled : Bool) (p : DirectoryPage) :
    Except StoreError DirectoryPublication :=
  if cancelled then .error .cancelled
  else if d.complete ∨ d.pages ≥ maxPages then .error .outOfOrder
  else do
    let (incoming, nodeBytes) ← p.nodes.foldlM stageNode (d.incoming, 0)
    let (cursors, pageBytes) ←
      match p.next with
      | none => pure (d.cursors, nodeBytes)
      | some cursor =>
        if cursor.value.utf8ByteSize > maxCursorBytes then .error .directoryLimit
        else if cursor.value ∈ d.cursors then .error .database
        else pure (d.cursors ++ [cursor.value], nodeBytes + cursor.value.utf8ByteSize)
    if d.inputBytes + pageBytes > maxInputBytes then .error .directoryLimit
    else .ok { d with
      incoming := incoming
      cursors := cursors
      inputBytes := d.inputBytes + pageBytes
      pages := d.pages + 1
      complete := p.next.isNone }

end DirectoryPublication

/-- The temporary table `removed`: observed and committed rows that name the directory
    and are missing from the listing. -/
def removedIds (s : Store) (scope : Scope) (parent : String) (incoming : List String) :
    List String :=
  ((s.observed.select fun key row =>
      if key.1 = scope ∧ row.body.parentId = some parent ∧ key.2 ∉ incoming then some key.2
      else none) ++
    (s.nodes.select fun key body =>
      if key.1 = scope ∧ body.parentId = some parent ∧ key.2 ∉ incoming then some key.2
      else none)).dedup

/-- The revision marks of a staged publication. Every affected row, incoming or
    removed, names the listed directory. -/
def stagedMarks (s : Store) (scope : Scope) (parent : String) (affected : List String)
    (revision : Nat) : Store :=
  (((s.mark scope .directory parent revision).markAll scope .item affected revision).markAll
    scope .directory (affected.map fun _ => parent) revision).markAll scope .directory
    (affected.filterMap fun id => (s.nodeOn scope id).bind Node.parentId) revision

/-- The observation rows of a staged publication: first the hidden items, then the
    incoming ones. -/
def stagedRows (s : Store) (scope : Scope) (nodes : List Node) (hidden : List String)
    (sourceRevision : Nat) : Store :=
  let shrunk := { s with
    observed := s.observed.deleteWhere fun key _ => key.1 = scope ∧ key.2 ∈ hidden
    observedAbsent := s.observedAbsent.setAll (hidden.map (scope, ·)) sourceRevision }
  { shrunk with
    observedAbsent := shrunk.observedAbsent.deleteWhere fun key _ =>
      key.1 = scope ∧ key.2 ∈ nodes.map Node.id
    observed := shrunk.observed.setRows
      (nodes.map fun n : Node => ((scope, n.id), ⟨n, sourceRevision⟩)) }

/-- The directory rows of a staged publication. -/
def stagedSnapshot (s : Store) (scope : Scope) (parent : String) (nodes : List Node)
    (source : Option Node) (sourceRevision : Nat) : Store :=
  { s with
    directories := s.directories.set (scope, parent) sourceRevision
    directoryEntries :=
      (s.directoryEntries.deleteWhere fun key _ => key.1 = scope ∧ key.2.1 = parent).setRows
        (nodes.map fun n : Node => ((scope, parent, n.id), n))
    directorySources :=
      match source with
      | some source => s.directorySources.set (scope, parent) (.bound source)
      | none => s.directorySources.erase (scope, parent) }

/-- `DirectoryPublication::publish` on the database `s`. -/
def publishStaged (s : Store) (d : DirectoryPublication) (cancelled : Bool) :
    Except StoreError (DirectoryPublicationResult × Store) :=
  if cancelled then .error .cancelled
  else if !d.complete then .error .outOfOrder
  else if d.source.any (fun source => !(s.nodeOn d.ticket.scope d.parent).any (sameSource source))
  then .ok (.sourceChanged, s)
  else do
    let scope := d.ticket.scope
    let nodes := d.incoming.nodes
    let newer := nodes.any (fun n => s.changedAfter scope .item n.id d.ticket.revision)
    if !(← s.current d.ticket []) || newer then
      return (.superseded (s.readSource scope d.parent false).isSome, s)
    let visible := s.childrenOn scope d.parent
    let previous := visible.getD []
    if ¬ (previous.map Node.id).Nodup then .error .database
    else
      -- Stored bodies are canonical, so comparing them compares the nodes.
      let updated := nodes.filter (fun n => previous.find? (fun p => p.id = n.id) ≠ some n)
      let changed := visible.isNone || !updated.isEmpty ||
        previous.any (fun p => p.id ∉ nodes.map Node.id)
      let removed := s.removedIds scope d.parent (nodes.map Node.id)
      let (revision, s) ← s.advance
      let s := s.stagedMarks scope d.parent (updated.map Node.id ++ removed) revision
      -- A visible move elsewhere keeps its location.
      let hidden := removed.filter (s.hiddenBy scope d.parent)
      let s := s.stagedRows scope nodes hidden d.ticket.revision
      return (.published changed,
        s.stagedSnapshot scope d.parent nodes d.source d.ticket.revision)

end Cirrove.Store
