import Cirrove.Store.State

/-!
# Crash-resumable feed rounds

`Store::begin`, `Store::begin_snapshot`, `Store::stage` and `observations::publish_delta`.
Pages of a round are staged in one table keyed by item; the visible index and the
completed cursor change together when the terminal page arrives.
-/

namespace Cirrove.Store

open Cirrove.Library

/-! ## Starting and resuming a round -/

/-- `INSERT OR IGNORE INTO feeds(scope)` and the row of the scope afterwards. -/
def feedRow (s : Store) (scope : Scope) : Feed := (s.feeds.get scope).getD Feed.fresh

/-- A new round records the revision it started at. -/
def startRound (s : Store) (scope : Scope) : Except StoreError Store := do
  let (revision, s) ← s.advance
  return { s with rounds := s.rounds.set scope revision }

/-- Throw away the pages of a scope. -/
def clearStaged (s : Store) (scope : Scope) : Store :=
  { s with staged := s.staged.deleteWhere fun key _ => key.1 = scope }

def setFeed (s : Store) (scope : Scope) (feed : Feed) : Store :=
  { s with feeds := s.feeds.set scope feed }

/-- `Store::begin`: resume an interrupted round, or start one from the completed
    cursor; an explicit reset stages a new baseline. -/
def begin (s : Store) (scope : Scope) (reset : Bool) :
    Except StoreError (Option Cursor × Store) := do
  let feed := s.feedRow scope
  if reset then
    let s ← s.startRound scope
    let s := (s.clearStaged scope).setFeed scope
      { feed with pending := true, nextCursor := none, reset := true }
    return (none, s)
  else if feed.pending then
    return (feed.nextCursor, s.setFeed scope feed)
  else
    let s ← s.startRound scope
    let s := s.setFeed scope
      { feed with pending := true, nextCursor := feed.cursor, reset := feed.cursor.isNone }
    return (feed.cursor, s)

/-- `Store::begin_snapshot`: a replacement baseline, unless a round is pending. -/
def beginSnapshot (s : Store) (scope : Scope) : Except StoreError (Option Cursor × Store) := do
  let feed := s.feedRow scope
  if feed.pending then
    return (feed.nextCursor, s.setFeed scope feed)
  else
    let s ← s.startRound scope
    let s := (s.clearStaged scope).setFeed scope
      { feed with pending := true, nextCursor := none, reset := true }
    return (none, s)

/-! ## Staging pages -/

/-- One row of `staged`: the last change of an item wins. -/
def stageChange (s : Store) (scope : Scope) (change : Change) : Store :=
  { s with staged := s.staged.set (scope, change.id) change.body }

/-- All changes of a page. -/
def stageChanges (s : Store) (scope : Scope) (changes : List Change) : Store :=
  changes.foldl (fun s c => s.stageChange scope c) s

/-- The staged items of a scope. -/
def stagedItems (s : Store) (scope : Scope) : List (String × Option Node) :=
  s.staged.select fun key body => if key.1 = scope then some (key.2, body) else none

def stagedIds (s : Store) (scope : Scope) : List String :=
  (s.stagedItems scope).map Prod.fst

/-- The directories a delta touches: each staged item itself, and its staged,
    committed and observed parents. -/
def touchedDirectories (s : Store) (scope : Scope) : List String :=
  (s.stagedItems scope).flatMap fun item =>
    [item.1] ++ (item.2.bind Node.parentId).toList ++
      ((s.nodes.get (scope, item.1)).bind Node.parentId).toList ++
      ((s.observed.get (scope, item.1)).bind (fun row => row.body.parentId)).toList

/-- `observations::publish_delta`: the marks of a round, before the indexed rows are
    replaced. -/
def publishDelta (s : Store) (scope : Scope) (reset : Bool) : Except StoreError Store :=
  if !reset && (s.stagedItems scope).isEmpty then .ok s
  else do
    let (revision, s) ← s.advance
    if reset then
      -- A replacement baseline supersedes every earlier ticket for this scope.
      let s := { s with versions := s.versions.deleteWhere fun key _ => key.scope = scope }
      return s.mark scope .scope "" revision
    else
      return (s.markAll scope .item (s.stagedIds scope) revision).markAll
        scope .directory (s.touchedDirectories scope) revision

/-- Was this revision taken no later than the start of the pending round? -/
def beforeRound (s : Store) (scope : Scope) (revision : Nat) : Bool :=
  (s.rounds.get scope).any (revision ≤ ·)

/-- `DELETE FROM directories`, with the cascades of the two tables that refer to it. -/
def dropDirectories (s : Store) (drop : Scope × String → Nat → Bool) : Store :=
  let dropped := fun key => (s.directories.get key).any (drop key)
  { s with
    directories := s.directories.deleteWhere drop
    directoryEntries := s.directoryEntries.deleteWhere fun key _ => dropped (key.1, key.2.1)
    directorySources := s.directorySources.deleteWhere fun key _ => dropped key }

/-- The snapshots and observations a round replaces: those taken before it started
    and, for a delta, touched by it. Only a bound snapshot is retained. -/
def dropReplaced (s : Store) (scope : Scope) (reset : Bool) : Store :=
  let ids := s.stagedIds scope
  let touched := s.touchedDirectories scope
  let dropped := s.dropDirectories fun key revision =>
    key.1 = scope ∧ ¬ s.boundSource key.1 key.2 ∧ s.beforeRound scope revision ∧
      (reset ∨ key.2 ∈ touched)
  { dropped with
    observedAbsent := dropped.observedAbsent.deleteWhere fun key revision =>
      key.1 = scope ∧ s.beforeRound scope revision ∧ (reset ∨ key.2 ∈ ids)
    observed := dropped.observed.deleteWhere fun key row =>
      key.1 = scope ∧ s.beforeRound scope row.sourceRevision ∧ (reset ∨ key.2 ∈ ids) }

/-- Replace the indexed rows by the staged ones. -/
def commitNodes (s : Store) (scope : Scope) (reset : Bool) : Store :=
  let staged := s.stagedItems scope
  let deleted := staged.filterMap fun item => if item.2.isNone then some item.1 else none
  let upserted := staged.filterMap fun item => item.2.map fun n => ((scope, item.1), n)
  { s with
    nodes := (s.nodes.deleteWhere fun key _ =>
      key.1 = scope ∧ (reset ∨ key.2 ∈ deleted)).setRows upserted }

/-- `Store::stage` -/
def stage (s : Store) (scope : Scope) (expected : Option Cursor) (page : ChangePage) :
    Except StoreError Store :=
  match s.feeds.get scope with
  | none => .error .noRefresh
  | some feed =>
    if !feed.pending then .error .noRefresh
    else if feed.nextCursor ≠ expected then .error .outOfOrder
    else
      let s := s.stageChanges scope page.changes
      if page.checkpoint.isComplete then do
        let s ← s.publishDelta scope feed.reset
        let s := s.dropReplaced scope feed.reset
        let s := s.commitNodes scope feed.reset
        return (s.clearStaged scope).setFeed scope
          ⟨some page.checkpoint.cursor, false, none, false⟩
      else
        return s.setFeed scope { feed with nextCursor := some page.checkpoint.cursor }

end Cirrove.Store
