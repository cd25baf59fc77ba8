import Cirrove.Core
import Cirrove.Library.Table
import Mathlib.Data.List.Sort

/-!
# The metadata store: tables and committed views

The tables of `cirrove-store` and the two ways of reading them: one item by its
identity (`Store::node_on`) and one directory (`directories::read_source` with
`SNAPSHOT_CHILDREN` or `INDEXED_CHILDREN`).

The `scope` column of every table is the serialised `Scope`. Serialisation is
injective, so the tables are keyed by the `Scope` itself. The `seen` columns
(wall-clock times for `directory_age`) are read by nothing modelled here and are
left out; `directory_entries.name` always repeats the name in `body`.

## Revisions

`metadata_clock.revision` is an `i64` that only `advance` moves. It orders
network replies: a ticket is a revision taken before the request is sent.
-/

namespace Cirrove.Store

open Cirrove.Library

/-- `StoreError`, without the texts of SQLite's own errors. -/
inductive StoreError where
  | database
  | noRefresh
  | outOfOrder
  | invalidDirectorySnapshot
  | directoryLimit
  | cancelled
  deriving DecidableEq, Repr

/-- The `kind` column of `metadata_versions`. -/
inductive MetadataChangeKind where
  | scope
  | item
  | directory
  deriving DecidableEq, Repr

/-- A row of `observed`: what a foreground reply said about an item. -/
structure Observed where
  body : Node
  sourceRevision : Nat
  deriving DecidableEq, Repr

/-- A row of `directory_sources`. The table's check constraint leaves exactly one
    of its two columns set. -/
inductive DirectorySource where
  | bound (source : Node)
  | legacy (source : Node)
  deriving DecidableEq, Repr

/-- A row of `feeds`. -/
structure Feed where
  cursor : Option Cursor
  pending : Bool
  nextCursor : Option Cursor
  reset : Bool
  deriving DecidableEq, Repr

/-- The row that `INSERT OR IGNORE INTO feeds(scope)` creates. -/
def Feed.fresh : Feed := ⟨none, false, none, false⟩

/-- The identity of a revision mark. -/
structure MarkKey where
  scope : Scope
  kind : MetadataChangeKind
  identity : String
  deriving DecidableEq, Repr

end Cirrove.Store

namespace Cirrove

open Cirrove.Library Cirrove.Store

/-- The metadata database. -/
structure Store where
  /-- `metadata_clock` -/
  identity : String
  revision : Nat
  /-- `metadata_versions` -/
  versions : Table MarkKey Nat
  observed : Table (Scope × String) Observed
  observedAbsent : Table (Scope × String) Nat
  /-- The committed index. -/
  nodes : Table (Scope × String) Node
  staged : Table (Scope × String) (Option Node)
  /-- `directories.source_revision` -/
  directories : Table (Scope × String) Nat
  /-- Keyed by scope, parent and item. -/
  directoryEntries : Table (Scope × String × String) Node
  directorySources : Table (Scope × String) DirectorySource
  feeds : Table Scope Feed
  /-- `rounds.started` -/
  rounds : Table Scope Nat

namespace Store

/-- A newly created database. -/
def create (identity : String) : Store where
  identity := identity
  revision := 0
  versions := .empty
  observed := .empty
  observedAbsent := .empty
  nodes := .empty
  staged := .empty
  directories := .empty
  directoryEntries := .empty
  directorySources := .empty
  feeds := .empty
  rounds := .empty

/-- `i64::MAX` -/
def maxRevision : Nat := 2 ^ 63 - 1

/-- `observations::advance`: the next revision, by `checked_add`. -/
def advance (s : Store) : Except StoreError (Nat × Store) :=
  if s.revision + 1 ≤ maxRevision then
    .ok (s.revision + 1, { s with revision := s.revision + 1 })
  else
    .error .outOfOrder

/-- `observations::mark` -/
def mark (s : Store) (scope : Scope) (kind : MetadataChangeKind) (identity : String)
    (revision : Nat) : Store :=
  { s with versions := s.versions.set ⟨scope, kind, identity⟩ revision }

/-- Mark every identity of a list. -/
def markAll (s : Store) (scope : Scope) (kind : MetadataChangeKind) (identities : List String)
    (revision : Nat) : Store :=
  { s with versions := s.versions.setAll (identities.map (⟨scope, kind, ·⟩)) revision }

/-- `observations::changed_after` -/
def changedAfter (s : Store) (scope : Scope) (kind : MetadataChangeKind) (identity : String)
    (revision : Nat) : Bool :=
  (s.versions.get ⟨scope, kind, identity⟩).any (revision < ·)

/-! ## One item -/

/-- `Store::node_on`: a negative observation hides the item, a positive one takes
    precedence over the committed index. -/
def nodeOn (s : Store) (scope : Scope) (id : String) : Option Node :=
  if (s.observedAbsent.get (scope, id)).isSome then none
  else ((s.observed.get (scope, id)).map Observed.body).or (s.nodes.get (scope, id))

/-! ## One directory -/

/-- Which query answers for a directory. -/
inductive ReadSource where
  /-- `SNAPSHOT_CHILDREN` with the snapshot's `source_revision` -/
  | snapshot (revision : Nat)
  /-- `INDEXED_CHILDREN` -/
  | indexed
  deriving DecidableEq, Repr

/-- The `package` flag `read_source` looks at: the observed row before the
    committed one, whether or not the item is hidden. -/
def packageFlag (s : Store) (scope : Scope) (id : String) : Bool :=
  (((s.observed.get (scope, id)).map Observed.body).or (s.nodes.get (scope, id))).any
    Node.package

/-- `feeds.cursor`, the completed cursor of a scope. -/
def cursor (s : Store) (scope : Scope) : Option Cursor :=
  (s.feeds.get scope).bind Feed.cursor

/-- `directories::read_source`. `none` is an unknown directory. -/
def readSource (s : Store) (scope : Scope) (parent : String) (requireSnapshot : Bool) :
    Option ReadSource :=
  match s.directories.get (scope, parent) with
  | some revision => some (.snapshot revision)
  | none =>
    if requireSnapshot then none
    else if (s.cursor scope).isNone then none
    else if s.packageFlag scope parent then none
    else some .indexed

/-- Is there a positive observation of the item newer than `revision`? -/
def observedAfter (s : Store) (scope : Scope) (id : String) (revision : Nat) : Bool :=
  (s.observed.get (scope, id)).any (fun row => revision < row.sourceRevision)

/-- Is there a negative observation of the item newer than `revision`? -/
def absentAfter (s : Store) (scope : Scope) (id : String) (revision : Nat) : Bool :=
  (s.observedAbsent.get (scope, id)).any (revision < ·)

/-- `ORDER BY name,id` -/
def byNameId (a b : Node) : Prop := a.name < b.name ∨ (a.name = b.name ∧ a.id ≤ b.id)

instance : DecidableRel byNameId := fun a b => by unfold byNameId; infer_instance

/-- The rows `SNAPSHOT_CHILDREN` selects, before ordering. -/
def snapshotRows (s : Store) (scope : Scope) (parent : String) (revision : Nat) : List Node :=
  (s.directoryEntries.select fun key body =>
    if key.1 = scope ∧ key.2.1 = parent ∧ ¬ s.observedAfter scope key.2.2 revision ∧
        ¬ s.absentAfter scope key.2.2 revision then some body else none) ++
  (s.observed.select fun key row =>
    if key.1 = scope ∧ row.body.parentId = some parent ∧ revision < row.sourceRevision ∧
        ¬ s.absentAfter scope key.2 revision then some row.body else none)

/-- The rows `INDEXED_CHILDREN` selects, before ordering. -/
def indexedRows (s : Store) (scope : Scope) (parent : String) : List Node :=
  (s.nodes.select fun key body =>
    if key.1 = scope ∧ body.parentId = some parent ∧ (s.observed.get (scope, key.2)).isNone ∧
        (s.observedAbsent.get (scope, key.2)).isNone then some body else none) ++
  (s.observed.select fun key row =>
    if key.1 = scope ∧ row.body.parentId = some parent then some row.body else none)

/-- The rows of the query chosen by `readSource`. -/
def sourceRows (s : Store) (scope : Scope) (parent : String) : ReadSource → List Node
  | .snapshot revision => s.snapshotRows scope parent revision
  | .indexed => s.indexedRows scope parent

/-- `Store::children_on` -/
def childrenOn (s : Store) (scope : Scope) (parent : String) : Option (List Node) :=
  (s.readSource scope parent false).map fun source =>
    (s.sourceRows scope parent source).insertionSort byNameId

/-- Does the snapshot of a directory have a bound generated source? -/
def boundSource (s : Store) (scope : Scope) (parent : String) : Bool :=
  match s.directorySources.get (scope, parent) with
  | some (.bound _) => true
  | _ => false

/-- The revision of the positive or negative observation of an item. -/
def sourceRevision (s : Store) (scope : Scope) (id : String) : Option Nat :=
  ((s.observed.get (scope, id)).map Observed.sourceRevision).or (s.observedAbsent.get (scope, id))

end Store

end Cirrove
