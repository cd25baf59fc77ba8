import Cirrove.Store.Encoding
import Cirrove.Store.State
import Mathlib.Data.Prod.Lex
import Mathlib.Data.String.Basic

/-!
# Bounded reads of revision marks

`cirrove-store/src/metadata_changes.rs`: a mount follows the marks of `metadata_versions`
in pages. A round captures the clock once (`upper`) and goes through the marks up to it in
the order of the index; each page is a query of its own.

A mark keeps one row per key, so writers move rows to higher revisions, or replace all
rows of a scope by one, while a round is under way.
-/

namespace Cirrove.Store

open Cirrove.Library

def pageEntries : Nat := 256
def pageBytes : Nat := 64 * 1024
def maxMarkBytes : Nat := 1024 * 1024

/-- A row of `metadata_versions`. -/
structure Mark where
  key : MarkKey
  revision : Nat
  deriving DecidableEq, Repr

/-- The stored number of a kind. -/
def MetadataChangeKind.column : MetadataChangeKind → Nat
  | .scope => 0
  | .item => 1
  | .directory => 2

/-- The columns of the index `metadata_change_order`. -/
def Mark.order (m : Mark) : ℕ ×ₗ String ×ₗ ℕ ×ₗ String :=
  toLex (m.revision, toLex (m.key.scope.encoded, toLex (m.key.kind.column, m.key.identity)))

/-- `ORDER BY revision,scope,kind,identity` -/
def Mark.le (a b : Mark) : Prop := a.order ≤ b.order

instance : DecidableRel Mark.le := fun a b => inferInstanceAs (Decidable (a.order ≤ b.order))

/-- The bytes of a row that count for the page. -/
def Mark.size (m : Mark) : Nat := m.key.scope.encoded.utf8ByteSize + m.key.identity.utf8ByteSize

structure MetadataPosition where
  database : String
  through : Nat
  upper : Option Nat
  after : Option Mark
  deriving DecidableEq, Repr

structure MetadataChanges where
  changes : List MarkKey
  next : MetadataPosition
  complete : Bool
  deriving DecidableEq, Repr

/-- `Store::metadata_position` -/
def metadataPosition (s : Store) : MetadataPosition := ⟨s.identity, s.revision, none, none⟩

/-- The condition of the queries `FIRST` and `NEXT`. -/
def MetadataPosition.selects (p : MetadataPosition) (upper : Nat) (m : Mark) : Bool :=
  (match p.after with
    | some after => after.order < m.order
    | none => p.through < m.revision) && m.revision ≤ upper

/-- The rows a query returns, without its `LIMIT`. -/
def markRows (s : Store) (p : MetadataPosition) (upper : Nat) : List Mark :=
  ((s.versions.rows.map fun row => ⟨row.1, row.2⟩).filter (p.selects upper)).insertionSort Mark.le

/-- The loop of `metadata_changes`: the rows taken into the page, and whether the query was
    read to its end. -/
def readRows : List Mark → List Mark → Nat → Except StoreError (List Mark × Bool)
  | [], taken, _ => .ok (taken, true)
  | row :: rows, taken, bytes =>
    if row.size > maxMarkBytes then .error .outOfOrder
    else if taken ≠ [] ∧ bytes + row.size > pageBytes then .ok (taken, false)
    else if (taken ++ [row]).length = pageEntries then .ok (taken ++ [row], false)
    else readRows rows (taken ++ [row]) (bytes + row.size)

/-- `Store::metadata_changes` -/
def metadataChanges (s : Store) (p : MetadataPosition) : Except StoreError MetadataChanges :=
  if s.identity ≠ p.database ∨ s.revision < p.through then .error .outOfOrder
  else do
    let upper := p.upper.getD s.revision
    let (taken, complete) ← readRows ((s.markRows p upper).take pageEntries) [] 0
    return {
      changes := taken.map Mark.key
      next :=
        if complete then ⟨p.database, upper, none, none⟩
        else ⟨p.database, p.through, some upper, taken.getLast?.or p.after⟩
      complete := complete }

end Cirrove.Store
