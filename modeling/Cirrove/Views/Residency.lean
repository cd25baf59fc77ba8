import Cirrove.Core
import Cirrove.Library.Table
import Cirrove.Library.Runs

/-!
# Resident views

`cirrove-service/src/filesystem/residency.rs`: the index of the views a mount has resolved, and
how long each of them stays. A view holds one residency token of its own and one of its parent;
an entry is retired when the kernel has forgotten it and nothing else holds its token.

A token is an allocation of `Arc<LookupRefs>`. Its strong count is the number of views that hold
it: those of the index, and the clones outside (open files, operations, snapshots), which `Memory`
keeps as a list. The projection index only finds views with equal metadata to share their
allocations with, so it is left out, and so is the metadata it compares.
-/

namespace Cirrove.Views

open Cirrove.Library

/-- One allocation of `Arc<LookupRefs>`. -/
structure Token where
  value : Nat
  deriving DecidableEq, Repr

structure LookupRefs where
  kernel : Nat
  quarantine : Bool
  deriving DecidableEq, Repr

structure View where
  residency : Token
  parentResidency : Option Token
  inode : Nat
  parent : Nat
  kind : NodeKind
  name : String
  deriving DecidableEq, Repr

/-- The tokens a view holds. -/
def View.tokens (v : View) : List Token := v.residency :: v.parentResidency.toList

structure Entry where
  view : View
  generation : Nat
  queued : Bool
  deriving DecidableEq, Repr

/-- One view a ceiling has decided to ask the kernel to drop. -/
structure Shed where
  inode : Nat
  parent : Nat
  name : String
  deriving DecidableEq, Repr

inductive ProviderError where
  | notFound
  | protocol (message : String)
  deriving DecidableEq, Repr

/-- An inode and the generation of its entry. -/
abbrev Slot := Nat × Nat

structure NamespaceViews where
  entries : Table Nat Entry
  candidates : List Slot
  /-- Resolution order, for a ceiling to shed its oldest first. -/
  resolved : List Slot
  ceiling : Nat
  generation : Nat

/-- What the index shares with the rest of the process. -/
structure Memory where
  refs : Token → LookupRefs
  /-- The views outside the index. -/
  clones : List View
  /-- The number of tokens allocated so far. -/
  allocated : Nat

/-- A bound of `u64`. -/
def u64Max : Nat := 2 ^ 64 - 1

/-- `Arc::default()` -/
def LookupRefs.new : LookupRefs := ⟨0, false⟩

/-- Change what one token refers to. -/
def Memory.store (m : Memory) (t : Token) (refs : LookupRefs) : Memory :=
  { m with refs := fun x => if x = t then refs else m.refs x }

/-- `quarantine` -/
def Memory.quarantine (m : Memory) (t : Token) : Memory :=
  m.store t { m.refs t with quarantine := true }

namespace NamespaceViews

/-- `NamespaceViews::new` -/
def new (root : View) : NamespaceViews where
  entries := Table.empty.set 1 ⟨root, 0, false⟩
  candidates := []
  resolved := []
  ceiling := 0
  generation := 0

def get (v : NamespaceViews) (inode : Nat) : Option View := (v.entries.get inode).map Entry.view

/-- `entries.len()` -/
def len (v : NamespaceViews) : Nat := v.entries.rows.length

/-- The tokens that the views of the index hold, one for each of them. -/
def tokens (v : NamespaceViews) : List Token := v.entries.rows.flatMap (fun row => row.2.view.tokens)

/-- `Arc::strong_count` -/
def strongCount (v : NamespaceViews) (m : Memory) (t : Token) : Nat :=
  (v.tokens ++ m.clones.flatMap View.tokens).count t

/-! ## Resolving a view -/

/-- The loop of `parent_lease`: from the parent to the root, past the inode itself never. -/
def walk (v : NamespaceViews) (inode : Nat) : Nat → Nat → Except ProviderError Unit
  | 0, _ => .error (.protocol "namespace ancestor cycle")
  | n + 1, ancestor =>
    if ancestor = inode then .error (.protocol "namespace ancestor cycle")
    else if ancestor = 1 then .ok ()
    else
      match v.entries.get ancestor with
      | none => .error .notFound
      | some entry => v.walk inode n entry.view.parent

/-- `NamespaceViews::parent_lease` -/
def parentLease (v : NamespaceViews) (inode parent : Nat) : Except ProviderError Token :=
  if inode ≤ 1 then .error (.protocol "reserved namespace inode")
  else
    match v.entries.get parent with
    | none => .error .notFound
    | some entry =>
      if entry.view.kind ≠ .folder then .error (.protocol "namespace parent is not a directory")
      else do
        v.walk inode v.len parent
        return entry.view.residency

/-- `NamespaceViews::queue` -/
def queue (v : NamespaceViews) (m : Memory) (inode : Nat) : NamespaceViews :=
  match v.entries.get inode with
  | none => v
  | some entry =>
    if inode ≠ 1 && !entry.queued && !(m.refs entry.view.residency).quarantine then
      { v with
        entries := v.entries.set inode { entry with queued := true }
        candidates := v.candidates ++ [(inode, entry.generation)] }
    else v

/-- `NamespaceViews::insert` -/
def insert (v : NamespaceViews) (m : Memory) (view : View) :
    Except ProviderError (View × NamespaceViews) := do
  let lease ← v.parentLease view.inode view.parent
  let view := { view with parentResidency := some lease }
  match v.entries.get view.inode with
  | some entry =>
    -- Earlier clones must pin the same residency when the visible path changes.
    let view := { view with residency := entry.view.residency }
    let v := { v with entries := v.entries.set view.inode { entry with view := view } }
    return (view, v.queue m view.inode)
  | none =>
    if v.generation = u64Max then .error (.protocol "namespace generation exhausted")
    else
      let generation := v.generation + 1
      let v := { v with
        entries := v.entries.set view.inode ⟨view, generation, false⟩
        generation := generation
        resolved := if 0 < v.ceiling then v.resolved ++ [(view.inode, generation)] else v.resolved }
      return (view, v.queue m view.inode)

/-! ## The kernel's references -/

/-- `NamespaceViews::acquire_lookup` -/
def acquireLookup (v : NamespaceViews) (m : Memory) (inode : Nat) :
    Except ProviderError Unit × Memory :=
  match v.entries.get inode with
  | none => (.error .notFound, m)
  | some entry =>
    let t := entry.view.residency
    if (m.refs t).kernel = u64Max then
      (.error (.protocol "namespace reference count exhausted"), m.quarantine t)
    else (.ok (), m.store t { m.refs t with kernel := (m.refs t).kernel + 1 })

/-- `NamespaceViews::reclaimable` -/
def reclaimable (v : NamespaceViews) (m : Memory) (entry : Entry) : Bool :=
  entry.view.inode ≠ 1 && (m.refs entry.view.residency).kernel = 0 &&
    !(m.refs entry.view.residency).quarantine && v.strongCount m entry.view.residency = 1

/-- `entries.remove` -/
def remove (v : NamespaceViews) (inode : Nat) : NamespaceViews :=
  { v with entries := v.entries.erase inode }

/-- `NamespaceViews::forget` -/
def forget (v : NamespaceViews) (m : Memory) (inode count : Nat) :
    Bool × NamespaceViews × Memory :=
  if inode = 1 || count = 0 then (true, v, m)
  else
    match v.entries.get inode with
    | none => (false, v, m)
    | some entry =>
      let t := entry.view.residency
      if (m.refs t).kernel < count then (false, v, m.quarantine t)
      else
        let next := (m.refs t).kernel - count
        let m := m.store t { m.refs t with kernel := next }
        if next ≠ 0 then (true, v, m)
        else if v.reclaimable m entry then (true, v.remove inode, m)
        else (true, v.queue m inode, m)

/-! ## The collector -/

/-- One turn of the loop of `collect`, and whether it retired an entry. -/
def examine (v : NamespaceViews) (m : Memory) (slot : Slot) : NamespaceViews × Bool :=
  match (v.entries.get slot.1).filter (fun entry => entry.generation = slot.2) with
  | none => (v, false)
  | some entry =>
    let entry := { entry with queued := false }
    let v := { v with entries := v.entries.set slot.1 entry }
    if v.reclaimable m entry then (v.remove slot.1, true)
    else if (m.refs entry.view.residency).kernel = 0 then (v.queue m slot.1, false)
    else (v, false)

/-- The loop of `collect`: what is left of `limit`, the candidates to look at before it stops, and
    the number of retired entries so far. -/
def collectLoop (m : Memory) : Nat → Nat → Nat → NamespaceViews → NamespaceViews × Nat × Nat
  | 0, unchanged, removed, v => (v, unchanged, removed)
  | limit + 1, unchanged, removed, v =>
    if unchanged = 0 then (v, unchanged, removed)
    else
      match v.candidates with
      | [] => (v, unchanged - 1, removed)
      | slot :: rest =>
        match { v with candidates := rest }.examine m slot with
        | (v, true) => collectLoop m limit v.candidates.length (removed + 1) v
        | (v, false) => collectLoop m limit (unchanged - 1) removed v

/-- `NamespaceViews::collect` -/
def collect (v : NamespaceViews) (m : Memory) (limit : Nat) : NamespaceViews × Nat :=
  let (v, _, removed) := collectLoop m limit v.candidates.length 0 v
  (v, removed)

/-! ## The ceiling -/

/-- `NamespaceViews::set_ceiling` -/
def setCeiling (v : NamespaceViews) (ceiling : Nat) : NamespaceViews :=
  { v with ceiling := ceiling, resolved := if ceiling = 0 then [] else v.resolved }

/-- `NamespaceViews::over_ceiling` -/
def overCeiling (v : NamespaceViews) : Nat := if v.ceiling = 0 then 0 else v.len - v.ceiling

/-- The view of a slot that only the kernel holds and that is no directory. -/
def shedding (v : NamespaceViews) (m : Memory) (slot : Slot) : Option Shed :=
  match (v.entries.get slot.1).filter (fun entry => entry.generation = slot.2) with
  | none => none
  | some entry =>
    if entry.view.kind = .folder || (m.refs entry.view.residency).quarantine ||
        (m.refs entry.view.residency).kernel = 0 ||
        v.strongCount m entry.view.residency ≠ 1 then none
    else some ⟨slot.1, entry.view.parent, entry.view.name⟩

/-- The loop of `shed_batch`: the turns that are left, how much of the budget is left and how far
    the index is over its ceiling. The answer is the batch and the slots that were taken. -/
def shedLoop (v : NamespaceViews) (m : Memory) : Nat → Nat → Nat → List Slot →
    List Shed × List Slot
  | 0, _, _, _ => ([], [])
  | _ + 1, 0, _, _ => ([], [])
  | _ + 1, _ + 1, 0, _ => ([], [])
  | _ + 1, _ + 1, _ + 1, [] => ([], [])
  | turns + 1, budget + 1, excess + 1, slot :: rest =>
    match v.shedding m slot with
    | none =>
      let (batch, taken) := v.shedLoop m turns (budget + 1) (excess + 1) rest
      (batch, slot :: taken)
    | some shed =>
      let (batch, taken) := v.shedLoop m turns budget excess rest
      (shed :: batch, slot :: taken)

/-- `NamespaceViews::shed_batch` -/
def shedBatch (v : NamespaceViews) (m : Memory) (budget : Nat) : List Shed × NamespaceViews :=
  let (batch, taken) := v.shedLoop m (budget * 8) budget v.overCeiling v.resolved
  (batch, { v with resolved := v.resolved.drop taken.length })

end NamespaceViews

/-! ## The mount -/

/-- Where the view of an insertion comes from: it was just projected from a listing, or it is a
    changed clone of a view of the same inode. -/
inductive Source where
  | fresh
  | clone (view : View)
  deriving DecidableEq, Repr

inductive Event where
  | insert (source : Source) (inode parent : Nat) (kind : NodeKind) (name : String)
  | acquireLookup (inode : Nat)
  | forget (inode count : Nat)
  /-- A view of the index is cloned. -/
  | get (inode : Nat)
  /-- A clone is cloned. -/
  | clone (view : View)
  | drop (view : View)
  | collect (limit : Nat)
  | setCeiling (ceiling : Nat)
  | shedBatch (budget : Nat)
  deriving DecidableEq, Repr

/-- The index with the rest of the process, and what the kernel was told. -/
structure World where
  views : NamespaceViews
  memory : Memory
  /-- The lookups granted to an entry. -/
  granted : Slot → Nat
  /-- The lookups the kernel has given back. -/
  forgotten : Slot → Nat
  /-- The entry was resolved since `shed_batch` last took its slot. -/
  due : Slot → Bool

/-- A mount with nothing but its root. -/
def World.create (name : String) (ceiling : Nat) : World where
  views := (NamespaceViews.new ⟨⟨0⟩, none, 1, 1, .folder, name⟩).setCeiling ceiling
  memory := ⟨fun _ => .new, [], 1⟩
  granted := fun _ => 0
  forgotten := fun _ => 0
  due := fun _ => false

/-- The slot of an inode. -/
def World.slot (w : World) (inode : Nat) : Option Slot :=
  (w.views.entries.get inode).map (fun entry => (inode, entry.generation))

/-- Add to the count of the slot of an inode, if it has one. -/
def World.count (w : World) (counts : Slot → Nat) (inode n : Nat) : Slot → Nat :=
  fun slot => if w.slot inode = some slot then counts slot + n else counts slot

/-- The view an insertion begins with. -/
def World.input (w : World) (source : Source) (inode parent : Nat) (kind : NodeKind)
    (name : String) : View where
  residency := match source with
    | .fresh => ⟨w.memory.allocated⟩
    | .clone view => view.residency
  parentResidency := none
  inode := inode
  parent := parent
  kind := kind
  name := name

def step (w : World) : Event → World
  | .insert source inode parent kind name =>
    let memory := { w.memory with allocated := w.memory.allocated + 1 }
    match w.views.insert memory (w.input source inode parent kind name) with
    | .error _ => { w with memory := memory }
    | .ok (view, views) =>
      let w := { w with
        views := views
        memory := { memory with clones := view :: memory.clones } }
      { w with due := fun slot => w.due slot || w.slot inode = some slot }
  | .acquireLookup inode =>
    match w.views.acquireLookup w.memory inode with
    | (.error _, memory) => { w with memory := memory }
    | (.ok (), memory) => { w with memory := memory, granted := w.count w.granted inode 1 }
  | .forget inode count =>
    match w.views.forget w.memory inode count with
    | (false, views, memory) => { w with views := views, memory := memory }
    | (true, views, memory) =>
      { w with views := views, memory := memory, forgotten := w.count w.forgotten inode count }
  | .get inode =>
    match w.views.get inode with
    | none => w
    | some view => { w with memory := { w.memory with clones := view :: w.memory.clones } }
  | .clone view => { w with memory := { w.memory with clones := view :: w.memory.clones } }
  | .drop view => { w with memory := { w.memory with clones := w.memory.clones.erase view } }
  | .collect limit => { w with views := (w.views.collect w.memory limit).1 }
  | .setCeiling ceiling => { w with views := w.views.setCeiling ceiling }
  | .shedBatch budget =>
    let (_, views) := w.views.shedBatch w.memory budget
    let taken := w.views.resolved.take (w.views.resolved.length - views.resolved.length)
    { w with views := views, due := fun slot => w.due slot && !taken.contains slot }

/-- Only a view that exists can be cloned, and an insertion changes the clone of no other inode. -/
def Permitted (w : World) : Event → Prop
  | .insert (.clone view) inode _ _ _ => view ∈ w.memory.clones ∧ view.inode = inode
  | .clone view => view ∈ w.memory.clones
  | _ => True

end Cirrove.Views
