import Cirrove.Journal.Machine
import Cirrove.Journal.Index

/-!
# How the queue changes

What every function of the journal may do to the queue, said once. `Tidy` are the redundancies
of the tables: the columns of a row repeat its body, and `write_queue` repeats both.
`Evolves` relates the queue before and after any function but the discard of a removal: no
operation is lost, a complete one is frozen, and only a claim puts one in flight.

- `Revised`: one operation is stored again
- `Admitted`: one operation is new
- `Recovered`: a new process takes the journal over
-/

namespace Cirrove.Journal

open Cirrove.Library

/-! ## Operations -/

/-- The place a change puts something into. -/
def MutationIntent.place : MutationIntent → Option (String × String)
  | .createFolder parent name => some (parent, name)
  | .relocate _ parent name => some (parent, name)
  | _ => none

namespace Operation

def isUpload : Operation → Bool
  | .upload _ => true
  | .mutation _ => false

/-- The keys of what an operation wants now. -/
def keys (lowercase : String → String) : Operation → List Resource
  | .upload r => uploadResources lowercase r.scope r.intent
  | .mutation r => (mutationResources lowercase r.request).toOption.getD []

/-- The keys an operation gets when it is bound to a node. -/
def sourceKeys (lowercase : String → String) (op : Operation) (n : Node) : List Resource :=
  match op with
  | .upload r => [.item r.scope n.id]
  | .mutation r => .item r.request.scope n.id ::
      n.parentId.toList.map (fun parent => slotKey lowercase r.request.scope parent n.name)

/-- The states in which an operation may still wait for a receipt. -/
def waiting : Operation → Bool
  | .upload r => r.state = .pending || r.state = .preparing || r.state = .failed
  | .mutation r => r.state = .pending || r.state = .failed

def failed : Operation → Bool
  | .upload r => r.state = .failed
  | .mutation r => r.state = .failed

/-- A change that is in flight, or was acknowledged. -/
def begun : Operation → Bool
  | .upload _ => false
  | .mutation r => r.state.inFlight || r.state = .applied

/-- No reader of its file holds the operation back. -/
def localReady : Operation → Bool
  | .upload _ => true
  | .mutation r => r.localReady

def removesFile : Operation → Bool
  | .upload _ => false
  | .mutation r =>
    match r.request.intent with
    | .removeFile _ => true
    | _ => false

/-- The digest of the bytes of an upload, and the file they were sealed from. -/
def bytes : Operation → Option (String × Option Uuid)
  | .upload r => some (r.sha256, r.workingFile)
  | .mutation _ => none

/-- The name an operation gives to what it makes. -/
def newName : Operation → Option String
  | .upload r =>
    match r.intent with
    | .create _ name => some name
    | .replace _ _ => none
  | .mutation r => r.request.intent.place.map Prod.snd

/-- The operation is sent against this node and no other. -/
def carries (op : Operation) (n : Node) : Prop :=
  match op with
  | .upload r => ∃ etag, n.etag = some etag ∧ r.intent = .replace n.id etag
  | .mutation r => r.request.intent.before = some n

/-- `op` is bound to the receipt of `p`. -/
def follows (op p : Operation) : Prop :=
  p.scope = op.scope ∧ ∃ n, p.confirmedNode = some n ∧ op.carries n

/-- `b` is the same operation as `a`, later. -/
structure Continues (a b : Operation) : Prop where
  id : b.id = a.id
  isUpload : b.isUpload = a.isUpload
  scope : b.scope = a.scope
  sequence : b.sequence = a.sequence
  kind : b.kind = a.kind
  predecessor : b.base.map WriteBase.predecessor = a.base.map WriteBase.predecessor
  destination : b.destination.isSome = a.destination.isSome
  bound : baseBound a.base = true → b.base = a.base
  ready : a.localReady = true → b.localReady = true
  removes : b.removesFile = a.removesFile
  bytes : b.bytes = a.bytes
  name : ∀ name, b.newName = some name → a.newName = some name
  frozen : a.isComplete → b = a

theorem Continues.refl (a : Operation) : a.Continues a :=
  ⟨rfl, rfl, rfl, rfl, rfl, rfl, rfl, fun _ => rfl, fun h => h, rfl, rfl, fun _ h => h, fun _ => rfl⟩

theorem Continues.trans {a b c : Operation} (hab : a.Continues b) (hbc : b.Continues c) :
    a.Continues c where
  id := hbc.id.trans hab.id
  isUpload := hbc.isUpload.trans hab.isUpload
  scope := hbc.scope.trans hab.scope
  sequence := hbc.sequence.trans hab.sequence
  kind := hbc.kind.trans hab.kind
  predecessor := hbc.predecessor.trans hab.predecessor
  destination := hbc.destination.trans hab.destination
  bound := by
    intro hbound
    have hb := hab.bound hbound
    exact (hbc.bound (by rw [hb]; exact hbound)).trans hb
  ready := fun hready => hbc.ready (hab.ready hready)
  removes := hbc.removes.trans hab.removes
  bytes := hbc.bytes.trans hab.bytes
  name := fun name hname => hab.name name (hbc.name name hname)
  frozen := by
    intro hcomplete
    obtain rfl := hab.frozen hcomplete
    exact hbc.frozen hcomplete

/-- The keys of a source depend only on what stays. -/
theorem Continues.sourceKeys {a b : Operation} (h : a.Continues b) (lowercase : String → String)
    (n : Node) : b.sourceKeys lowercase n = a.sourceKeys lowercase n := by
  have hscope := h.scope
  have hkind := h.isUpload
  cases a <;> cases b <;> simp_all [Operation.sourceKeys, Operation.scope, Operation.isUpload]

/-- An operation that is not bound was not bound before. -/
theorem Continues.unbound {a b : Operation} (h : a.Continues b) {base : WriteBase}
    (hbase : b.base = some base) (hunresolved : base.resolved = false) : a.base = some base := by
  have hpredecessor := h.predecessor
  rw [hbase, Option.map_some] at hpredecessor
  obtain ⟨base', hbase', heq⟩ := Option.map_eq_some_iff.mp hpredecessor.symm
  cases hresolved : base'.resolved with
  | true =>
    have hsame := h.bound (by rw [hbase']; exact hresolved)
    rw [hbase, hbase'] at hsame
    cases hsame
    rw [hunresolved] at hresolved
    cases hresolved
  | false =>
    rw [hbase']
    congr
    cases base
    cases base'
    simp_all

/-- Only a complete operation confirms a node. -/
theorem isComplete_of_confirmedNode {op : Operation} {n : Node} (h : op.confirmedNode = some n) :
    op.isComplete = true := by
  cases op with
  | upload r =>
    simp only [confirmedNode] at h
    split at h
    · next hstate => simp [isComplete, hstate, UploadState.isComplete]
    · cases h
  | mutation r =>
    simp only [confirmedNode] at h
    split at h
    · next hstate _ => simp [isComplete, hstate, MutationState.isComplete]
    · cases h

theorem follows.isComplete {op p : Operation} (h : op.follows p) : p.isComplete = true := by
  obtain ⟨_, n, hn, _⟩ := h
  exact isComplete_of_confirmedNode hn

theorem not_isComplete_of_inFlight {op : Operation} (h : op.inFlight = true) :
    op.isComplete = false := by
  cases op with
  | upload r =>
    cases hstate : r.state <;>
      simp_all [inFlight, isComplete, UploadState.inFlight, UploadState.isComplete]
  | mutation r =>
    cases hstate : r.state <;>
      simp_all [inFlight, isComplete, MutationState.inFlight, MutationState.isComplete]

theorem isUpload_of_begun {op : Operation} (h : op.begun = true) : op.isUpload = false := by
  cases op with
  | upload r => cases h
  | mutation r => rfl

theorem begun_of_inFlight {op : Operation} (hchange : op.isUpload = false)
    (h : op.inFlight = true) : op.begun = true := by
  cases op with
  | upload r => cases hchange
  | mutation r =>
    have hflight : r.state.inFlight = true := h
    simp [begun, hflight]

/-- A change that was begun is under way or over. -/
theorem inFlight_of_begun {op : Operation} (h : op.begun = true) :
    op.inFlight = true ∨ op.isComplete = true := by
  cases op with
  | upload r => cases h
  | mutation r =>
    rcases Bool.or_eq_true_iff.mp h with hflight | happlied
    · exact .inl hflight
    · right
      simp [isComplete, of_decide_eq_true happlied, MutationState.isComplete]

end Operation

/-! ## Rows -/

namespace Queue

/-- The redundancies of the tables. -/
structure Tidy (q : Queue) : Prop where
  upload : ∀ {id row}, q.uploads.get id = some row →
    row = ⟨row.body.sequence, row.body.state, row.body⟩ ∧ row.body.id = id
  mutation : ∀ {id row}, q.mutations.get id = some row →
    row = ⟨row.body.sequence, row.body.state, row.body⟩ ∧ row.body.id = id
  disjoint : ∀ {id row}, q.uploads.get id = some row → q.mutations.get id = none
  queue : ∀ id, q.writeQueue.get id = (q.find id).map (fun op => ⟨op.sequence, op.isComplete⟩)

variable {q q' : Queue} {id : Uuid}

theorem find_of_upload {row : UploadRow} (h : q.uploads.get id = some row) :
    q.find id = some (.upload row.body) := by
  unfold find
  rw [h]

theorem find_of_mutation {row : MutationRow} (hnone : q.uploads.get id = none)
    (h : q.mutations.get id = some row) : q.find id = some (.mutation row.body) := by
  unfold find
  rw [hnone, h]
  rfl

theorem find_eq_none (hnone : q.uploads.get id = none) (h : q.mutations.get id = none) :
    q.find id = none := by
  unfold find
  rw [hnone, h]
  rfl

theorem find_upload_iff (ht : q.Tidy) {r : UploadRecord} :
    q.find id = some (.upload r) ↔ q.uploads.get id = some ⟨r.sequence, r.state, r⟩ := by
  constructor
  · intro h
    unfold find at h
    cases hrow : q.uploads.get id with
    | none =>
      rw [hrow] at h
      cases hrow' : q.mutations.get id <;> rw [hrow'] at h <;> cases h
    | some row =>
      rw [hrow] at h
      cases h
      rw [← (ht.upload hrow).1]
  · intro h
    exact find_of_upload h

theorem find_mutation_iff (ht : q.Tidy) {r : MutationRecord} :
    q.find id = some (.mutation r) ↔ q.mutations.get id = some ⟨r.sequence, r.state, r⟩ := by
  constructor
  · intro h
    unfold find at h
    cases hrow : q.uploads.get id with
    | some row =>
      rw [hrow] at h
      cases h
    | none =>
      rw [hrow] at h
      cases hrow' : q.mutations.get id with
      | none =>
        rw [hrow'] at h
        cases h
      | some row =>
        rw [hrow'] at h
        cases h
        rw [← (ht.mutation hrow').1]
  · intro h
    cases hrow : q.uploads.get id with
    | some row =>
      rw [ht.disjoint hrow] at h
      cases h
    | none => exact find_of_mutation hrow h

theorem Tidy.id_of_find (ht : q.Tidy) {op : Operation} (h : q.find id = some op) : op.id = id := by
  cases op with
  | upload r => exact (ht.upload ((find_upload_iff ht).mp h)).2
  | mutation r => exact (ht.mutation ((find_mutation_iff ht).mp h)).2

theorem operation_ok {op : Operation} : q.operation id = .ok op ↔ q.find id = some op := by
  unfold operation
  cases q.find id <;> simp

theorem upload_ok (ht : q.Tidy) {r : UploadRecord} :
    q.upload id = .ok r ↔ q.find id = some (.upload r) := by
  rw [find_upload_iff ht]
  unfold upload
  cases hrow : q.uploads.get id with
  | none => simp
  | some row =>
    simp only [Except.ok.injEq, Option.some.injEq]
    constructor
    · rintro rfl
      exact (ht.upload hrow).1
    · rintro rfl
      rfl

theorem mutation_ok (ht : q.Tidy) {r : MutationRecord} :
    q.mutation id = .ok r ↔ q.find id = some (.mutation r) := by
  rw [find_mutation_iff ht]
  unfold mutation
  cases hrow : q.mutations.get id with
  | none => simp
  | some row =>
    simp only [Except.ok.injEq, Option.some.injEq]
    constructor
    · rintro rfl
      exact (ht.mutation hrow).1
    · rintro rfl
      rfl

theorem completed_iff (ht : q.Tidy) :
    q.completed id = true ↔ ∃ op, q.find id = some op ∧ op.isComplete = true := by
  unfold completed
  rw [ht.queue]
  cases q.find id <;> simp

theorem mem_resources {k : Resource} :
    k ∈ q.resources id ↔ (q.writeResources.get (id, k)).isSome = true := by
  unfold resources
  rw [Table.mem_select]
  constructor
  · rintro ⟨key, v, hget, hkey⟩
    split at hkey
    · next heq =>
      cases hkey
      rw [← heq, hget]
      rfl
    · cases hkey
  · intro h
    obtain ⟨v, hv⟩ := Option.isSome_iff_exists.mp h
    exact ⟨(id, k), v, hv, by simp⟩

/-! ## Evolution -/

/-- The queue after a function. `claimed` are the operations and tokens it hands out, `gained` the
    keys it adds to operations that were there before. -/
structure Evolves (claimed : Uuid → Uuid → Prop) (gained : Uuid → Resource → Prop)
    (q q' : Queue) : Prop where
  kept : ∀ id op, q.find id = some op → ∃ op', q'.find id = some op' ∧ op.Continues op'
  fresh : ∀ id op, q'.find id = some op → q.find id = none → q.lastSequence < op.sequence
  flight : ∀ id op, q'.find id = some op → op.inFlight = true →
    (∃ old, q.find id = some old ∧ old.inFlight = true ∧ op.attempt = old.attempt) ∨
      ∃ token, claimed id token ∧ op.attempt = some token
  begun : ∀ id op, q'.find id = some op → op.begun = true →
    (∃ old, q.find id = some old ∧ old.begun = true) ∨ ∃ token, claimed id token
  keys : ∀ id op k, q.find id = some op → k ∈ q'.resources id → k ∈ q.resources id ∨ gained id k
  held : ∀ id k, k ∈ q.resources id → k ∈ q'.resources id
  lastSequence : q.lastSequence ≤ q'.lastSequence
  prerequisites : ∀ a b, (q'.writePrerequisites.get (a, b)).isSome = true →
    ((q.writePrerequisites.get (a, b)).isSome = true ∧ (q.find a = none → q'.find a = none)) ∨
      ∃ x y, q'.find a = some x ∧ q'.find b = some y ∧ y.sequence < x.sequence

/-- No removal that waits for its readers has newly failed. -/
def Steady (q q' : Queue) : Prop :=
  ∀ id r, q'.find id = some (.mutation r) → r.localReady = false → r.state = .failed →
    ∃ old, q.find id = some (.mutation old) ∧ old.localReady = false ∧ old.state = .failed

theorem Steady.refl (q : Queue) : q.Steady q := fun _ r h hready hstate => ⟨r, h, hready, hstate⟩

theorem Steady.trans {q₁ : Queue} (h₁ : q.Steady q₁) (h₂ : q₁.Steady q') : q.Steady q' := by
  intro id r hr hready hstate
  obtain ⟨r₁, hr₁, hready₁, hstate₁⟩ := h₂ id r hr hready hstate
  exact h₁ id r₁ hr₁ hready₁ hstate₁

/-- Nothing is handed out, and no operation gets new keys. -/
abbrev Quiet : Queue → Queue → Prop := Evolves (fun _ _ => False) (fun _ _ => False)

variable {claimed claimed' : Uuid → Uuid → Prop} {gained gained' : Uuid → Resource → Prop}

theorem Evolves.refl (q : Queue) : q.Evolves claimed gained q where
  kept := fun _ op h => ⟨op, h, .refl op⟩
  fresh := fun id op h hnone => by rw [hnone] at h; cases h
  flight := fun _ op h hflight => .inl ⟨op, h, hflight, rfl⟩
  begun := fun _ op h hbegun => .inl ⟨op, h, hbegun⟩
  keys := fun _ _ _ _ hk => .inl hk
  held := fun _ _ hk => hk
  lastSequence := le_rfl
  prerequisites := fun _ _ h => .inl ⟨h, fun hnone => hnone⟩

theorem Evolves.trans {q₁ q₂ : Queue} (h₁ : q.Evolves claimed gained q₁)
    (h₂ : q₁.Evolves claimed gained q₂) : q.Evolves claimed gained q₂ where
  kept := by
    intro id op hop
    obtain ⟨op₁, hop₁, hcont₁⟩ := h₁.kept id op hop
    obtain ⟨op₂, hop₂, hcont₂⟩ := h₂.kept id op₁ hop₁
    exact ⟨op₂, hop₂, hcont₁.trans hcont₂⟩
  fresh := by
    intro id op hop hnone
    cases hmid : q₁.find id with
    | none =>
      have hlast := h₂.fresh id op hop hmid
      have hle := h₁.lastSequence
      omega
    | some op₁ =>
      have hlast := h₁.fresh id op₁ hmid hnone
      obtain ⟨op₂, hop₂, hcont⟩ := h₂.kept id op₁ hmid
      rw [hop] at hop₂
      cases hop₂
      rw [hcont.sequence]
      exact hlast
  flight := by
    intro id op hop hflight
    rcases h₂.flight id op hop hflight with ⟨old, hold, hinFlight, hattempt⟩ | hclaimed
    · rcases h₁.flight id old hold hinFlight with ⟨first, hfirst, hin, heq⟩ | ⟨token, htoken, heq⟩
      · exact .inl ⟨first, hfirst, hin, hattempt.trans heq⟩
      · exact .inr ⟨token, htoken, hattempt.trans heq⟩
    · exact .inr hclaimed
  begun := by
    intro id op hop hbegun
    rcases h₂.begun id op hop hbegun with ⟨old, hold, hwas⟩ | hclaimed
    · exact h₁.begun id old hold hwas
    · exact .inr hclaimed
  keys := by
    intro id op k hop hk
    obtain ⟨op₁, hop₁, _⟩ := h₁.kept id op hop
    rcases h₂.keys id op₁ k hop₁ hk with hmid | hgained
    · exact h₁.keys id op k hop hmid
    · exact .inr hgained
  held := fun id k hk => h₂.held id k (h₁.held id k hk)
  lastSequence := h₁.lastSequence.trans h₂.lastSequence
  prerequisites := by
    intro a b hrow
    rcases h₂.prerequisites a b hrow with ⟨hmid, habsent⟩ | hnew
    · rcases h₁.prerequisites a b hmid with ⟨hold, hnone⟩ | ⟨x, y, hx, hy, hlt⟩
      · exact .inl ⟨hold, fun h => habsent (hnone h)⟩
      · obtain ⟨x', hx', hcontx⟩ := h₂.kept a x hx
        obtain ⟨y', hy', hconty⟩ := h₂.kept b y hy
        exact .inr ⟨x', y', hx', hy', by rw [hcontx.sequence, hconty.sequence]; exact hlt⟩
    · exact .inr hnew

theorem Evolves.weaken (h : q.Evolves claimed gained q')
    (hclaimed : ∀ id token, claimed id token → claimed' id token)
    (hgained : ∀ id k, gained id k → gained' id k) : q.Evolves claimed' gained' q' where
  kept := h.kept
  fresh := h.fresh
  flight := by
    intro id op hop hflight
    rcases h.flight id op hop hflight with hold | ⟨token, htoken, heq⟩
    · exact .inl hold
    · exact .inr ⟨token, hclaimed id token htoken, heq⟩
  begun := by
    intro id op hop hbegun
    exact (h.begun id op hop hbegun).imp_right fun ⟨token, htoken⟩ =>
      ⟨token, hclaimed id token htoken⟩
  keys := by
    intro id op k hop hk
    rcases h.keys id op k hop hk with hold | hnew
    · exact .inl hold
    · exact .inr (hgained id k hnew)
  held := h.held
  lastSequence := h.lastSequence
  prerequisites := h.prerequisites

theorem Quiet.evolves (h : q.Quiet q') : q.Evolves claimed gained q' :=
  h.weaken (fun _ _ => False.elim) (fun _ _ => False.elim)

/-! ## One operation is stored again -/

/-- `new` takes the place of the operation with its identity, gets `keys`, and its destination is
    resolved if `bound`. -/
structure Revised (q q' : Queue) (new : Operation) (keys : List Resource) (bound : Bool) :
    Prop where
  tidy : q'.Tidy
  find : ∀ id, q'.find id = if id = new.id then some new else q.find id
  lastSequence : q'.lastSequence = q.lastSequence
  successors : q'.writeSuccessors = q.writeSuccessors
  prerequisites : q'.writePrerequisites = q.writePrerequisites
  resources : ∀ id k, (q'.writeResources.get (id, k)).isSome = true ↔
    (q.writeResources.get (id, k)).isSome = true ∨ (id = new.id ∧ k ∈ keys)
  destinations : ∀ id, q'.writeDestinations.get id =
    if bound = true ∧ id = new.id then
      (q.writeDestinations.get id).map (fun row => { row with resolved := true })
    else q.writeDestinations.get id

theorem Revised.find_self {new : Operation} {keys : List Resource} {bound : Bool}
    (h : q.Revised q' new keys bound) : q'.find new.id = some new := by
  rw [h.find, if_pos rfl]

theorem Revised.find_of_ne {new : Operation} {keys : List Resource} {bound : Bool}
    (h : q.Revised q' new keys bound) (hne : id ≠ new.id) : q'.find id = q.find id := by
  rw [h.find, if_neg hne]

/-- A destination that is not resolved was not resolved before. -/
theorem Revised.unresolved {new : Operation} {keys : List Resource} {bound : Bool}
    (h : q.Revised q' new keys bound) {row : DestinationRow}
    (hrow : q'.writeDestinations.get id = some row) (hunresolved : row.resolved = false) :
    q.writeDestinations.get id = some row := by
  rw [h.destinations] at hrow
  split at hrow
  · obtain ⟨old, _, rfl⟩ := Option.map_eq_some_iff.mp hrow
    cases hunresolved
  · exact hrow

/-- What storing an operation again does to the queue. -/
theorem Revised.evolves {old new : Operation} {keys : List Resource} {bound : Bool}
    (h : q.Revised q' new keys bound) (hold : q.find new.id = some old)
    (hcont : old.Continues new)
    (hflight : new.inFlight = true → (old.inFlight = true ∧ new.attempt = old.attempt) ∨
      ∃ token, claimed new.id token ∧ new.attempt = some token)
    (hbegun : new.begun = true → old.begun = true ∨ new.inFlight = true)
    (hgained : ∀ k ∈ keys, k ∈ q.resources new.id ∨ gained new.id k) :
    q.Evolves claimed gained q' where
  kept := by
    intro id op hop
    by_cases hid : id = new.id
    · subst hid
      rw [hold] at hop
      cases hop
      exact ⟨new, h.find_self, hcont⟩
    · exact ⟨op, by rw [h.find_of_ne hid, hop], .refl op⟩
  fresh := by
    intro id op hop hnone
    by_cases hid : id = new.id
    · subst hid
      rw [hold] at hnone
      cases hnone
    · rw [h.find_of_ne hid, hnone] at hop
      cases hop
  flight := by
    intro id op hop hin
    by_cases hid : id = new.id
    · subst hid
      rw [h.find_self] at hop
      cases hop
      rcases hflight hin with ⟨hoin, heq⟩ | hclaimed
      · exact .inl ⟨old, hold, hoin, heq⟩
      · exact .inr hclaimed
    · rw [h.find_of_ne hid] at hop
      exact .inl ⟨op, hop, hin, rfl⟩
  begun := by
    intro id op hop hwas
    by_cases hid : id = new.id
    · subst hid
      rw [h.find_self] at hop
      cases hop
      rcases hbegun hwas with hold' | hin
      · exact .inl ⟨old, hold, hold'⟩
      · rcases hflight hin with ⟨hoin, _⟩ | ⟨token, htoken, _⟩
        · -- A change in flight is begun, and only a change is begun.
          exact .inl ⟨old, hold, Operation.begun_of_inFlight
            (hcont.isUpload.symm.trans (Operation.isUpload_of_begun hwas)) hoin⟩
        · exact .inr ⟨token, htoken⟩
    · rw [h.find_of_ne hid] at hop
      exact .inl ⟨op, hop, hwas⟩
  keys := by
    intro id op k _ hk
    rw [mem_resources, h.resources] at hk
    rcases hk with hk | ⟨rfl, hk⟩
    · exact .inl (mem_resources.mpr hk)
    · exact hgained k hk
  held := by
    intro id k hk
    rw [mem_resources, h.resources]
    exact .inl (mem_resources.mp hk)
  lastSequence := h.lastSequence.ge
  prerequisites := by
    intro a b hrow
    rw [h.prerequisites] at hrow
    refine .inl ⟨hrow, ?_⟩
    intro hnone
    have hne : a ≠ new.id := by
      rintro rfl
      rw [hold] at hnone
      cases hnone
    rw [h.find_of_ne hne, hnone]

section Storing

variable {keys : List Resource} {bound : Bool}

/-- A revised queue has the same lineage, and only its own keys and destination are new. -/
structure Beside (q q' : Queue) (id : Uuid) (complete : Bool) (keys : List Resource)
    (bound : Bool) : Prop where
  queue : ∀ other, q'.writeQueue.get other =
    if other = id then (q.writeQueue.get id).map (fun row => { row with complete := complete })
    else q.writeQueue.get other
  lastSequence : q'.lastSequence = q.lastSequence
  successors : q'.writeSuccessors = q.writeSuccessors
  prerequisites : q'.writePrerequisites = q.writePrerequisites
  resources : ∀ other k, (q'.writeResources.get (other, k)).isSome = true ↔
    (q.writeResources.get (other, k)).isSome = true ∨ (other = id ∧ k ∈ keys)
  destinations : ∀ other, q'.writeDestinations.get other =
    if bound = true ∧ other = id then
      (q.writeDestinations.get other).map (fun row => { row with resolved := true })
    else q.writeDestinations.get other

theorem Revised.of_upload (ht : q.Tidy) {r old : UploadRecord}
    (hold : q.find r.id = some (.upload old)) (hsequence : r.sequence = old.sequence)
    (huploads : q'.uploads = q.uploads.set r.id ⟨r.sequence, r.state, r⟩)
    (hmutations : q'.mutations = q.mutations)
    (hbeside : q.Beside q' r.id r.state.isComplete keys bound) :
    q.Revised q' (.upload r) keys bound := by
  have hget := (find_upload_iff ht).mp hold
  have hfind : ∀ id, q'.find id = if id = r.id then some (.upload r) else q.find id := by
    intro id
    unfold Queue.find
    rw [huploads, hmutations, Table.get_set]
    by_cases hid : id = r.id
    · rw [if_pos hid, if_pos hid]
    · rw [if_neg hid, if_neg hid]
  have htidy : q'.Tidy := by
    constructor
    · intro id row hrow
      rw [huploads, Table.get_set] at hrow
      split at hrow
      · next hid =>
        cases hrow
        exact ⟨rfl, hid.symm⟩
      · exact ht.upload hrow
    · intro id row hrow
      rw [hmutations] at hrow
      exact ht.mutation hrow
    · intro id row hrow
      rw [hmutations]
      rw [huploads, Table.get_set] at hrow
      split at hrow
      · next hid =>
        rw [hid]
        exact ht.disjoint hget
      · exact ht.disjoint hrow
    · intro id
      rw [hbeside.queue, hfind, ht.queue, ht.queue, hold]
      split
      · simp only [Option.map_some, Operation.sequence, Operation.isComplete, hsequence]
      · rfl
  exact ⟨htidy, hfind, hbeside.lastSequence, hbeside.successors, hbeside.prerequisites,
    hbeside.resources, hbeside.destinations⟩

theorem Revised.of_mutation (ht : q.Tidy) {r old : MutationRecord}
    (hold : q.find r.id = some (.mutation old)) (hsequence : r.sequence = old.sequence)
    (huploads : q'.uploads = q.uploads)
    (hmutations : q'.mutations = q.mutations.set r.id ⟨r.sequence, r.state, r⟩)
    (hbeside : q.Beside q' r.id r.state.isComplete keys bound) :
    q.Revised q' (.mutation r) keys bound := by
  have hget := (find_mutation_iff ht).mp hold
  have hnone : q.uploads.get r.id = none := by
    cases hrow : q.uploads.get r.id with
    | none => rfl
    | some row =>
      rw [ht.disjoint hrow] at hget
      cases hget
  have hfind : ∀ id, q'.find id = if id = r.id then some (.mutation r) else q.find id := by
    intro id
    unfold Queue.find
    rw [huploads, hmutations, Table.get_set]
    by_cases hid : id = r.id
    · rw [if_pos hid, if_pos hid, hid, hnone]
      rfl
    · rw [if_neg hid, if_neg hid]
  have htidy : q'.Tidy := by
    constructor
    · intro id row hrow
      rw [huploads] at hrow
      exact ht.upload hrow
    · intro id row hrow
      rw [hmutations, Table.get_set] at hrow
      split at hrow
      · next hid =>
        cases hrow
        exact ⟨rfl, hid.symm⟩
      · exact ht.mutation hrow
    · intro id row hrow
      rw [huploads] at hrow
      have hne : id ≠ r.id := by
        rintro rfl
        rw [hnone] at hrow
        cases hrow
      rw [hmutations, Table.get_set_of_ne _ _ hne]
      exact ht.disjoint hrow
    · intro id
      rw [hbeside.queue, hfind, ht.queue, ht.queue, hold]
      split
      · simp only [Option.map_some, Operation.sequence, Operation.isComplete, hsequence]
      · rfl
  exact ⟨htidy, hfind, hbeside.lastSequence, hbeside.successors, hbeside.prerequisites,
    hbeside.resources, hbeside.destinations⟩

/-- Setting the flag of a queued operation. -/
theorem beside_of_queueComplete {q₁ : Queue} {complete : Bool}
    (h : q₁.queueComplete id complete = .ok q') (hqueue : q₁.writeQueue = q.writeQueue) (hlast : q₁.lastSequence = q.lastSequence)
    (hsuccessors : q₁.writeSuccessors = q.writeSuccessors)
    (hprerequisites : q₁.writePrerequisites = q.writePrerequisites)
    (hresources : q₁.writeResources = q.writeResources)
    (hdestinations : q₁.writeDestinations = q.writeDestinations) :
    q.Beside q' id complete [] false ∧ q'.uploads = q₁.uploads ∧ q'.mutations = q₁.mutations := by
  unfold queueComplete at h
  split at h
  · cases h
  · next row hrow =>
    cases h
    refine ⟨⟨?_, hlast, hsuccessors, hprerequisites, ?_, ?_⟩, rfl, rfl⟩
    · intro other
      rw [hqueue] at hrow
      simp only [hqueue, Table.get_set, hrow, Option.map_some]
    · intro other k
      simp [hresources]
    · intro other
      simp [hdestinations]

/-- `UploadJournal::save` stores the record in its row, in the body and in the queue. -/
theorem revised_of_updateUpload (ht : q.Tidy) {r old : UploadRecord} {q₁ : Queue}
    (hold : q.find r.id = some (.upload old)) (hsequence : r.sequence = old.sequence)
    (hstate : r.state ≠ .resolved) (hupdate : q.updateUpload r = .ok q₁)
    (hcomplete : q₁.queueComplete r.id (r.state = .uploaded) = .ok q') :
    q.Revised q' (.upload r) [] false := by
  have hget := (find_upload_iff ht).mp hold
  unfold updateUpload at hupdate
  rw [hget] at hupdate
  cases hupdate
  obtain ⟨hbeside, huploads, hmutations⟩ := beside_of_queueComplete (q := q) hcomplete rfl rfl
    rfl rfl rfl rfl
  have hflag : decide (r.state = .uploaded) = r.state.isComplete := by
    cases hcase : r.state <;> simp_all [UploadState.isComplete]
  rw [hflag] at hbeside
  refine .of_upload ht hold hsequence ?_ hmutations hbeside
  rw [huploads, hsequence]

theorem revised_of_updateMutation (ht : q.Tidy) {r old : MutationRecord} {q₁ : Queue}
    (hold : q.find r.id = some (.mutation old)) (hsequence : r.sequence = old.sequence)
    (hstate : r.state ≠ .resolved) (hupdate : q.updateMutation r = .ok q₁)
    (hcomplete : q₁.queueComplete r.id (r.state = .applied) = .ok q') :
    q.Revised q' (.mutation r) [] false := by
  have hget := (find_mutation_iff ht).mp hold
  unfold updateMutation at hupdate
  rw [hget] at hupdate
  cases hupdate
  obtain ⟨hbeside, huploads, hmutations⟩ := beside_of_queueComplete (q := q) hcomplete rfl rfl
    rfl rfl rfl rfl
  have hflag : decide (r.state = .applied) = r.state.isComplete := by
    cases hcase : r.state <;> simp_all [MutationState.isComplete]
  rw [hflag] at hbeside
  refine .of_mutation ht hold hsequence huploads ?_ hbeside
  rw [hmutations, hsequence]

/-- Adding keys to an operation whose flag stays as it is. -/
theorem beside_of_addResources (ht : q.Tidy) {op : Operation} (hop : q.find id = some op)
    (hqueue : q'.writeQueue = q.writeQueue) (hlast : q'.lastSequence = q.lastSequence)
    (hsuccessors : q'.writeSuccessors = q.writeSuccessors)
    (hprerequisites : q'.writePrerequisites = q.writePrerequisites)
    (hresources : q'.writeResources = (q.addResources id keys).writeResources)
    (hdestinations : ∀ other, q'.writeDestinations.get other =
      if bound = true ∧ other = id then
        (q.writeDestinations.get other).map (fun row => { row with resolved := true })
      else q.writeDestinations.get other) :
    q.Beside q' id op.isComplete keys bound := by
  refine ⟨?_, hlast, hsuccessors, hprerequisites, ?_, hdestinations⟩
  · intro other
    rw [hqueue]
    split
    · next hother => rw [hother, ht.queue, hop, Option.map_some, Option.map_some]
    · rfl
  · intro other k
    rw [hresources]
    simp only [addResources, Table.get_setAll, List.mem_map, Prod.mk.injEq]
    split
    · next hmem =>
      obtain ⟨k', hk', rfl, rfl⟩ := hmem
      simp [hk']
    · next hmem =>
      constructor
      · exact .inl
      · rintro (hold | ⟨rfl, hk⟩)
        · exact hold
        · exact absurd ⟨k, hk, rfl, rfl⟩ hmem

/-- A base is bound in the body of an upload. -/
theorem revised_of_updateUploadBody (ht : q.Tidy) {r old : UploadRecord}
    (hold : q.find r.id = some (.upload old)) (hsequence : r.sequence = old.sequence)
    (hstate : r.state = old.state) :
    q.Revised ((q.addResources r.id keys).updateUploadBody r) (.upload r) keys false := by
  have hget := (find_upload_iff ht).mp hold
  have hbody : (q.addResources r.id keys).updateUploadBody r =
      { q.addResources r.id keys with
        uploads := q.uploads.set r.id ⟨r.sequence, r.state, r⟩ } := by
    unfold updateUploadBody
    simp only [addResources, hget, hsequence, hstate]
  rw [hbody]
  refine .of_upload ht hold hsequence rfl rfl ?_
  rw [hstate]
  exact beside_of_addResources ht hold rfl rfl rfl rfl rfl (fun other => by simp [addResources])

theorem revised_of_updateMutationBody (ht : q.Tidy) {r old : MutationRecord}
    (hold : q.find r.id = some (.mutation old)) (hsequence : r.sequence = old.sequence)
    (hstate : r.state = old.state) :
    q.Revised ((q.addResources r.id keys).updateMutationBody r) (.mutation r) keys false := by
  have hget := (find_mutation_iff ht).mp hold
  have hbody : (q.addResources r.id keys).updateMutationBody r =
      { q.addResources r.id keys with
        mutations := q.mutations.set r.id ⟨r.sequence, r.state, r⟩ } := by
    unfold updateMutationBody
    simp only [addResources, hget, hsequence, hstate]
  rw [hbody]
  refine .of_mutation ht hold hsequence rfl rfl ?_
  rw [hstate]
  exact beside_of_addResources ht hold rfl rfl rfl rfl rfl (fun other => by simp [addResources])

/-- The row of a destination that is resolved. -/
theorem get_resolvedDestination {q₁ : Queue} {row : DestinationRow}
    (hrow : q.writeDestinations.get id = some row)
    (hdestinations : q₁.writeDestinations = q.writeDestinations) (other : Uuid) :
    (UploadJournal.resolvedDestination q₁ id row).writeDestinations.get other =
      if true = true ∧ other = id then
        (q.writeDestinations.get other).map (fun row => { row with resolved := true })
      else q.writeDestinations.get other := by
  simp only [UploadJournal.resolvedDestination, hdestinations, Table.get_set, true_and]
  split
  · next hother => rw [hother, hrow, Option.map_some]
  · rfl

/-- A destination is bound in the body of an upload, which may fail. -/
theorem revised_of_boundUpload (ht : q.Tidy) {r old : UploadRecord} {q₁ : Queue}
    {row : DestinationRow} (hold : q.find r.id = some (.upload old))
    (hsequence : r.sequence = old.sequence)
    (hcomplete : r.state.isComplete = old.state.isComplete)
    (hrow : q.writeDestinations.get r.id = some row)
    (h : (q.addResources r.id keys).updateUpload r = .ok q₁) :
    q.Revised (UploadJournal.resolvedDestination q₁ r.id row) (.upload r) keys true := by
  have hget := (find_upload_iff ht).mp hold
  unfold updateUpload at h
  simp only [addResources, hget] at h
  cases h
  refine .of_upload ht hold hsequence ?_ rfl ?_
  · rw [hsequence]
    rfl
  · rw [hcomplete]
    exact beside_of_addResources ht hold rfl rfl rfl rfl rfl (get_resolvedDestination hrow rfl)

theorem revised_of_boundMutation (ht : q.Tidy) {r old : MutationRecord} {q₁ : Queue}
    {row : DestinationRow} (hold : q.find r.id = some (.mutation old))
    (hsequence : r.sequence = old.sequence)
    (hcomplete : r.state.isComplete = old.state.isComplete)
    (hrow : q.writeDestinations.get r.id = some row)
    (h : (q.addResources r.id keys).updateMutation r = .ok q₁) :
    q.Revised (UploadJournal.resolvedDestination q₁ r.id row) (.mutation r) keys true := by
  have hget := (find_mutation_iff ht).mp hold
  unfold updateMutation at h
  simp only [addResources, hget] at h
  cases h
  refine .of_mutation ht hold hsequence rfl ?_ ?_
  · rw [hsequence]
    rfl
  · rw [hcomplete]
    exact beside_of_addResources ht hold rfl rfl rfl rfl rfl (get_resolvedDestination hrow rfl)

end Storing

/-! ## One operation is new -/

/-- What the destination of a new operation is bound to. -/
structure BoundTo (q : Queue) (folder : NamespaceObject) (op : Operation) (row : DestinationRow) :
    Prop where
  row : row = ⟨folder.id, folder.latest, false⟩
  kind : folder.node.kind = .folder
  linked : folder.unlinked = false
  predecessor : ∀ p, folder.latest = some p →
    ∃ x, q.find p = some x ∧ x.sequence < op.sequence
  remote : folder.latest = none → folder.remote.isSome = true

/-- `op` is added with its keys, lineage, prerequisites and destination. -/
structure Admitted (q q' : Queue) (names : Namespace) (op : Operation) (keys : List Resource)
    (destination : Option String) (prerequisites : List Uuid) : Prop where
  tidy : q'.Tidy
  sequence : op.sequence = q.lastSequence + 1
  lastSequence : q'.lastSequence = q.lastSequence + 1
  absent : q.find op.id = none
  find : ∀ id, q'.find id = if id = op.id then some op else q.find id
  base : ∀ b, op.base = some b → b.resolved = false ∧ q.writeSuccessors.get b.predecessor = none ∧
    ∃ p, q.find b.predecessor = some p ∧ p.sequence < op.sequence
  successors : ∀ p, q'.writeSuccessors.get p =
    if op.base.map WriteBase.predecessor = some p then some op.id else q.writeSuccessors.get p
  earlier : ∀ p ∈ prerequisites, ∃ x, q.find p = some x ∧ x.sequence < op.sequence
  prerequisites : ∀ a b, (q'.writePrerequisites.get (a, b)).isSome = true ↔
    (q.writePrerequisites.get (a, b)).isSome = true ∨ (a = op.id ∧ b ∈ prerequisites)
  resources : ∀ id k, (q'.writeResources.get (id, k)).isSome = true ↔
    (q.writeResources.get (id, k)).isSome = true ∨ (id = op.id ∧ k ∈ keys)
  destinations : ∀ id, id ≠ op.id → q'.writeDestinations.get id = q.writeDestinations.get id
  destination : match destination.bind (names.byLocal op.scope) with
    | none => q'.writeDestinations.get op.id = q.writeDestinations.get op.id
    | some folder => ∃ row, q'.writeDestinations.get op.id = some row ∧ q.BoundTo folder op row

/-- Nothing in the queue names the operation. -/
structure Absent (q : Queue) (id : Uuid) : Prop where
  uploads : q.uploads.get id = none
  mutations : q.mutations.get id = none
  successors : ∀ other, q.writeSuccessors.get other ≠ some id
  prerequisites : ∀ other, q.writePrerequisites.get (id, other) = none
  destinations : q.writeDestinations.get id = none

theorem Absent.find (h : q.Absent id) : q.find id = none := find_eq_none h.uploads h.mutations

/-- Storing an operation again makes no other one known. -/
theorem Revised.absent {old new : Operation} {keys : List Resource} {bound : Bool}
    (h : q.Revised q' new keys bound) (hstored : q.find new.id = some old) (habsent : q.Absent id) :
    q'.Absent id := by
  have hne : id ≠ new.id := by
    rintro rfl
    rw [habsent.find] at hstored
    cases hstored
  have hfind : q'.find id = none := by rw [h.find, if_neg hne, habsent.find]
  unfold Queue.find at hfind
  cases hupload : q'.uploads.get id with
  | some row =>
    rw [hupload] at hfind
    cases hfind
  | none =>
    rw [hupload, Option.map_eq_none_iff] at hfind
    refine ⟨hupload, hfind, by rw [h.successors]; exact habsent.successors,
      by rw [h.prerequisites]; exact habsent.prerequisites, ?_⟩
    rw [h.destinations, if_neg (fun hboth => hne hboth.2)]
    exact habsent.destinations

/-- The operation is not known, and it gets the next number. -/
structure Unqueued (q : Queue) (op : Operation) : Prop where
  uploads : q.uploads.get op.id = none
  mutations : q.mutations.get op.id = none
  sequence : op.sequence = q.nextSequence

theorem Unqueued.find {op : Operation} (h : q.Unqueued op) : q.find op.id = none :=
  find_eq_none h.uploads h.mutations

/-- The queue while a new operation is being added: only `write_queue` knows it. -/
structure Entering (q q₁ : Queue) (op : Operation) : Prop where
  uploads : q₁.uploads = q.uploads
  mutations : q₁.mutations = q.mutations
  queue : q₁.writeQueue = q.writeQueue.set op.id ⟨q.nextSequence, false⟩
  lastSequence : q₁.lastSequence = q.nextSequence

/-- Earlier operations are those of the old queue. -/
theorem Entering.precedes {q₁ : Queue} {op : Operation} (h : q.Entering q₁ op) (ht : q.Tidy)
    (hop : q.Unqueued op) {p : Uuid} (hp : q₁.precedes p op.sequence = true) :
    ∃ x, q.find p = some x ∧ x.sequence < op.sequence := by
  unfold Queue.precedes at hp
  rw [h.queue, Table.get_set] at hp
  split at hp
  · simp [hop.sequence] at hp
  · rw [ht.queue] at hp
    cases hfind : q.find p with
    | none => simp [hfind] at hp
    | some x =>
      simp [hfind] at hp
      exact ⟨x, rfl, hp.2⟩

theorem bind_spec {q₁ q₂ : Queue} {names : Namespace} {op : Operation} {parent : String}
    (ht : q.Tidy) (hop : q.Unqueued op) (hentering : q.Entering q₁ op)
    (h : q₁.bind names op.id op.sequence op.scope parent = .ok q₂) :
    ∃ destinations, q₂ = { q₁ with writeDestinations := destinations } ∧
      (∀ id, id ≠ op.id → destinations.get id = q₁.writeDestinations.get id) ∧
      match names.byLocal op.scope parent with
      | none => destinations.get op.id = q₁.writeDestinations.get op.id
      | some folder => ∃ row, destinations.get op.id = some row ∧ q.BoundTo folder op row := by
  unfold Queue.bind at h
  cases hfolder : names.byLocal op.scope parent with
  | none =>
    rw [hfolder] at h
    cases h
    exact ⟨q₁.writeDestinations, rfl, fun _ _ => rfl, rfl⟩
  | some folder =>
    rw [hfolder] at h
    obtain ⟨_, hcheck, h⟩ := bind_eq_ok h
    rw [check_eq_ok] at hcheck
    simp only [Bool.and_eq_true, decide_eq_true_eq, Bool.not_eq_true'] at hcheck
    have hguard : (∀ p, folder.latest = some p → q₁.precedes p op.sequence = true) ∧
        (folder.latest = none → folder.remote.isSome = true) ∧
        q₂ = { q₁ with writeDestinations :=
          q₁.writeDestinations.set op.id ⟨folder.id, folder.latest, false⟩ } := by
      cases hlatest : folder.latest with
      | none =>
        simp only [hlatest] at h
        obtain ⟨_, hremote, h⟩ := bind_eq_ok h
        cases h
        exact ⟨(fun p hp => by cases hp), fun _ => check_eq_ok.mp hremote, rfl⟩
      | some predecessor =>
        simp only [hlatest] at h
        obtain ⟨_, hprecedes, h⟩ := bind_eq_ok h
        cases h
        refine ⟨?_, (fun hnone => by cases hnone), rfl⟩
        intro p hp
        cases hp
        exact check_eq_ok.mp hprecedes
    obtain ⟨hprecedes, hremote, rfl⟩ := hguard
    refine ⟨_, rfl, fun id hid => Table.get_set_of_ne _ _ hid, ?_⟩
    refine ⟨_, Table.get_set_self _ _ _, rfl, hcheck.1.1, hcheck.1.2, ?_, hremote⟩
    intro p hp
    exact hentering.precedes ht hop (hprecedes p hp)

theorem insertDependency_spec {q₁ q₂ : Queue} {op : Operation} (ht : q.Tidy)
    (hop : q.Unqueued op) (h : q₁.insertDependency op.id op.sequence op.base = .ok q₂)
    (hentering : q.Entering q₁ op) (hsuccessors : q₁.writeSuccessors = q.writeSuccessors) :
    ∃ successors, q₂ = { q₁ with writeSuccessors := successors } ∧
      (∀ b, op.base = some b → b.resolved = false ∧ q.writeSuccessors.get b.predecessor = none ∧
        ∃ p, q.find b.predecessor = some p ∧ p.sequence < op.sequence) ∧
      ∀ p, successors.get p =
        if op.base.map WriteBase.predecessor = some p then some op.id
        else q.writeSuccessors.get p := by
  cases hbase : op.base with
  | none =>
    rw [hbase] at h
    cases h
    refine ⟨q₁.writeSuccessors, rfl, (fun b hb => by cases hb), ?_⟩
    intro p
    simp [hsuccessors]
  | some b =>
    rw [hbase] at h
    obtain ⟨_, hcheck, h⟩ := bind_eq_ok h
    obtain ⟨_, hfree, h⟩ := bind_eq_ok h
    cases h
    rw [check_eq_ok, Bool.and_eq_true, Bool.not_eq_true'] at hcheck
    rw [check_eq_ok, Bool.and_eq_true, Option.isNone_iff_eq_none] at hfree
    refine ⟨_, rfl, ?_, ?_⟩
    · intro b' hb'
      cases hb'
      exact ⟨hcheck.1, hsuccessors ▸ hfree.1, hentering.precedes ht hop hcheck.2⟩
    · intro p
      rw [Table.get_set, hsuccessors]
      simp only [Option.map_some, Option.some.injEq, eq_comm]

theorem insertEach_spec {q₁ q₂ : Queue} {op : Operation} {rest : List Uuid} (ht : q.Tidy)
    (hop : q.Unqueued op) (h : q₁.insertEach op.id op.sequence rest = .ok q₂)
    (hentering : q.Entering q₁ op) :
    ∃ rows, q₂ = { q₁ with writePrerequisites := rows } ∧
      (∀ p ∈ rest, ∃ x, q.find p = some x ∧ x.sequence < op.sequence) ∧
      ∀ a b, (rows.get (a, b)).isSome = true ↔
        (q₁.writePrerequisites.get (a, b)).isSome = true ∨ (a = op.id ∧ b ∈ rest) := by
  induction rest generalizing q₁ with
  | nil =>
    obtain rfl : q₁ = q₂ := by injection h
    refine ⟨q₁.writePrerequisites, rfl, fun p hp => absurd hp List.not_mem_nil, ?_⟩
    intro a b
    simp
  | cons p rest ih =>
    obtain ⟨_, hcheck, h⟩ := bind_eq_ok h
    have hentering' : q.Entering { q₁ with
        writePrerequisites := q₁.writePrerequisites.set (op.id, p) () } op :=
      ⟨hentering.uploads, hentering.mutations, hentering.queue, hentering.lastSequence⟩
    obtain ⟨rows, rfl, hearlier, hrows⟩ := ih h hentering'
    refine ⟨rows, rfl, ?_, ?_⟩
    · intro p' hp'
      rcases List.mem_cons.mp hp' with rfl | hrest
      · exact hentering.precedes ht hop (check_eq_ok.mp hcheck)
      · exact hearlier p' hrest
    · intro a b
      rw [hrows, Table.get_set]
      by_cases hkey : (a, b) = (op.id, p)
      · cases hkey
        simp
      · rw [if_neg hkey]
        have hne : ¬ (a = op.id ∧ b = p) := fun heq => hkey (by rw [heq.1, heq.2])
        simp only [List.mem_cons]
        tauto

/-- Storing the record completes the admission. -/
theorem tidy_put {q₁ : Queue} {op : Operation} (ht : q.Tidy) (hop : q.Unqueued op)
    (hincomplete : op.isComplete = false) (hentering : q.Entering q₁ op) :
    (q₁.put op).Tidy ∧ ∀ id, (q₁.put op).find id = if id = op.id then some op else q.find id := by
  have hfind : ∀ id, (q₁.put op).find id = if id = op.id then some op else q.find id := by
    intro id
    cases op with
    | upload r =>
      simp only [Queue.find, put, hentering.uploads, hentering.mutations, Table.get_set,
        Operation.id]
      by_cases hid : id = r.id
      · simp [hid]
      · simp [hid]
    | mutation r =>
      have hnone : q.uploads.get r.id = none := hop.uploads
      simp only [Queue.find, put, hentering.uploads, hentering.mutations, Table.get_set,
        Operation.id]
      by_cases hid : id = r.id
      · simp [hid, hnone]
      · simp [hid]
  refine ⟨⟨?_, ?_, ?_, ?_⟩, hfind⟩
  · intro id row hrow
    cases op with
    | upload r =>
      simp only [put, hentering.uploads, Table.get_set] at hrow
      split at hrow
      · next hid =>
        cases hrow
        exact ⟨rfl, hid.symm⟩
      · exact ht.upload hrow
    | mutation r =>
      simp only [put, hentering.uploads] at hrow
      exact ht.upload hrow
  · intro id row hrow
    cases op with
    | upload r =>
      simp only [put, hentering.mutations] at hrow
      exact ht.mutation hrow
    | mutation r =>
      simp only [put, hentering.mutations, Table.get_set] at hrow
      split at hrow
      · next hid =>
        cases hrow
        exact ⟨rfl, hid.symm⟩
      · exact ht.mutation hrow
  · intro id row hrow
    cases op with
    | upload r =>
      simp only [put, hentering.uploads, Table.get_set] at hrow
      simp only [put, hentering.mutations]
      split at hrow
      · next hid =>
        rw [hid]
        exact hop.mutations
      · exact ht.disjoint hrow
    | mutation r =>
      simp only [put, hentering.uploads] at hrow
      have hne : id ≠ r.id := by
        rintro rfl
        have hnone : q.uploads.get r.id = none := hop.uploads
        rw [hnone] at hrow
        cases hrow
      simp only [put, hentering.mutations, Table.get_set_of_ne _ _ hne]
      exact ht.disjoint hrow
  · intro id
    have hqueue : (q₁.put op).writeQueue = q₁.writeQueue := by cases op <;> rfl
    rw [hqueue, hentering.queue, hfind, Table.get_set, ht.queue]
    split
    · simp [hop.sequence, hincomplete]
    · rfl

theorem put_tables (q : Queue) (op : Operation) :
    (q.put op).lastSequence = q.lastSequence ∧
      (q.put op).writeSuccessors = q.writeSuccessors ∧
      (q.put op).writePrerequisites = q.writePrerequisites ∧
      (q.put op).writeResources = q.writeResources ∧
      (q.put op).writeDestinations = q.writeDestinations := by
  cases op <;> exact ⟨rfl, rfl, rfl, rfl, rfl⟩

/-- `admitOperation` adds the operation and nothing else. -/
theorem admit_spec {names : Namespace} {op : Operation} {keys : List Resource}
    {destination : Option String} {prerequisites : List Uuid} (ht : q.Tidy)
    (hop : q.Unqueued op) (hincomplete : op.isComplete = false)
    (h : q.admitOperation names op keys destination prerequisites = .ok q') :
    q.Admitted q' names op keys destination prerequisites := by
  unfold admitOperation at h
  have hparts : ∃ q₂, (destination.elim (Except.ok (q.queueInsert op.id keys)) fun parent =>
      (q.queueInsert op.id keys).bind names op.id op.sequence op.scope parent) = .ok q₂ ∧
      (do
        let q ← q₂.insertDependency op.id op.sequence op.base
        let q ← q.insertBarriers op.id op.sequence op.scope prerequisites
        return q.put op) = .ok q' := by
    cases destination with
    | none => exact ⟨_, rfl, h⟩
    | some parent => exact bind_eq_ok h
  obtain ⟨q₂, hbind, h⟩ := hparts
  obtain ⟨q₃, hdependency, h⟩ := bind_eq_ok h
  obtain ⟨q₄, hbarriers, h⟩ := bind_eq_ok h
  cases h
  have hentering : q.Entering (q.queueInsert op.id keys) op := ⟨rfl, rfl, rfl, rfl⟩
  -- The destination is the only thing that depends on the names.
  have hdestination : ∃ destinations,
      q₂ = { q.queueInsert op.id keys with writeDestinations := destinations } ∧
      (∀ id, id ≠ op.id → destinations.get id = q.writeDestinations.get id) ∧
      match destination.bind (names.byLocal op.scope) with
      | none => destinations.get op.id = q.writeDestinations.get op.id
      | some folder => ∃ row, destinations.get op.id = some row ∧ q.BoundTo folder op row := by
    cases destination with
    | none =>
      cases hbind
      exact ⟨q.writeDestinations, rfl, fun _ _ => rfl, rfl⟩
    | some parent => exact bind_spec ht hop hentering hbind
  obtain ⟨destinations, rfl, hothers, hrow⟩ := hdestination
  obtain ⟨successors, rfl, hbase, hsuccessors⟩ := insertDependency_spec ht hop hdependency
    ⟨rfl, rfl, rfl, rfl⟩ rfl
  obtain ⟨_, _, hinsert⟩ := bind_eq_ok hbarriers
  obtain ⟨rows, rfl, hearlier, hrows⟩ := insertEach_spec ht hop hinsert ⟨rfl, rfl, rfl, rfl⟩
  have hlast : q.Entering { q.queueInsert op.id keys with
      writeDestinations := destinations
      writeSuccessors := successors
      writePrerequisites := rows } op := ⟨rfl, rfl, rfl, rfl⟩
  have hput := put_tables { q.queueInsert op.id keys with
    writeDestinations := destinations
    writeSuccessors := successors
    writePrerequisites := rows } op
  obtain ⟨htidy, hfind⟩ := tidy_put ht hop hincomplete hlast
  refine ⟨htidy, hop.sequence, hput.1, hop.find, hfind, hbase, ?_, hearlier, ?_, ?_, ?_, ?_⟩
  · intro p
    rw [hput.2.1]
    exact hsuccessors p
  · intro a b
    rw [hput.2.2.1]
    exact hrows a b
  · intro id k
    rw [hput.2.2.2.1]
    simp only [queueInsert, Table.get_setAll, List.mem_map, Prod.mk.injEq]
    split
    · next hmem =>
      obtain ⟨k', hk', rfl, rfl⟩ := hmem
      simp [hk']
    · next hmem =>
      constructor
      · exact .inl
      · rintro (hold | ⟨rfl, hk⟩)
        · exact hold
        · exact absurd ⟨k, hk, rfl, rfl⟩ hmem
  · intro id hid
    rw [hput.2.2.2.2]
    exact hothers id hid
  · rw [hput.2.2.2.2]
    exact hrow

theorem Admitted.evolves {names : Namespace} {op : Operation} {keys : List Resource}
    {destination : Option String} {prerequisites : List Uuid}
    (h : q.Admitted q' names op keys destination prerequisites)
    (hflight : op.inFlight = false) (hincomplete : op.isComplete = false)
    (habsent : ∀ other, q.writePrerequisites.get (op.id, other) = none) : q.Quiet q' where
  kept := by
    intro id old hold
    have hne : id ≠ op.id := by
      rintro rfl
      rw [h.absent] at hold
      cases hold
    exact ⟨old, by rw [h.find, if_neg hne, hold], .refl old⟩
  fresh := by
    intro id new hnew hnone
    rw [h.find] at hnew
    split at hnew
    · cases hnew
      rw [h.sequence]
      exact Nat.lt_succ_self _
    · rw [hnone] at hnew
      cases hnew
  flight := by
    intro id new hnew hin
    rw [h.find] at hnew
    split at hnew
    · cases hnew
      rw [hflight] at hin
      cases hin
    · exact .inl ⟨new, hnew, hin, rfl⟩
  begun := by
    intro id new hnew hbegun
    rw [h.find] at hnew
    split at hnew
    · cases hnew
      rcases Operation.inFlight_of_begun hbegun with hin | hcomplete
      · rw [hflight] at hin
        cases hin
      · rw [hincomplete] at hcomplete
        cases hcomplete
    · exact .inl ⟨new, hnew, hbegun⟩
  keys := by
    intro id old k hold hk
    rw [mem_resources, h.resources] at hk
    rcases hk with hk | ⟨rfl, _⟩
    · exact .inl (mem_resources.mpr hk)
    · rw [h.absent] at hold
      cases hold
  held := by
    intro id k hk
    rw [mem_resources, h.resources]
    exact .inl (mem_resources.mp hk)
  lastSequence := by
    rw [h.lastSequence]
    exact Nat.le_succ _
  prerequisites := by
    intro a b hrow
    rw [h.prerequisites] at hrow
    rcases hrow with hold | ⟨rfl, hb⟩
    · refine .inl ⟨hold, ?_⟩
      intro hnone
      have hne : a ≠ op.id := by
        rintro rfl
        rw [habsent b] at hold
        cases hold
      rw [h.find, if_neg hne, hnone]
    · obtain ⟨x, hx, hlt⟩ := h.earlier b hb
      have hne : b ≠ op.id := by
        rintro rfl
        rw [h.absent] at hx
        cases hx
      refine .inr ⟨op, x, ?_, ?_, hlt⟩
      · rw [h.find, if_pos rfl]
      · rw [h.find, if_neg hne, hx]

end Queue

end Cirrove.Journal
