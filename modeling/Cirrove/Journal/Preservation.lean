import Cirrove.Journal.Invariant

/-!
# The invariant is kept

One lemma for each kind of change the transactions are made of: an operation is stored again
(`Inv.revise`), a new one is admitted (`Inv.admitted`), an object is stored (`Inv.saveObject`), a
working file is written or retired, a replacement is recorded, and the owner of a finished
operation is forgotten. The transactions themselves are in the modules after this one.
-/

namespace Cirrove.Journal

open Cirrove.Library

variable {ok : String → Prop} {underway : List Uuid} {j j' : UploadJournal}

/-! ## Storing an operation again -/

/-- What a function must know to store `new` in the place of `old`. -/
structure Revises (ok : String → Prop) (j : UploadJournal) (old new : Operation)
    (keys : List Resource) (bound : Bool) : Prop where
  stored : j.queue.find new.id = some old
  incomplete : old.isComplete = false
  continues : old.Continues new
  attempt : new.attempt.isSome = true ↔ new.inFlight = true
  wellFormed : new.WellFormed ok
  lineage : ∀ b, new.base = some b → b.resolved = true →
    ∃ p, j.queue.find b.predecessor = some p ∧ new.follows p
  settled : new.isComplete = false → new.waiting = false →
    baseBound new.base = true ∧ (bound = true ∨ j.queue.destinationReady new.id = true)
  failed : new.failed = true → baseBound new.base = true →
    bound = true ∨ j.queue.destinationReady new.id = true
  keys : ∀ k ∈ new.keys j.settings.lowercase, k ∈ keys ∨ k ∈ j.queue.resources new.id ∨
    j.queue.BaseReveals j.settings.lowercase new k
  parent : ∀ parent, new.destination = some parent →
    ok parent ∨ (bound = false ∧ old.destination = some parent)
  held : ∀ r, new = .mutation r → r.localReady = false →
    r.state = .pending ∨ (r.state = .failed ∧ baseBound r.base = false)
  ready : new.inFlight = true ∨ new.isComplete = true → j.locallyReady new.id = true
  begun : new.begun = true → old.begun = true ∨ new.inFlight = true

section Revise

variable {q' : Queue} {old new : Operation} {keys : List Resource} {bound : Bool}

theorem Revises.keeps (h : Revises ok j old new keys bound)
    (hrevised : j.queue.Revised q' new keys bound) : j.queue.Keeps q' := by
  intro id op hop
  by_cases hid : id = new.id
  · subst hid
    rw [h.stored] at hop
    cases hop
    exact ⟨new, hrevised.find_self, h.continues⟩
  · exact ⟨op, by rw [hrevised.find_of_ne hid, hop], .refl op⟩

theorem Revised.ready_of_ne {q q' : Queue} (h : q.Revised q' new keys bound) {id : Uuid}
    (hne : id ≠ new.id) : q'.destinationReady id = q.destinationReady id := by
  unfold Queue.destinationReady
  rw [h.destinations, if_neg (fun hboth => hne hboth.2)]

theorem Revised.ready_self {q q' : Queue} (h : q.Revised q' new keys bound)
    (hready : bound = true ∨ q.destinationReady new.id = true) :
    q'.destinationReady new.id = true := by
  unfold Queue.destinationReady at *
  rw [h.destinations]
  cases bound with
  | true =>
    rw [if_pos ⟨rfl, rfl⟩]
    cases q.writeDestinations.get new.id <;> simp
  | false =>
    rw [if_neg (fun hboth => by cases hboth.1)]
    exact hready.resolve_left (by decide)

/-- The lineage of the others does not look at what the stored operation says. -/
theorem Revises.sound (h : Revises ok j old new keys bound)
    (hrevised : j.queue.Revised q' new keys bound) (hsound : j.queue.Sound ok) :
    q'.Sound ok := by
  -- Every operation of the new queue is the new one or an old one.
  have hcases : ∀ {id op}, q'.find id = some op →
      (id = new.id ∧ op = new) ∨ (id ≠ new.id ∧ j.queue.find id = some op) := by
    intro id op hop
    by_cases hid : id = new.id
    · subst hid
      rw [hrevised.find_self] at hop
      cases hop
      exact .inl ⟨rfl, rfl⟩
    · rw [hrevised.find_of_ne hid] at hop
      exact .inr ⟨hid, hop⟩
  refine ⟨hrevised.tidy, ?_, ?_, ?_, ?_, ?_, ?_, ?_, ?_⟩
  · intro id op hop
    rcases hcases hop with ⟨_, rfl⟩ | ⟨_, hop⟩
    · exact h.attempt
    · exact hsound.attempt hop
  · intro id op hop
    rw [hrevised.lastSequence]
    rcases hcases hop with ⟨_, rfl⟩ | ⟨_, hop⟩
    · rw [h.continues.sequence]
      exact hsound.sequence h.stored
    · exact hsound.sequence hop
  · intro a b x y hx hy heq
    rcases hcases hx with ⟨rfl, rfl⟩ | ⟨_, hx⟩ <;> rcases hcases hy with ⟨rfl, rfl⟩ | ⟨_, hy⟩
    · rfl
    · exact hsound.unique h.stored hy (by rw [← h.continues.sequence]; exact heq)
    · exact hsound.unique hx h.stored (by rw [← h.continues.sequence]; exact heq)
    · exact hsound.unique hx hy heq
  · intro id op hop
    rcases hcases hop with ⟨_, rfl⟩ | ⟨_, hop⟩
    · exact h.wellFormed
    · exact hsound.wellFormed hop
  · intro id op b hop hb
    rw [hrevised.successors]
    rcases hcases hop with ⟨rfl, rfl⟩ | ⟨hne, hop⟩
    · have hpredecessor := h.continues.predecessor
      rw [hb, Option.map_some] at hpredecessor
      obtain ⟨b₀, hb₀, heq⟩ := Option.map_eq_some_iff.mp hpredecessor.symm
      obtain ⟨hsuccessor, p, hp, hlt, hkind, _⟩ := hsound.lineage h.stored hb₀
      rw [heq] at hsuccessor hp
      have hpne : b.predecessor ≠ op.id := by
        intro hself
        rw [hself, h.stored] at hp
        cases hp
        exact lt_irrefl _ hlt
      refine ⟨hsuccessor, p, by rw [hrevised.find_of_ne hpne, hp], ?_, hkind, ?_⟩
      · rw [h.continues.sequence]
        exact hlt
      · intro hresolved
        obtain ⟨p', hp', hfollows⟩ := h.lineage b hb hresolved
        rw [hp] at hp'
        cases hp'
        exact hfollows
    · obtain ⟨hsuccessor, p, hp, hlt, hkind, hfollows⟩ := hsound.lineage hop hb
      refine ⟨hsuccessor, ?_⟩
      by_cases hself : b.predecessor = new.id
      · rw [hself, h.stored] at hp
        cases hp
        refine ⟨new, by rw [hself, hrevised.find_self], ?_, ?_, ?_⟩
        · rw [h.continues.sequence]
          exact hlt
        · rw [h.continues.kind]
          exact hkind
        · -- The predecessor is not complete, so nothing is bound to it.
          intro hresolved
          have hcomplete := (hfollows hresolved).isComplete
          rw [h.incomplete] at hcomplete
          cases hcomplete
      · exact ⟨p, by rw [hrevised.find_of_ne hself, hp], hlt, hkind, hfollows⟩
  · intro p s op hsuccessor hop
    rw [hrevised.successors] at hsuccessor
    rcases hcases hop with ⟨rfl, rfl⟩ | ⟨_, hop⟩
    · rw [h.continues.predecessor]
      exact hsound.successor hsuccessor h.stored
    · exact hsound.successor hsuccessor hop
  · intro id op hop hincomplete hwaiting
    rcases hcases hop with ⟨rfl, rfl⟩ | ⟨hne, hop⟩
    · obtain ⟨hbound, hready⟩ := h.settled hincomplete hwaiting
      exact ⟨hbound, Revised.ready_self hrevised hready⟩
    · rw [Revised.ready_of_ne hrevised hne]
      exact hsound.bound hop hincomplete hwaiting
  · intro id op hop hfailed hbound
    rcases hcases hop with ⟨rfl, rfl⟩ | ⟨hne, hop⟩
    · exact Revised.ready_self hrevised (h.failed hfailed hbound)
    · rw [Revised.ready_of_ne hrevised hne]
      exact hsound.failed hop hfailed hbound

/-- A removal that waits for its readers still waits for them. -/
theorem Revises.heldSound (h : Revises ok j old new keys bound) (hinv : Inv ok underway j)
    {r : MutationRecord} (hnew : new = .mutation r) (hready : r.localReady = false)
    (hunderway : new.id ∉ underway) : HeldSound { j with queue := q' } new.id r := by
  subst hnew
  cases old with
  | upload old => cases h.continues.isUpload
  | mutation old =>
    have hold : old.localReady = false := by
      cases hlocal : old.localReady with
      | false => rfl
      | true =>
        have hnew : r.localReady = true := h.continues.ready hlocal
        rw [hready] at hnew
        cases hnew
    have hsound := hinv.held h.stored hold hunderway
    exact ⟨h.continues.removes.trans hsound.removes, h.held r rfl hready, hsound.object⟩

/-- Storing an operation again keeps the invariant. -/
theorem Inv.revise (hinv : Inv ok underway j) (h : Revises ok j old new keys bound)
    (hrevised : j.queue.Revised q' new keys bound)
    (hdone : new.isComplete = true → new.id ∉ underway → ∀ record,
      j.fileReplacements.get new.id = some record →
      record.remoteApplied = true ∨ record.rescuedAs.isSome = true) :
    Inv ok underway { j with queue := q' } := by
  have hkeeps := h.keeps hrevised
  -- Only the stored operation is another one.
  have hself : ∀ {id op}, q'.find id = some op → j.queue.find id ≠ some op →
      id = new.id ∧ op = new := by
    intro id op hop hne
    by_cases hid : id = new.id
    · subst hid
      rw [hrevised.find_self] at hop
      cases hop
      exact ⟨rfl, rfl⟩
    · rw [hrevised.find_of_ne hid] at hop
      exact absurd hop hne
  refine ⟨h.sound hrevised hinv.queue, ?_, ?_, ?_, ?_, ?_, ?_, hinv.index, hinv.latest,
    hinv.cleanups, ?_, hinv.detached, ?_⟩
  · intro id op hop k hk
    by_cases hid : id = new.id
    · subst hid
      have hself : q'.find new.id = some op := hop
      rw [hrevised.find_self] at hself
      cases hself
      rcases h.keys k hk with hgained | hheld | hreveals
      · exact .inl (Queue.mem_resources.mpr ((hrevised.resources _ k).mpr (.inr ⟨rfl, hgained⟩)))
      · exact .inl (Queue.mem_resources.mpr
          ((hrevised.resources _ k).mpr (.inl (Queue.mem_resources.mp hheld))))
      · exact .inr (hreveals.mono hkeeps)
    · have hother : q'.find id = some op := hop
      rw [hrevised.find_of_ne hid] at hother
      rcases hinv.covered hother k hk with hheld | hreveals
      · exact .inl (Queue.mem_resources.mpr
          ((hrevised.resources _ k).mpr (.inl (Queue.mem_resources.mp hheld))))
      · exact .inr (hreveals.mono hkeeps)
  · intro id row hrow
    exact (hinv.objects hrow).mono hkeeps
  · intro id row hrow
    exact (hinv.files hrow).mono hkeeps
  · intro id row hrow
    have hget : q'.writeDestinations.get id = some row := hrow
    rw [hrevised.destinations] at hget
    split at hget
    · obtain ⟨row₀, hrow₀, rfl⟩ := Option.map_eq_some_iff.mp hget
      exact (hinv.destinations hrow₀).mono rfl rfl hkeeps
    · exact (hinv.destinations hget).mono rfl rfl hkeeps
  · intro id op parent hop hparent
    by_cases hid : id = new.id
    · subst hid
      have hself : q'.find new.id = some op := hop
      rw [hrevised.find_self] at hself
      cases hself
      rcases h.parent parent hparent with hok | ⟨hunbound, hold⟩
      · exact .inr (.inl hok)
      · rcases hinv.parents h.stored hold with ⟨row, hrow, hunresolved⟩ | hok | hlocal
        · refine .inl ⟨row, ?_, hunresolved⟩
          show q'.writeDestinations.get new.id = some row
          rw [hrevised.destinations, if_neg (fun hboth => by rw [hunbound] at hboth; cases hboth.1)]
          exact hrow
        · exact .inr (.inl hok)
        · refine .inr (.inr ?_)
          intro f row hrow hunconfirmed hscope
          exact hlocal f row hrow hunconfirmed (hscope.trans h.continues.scope)
    · have hother : q'.find id = some op := hop
      rw [hrevised.find_of_ne hid] at hother
      rcases hinv.parents hother hparent with ⟨row, hrow, hunresolved⟩ | hrest
      · refine .inl ⟨row, ?_, hunresolved⟩
        show q'.writeDestinations.get id = some row
        rw [hrevised.destinations, if_neg (fun hboth => hid hboth.2)]
        exact hrow
      · exact .inr hrest
  · intro id record hrecord
    refine (hinv.replacements hrecord).mono hkeeps (by rw [hrevised.prerequisites]; exact fun h => h)
      ?_ ?_
    · intro op hop hne hboth
      obtain ⟨rfl, rfl⟩ := hself hop hne
      have hready := h.ready hboth
      unfold UploadJournal.locallyReady at hready
      have hget : j.fileReplacements.get op.id = some record := hrecord
      rw [hget] at hready
      exact hready
    · intro op hop hne hcomplete hunderway
      obtain ⟨rfl, rfl⟩ := hself hop hne
      exact hdone hcomplete hunderway record hrecord
  · intro id r hr hready hunderway
    by_cases hsame : j.queue.find id = some (.mutation r)
    · exact (hinv.held hsame hready hunderway).congr rfl
    · obtain ⟨rfl, hnew⟩ := hself hr hsame
      exact h.heldSound hinv hnew.symm hready hunderway
  · intro id r hr hdigest hunderway
    by_cases hsame : j.queue.find id = some (.upload r)
    · exact hinv.unsealed hsame hdigest hunderway
    · obtain ⟨rfl, rfl⟩ := hself hr hsame
      cases old with
      | mutation old => cases h.continues.isUpload
      | upload old =>
        have hbytes := Option.some.inj h.continues.bytes
        simp only [Prod.mk.injEq] at hbytes
        rw [hbytes.1] at hdigest
        rw [hbytes.2]
        exact hinv.unsealed h.stored hdigest hunderway

end Revise

/-! ## Admitting an operation -/

/-- A new operation that fits its place in the queue. -/
structure Admissible (ok : String → Prop) (underway : List Uuid) (j : UploadJournal)
    (op : Operation) (keys : List Resource) : Prop where
  absent : j.queue.Absent op.id
  sequence : op.sequence = j.queue.nextSequence
  incomplete : op.isComplete = false
  waiting : op.waiting = true
  failed : op.failed = false
  flight : op.inFlight = false
  attempt : op.attempt = none
  wellFormed : op.WellFormed ok
  base : ∀ b, op.base = some b → ∀ p, j.queue.find b.predecessor = some p → p.kind.isSome = true
  keys : ∀ k ∈ op.keys j.settings.lowercase, k ∈ keys
  ready : op.localReady = true ∨ op.id ∈ underway
  bytes : ∀ r, op = .upload r → r.sha256.utf8ByteSize = 64 ∨ op.id ∈ underway

section Admit

variable {q' : Queue} {op : Operation} {keys : List Resource} {destination : Option String}
  {prerequisites : List Uuid}

theorem Admissible.unqueued (h : Admissible ok underway j op keys) : j.queue.Unqueued op :=
  ⟨h.absent.uploads, h.absent.mutations, h.sequence⟩

theorem Admitted.keeps {q : Queue} {n : Namespace}
    (h : q.Admitted q' n op keys destination prerequisites) : q.Keeps q' := by
  intro id old hold
  have hne : id ≠ op.id := by
    rintro rfl
    rw [h.absent] at hold
    cases hold
  exact ⟨old, by rw [h.find, if_neg hne, hold], .refl old⟩

/-- An object with a local name is found by it. -/
theorem byLocal_ne_none {n : Namespace} {id : Uuid} {row : ObjectRow} {scope : Scope}
    {item : String} (h : n.objects.get id = some row) (hidentity : row.identity = (scope, item)) :
    n.byLocal scope item ≠ none := by
  intro hnone
  unfold Namespace.byLocal at hnone
  rw [List.head?_eq_none_iff] at hnone
  have hmem : row.body ∈ n.objects.select (fun _ row =>
      if row.identity = (scope, item) then some row.body else none) :=
    (Table.mem_select _ _ _).mpr ⟨id, row, h, by simp [hidentity]⟩
  rw [hnone] at hmem
  cases hmem

theorem byLocal_eq_some {n : Namespace} {scope : Scope} {item : String} {o : NamespaceObject}
    (h : n.byLocal scope item = some o) :
    ∃ id row, n.objects.get id = some row ∧ row.identity = (scope, item) ∧ row.body = o := by
  unfold Namespace.byLocal at h
  obtain ⟨id, row, hrow, hselected⟩ := (Table.mem_select _ _ _).mp (List.mem_of_mem_head? h)
  split at hselected
  · next hidentity =>
    cases hselected
    exact ⟨id, row, hrow, hidentity, rfl⟩
  · cases hselected

theorem Admissible.sound (h : Admissible ok underway j op keys)
    (hadmitted : j.queue.Admitted q' j.names op keys destination prerequisites)
    (hsound : j.queue.Sound ok) : q'.Sound ok := by
  have hcases : ∀ {id x}, q'.find id = some x →
      (id = op.id ∧ x = op) ∨ (id ≠ op.id ∧ j.queue.find id = some x) := by
    intro id x hx
    rw [hadmitted.find] at hx
    split at hx
    · next hid =>
      cases hx
      exact .inl ⟨hid, rfl⟩
    · next hid => exact .inr ⟨hid, hx⟩
  have hready : ∀ id, id ≠ op.id → q'.destinationReady id = j.queue.destinationReady id := by
    intro id hid
    unfold Queue.destinationReady
    rw [hadmitted.destinations id hid]
  refine ⟨hadmitted.tidy, ?_, ?_, ?_, ?_, ?_, ?_, ?_, ?_⟩
  · intro id x hx
    rcases hcases hx with ⟨_, rfl⟩ | ⟨_, hx⟩
    · simp [h.attempt, h.flight]
    · exact hsound.attempt hx
  · intro id x hx
    rw [hadmitted.lastSequence]
    rcases hcases hx with ⟨_, rfl⟩ | ⟨_, hx⟩
    · rw [hadmitted.sequence]
      omega
    · have hle := hsound.sequence hx
      omega
  · intro a b x y hx hy heq
    rcases hcases hx with ⟨rfl, rfl⟩ | ⟨_, hx⟩ <;> rcases hcases hy with ⟨rfl, rfl⟩ | ⟨_, hy⟩
    · rfl
    · have hle := (hsound.sequence hy).2
      have hnew := hadmitted.sequence
      omega
    · have hle := (hsound.sequence hx).2
      have hnew := hadmitted.sequence
      omega
    · exact hsound.unique hx hy heq
  · intro id x hx
    rcases hcases hx with ⟨_, rfl⟩ | ⟨_, hx⟩
    · exact h.wellFormed
    · exact hsound.wellFormed hx
  · intro id x b hx hb
    rcases hcases hx with ⟨rfl, rfl⟩ | ⟨hne, hx⟩
    · obtain ⟨hunresolved, _, p, hp, hlt⟩ := hadmitted.base b hb
      have hpne : b.predecessor ≠ x.id := by
        intro hself
        rw [hself, hadmitted.absent] at hp
        cases hp
      refine ⟨?_, p, ?_, hlt, h.base b hb p hp, ?_⟩
      · rw [hadmitted.successors, hb, Option.map_some, if_pos rfl]
      · rw [hadmitted.find, if_neg hpne, hp]
      · intro hresolved
        rw [hunresolved] at hresolved
        cases hresolved
    · obtain ⟨hsuccessor, p, hp, hlt, hkind, hfollows⟩ := hsound.lineage hx hb
      have hpne : b.predecessor ≠ op.id := by
        intro hself
        rw [hself, hadmitted.absent] at hp
        cases hp
      refine ⟨?_, p, by rw [hadmitted.find, if_neg hpne, hp], hlt, hkind, hfollows⟩
      rw [hadmitted.successors, if_neg, hsuccessor]
      -- A predecessor with a successor is not free.
      intro hsame
      obtain ⟨b', hb', heq⟩ := Option.map_eq_some_iff.mp hsame
      have hfree := (hadmitted.base b' hb').2.1
      rw [heq, hsuccessor] at hfree
      cases hfree
  · intro p s x hsuccessor hx
    rw [hadmitted.successors] at hsuccessor
    split at hsuccessor
    · next hbase =>
      cases hsuccessor
      rcases hcases hx with ⟨_, rfl⟩ | ⟨hne, _⟩
      · exact hbase
      · exact absurd rfl hne
    · rcases hcases hx with ⟨rfl, rfl⟩ | ⟨_, hx⟩
      · exact absurd hsuccessor (h.absent.successors p)
      · exact hsound.successor hsuccessor hx
  · intro id x hx hincomplete hwaiting
    rcases hcases hx with ⟨_, rfl⟩ | ⟨hne, hx⟩
    · rw [h.waiting] at hwaiting
      cases hwaiting
    · rw [hready id hne]
      exact hsound.bound hx hincomplete hwaiting
  · intro id x hx hfailed hbound
    rcases hcases hx with ⟨_, rfl⟩ | ⟨hne, hx⟩
    · rw [h.failed] at hfailed
      cases hfailed
    · rw [hready id hne]
      exact hsound.failed hx hfailed hbound

/-- The destination of a new operation is bound to a folder that will be confirmed. -/
theorem Admissible.destinationSound (h : Admissible ok underway j op keys)
    (hadmitted : j.queue.Admitted q' j.names op keys op.destination prerequisites)
    (hinv : Inv ok underway j) {row : DestinationRow}
    (hrow : q'.writeDestinations.get op.id = some row) :
    DestinationSound q' j.names op.id row := by
  have hself : q'.find op.id = some op := by rw [hadmitted.find, if_pos rfl]
  have hdestination := hadmitted.destination
  cases hfolder : op.destination.bind (j.names.byLocal op.scope) with
  | none =>
    rw [hfolder] at hdestination
    simp only at hdestination
    rw [hrow, h.absent.destinations] at hdestination
    cases hdestination
  | some folder =>
    rw [hfolder] at hdestination
    obtain ⟨row', hrow', hbound⟩ := hdestination
    rw [hrow] at hrow'
    cases hrow'
    obtain ⟨parent, hparent, hlocal⟩ := Option.bind_eq_some_iff.mp hfolder
    obtain ⟨id, objectRow, hobject, hidentity, rfl⟩ := byLocal_eq_some hlocal
    have hsound := hinv.objects hobject
    have hscope : objectRow.body.scope = op.scope := by rw [← hsound.scope, hidentity]
    rw [hbound.row]
    refine ⟨⟨op, hself, by rw [hparent]; rfl⟩, ⟨objectRow, ?_, ?_, ?_⟩, ?_⟩
    · simp only [hsound.key]
      exact hobject
    · intro x hx
      rw [hself] at hx
      cases hx
      exact hscope
    · intro hnone _
      exact hbound.remote hnone
    · intro p hp
      obtain ⟨hoperation, hfolderOp⟩ := hsound.folder hbound.linked hbound.kind p hp
      obtain ⟨prev, hprev, hlt⟩ := hbound.predecessor p hp
      obtain ⟨hkind, hprevScope⟩ := hfolderOp prev hprev
      have hpne : p ≠ op.id := by
        rintro rfl
        rw [hadmitted.absent] at hprev
        cases hprev
      refine ⟨by simp only [hsound.key]; exact hoperation, prev, ?_, hkind, ?_⟩
      · rw [hadmitted.find, if_neg hpne, hprev]
      · intro x hx
        rw [hself] at hx
        cases hx
        exact ⟨hprevScope.trans hscope, hlt⟩

/-- Admitting an operation keeps the invariant. -/
theorem Inv.admitted (hinv : Inv ok underway j) (h : Admissible ok underway j op keys)
    (hadmitted : j.queue.Admitted q' j.names op keys op.destination prerequisites) :
    Inv ok underway { j with queue := q' } := by
  have hkeeps : j.queue.Keeps q' := Admitted.keeps hadmitted
  have hnew : ∀ {id x}, q'.find id = some x → j.queue.find id ≠ some x → id = op.id ∧ x = op := by
    intro id x hx hne
    rw [hadmitted.find] at hx
    split at hx
    · next hid =>
      cases hx
      exact ⟨hid, rfl⟩
    · exact absurd hx hne
  refine ⟨h.sound hadmitted hinv.queue, ?_, ?_, ?_, ?_, ?_, ?_, hinv.index, hinv.latest,
    hinv.cleanups, ?_, hinv.detached, ?_⟩
  · intro id x hx k hk
    have hfind : q'.find id = some x := hx
    rw [hadmitted.find] at hfind
    split at hfind
    · next hid =>
      cases hfind
      exact .inl (Queue.mem_resources.mpr
        ((hadmitted.resources id k).mpr (.inr ⟨hid, h.keys k hk⟩)))
    · rcases hinv.covered hfind k hk with hheld | hreveals
      · exact .inl (Queue.mem_resources.mpr
          ((hadmitted.resources _ k).mpr (.inl (Queue.mem_resources.mp hheld))))
      · exact .inr (hreveals.mono hkeeps)
  · intro id row hrow
    exact (hinv.objects hrow).mono hkeeps
  · intro id row hrow
    exact (hinv.files hrow).mono hkeeps
  · intro id row hrow
    by_cases hid : id = op.id
    · subst hid
      exact h.destinationSound hadmitted hinv hrow
    · have hold : q'.writeDestinations.get id = some row := hrow
      rw [hadmitted.destinations id hid] at hold
      exact (hinv.destinations hold).mono rfl rfl hkeeps
  · intro id x parent hx hparent
    have hfind : q'.find id = some x := hx
    rw [hadmitted.find] at hfind
    split at hfind
    · next hid =>
      cases hfind
      subst hid
      have hdestination := hadmitted.destination
      rw [hparent, Option.bind_some] at hdestination
      cases hlocal : j.names.byLocal op.scope parent with
      | none =>
        refine .inr (.inr ?_)
        rintro f row hrow hunconfirmed hscope rfl
        have hidentity := ((hinv.objects hrow).unconfirmed hunconfirmed).1
        rw [hscope] at hidentity
        exact byLocal_ne_none hrow hidentity hlocal
      | some folder =>
        rw [hlocal] at hdestination
        obtain ⟨row, hrow, hbound⟩ := hdestination
        exact .inl ⟨row, hrow, by rw [hbound.row]⟩
    · next hid =>
      rcases hinv.parents hfind hparent with ⟨row, hrow, hunresolved⟩ | hrest
      · refine .inl ⟨row, ?_, hunresolved⟩
        show q'.writeDestinations.get id = some row
        rw [hadmitted.destinations id hid]
        exact hrow
      · exact .inr hrest
  · intro id record hrecord
    have hsound := hinv.replacements hrecord
    -- The upload of the replacement is not the new operation.
    have hold : ∀ {x}, q'.find id = some x → j.queue.find id ≠ some x → False := by
      intro x hx hne
      obtain ⟨rfl, _⟩ := hnew hx hne
      obtain ⟨r, hr⟩ := hsound.upload
      rw [hadmitted.absent] at hr
      cases hr
    refine hsound.mono hkeeps (fun hrow => (hadmitted.prerequisites _ _).mpr (.inl hrow)) ?_ ?_
    · intro x hx hne
      exact (hold hx hne).elim
    · intro x hx hne
      exact (hold hx hne).elim
  · intro id r hr hready hunderway
    by_cases hsame : j.queue.find id = some (.mutation r)
    · exact (hinv.held hsame hready hunderway).congr rfl
    · obtain ⟨rfl, rfl⟩ := hnew hr hsame
      rcases h.ready with hlocal | hin
      · rw [Operation.localReady, hready] at hlocal
        cases hlocal
      · exact absurd hin hunderway
  · intro id r hr hdigest hunderway
    by_cases hsame : j.queue.find id = some (.upload r)
    · exact hinv.unsealed hsame hdigest hunderway
    · obtain ⟨rfl, rfl⟩ := hnew hr hsame
      rcases h.bytes r rfl with hbytes | hin
      · exact absurd hbytes hdigest
      · exact absurd hin hunderway

end Admit

/-! ## Storing an object -/

/-- Nothing that waits for the last operation of an object without a name, or that replaces the
    object, is left. -/
structure Released (underway : List Uuid) (j : UploadJournal) (o : NamespaceObject) : Prop where
  held : ∀ p r, o.latest = some p → j.queue.find p = some (.mutation r) →
    r.localReady = true ∨ p ∈ underway
  victim : ∀ id record, j.fileReplacements.get id = some record → record.victim = o.id →
    id ∈ underway ∨ ∃ op, j.queue.find id = some op ∧ op.isComplete = true

/-- What must be known of an object to store it. -/
structure Storable (ok : String → Prop) (underway : List Uuid) (j : UploadJournal)
    (o : NamespaceObject) : Prop where
  existing : ∀ row, j.names.objects.get o.id = some row → o.scope = row.body.scope ∧
    (row.body.followsRemote = false → row.body.node.kind = .file → o.node.kind = .file ∧
      (o.followsRemote = false ∨ j.pendingOperation o.id = false))
  remote : ∀ r, o.remote = some r → r.kind = o.node.kind ∧
    (r.kind ≠ .shortcut → r.target = none) ∧ r.id ≠ "" ∧ ∀ tag ∈ nodeTags r, ok tag
  working : o.workingFile.isSome = true → o.node.kind = .file
  unconfirmed : o.Unconfirmed → j.names.objects.get o.id = none ∧
    o.node.id = localDirectory o.id ∧ o.unlinked = false ∧
    ∀ id op, j.queue.find id = some op → op.destination ≠ some (localDirectory o.id)
  head : o.unlinked = false → HeadSound j.queue o.latest
  folder : o.unlinked = false → o.node.kind = .folder → ∀ p op, o.latest = some p →
    j.queue.find p = some op → op.kind = some .folder ∧ op.scope = o.scope
  scope : (j.names.scopes.get o.scope).isSome = true
  spare : ∀ row, j.names.objects.get o.id = some row → row.body.Spare → o.Spare ∨
    ∀ id record, j.fileReplacements.get id = some record → record.cleanupObject = o.id →
      record.remoteApplied = true ∨ record.rescuedAs.isSome = true ∨ id ∈ underway
  unlinked : ∀ row, j.names.objects.get o.id = some row → row.body.unlinked = true →
    (o.unlinked = true ∧ o.latest = row.body.latest) ∨ Released underway j row.body
  file : o.unlinked = true → ∀ w, o.workingFile = some w →
    ∃ file, j.workingFiles.get w = some file ∧ file.body.latest = o.latest

/-- The source of a running replacement is busy. -/
theorem ReplacementSound.pending {id : Uuid} {record : ReplacementRecord}
    (h : ReplacementSound underway j id record) (hunderway : id ∉ underway)
    (hincomplete : ∀ op, j.queue.find id = some op → op.isComplete = false) :
    j.pendingOperation record.source = true := by
  obtain ⟨r, hr⟩ := h.upload
  have howner := (h.running hunderway hincomplete).owner
  have hstate := hincomplete _ hr
  unfold UploadJournal.pendingOperation
  rw [List.any_eq_true]
  refine ⟨(id, record.source), (Table.mem_rows _ _ _).mpr howner, ?_⟩
  simp only [hr, decide_true, Bool.true_and, decide_not, Bool.not_eq_true', decide_eq_false_iff_not]
  intro huploaded
  simp [Operation.isComplete, huploaded, UploadState.isComplete] at hstate

/-- The source of a running replacement is stored as a file of its own again, and its victim
    without a name. -/
theorem Storable.running {o : NamespaceObject} {n' : Namespace} (h : Storable ok underway j o)
    (hstored : Stored j.settings.lowercase j.names n' o) (hinv : Inv ok underway j) {id : Uuid}
    {record : ReplacementRecord} (hrecord : j.fileReplacements.get id = some record)
    (hunderway : id ∉ underway)
    (hincomplete : ∀ op, j.queue.find id = some op → op.isComplete = false) :
    Running { j with names := n' } id record := by
  have hsound := hinv.replacements hrecord
  have hbusy := hsound.pending hunderway hincomplete
  obtain ⟨howner, ⟨row, hrow, hkind, hfollows⟩, victim, hvictim, hunlinked, hhead⟩ :=
    hsound.running hunderway hincomplete
  refine ⟨hstored.operations id _ howner, ?_, ?_⟩
  · by_cases hid : record.source = o.id
    · rw [hid] at hrow hbusy
      obtain ⟨_, hsame⟩ := h.existing row hrow
      obtain ⟨hkind', hfollows'⟩ := hsame hfollows hkind
      refine ⟨_, by rw [hid]; exact hstored.self, hkind', ?_⟩
      rcases hfollows' with hfollows' | hidle
      · exact hfollows'
      · rw [hbusy] at hidle
        cases hidle
    · exact ⟨row, (hstored.others _ hid).trans hrow, hkind, hfollows⟩
  · by_cases hid : record.victim = o.id
    · rw [hid] at hvictim
      refine ⟨_, by rw [hid]; exact hstored.self, ?_⟩
      rcases h.unlinked victim hvictim hunlinked with ⟨hkept, hlatest⟩ | hreleased
      · exact ⟨hkept, by rw [hlatest]; exact hhead⟩
      · rcases hreleased.victim id record hrecord (by rw [hid, (hinv.objects hvictim).key]) with
          hin | ⟨op, hop, hcomplete⟩
        · exact absurd hin hunderway
        · rw [hincomplete op hop] at hcomplete
          cases hcomplete
    · exact ⟨victim, (hstored.others _ hid).trans hvictim, hunlinked, hhead⟩

/-- The object of a removal that waits for readers is stored without a name again. -/
theorem Storable.heldSound {o : NamespaceObject} {n' : Namespace} (h : Storable ok underway j o)
    (hstored : Stored j.settings.lowercase j.names n' o) {id : Uuid} {r : MutationRecord}
    (hfind : j.queue.find id = some (.mutation r)) (hready : r.localReady = false)
    (hunderway : id ∉ underway) (hsound : HeldSound j id r) :
    HeldSound { j with names := n' } id r := by
  obtain ⟨x, row, howner, hrow, hunlinked, hlatest⟩ := hsound.object
  refine ⟨hsound.removes, hsound.state, x, ?_⟩
  by_cases hid : x = o.id
  · subst hid
    refine ⟨_, hstored.operations id _ howner, hstored.self, ?_⟩
    rcases h.unlinked row hrow hunlinked with ⟨hkept, hsame⟩ | hreleased
    · exact ⟨hkept, hsame.trans hlatest⟩
    · rcases hreleased.held id r hlatest hfind with hlocal | hin
      · rw [hready] at hlocal
        cases hlocal
      · exact absurd hin hunderway
  · exact ⟨row, hstored.operations id _ howner, (hstored.others _ hid).trans hrow, hunlinked, hlatest⟩

/-- Storing an object keeps the invariant. -/
theorem Inv.store (hinv : Inv ok underway j) {o : NamespaceObject} {n' : Namespace}
    (h : Storable ok underway j o) (hstored : Stored j.settings.lowercase j.names n' o) :
    Inv ok underway { j with names := n' } := by
  refine ⟨hinv.queue, hinv.covered, ?_, hinv.files, ?_, ?_, ?_, hinv.index.store hstored h.scope, ?_,
    hinv.cleanups, ?_, ?_, hinv.unsealed⟩
  · intro id row hrow
    have hget : n'.objects.get id = some row := hrow
    by_cases hid : id = o.id
    · subst hid
      rw [hstored.self] at hget
      cases hget
      refine ⟨rfl, ?_, h.remote, h.working, ?_, h.head, ?_⟩
      · cases hold : j.names.objects.get o.id with
        | none => rfl
        | some old =>
          rw [(h.existing old hold).1]
          exact (hinv.objects hold).scope
      · intro hunconfirmed
        obtain ⟨hnew, hlocal, hlinked, _⟩ := h.unconfirmed hunconfirmed
        refine ⟨?_, hlinked⟩
        rw [hnew, ← hlocal]
        rfl
      · intro hlinked hkind p hp
        exact ⟨hstored.latest p hp, fun op hop => h.folder hlinked hkind p op hp hop⟩
    · rw [hstored.others id hid] at hget
      have hsound := hinv.objects hget
      refine ⟨hsound.key, hsound.scope, hsound.remote, hsound.working, hsound.unconfirmed,
        hsound.head, ?_⟩
      intro hlinked hkind p hp
      obtain ⟨howner, hfolder⟩ := hsound.folder hlinked hkind p hp
      exact ⟨hstored.operations p id howner, hfolder⟩
  · intro id row hrow
    have hsound := hinv.destinations hrow
    obtain ⟨f, hf, hscope, hremote⟩ := hsound.folder
    refine ⟨hsound.operation, ?_, ?_⟩
    · by_cases hid : row.parent = o.id
      · rw [hid] at hf
        refine ⟨_, by rw [hid]; exact hstored.self, ?_, ?_⟩
        · intro op hop
          rw [← hscope op hop]
          exact (h.existing f hf).1
        · intro _ hkind
          -- A folder that was stored before has a cloud identity.
          cases hnone : o.remote with
          | some r => rfl
          | none =>
            have hnew := (h.unconfirmed ⟨hkind, hnone⟩).1
            rw [hf] at hnew
            cases hnew
      · exact ⟨f, by rw [hstored.others _ hid]; exact hf, hscope, hremote⟩
    · intro p hp
      obtain ⟨howner, hprev⟩ := hsound.predecessor p hp
      exact ⟨hstored.operations p _ howner, hprev⟩
  · intro id op parent hop hparent
    rcases hinv.parents hop hparent with hrow | hok | hlocal
    · exact .inl hrow
    · exact .inr (.inl hok)
    · refine .inr (.inr ?_)
      intro f row hrow hunconfirmed hscope
      by_cases hid : f = o.id
      · subst hid
        rw [hstored.self] at hrow
        cases hrow
        intro heq
        exact (h.unconfirmed hunconfirmed).2.2.2 id op hop (hparent.trans (by rw [heq]))
      · rw [hstored.others f hid] at hrow
        exact hlocal f row hrow hunconfirmed hscope
  · intro id record hrecord
    have hsound := hinv.replacements hrecord
    refine ⟨hsound.key, hsound.upload, ?_, ?_, hsound.rescuedDone, hsound.unready, hsound.awaits,
      hsound.done⟩
    · intro hunderway hincomplete
      exact h.running hstored hinv hrecord hunderway hincomplete
    · obtain ⟨row, hrow, hspare⟩ := hsound.cleanup
      by_cases hid : record.cleanupObject = o.id
      · rw [hid] at hrow
        refine ⟨_, by rw [hid]; exact hstored.self, ?_⟩
        intro happlied hrescuedAs hunderway
        rcases h.spare row hrow (hspare happlied hrescuedAs hunderway) with hkept | hover
        · exact hkept
        · rcases hover id record hrecord hid with hover | hover | hover
          · rw [happlied] at hover
            cases hover
          · rw [hrescuedAs] at hover
            cases hover
          · exact absurd hover hunderway
      · exact ⟨row, by rw [hstored.others _ hid]; exact hrow, hspare⟩
  · intro id row p hrow hp
    by_cases hid : id = o.id
    · subst hid
      rw [hstored.self] at hrow
      cases hrow
      exact .inr (hstored.latest p hp)
    · rw [hstored.others id hid] at hrow
      exact (hinv.latest hrow hp).imp_right (hstored.operations p id)
  · intro id r hr hready hunderway
    exact h.heldSound hstored hr hready hunderway (hinv.held hr hready hunderway)
  · intro id row w hrow hunlinked hw
    by_cases hid : id = o.id
    · subst hid
      rw [hstored.self] at hrow
      cases hrow
      exact h.file hunlinked w hw
    · rw [hstored.others id hid] at hrow
      exact hinv.detached hrow hunlinked hw

theorem saveObject_eq_ok {o : NamespaceObject} (h : j.saveObject o = .ok j') :
    ∃ n', Stored j.settings.lowercase j.names n' o ∧ j' = { j with names := n' } := by
  unfold UploadJournal.saveObject at h
  obtain ⟨n', hsave, h⟩ := bind_eq_ok h
  cases h
  exact ⟨n', save_stored hsave, rfl⟩

/-! ## The other tables -/

/-- Writing a working file keeps the invariant. -/
theorem Inv.setFile (hinv : Inv ok underway j) {id : Uuid} (row : WorkingRow)
    (h : FileSound ok j.queue id row.body)
    (hlatest : ∀ o x, j.names.objects.get o = some x → x.body.unlinked = true →
      x.body.workingFile = some id → row.body.latest = x.body.latest) :
    Inv ok underway { j with workingFiles := j.workingFiles.set id row } := by
  refine ⟨hinv.queue, hinv.covered, hinv.objects, ?_, hinv.destinations, hinv.parents,
    fun hrecord => (hinv.replacements hrecord).congr rfl rfl, hinv.index, hinv.latest, hinv.cleanups,
    fun hr hready hunderway => (hinv.held hr hready hunderway).congr rfl, ?_, hinv.unsealed⟩
  · intro id' row' hrow
    simp only [Table.get_set] at hrow
    split at hrow
    · next hid =>
      cases hrow
      rw [hid]
      exact h
    · exact hinv.files hrow
  · intro o x w hx hunlinked hw
    simp only [Table.get_set]
    split
    · next hid =>
      subst hid
      exact ⟨row, rfl, hlatest o x hx hunlinked hw⟩
    · exact hinv.detached hx hunlinked hw

/-- Retiring the working file of an object that has a name keeps the invariant. -/
theorem Inv.eraseFile (hinv : Inv ok underway j) {id : Uuid}
    (hlinked : ∀ o x, j.names.objects.get o = some x → x.body.unlinked = true →
      x.body.workingFile ≠ some id) :
    Inv ok underway { j with workingFiles := j.workingFiles.erase id } := by
  refine ⟨hinv.queue, hinv.covered, hinv.objects, ?_, hinv.destinations, hinv.parents,
    fun hrecord => (hinv.replacements hrecord).congr rfl rfl, hinv.index, hinv.latest, hinv.cleanups,
    fun hr hready hunderway => (hinv.held hr hready hunderway).congr rfl, ?_, hinv.unsealed⟩
  · intro id' row hrow
    simp only [Table.get_erase] at hrow
    split at hrow
    · cases hrow
    · exact hinv.files hrow
  · intro o x w hx hunlinked hw
    simp only [Table.get_erase]
    split
    · next hid =>
      subst hid
      exact absurd hw (hlinked o x hx hunlinked)
    · exact hinv.detached hx hunlinked hw

/-- Recording a replacement keeps the invariant. -/
theorem Inv.setReplacement (hinv : Inv ok underway j) {id : Uuid} {record : ReplacementRecord}
    (h : ReplacementSound underway j id record)
    (hown : ∀ other x, other ≠ id → j.fileReplacements.get other = some x →
      x.cleanupObject ≠ record.cleanupObject) :
    Inv ok underway { j with fileReplacements := j.fileReplacements.set id record } := by
  refine ⟨hinv.queue, hinv.covered, hinv.objects, hinv.files, hinv.destinations, hinv.parents, ?_,
    hinv.index, hinv.latest, ?_,
    fun hr hready hunderway => (hinv.held hr hready hunderway).congr rfl, hinv.detached, ?_⟩
  · intro id' record' hrecord
    simp only [Table.get_set] at hrecord
    split at hrecord
    · next hid =>
      cases hrecord
      rw [hid]
      exact h.congr rfl rfl
    · exact (hinv.replacements hrecord).congr rfl rfl
  · intro a b x y ha hb hsame
    simp only [Table.get_set] at ha hb
    split at ha <;> split at hb
    · next hida hidb => rw [hida, hidb]
    · next _ hne =>
      cases ha
      exact absurd hsame.symm (hown b y hne hb)
    · next hne _ =>
      cases hb
      exact absurd hsame (hown a x hne ha)
    · exact hinv.cleanups ha hb hsame
  · intro a r hr hdigest hunderway
    obtain ⟨hnone, hsome⟩ := hinv.unsealed hr hdigest hunderway
    refine ⟨hnone, ?_⟩
    simp only [Table.get_set]
    split
    · rfl
    · exact hsome

/-- The names of a scope are configured. -/
theorem Inv.setScopes (hinv : Inv ok underway j) {scopes : Table Scope NamespaceNames}
    (hscopes : ∀ scope names, j.names.scopes.get scope = some names →
      scopes.get scope = some names) :
    Inv ok underway { j with names := { j.names with scopes := scopes } } := by
  refine ⟨hinv.queue, hinv.covered, ?_, hinv.files, ?_, hinv.parents, ?_,
    hinv.index.setScopes hscopes, hinv.latest, hinv.cleanups, ?_, hinv.detached, hinv.unsealed⟩
  · intro id row hrow
    have hsound := hinv.objects hrow
    exact ⟨hsound.key, hsound.scope, hsound.remote, hsound.working, hsound.unconfirmed,
      hsound.head, hsound.folder⟩
  · intro id row hrow
    have hsound := hinv.destinations hrow
    exact ⟨hsound.operation, hsound.folder, hsound.predecessor⟩
  · intro id record hrecord
    have hsound := hinv.replacements hrecord
    refine ⟨hsound.key, hsound.upload, ?_, hsound.cleanup, hsound.rescuedDone, hsound.unready,
      hsound.awaits, hsound.done⟩
    intro hunderway hincomplete
    obtain ⟨howner, hsource, hvictim⟩ := hsound.running hunderway hincomplete
    exact ⟨howner, hsource, hvictim⟩
  · intro id r hr hready hunderway
    have hsound := hinv.held hr hready hunderway
    exact ⟨hsound.removes, hsound.state, hsound.object⟩

/-- Forgetting the owner of operations that do not change folders, are not replacements, do not wait
    for readers, and are no object's last one. -/
theorem Inv.forget (hinv : Inv ok underway j) {operations : Table Uuid Uuid}
    (hkept : ∀ p id, operations.get p = some id → j.names.operations.get p = some id)
    (hlatest : ∀ id row p, j.names.objects.get id = some row → row.body.latest = some p →
      p ∈ underway ∨ operations.get p = some id)
    (hfolders : ∀ p op, j.queue.find p = some op → op.kind = some .folder →
      operations.get p = j.names.operations.get p)
    (hreplacements : ∀ p record, j.fileReplacements.get p = some record → p ∉ underway →
      operations.get p = j.names.operations.get p)
    (hheld : ∀ p r, j.queue.find p = some (.mutation r) → r.localReady = false → p ∉ underway →
      operations.get p = j.names.operations.get p) :
    Inv ok underway { j with names := { j.names with operations := operations } } := by
  refine ⟨hinv.queue, hinv.covered, ?_, hinv.files, ?_, hinv.parents, ?_,
    hinv.index.forget hkept, fun hrow hp => hlatest _ _ _ hrow hp, hinv.cleanups, ?_, hinv.detached,
    hinv.unsealed⟩
  · intro id row hrow
    have hsound := hinv.objects hrow
    refine ⟨hsound.key, hsound.scope, hsound.remote, hsound.working, hsound.unconfirmed,
      hsound.head, ?_⟩
    intro hlinked hkind p hp
    obtain ⟨howner, hfolder⟩ := hsound.folder hlinked hkind p hp
    obtain ⟨op, hop, _⟩ := hsound.head hlinked p hp
    exact ⟨(hfolders p op hop (hfolder op hop).1).trans howner, hfolder⟩
  · intro id row hrow
    have hsound := hinv.destinations hrow
    refine ⟨hsound.operation, hsound.folder, ?_⟩
    intro p hp
    obtain ⟨howner, prev, hprev, hkind, hearlier⟩ := hsound.predecessor p hp
    exact ⟨(hfolders p prev hprev hkind).trans howner, prev, hprev, hkind, hearlier⟩
  · intro id record hrecord
    have hsound := hinv.replacements hrecord
    refine ⟨hsound.key, hsound.upload, ?_, hsound.cleanup, hsound.rescuedDone, hsound.unready,
      hsound.awaits, hsound.done⟩
    intro hunderway hincomplete
    obtain ⟨howner, hsource, hvictim⟩ := hsound.running hunderway hincomplete
    exact ⟨(hreplacements id record hrecord hunderway).trans howner, hsource, hvictim⟩
  · intro id r hr hready hunderway
    have hsound := hinv.held hr hready hunderway
    obtain ⟨o, row, howner, hrow⟩ := hsound.object
    exact ⟨hsound.removes, hsound.state, o, row, (hheld id r hr hready hunderway).trans howner, hrow⟩

/-! ## Operations underway -/

/-- A transaction begins with some operations. -/
theorem Inv.begin (hinv : Inv ok [] j) (underway : List Uuid) : Inv ok underway j := by
  refine ⟨hinv.queue, hinv.covered, hinv.objects, hinv.files, hinv.destinations, hinv.parents, ?_,
    hinv.index, ?_, hinv.cleanups, ?_, hinv.detached, ?_⟩
  · intro id record hrecord
    have hsound := hinv.replacements hrecord
    obtain ⟨row, hrow, hspare⟩ := hsound.cleanup
    exact ⟨hsound.key, hsound.upload, fun _ => hsound.running List.not_mem_nil,
      ⟨row, hrow, fun happlied hrescued _ => hspare happlied hrescued List.not_mem_nil⟩,
      fun hrescued _ => hsound.rescuedDone hrescued List.not_mem_nil, hsound.unready,
      fun hrescued _ => hsound.awaits hrescued List.not_mem_nil,
      fun _ => hsound.done List.not_mem_nil⟩
  · intro id row p hrow hp
    exact .inr ((hinv.latest hrow hp).resolve_left List.not_mem_nil)
  · intro id r hr hready _
    exact hinv.held hr hready List.not_mem_nil
  · intro id r hr hdigest _
    exact hinv.unsealed hr hdigest List.not_mem_nil

/-- Everything that belongs to the operations of a transaction is stored. -/
theorem Inv.finish (hinv : Inv ok underway j)
    (hreplacements : ∀ id ∈ underway, ∀ record, j.fileReplacements.get id = some record →
      ReplacementSound [] j id record)
    (hlatest : ∀ p ∈ underway, ∀ id row, j.names.objects.get id = some row →
      row.body.latest = some p → j.names.operations.get p = some id)
    (hheld : ∀ id ∈ underway, ∀ r, j.queue.find id = some (.mutation r) → r.localReady = false →
      HeldSound j id r)
    (hunsealed : ∀ id ∈ underway, ∀ r, j.queue.find id = some (.upload r) →
      r.sha256.utf8ByteSize ≠ 64 → r.workingFile = none ∧ (j.fileReplacements.get id).isSome = true) :
    Inv ok [] j := by
  refine ⟨hinv.queue, hinv.covered, hinv.objects, hinv.files, hinv.destinations, hinv.parents, ?_,
    hinv.index, ?_, hinv.cleanups, ?_, hinv.detached, ?_⟩
  · intro id record hrecord
    by_cases hin : id ∈ underway
    · exact hreplacements id hin record hrecord
    · have hsound := hinv.replacements hrecord
      obtain ⟨row, hrow, hspare⟩ := hsound.cleanup
      exact ⟨hsound.key, hsound.upload, fun _ => hsound.running hin,
        ⟨row, hrow, fun happlied hrescued _ => hspare happlied hrescued hin⟩,
        fun hrescued _ => hsound.rescuedDone hrescued hin, hsound.unready,
        fun hrescued _ => hsound.awaits hrescued hin, fun _ => hsound.done hin⟩
  · intro id row p hrow hp
    rcases hinv.latest hrow hp with hin | howner
    · exact .inr (hlatest p hin id row hrow hp)
    · exact .inr howner
  · intro id r hr hready _
    by_cases hin : id ∈ underway
    · exact hheld id hin r hr hready
    · exact hinv.held hr hready hin
  · intro id r hr hdigest _
    by_cases hin : id ∈ underway
    · exact hunsealed id hin r hr hdigest
    · exact hinv.unsealed hr hdigest hin

end Cirrove.Journal
