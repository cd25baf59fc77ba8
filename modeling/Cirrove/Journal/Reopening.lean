import Cirrove.Journal.Copying
import Cirrove.Journal.Handouts
import Cirrove.Journal.Places
import Cirrove.Journal.Replacing

/-!
# Opening the journal again

`UploadJournal::open` recovers what the process before has left: nobody holds an operation any
more, the sizes of the working files are what the disk says, and the removals and replacements that
waited for readers are released. Every commit of it keeps the invariant, and when it is done no
operation is in flight.
-/

namespace Cirrove.Journal

open Cirrove.Library
open UploadJournal

variable {ok : String → Prop} {underway : List Uuid} {j j' : UploadJournal}
  {claimed : Uuid → Uuid → Prop} {gained : Uuid → Resource → Prop}

/-! ## Operations nobody holds -/

/-- What became of the operation is not known. -/
def Operation.unclaimed : Operation → Operation
  | .upload r => .upload { r with state := .verifyRequired, attempt := none }
  | .mutation r => .mutation { r with state := .verifyRequired, attempt := none }

theorem Operation.unclaimed_continues {op : Operation} (h : op.isComplete = false) :
    op.Continues op.unclaimed := by
  cases op with
  | upload r =>
    refine ⟨rfl, rfl, rfl, rfl, rfl, rfl, rfl, fun _ => rfl, fun hready => hready, rfl, rfl,
      fun _ hname => hname, ?_⟩
    intro hcomplete
    rw [h] at hcomplete
    cases hcomplete
  | mutation r =>
    refine ⟨rfl, rfl, rfl, rfl, rfl, rfl, rfl, fun _ => rfl, fun hready => hready, rfl, rfl,
      fun _ hname => hname, ?_⟩
    intro hcomplete
    rw [h] at hcomplete
    cases hcomplete

/-- The queue after some operations in flight were given up. -/
structure Queue.Recovered (q q' : Queue) (f : Operation → Operation) : Prop where
  tidy : q'.Tidy
  find : ∀ id, q'.find id = (q.find id).map f
  same : ∀ op, f op = op ∨ (op.inFlight = true ∧ f op = op.unclaimed)
  lastSequence : q'.lastSequence = q.lastSequence
  successors : q'.writeSuccessors = q.writeSuccessors
  prerequisites : q'.writePrerequisites = q.writePrerequisites
  resources : q'.writeResources = q.writeResources
  destinations : q'.writeDestinations = q.writeDestinations

section Recovered

variable {q q' : Queue} {f : Operation → Operation}

/-- Every operation of the new queue is an old one, or was in flight. -/
theorem Queue.Recovered.cases (h : q.Recovered q' f) {id : Uuid} {op : Operation}
    (hop : q'.find id = some op) : ∃ old, q.find id = some old ∧
      (op = old ∨ (old.inFlight = true ∧ op = old.unclaimed)) := by
  rw [h.find, Option.map_eq_some_iff] at hop
  obtain ⟨old, hold, rfl⟩ := hop
  exact ⟨old, hold, h.same old⟩

theorem Queue.Recovered.keeps (h : q.Recovered q' f) : q.Keeps q' := by
  intro id op hop
  refine ⟨f op, by rw [h.find, hop]; rfl, ?_⟩
  rcases h.same op with hsame | ⟨hflight, hgiven⟩
  · rw [hsame]
    exact .refl op
  · rw [hgiven]
    exact Operation.unclaimed_continues (Operation.not_isComplete_of_inFlight hflight)

/-- A complete operation is still what it was. -/
theorem Queue.Recovered.complete (h : q.Recovered q' f) {id : Uuid} {op : Operation}
    (hop : q.find id = some op) (hcomplete : op.isComplete = true) : q'.find id = some op := by
  obtain ⟨op', hop', hcont⟩ := h.keeps id op hop
  rw [hcont.frozen hcomplete] at hop'
  exact hop'

theorem Queue.Recovered.sound (h : q.Recovered q' f) (hsound : q.Sound ok) : q'.Sound ok := by
  have hready : ∀ id, q'.destinationReady id = q.destinationReady id := by
    intro id
    simp only [Queue.destinationReady, h.destinations]
  refine ⟨h.tidy, ?_, ?_, ?_, ?_, ?_, ?_, ?_, ?_⟩
  · intro id op hop
    obtain ⟨old, hold, rfl | ⟨_, rfl⟩⟩ := h.cases hop
    · exact hsound.attempt hold
    · cases old <;> simp [Operation.unclaimed, Operation.attempt, Operation.inFlight,
        UploadState.inFlight, MutationState.inFlight]
  · intro id op hop
    rw [h.lastSequence]
    obtain ⟨old, hold, rfl | ⟨_, rfl⟩⟩ := h.cases hop
    · exact hsound.sequence hold
    · have hsequence := hsound.sequence hold
      cases old <;> exact hsequence
  · intro a b x y hx hy heq
    obtain ⟨oldx, holdx, hx'⟩ := h.cases hx
    obtain ⟨oldy, holdy, hy'⟩ := h.cases hy
    refine hsound.unique holdx holdy ?_
    have hsequence : ∀ {op old : Operation}, (op = old ∨ (old.inFlight = true ∧ op = old.unclaimed)) →
        op.sequence = old.sequence := by
      rintro op old (rfl | ⟨_, rfl⟩)
      · rfl
      · cases old <;> rfl
    rw [← hsequence hx', ← hsequence hy']
    exact heq
  · intro id op hop
    obtain ⟨old, hold, rfl | ⟨hflight, rfl⟩⟩ := h.cases hop
    · exact hsound.wellFormed hold
    · have hwell := hsound.wellFormed hold
      cases old with
      | upload r =>
        have hr : r.WellFormed ok := hwell
        refine ⟨?_, hr.source, ?_⟩
        · intro hstate
          cases hstate
        · rcases hr.digest with hdigest | hstate | ⟨hstate, _⟩
          · exact .inl hdigest
          · simp [Operation.inFlight, UploadState.inFlight, hstate] at hflight
          · simp [Operation.inFlight, UploadState.inFlight, hstate] at hflight
      | mutation r =>
        have hr : r.WellFormed ok := hwell
        refine ⟨?_, ?_, ?_, hr.source, hr.base⟩
        · intro b hb
          obtain ⟨hid, hparent | ⟨hstate, _⟩⟩ := hr.before b hb
          · exact ⟨hid, .inl hparent⟩
          · simp [Operation.inFlight, MutationState.inFlight, hstate] at hflight
        · intro hstate
          cases hstate
        · intro hstate
          cases hstate
  · intro id op b hop hb
    rw [h.successors]
    obtain ⟨old, hold, hsame⟩ := h.cases hop
    have hbase : old.base = some b ∧ old.sequence = op.sequence ∧
        ∀ p, old.follows p → op.follows p := by
      rcases hsame with rfl | ⟨_, rfl⟩
      · exact ⟨hb, rfl, fun _ hp => hp⟩
      · cases old <;> exact ⟨hb, rfl, fun _ hp => hp⟩
    obtain ⟨hsuccessor, p, hp, hlt, hkind, hfollows⟩ := hsound.lineage hold hbase.1
    refine ⟨hsuccessor, ?_⟩
    obtain ⟨p', hp', hcont⟩ := h.keeps _ p hp
    refine ⟨p', hp', by rw [hcont.sequence, ← hbase.2.1]; exact hlt, by rw [hcont.kind]; exact hkind, ?_⟩
    intro hresolved
    have hfollow := hfollows hresolved
    rw [hcont.frozen hfollow.isComplete]
    exact hbase.2.2 p hfollow
  · intro p s op hsuccessor hop
    rw [h.successors] at hsuccessor
    obtain ⟨old, hold, rfl | ⟨_, rfl⟩⟩ := h.cases hop
    · exact hsound.successor hsuccessor hold
    · have hbase := hsound.successor hsuccessor hold
      cases old <;> exact hbase
  · intro id op hop hincomplete hwaiting
    rw [hready]
    obtain ⟨old, hold, rfl | ⟨hflight, rfl⟩⟩ := h.cases hop
    · exact hsound.bound hold hincomplete hwaiting
    · have hold' := hsound.bound hold (Operation.not_isComplete_of_inFlight hflight) (by
        cases old with
        | upload r =>
          cases hstate : r.state <;>
            simp_all [Operation.inFlight, UploadState.inFlight, Operation.waiting]
        | mutation r =>
          cases hstate : r.state <;>
            simp_all [Operation.inFlight, MutationState.inFlight, Operation.waiting])
      cases old <;> exact hold'
  · intro id op hop hfailed hbound
    rw [hready]
    obtain ⟨old, hold, rfl | ⟨_, rfl⟩⟩ := h.cases hop
    · exact hsound.failed hold hfailed hbound
    · cases old <;> simp [Operation.unclaimed, Operation.failed] at hfailed

theorem Queue.Recovered.evolves (h : q.Recovered q' f) : q.Evolves claimed gained q' where
  kept := h.keeps
  fresh := by
    intro id op hop hnone
    rw [h.find, hnone] at hop
    cases hop
  flight := by
    intro id op hop hin
    obtain ⟨old, hold, rfl | ⟨_, rfl⟩⟩ := h.cases hop
    · exact .inl ⟨op, hold, hin, rfl⟩
    · cases old <;>
        simp [Operation.unclaimed, Operation.inFlight, UploadState.inFlight,
          MutationState.inFlight] at hin
  begun := by
    intro id op hop hbegun
    obtain ⟨old, hold, rfl | ⟨_, rfl⟩⟩ := h.cases hop
    · exact .inl ⟨op, hold, hbegun⟩
    · cases old <;> simp [Operation.unclaimed, Operation.begun, MutationState.inFlight] at hbegun
  keys := by
    intro id op k _ hk
    rw [Queue.mem_resources, h.resources] at hk
    exact .inl (Queue.mem_resources.mpr hk)
  held := by
    intro id k hk
    rw [Queue.mem_resources, h.resources]
    exact Queue.mem_resources.mp hk
  lastSequence := le_of_eq h.lastSequence.symm
  prerequisites := by
    intro a b hab
    rw [h.prerequisites] at hab
    refine .inl ⟨hab, ?_⟩
    intro hnone
    rw [h.find, hnone]
    rfl

end Recovered

/-- Giving operations in flight up keeps the invariant. -/
theorem Inv.recover (hinv : Inv ok [] j) {q' : Queue} {f : Operation → Operation}
    (h : j.queue.Recovered q' f) : Inv ok [] { j with queue := q' } := by
  have hkeeps := h.keeps
  -- What is not as it was is neither in flight nor complete.
  have hidle : ∀ {id op}, q'.find id = some op → j.queue.find id ≠ some op →
      op.inFlight = false ∧ op.isComplete = false := by
    intro id op hop hne
    obtain ⟨old, hold, rfl | ⟨_, rfl⟩⟩ := h.cases hop
    · exact absurd hold hne
    · cases old <;> exact ⟨rfl, rfl⟩
  refine ⟨h.sound hinv.queue, ?_, ?_, ?_, ?_, ?_, ?_, hinv.index, hinv.latest, hinv.cleanups, ?_,
    hinv.detached, ?_⟩
  · intro id op hop k hk
    obtain ⟨old, hold, hsame⟩ := h.cases hop
    have hcovered := hinv.covered hold k (by
      rcases hsame with rfl | ⟨_, rfl⟩
      · exact hk
      · cases old <;> exact hk)
    rcases hcovered with hheld | hreveals
    · left
      rw [Queue.mem_resources, h.resources]
      exact Queue.mem_resources.mp hheld
    · right
      have hmono := hreveals.mono hkeeps
      rcases hsame with rfl | ⟨_, rfl⟩
      · exact hmono
      · cases old <;> exact hmono
  · intro id row hrow
    exact (hinv.objects hrow).mono hkeeps
  · intro id row hrow
    exact (hinv.files hrow).mono hkeeps
  · intro id row hrow
    have hget : q'.writeDestinations.get id = some row := hrow
    rw [h.destinations] at hget
    exact (hinv.destinations hget).mono rfl rfl hkeeps
  · intro id op parent hop hparent
    obtain ⟨old, hold, hsame⟩ := h.cases hop
    have hboth : old.destination = some parent ∧ op.scope = old.scope := by
      rcases hsame with rfl | ⟨_, rfl⟩
      · exact ⟨hparent, rfl⟩
      · cases old <;> exact ⟨hparent, rfl⟩
    rcases hinv.parents hold hboth.1 with ⟨row, hrow, hunresolved⟩ | hok | hlocal
    · refine .inl ⟨row, ?_, hunresolved⟩
      show q'.writeDestinations.get id = some row
      rw [h.destinations]
      exact hrow
    · exact .inr (.inl hok)
    · refine .inr (.inr ?_)
      intro folder row hrow hunconfirmed hscope
      exact hlocal folder row hrow hunconfirmed (hscope.trans hboth.2)
  · intro id record hrecord
    refine (hinv.replacements hrecord).mono hkeeps (by rw [h.prerequisites]; exact fun h => h) ?_ ?_
    · intro op hop hne hor
      obtain ⟨hflight, hincomplete⟩ := hidle hop hne
      rw [hflight, hincomplete] at hor
      simp at hor
    · intro op hop hne hcomplete
      rw [(hidle hop hne).2] at hcomplete
      cases hcomplete
  · intro id r hr hunready hnot
    obtain ⟨old, hold, hsame⟩ := h.cases hr
    rcases hsame with rfl | ⟨hflight, hgiven⟩
    · have hheld := hinv.held hold hunready hnot
      exact ⟨hheld.removes, hheld.state, hheld.object⟩
    · -- A change in flight does not wait for readers.
      exfalso
      cases old with
      | upload u => cases hgiven
      | mutation m =>
        cases hgiven
        rcases (hinv.held hold hunready hnot).state with hstate | ⟨hstate, _⟩ <;>
          simp [Operation.inFlight, MutationState.inFlight, hstate] at hflight
  · intro id r hr hdigest hnot
    obtain ⟨old, hold, hsame⟩ := h.cases hr
    rcases hsame with rfl | ⟨_, hgiven⟩
    · exact hinv.unsealed hold hdigest hnot
    · cases old with
      | upload u =>
        cases hgiven
        have hunsealed := hinv.unsealed hold hdigest hnot
        exact hunsealed
      | mutation m => cases hgiven

theorem Queue.Recovered.leads (hinv : Inv ok [] j) {q' : Queue} {f : Operation → Operation}
    (h : j.queue.Recovered q' f) : Leads ok claimed gained [] j { j with queue := q' } := by
  refine ⟨⟨hinv.recover h, h.evolves, rfl, .of_same rfl rfl rfl⟩, ?_⟩
  intro id r hr hunready hstate
  obtain ⟨old, hold, hsame⟩ := h.cases hr
  rcases hsame with rfl | ⟨_, hgiven⟩
  · exact ⟨r, hold, hunready, hstate⟩
  · cases old with
    | upload u => cases hgiven
    | mutation m =>
      cases hgiven
      cases hstate

/-! ## The tables -/

/-- `mutations::migrate_queue` gives the changes in flight up. -/
theorem recoverMutations_recovered (hinv : Inv ok [] j) :
    j.queue.Recovered j.recoverMutations.queue
      (fun op => if op.isUpload then op else if op.inFlight then op.unclaimed else op) := by
  have ht := hinv.tidy
  have hfind : ∀ id, j.recoverMutations.queue.find id = (j.queue.find id).map
      (fun op => if op.isUpload then op else if op.inFlight then op.unclaimed else op) := by
    intro id
    unfold recoverMutations Queue.find
    simp only [Table.get_mapRows]
    cases hupload : j.queue.uploads.get id with
    | some row => rfl
    | none =>
      cases hrow : j.queue.mutations.get id with
      | none => rfl
      | some row =>
        have hstate : row.state = row.body.state := congrArg MutationRow.state (ht.mutation hrow).1
        simp only [Option.map_some, Operation.isUpload, Operation.inFlight, hstate]
        split <;> simp_all [Operation.unclaimed]
  refine ⟨⟨?_, ?_, ?_, ?_⟩, hfind, ?_, rfl, rfl, rfl, rfl, rfl⟩
  · intro id row hrow
    exact ht.upload hrow
  · intro id row hrow
    unfold recoverMutations at hrow
    simp only [Table.get_mapRows, Option.map_eq_some_iff] at hrow
    obtain ⟨old, hold, rfl⟩ := hrow
    obtain ⟨hrow, hid⟩ := ht.mutation hold
    split
    · refine ⟨?_, hid⟩
      rw [hrow]
    · exact ⟨hrow, hid⟩
  · intro id row hrow
    unfold recoverMutations
    simp only [Table.get_mapRows, ht.disjoint hrow, Option.map_none]
  · intro id
    rw [hfind]
    show j.queue.writeQueue.get id = _
    rw [ht.queue]
    cases hop : j.queue.find id with
    | none => rfl
    | some op =>
      simp only [Option.map_some]
      split
      · rfl
      · split
        · next hflight =>
          have hcomplete := Operation.not_isComplete_of_inFlight hflight
          cases op <;>
            simp_all [Operation.unclaimed, Operation.isComplete, Operation.sequence,
              UploadState.isComplete, MutationState.isComplete]
        · rfl
  · intro op
    split
    · exact .inl rfl
    · split
      · next hflight => exact .inr ⟨hflight, rfl⟩
      · exact .inl rfl

/-- `UploadJournal::open` gives the uploads in flight up. -/
theorem recoverUploads_recovered (hinv : Inv ok [] j) :
    j.queue.Recovered j.recoverUploads.queue
      (fun op => if op.isUpload && op.inFlight then op.unclaimed else op) := by
  have ht := hinv.tidy
  have hfind : ∀ id, j.recoverUploads.queue.find id = (j.queue.find id).map
      (fun op => if op.isUpload && op.inFlight then op.unclaimed else op) := by
    intro id
    unfold recoverUploads Queue.find
    simp only [Table.get_mapRows]
    cases hupload : j.queue.uploads.get id with
    | none =>
      cases hrow : j.queue.mutations.get id with
      | none => rfl
      | some row => rfl
    | some row =>
      have hstate : row.state = row.body.state := congrArg UploadRow.state (ht.upload hupload).1
      simp only [Option.map_some, Operation.isUpload, Operation.inFlight, hstate, Bool.true_and]
      split <;> simp_all [Operation.unclaimed]
  refine ⟨⟨?_, ?_, ?_, ?_⟩, hfind, ?_, rfl, rfl, rfl, rfl, rfl⟩
  · intro id row hrow
    unfold recoverUploads at hrow
    simp only [Table.get_mapRows, Option.map_eq_some_iff] at hrow
    obtain ⟨old, hold, rfl⟩ := hrow
    obtain ⟨hrow, hid⟩ := ht.upload hold
    split
    · refine ⟨?_, hid⟩
      rw [hrow]
    · exact ⟨hrow, hid⟩
  · intro id row hrow
    exact ht.mutation hrow
  · intro id row hrow
    unfold recoverUploads at hrow
    simp only [Table.get_mapRows, Option.map_eq_some_iff] at hrow
    obtain ⟨old, hold, rfl⟩ := hrow
    exact ht.disjoint hold
  · intro id
    rw [hfind]
    show j.queue.writeQueue.get id = _
    rw [ht.queue]
    cases hop : j.queue.find id with
    | none => rfl
    | some op =>
      simp only [Option.map_some]
      split
      · next hboth =>
        have hcomplete := Operation.not_isComplete_of_inFlight (Bool.and_eq_true_iff.mp hboth).2
        cases op <;>
          simp_all [Operation.unclaimed, Operation.isComplete, Operation.sequence,
            UploadState.isComplete, MutationState.isComplete]
      · rfl
  · intro op
    split
    · next hboth => exact .inr ⟨(Bool.and_eq_true_iff.mp hboth).2, rfl⟩
    · exact .inl rfl

/-- An upload whose bytes are still fetched is not in flight, so nobody holds it. -/
theorem recoverPreparations_find (hinv : Inv ok [] j) :
    j.queue.Recovered j.recoverPreparations.queue id := by
  have ht := hinv.tidy
  have hrows : ∀ {x : Uuid} {row : UploadRow}, j.queue.uploads.get x = some row →
      (if row.state = .preparing then { row with body := { row.body with attempt := none } }
        else row) = row := by
    intro x row hrow
    split
    · next hpreparing =>
      have hstate : row.state = row.body.state := congrArg UploadRow.state (ht.upload hrow).1
      have hattempt : row.body.attempt = none := by
        have hiff := hinv.queue.attempt (Queue.find_of_upload hrow)
        simp only [Operation.attempt, Operation.inFlight, ← hstate, hpreparing,
          UploadState.inFlight] at hiff
        simpa using hiff
      cases row with
      | mk sequence state body =>
        cases body
        simp_all
    · rfl
  have hget : ∀ x, j.recoverPreparations.queue.uploads.get x = j.queue.uploads.get x := by
    intro x
    unfold recoverPreparations
    simp only [Table.get_mapRows]
    cases hupload : j.queue.uploads.get x with
    | none => rfl
    | some row =>
      simp only [Option.map_some]
      rw [hrows hupload]
  have hfind : ∀ x, j.recoverPreparations.queue.find x = j.queue.find x := by
    intro x
    unfold Queue.find
    rw [hget]
    rfl
  refine ⟨⟨?_, ?_, ?_, ?_⟩, ?_, fun op => .inl rfl, rfl, rfl, rfl, rfl, rfl⟩
  · intro x row hrow
    rw [hget] at hrow
    exact ht.upload hrow
  · intro x row hrow
    exact ht.mutation hrow
  · intro x row hrow
    rw [hget] at hrow
    exact ht.disjoint hrow
  · intro x
    rw [hfind]
    exact ht.queue x
  · intro x
    rw [hfind, Option.map_id]
    rfl

/-- `preparation::migrate` closes the gate of a replacement whose upload has no bytes yet. -/
theorem closeReaders_inv (hinv : Inv ok [] j) : Inv ok [] j.closeReaders := by
  -- The upload behind a gate that is closed is neither in flight nor complete.
  have hrecord : ∀ {id : Uuid} {record' : ReplacementRecord},
      j.closeReaders.fileReplacements.get id = some record' →
      ∃ record, j.fileReplacements.get id = some record ∧ (record' = record ∨
        (record' = { record with localReady := false } ∧
          ∀ op, j.queue.find id = some op → op.inFlight = false ∧ op.isComplete = false)) := by
    intro id record' h
    unfold closeReaders at h
    simp only [Table.get_mapRows, Option.map_eq_some_iff] at h
    obtain ⟨record, hget, rfl⟩ := h
    refine ⟨record, hget, ?_⟩
    split
    · next hboth =>
      refine .inr ⟨rfl, ?_⟩
      obtain ⟨hunprepared, _⟩ := Bool.and_eq_true_iff.mp hboth
      obtain ⟨row, hrow, hempty⟩ : ∃ row, j.queue.uploads.get id = some row ∧
          decide (row.body.sha256 = "") = true := by
        cases hget : j.queue.uploads.get id with
        | none =>
          rw [hget] at hunprepared
          cases hunprepared
        | some row =>
          rw [hget] at hunprepared
          exact ⟨row, rfl, hunprepared⟩
      intro op hop
      rw [Queue.find_of_upload hrow] at hop
      cases hop
      have hwell : row.body.WellFormed ok := hinv.queue.wellFormed (Queue.find_of_upload hrow)
      rw [decide_eq_true_eq] at hempty
      rcases hwell.digest with hdigest | hstate | ⟨hstate, _⟩
      · rw [hempty] at hdigest
        cases hdigest
      · simp [Operation.inFlight, Operation.isComplete, hstate, UploadState.inFlight,
          UploadState.isComplete]
      · simp [Operation.inFlight, Operation.isComplete, hstate, UploadState.inFlight,
          UploadState.isComplete]
    · exact .inl rfl
  refine { hinv with
    objects := hinv.objects
    replacements := ?_
    cleanups := ?_
    held := fun hr hready hnot => (hinv.held hr hready hnot).congr rfl
    unsealed := ?_ }
  · intro id record' h
    obtain ⟨record, hget, rfl | ⟨rfl, hidle⟩⟩ := hrecord h
    · exact (hinv.replacements hget).congr rfl rfl
    · have hsound := hinv.replacements hget
      exact ⟨hsound.key, hsound.upload, fun hnot hincomplete => by
        obtain ⟨howner, hsource, hvictim⟩ := hsound.running hnot hincomplete
        exact ⟨howner, hsource, hvictim⟩, hsound.cleanup, hsound.rescuedDone, fun _ => hidle,
        hsound.awaits, hsound.done⟩
  · intro a b x y hx hy heq
    obtain ⟨x₀, hx₀, hx'⟩ := hrecord hx
    obtain ⟨y₀, hy₀, hy'⟩ := hrecord hy
    refine hinv.cleanups hx₀ hy₀ ?_
    have howner : ∀ {r r₀ : ReplacementRecord} {P : Prop},
        (r = r₀ ∨ (r = { r₀ with localReady := false } ∧ P)) → r.cleanupObject = r₀.cleanupObject := by
      rintro r r₀ P (rfl | ⟨rfl, _⟩)
      · rfl
      · rfl
    rw [← howner hx', ← howner hy']
    exact heq
  · intro id r hr hdigest hnot
    obtain ⟨hfile, hsome⟩ := hinv.unsealed hr hdigest hnot
    refine ⟨hfile, ?_⟩
    unfold closeReaders
    simp only [Table.get_mapRows, Option.isSome_map]
    exact hsome

/-! ## The whole opening -/

/-- Nobody holds an operation. -/
def Queue.Idle (q : Queue) : Prop := ∀ id op, q.find id = some op → op.inFlight = false

theorem Leads.idle (h : Leads ok (fun _ _ => False) gained underway j j') (hidle : j.queue.Idle) :
    j'.queue.Idle := by
  intro id op hop
  cases hflight : op.inFlight with
  | false => rfl
  | true =>
    rcases h.evolves.flight id op hop hflight with ⟨old, hold, hin, _⟩ | ⟨_, hfalse, _⟩
    · rw [hidle id old hold] at hin
      cases hin
    · cases hfalse

theorem recoverReader_leads (hinv : Inv ok [] j) {id : Uuid} (h : j.recoverReader id = .ok j') :
    Leads ok claimed gained [] j j' := by
  unfold recoverReader at h
  split at h
  · cases h
  · obtain ⟨_, _, h⟩ := bind_eq_ok h
    obtain ⟨_, _, h⟩ := bind_eq_ok h
    split at h
    · cases h
      exact .refl hinv
    · exact releaseReplacementReaders_leads hinv h

/-- What the opening has done so far. -/
def Opening (ok : String → Prop) (start j : UploadJournal) : Prop :=
  Leads ok (fun _ _ => False) (fun _ _ => False) [] start j

/-- `UploadJournal::open` keeps the invariant, and ends with a queue that nobody works on. -/
theorem reopen_path {start : UploadJournal} (hstart : Inv ok [] start) (size : Uuid → Nat) :
    Commits.Triple (fun j => j = start) (reopen size) (Opening ok start)
      (fun _ j => Opening ok start j ∧ j.queue.Idle) := by
  -- A later commit leaves the queue idle.
  have hloop : ∀ {tx : UploadJournal → Except JournalError UploadJournal},
      (∀ j j', Inv ok [] j → tx j = .ok j' →
        Leads ok (fun _ _ => False) (fun _ _ => False) [] j j') →
      Commits.Triple (fun j => Opening ok start j ∧ j.queue.Idle) (Commits.commit tx)
        (Opening ok start) (fun _ j => Opening ok start j ∧ j.queue.Idle) := by
    intro tx htx
    apply Commits.triple_commit
    rintro j ⟨hopening, hidle⟩ j' h
    have hleads := htx j j' hopening.inv h
    exact ⟨hopening.trans hleads, hopening.trans hleads, hleads.idle hidle⟩
  unfold reopen
  refine Commits.triple_bind (Q := fun _ j => Opening ok start j ∧
    ∀ id r, j.queue.find id = some (.mutation r) → (Operation.mutation r).inFlight = false) ?_ ?_
  · apply Commits.triple_commit
    rintro j rfl j' h
    cases h
    have hrecovered := recoverMutations_recovered hstart
    have hleads : Opening ok j j.recoverMutations := hrecovered.leads hstart
    refine ⟨hleads, hleads, ?_⟩
    intro id r hr
    obtain ⟨old, _, heq⟩ := Option.map_eq_some_iff.mp ((hrecovered.find id).symm.trans hr)
    cases hold : old with
    | upload u =>
      rw [hold] at heq
      cases heq
    | mutation m =>
      rw [hold] at heq
      cases hflight : (Operation.mutation m).inFlight with
      | true =>
        simp only [Operation.isUpload, hflight] at heq
        cases heq
        rfl
      | false =>
        simp only [Operation.isUpload, hflight] at heq
        cases heq
        exact hflight
  intro _
  refine Commits.triple_bind (Q := fun _ j => Opening ok start j ∧
    ∀ id r, j.queue.find id = some (.mutation r) → (Operation.mutation r).inFlight = false) ?_ ?_
  · apply Commits.triple_commit
    rintro j ⟨hopening, hidle⟩ j' h
    cases h
    have hrecovered := recoverPreparations_find hopening.inv
    have hleads := hopening.trans (hrecovered.leads hopening.inv)
    refine ⟨hleads, hleads, ?_⟩
    intro id r hr
    rw [hrecovered.find, Option.map_id] at hr
    exact hidle id r hr
  intro _
  refine Commits.triple_bind (Q := fun _ j => Opening ok start j ∧
    ∀ id r, j.queue.find id = some (.mutation r) → (Operation.mutation r).inFlight = false) ?_ ?_
  · apply Commits.triple_commit
    rintro j ⟨hopening, hidle⟩ j' h
    cases h
    have hleads : Opening ok start j.closeReaders :=
      hopening.trans (.of_inv (closeReaders_inv hopening.inv) rfl rfl (.of_same rfl rfl rfl))
    exact ⟨hleads, hleads, hidle⟩
  intro _
  refine Commits.triple_bind (Q := fun _ j => Opening ok start j ∧ j.queue.Idle) ?_ ?_
  · apply Commits.triple_commit
    rintro j ⟨hopening, hidle⟩ j' h
    cases h
    have hrecovered := recoverUploads_recovered hopening.inv
    have hleads : Opening ok start j.recoverUploads :=
      hopening.trans (hrecovered.leads hopening.inv)
    refine ⟨hleads, hleads, ?_⟩
    intro id op hop
    obtain ⟨old, hold, heq⟩ := Option.map_eq_some_iff.mp ((hrecovered.find id).symm.trans hop)
    cases old with
    | upload u =>
      cases hflight : (Operation.upload u).inFlight with
      | true =>
        simp only [Operation.isUpload, hflight] at heq
        cases heq
        rfl
      | false =>
        simp only [Operation.isUpload, hflight] at heq
        cases heq
        exact hflight
    | mutation m =>
      cases heq
      exact hidle id m hold
  intro _
  refine Commits.triple_bind (Q := fun _ j => Opening ok start j ∧ j.queue.Idle) ?_ ?_
  · exact Commits.triple_read (fun j h _ _ => h)
  intro files
  refine Commits.triple_bind (Q := fun _ j => Opening ok start j ∧ j.queue.Idle) ?_ ?_
  · exact Commits.triple_forEach files (fun id _ => hloop (fun j j' hinv h => recoverFile_leads hinv h))
  intro _
  refine Commits.triple_bind (Q := fun _ j => Opening ok start j ∧ j.queue.Idle) ?_ ?_
  · exact Commits.triple_read (fun j h _ _ => h)
  intro unlinked
  refine Commits.triple_bind (Q := fun _ j => Opening ok start j ∧ j.queue.Idle) ?_ ?_
  · exact Commits.triple_forEach unlinked
      (fun id _ => hloop (fun j j' hinv h => releaseUnlinkedReaders_leads hinv h))
  intro _
  refine Commits.triple_bind (Q := fun _ j => Opening ok start j ∧ j.queue.Idle) ?_ ?_
  · exact Commits.triple_read (fun j h _ _ => h)
  intro replaced
  exact Commits.triple_forEach replaced
    (fun id _ => hloop (fun j j' hinv h => recoverReader_leads hinv h))

end Cirrove.Journal
