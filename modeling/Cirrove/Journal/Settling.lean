import Cirrove.Journal.Moves

/-!
# Everything that can be bound is bound

`resolve_ready_generations` runs before every claim. It binds the operations whose receipts are
there, in two loops of at most `resolveLimit` transactions each. Binding one operation leaves the
others as they were, so what was ready when the loop began is ready when its turn comes.
-/

namespace Cirrove.Journal

open Cirrove.Library

variable {ok : String → Prop} {start j j' : UploadJournal} {env : Env} {op : Op}

/-! ## What waits -/

/-- The destination of an operation can be resolved. -/
def DestinationWaits (q : Queue) (id : Uuid) : Prop :=
  ∃ op row, q.find id = some op ∧ op.isComplete = false ∧
    q.writeDestinations.get id = some row ∧ row.resolved = false ∧
    row.predecessor.all q.completed = true

/-- The base of an operation can be resolved. -/
def BaseWaits (q : Queue) (w : Queue.Waiting) : Prop :=
  ∃ op b, q.find w.id = some op ∧ op.isUpload = w.isUpload ∧ op.isComplete = false ∧
    op.waiting = true ∧ op.failed = false ∧ op.base = some b ∧ b.resolved = false ∧
    q.completed b.predecessor = true

theorem Binds.completed {gained : Uuid → Resource → Prop} {id : Uuid} (h : Binds ok gained j j' id)
    (hinv : Inv ok [] j) {p : Uuid} (hp : j.queue.completed p = true) :
    j'.queue.completed p = true := by
  have hinv' := (@Binds.reaches _ _ _ _ _ h (fun _ _ => False)).inv
  obtain ⟨x, hx, hcomplete⟩ := (Queue.completed_iff hinv.tidy).mp hp
  obtain ⟨x', hx', hcont⟩ := (@Binds.reaches _ _ _ _ _ h (fun _ _ => False)).evolves.kept p x hx
  rw [hcont.frozen hcomplete] at hx'
  exact (Queue.completed_iff hinv'.tidy).mpr ⟨x, hx', hcomplete⟩

/-- The others wait as before. -/
theorem Binds.destinationWaits {gained : Uuid → Resource → Prop} {id other : Uuid}
    (h : Binds ok gained j j' id) (hinv : Inv ok [] j) (hne : other ≠ id)
    (hwaits : DestinationWaits j.queue other) : DestinationWaits j'.queue other := by
  obtain ⟨x, row, hx, hincomplete, hrow, hunresolved, hpredecessor⟩ := hwaits
  refine ⟨x, row, by rw [h.others other hne, hx], hincomplete,
    by rw [h.destinations other hne, hrow], hunresolved, ?_⟩
  cases hprevious : row.predecessor with
  | none => rfl
  | some p =>
    rw [hprevious] at hpredecessor
    exact h.completed hinv hpredecessor

theorem Binds.baseWaits {gained : Uuid → Resource → Prop} {id : Uuid} {w : Queue.Waiting}
    (h : Binds ok gained j j' id) (hinv : Inv ok [] j) (hne : w.id ≠ id)
    (hwaits : BaseWaits j.queue w) : BaseWaits j'.queue w := by
  obtain ⟨x, b, hx, hkind, hincomplete, hwaiting, hfailed, hbase, hunresolved, hp⟩ := hwaits
  exact ⟨x, b, by rw [h.others w.id hne, hx], hkind, hincomplete, hwaiting, hfailed, hbase,
    hunresolved, h.completed hinv hp⟩

theorem mem_readyDestinations (ht : j.queue.Tidy) {w : Queue.Waiting} :
    w ∈ j.queue.readyDestinations → DestinationWaits j.queue w.id := by
  intro hw
  unfold Queue.readyDestinations at hw
  rw [mem_orderBy, Table.mem_select] at hw
  obtain ⟨id, row, hrow, hselect⟩ := hw
  rw [ht.queue id] at hselect
  cases hfind : j.queue.find id with
  | none =>
    rw [hfind] at hselect
    cases hselect
  | some x =>
    rw [hfind] at hselect
    simp only [Option.map_some] at hselect
    split at hselect
    · next hready =>
      simp only [Bool.and_eq_true, Bool.not_eq_true'] at hready
      cases hselect
      exact ⟨x, row, hfind, hready.1.2, hrow, hready.1.1, hready.2⟩
    · cases hselect

theorem mem_readyGenerations (ht : j.queue.Tidy) {w : Queue.Waiting}
    (hw : w ∈ j.queue.readyGenerations) : BaseWaits j.queue w := by
  unfold Queue.readyGenerations at hw
  rw [mem_orderBy, List.mem_append, Table.mem_select, Table.mem_select] at hw
  have hbase : ∀ {base : Option WriteBase}, j.queue.baseReady base = true →
      ∃ b, base = some b ∧ b.resolved = false ∧ j.queue.completed b.predecessor = true := by
    intro base hready
    cases base with
    | none => cases hready
    | some b =>
      have hboth : (!b.resolved && j.queue.completed b.predecessor) = true := hready
      rw [Bool.and_eq_true, Bool.not_eq_true'] at hboth
      exact ⟨b, rfl, hboth⟩
  rcases hw with ⟨id, row, hrow, hselect⟩ | ⟨id, row, hrow, hselect⟩
  · split at hselect
    · next hready =>
      cases hselect
      obtain ⟨hstate, hready⟩ := Bool.and_eq_true_iff.mp hready
      obtain ⟨b, hb, hunresolved, hp⟩ := hbase hready
      have hsame : row.state = row.body.state := congrArg UploadRow.state (ht.upload hrow).1
      rw [hsame] at hstate
      refine ⟨.upload row.body, b, Queue.find_of_upload hrow, rfl, ?_, ?_, ?_, hb, hunresolved, hp⟩ <;>
        simp only [Bool.or_eq_true, decide_eq_true_eq] at hstate <;>
        rcases hstate with hstate | hstate <;>
        simp [Operation.isComplete, Operation.waiting, Operation.failed, hstate, UploadState.isComplete]
    · cases hselect
  · split at hselect
    · next hready =>
      cases hselect
      obtain ⟨hstate, hready⟩ := Bool.and_eq_true_iff.mp hready
      obtain ⟨b, hb, hunresolved, hp⟩ := hbase hready
      have hsame : row.state = row.body.state := congrArg MutationRow.state (ht.mutation hrow).1
      rw [hsame, decide_eq_true_eq] at hstate
      have hnone : j.queue.uploads.get id = none := by
        cases hupload : j.queue.uploads.get id with
        | none => rfl
        | some upload =>
          rw [ht.disjoint hupload] at hrow
          cases hrow
      refine ⟨.mutation row.body, b, Queue.find_of_mutation hnone hrow, rfl, ?_, ?_, ?_, hb,
        hunresolved, hp⟩ <;>
        simp [Operation.isComplete, Operation.waiting, Operation.failed, hstate,
          MutationState.isComplete]
    · cases hselect

/-! ## Every operation once -/

theorem readyDestinations_nodup (q : Queue) : (q.readyDestinations.map Queue.Waiting.id).Nodup := by
  unfold Queue.readyDestinations
  rw [((orderBy_perm _ _).map _).nodup_iff]
  apply Table.select_map_nodup
  intro id row w hw
  split at hw
  · split at hw
    · cases hw
      rfl
    · cases hw
  · cases hw

theorem readyGenerations_nodup {q : Queue} (ht : q.Tidy) :
    (q.readyGenerations.map Queue.Waiting.id).Nodup := by
  unfold Queue.readyGenerations
  rw [((orderBy_perm _ _).map _).nodup_iff, List.map_append, List.nodup_append]
  refine ⟨?_, ?_, ?_⟩
  · apply Table.select_map_nodup
    intro id row w hw
    split at hw
    · cases hw
      rfl
    · cases hw
  · apply Table.select_map_nodup
    intro id row w hw
    split at hw
    · cases hw
      rfl
    · cases hw
  · -- An identity is in one of the two tables.
    intro a ha b hb hab
    obtain ⟨w, hw, rfl⟩ := List.mem_map.mp ha
    obtain ⟨w', hw', rfl⟩ := List.mem_map.mp hb
    obtain ⟨id, row, hrow, hselect⟩ := (Table.mem_select _ _ _).mp hw
    obtain ⟨id', row', hrow', hselect'⟩ := (Table.mem_select _ _ _).mp hw'
    split at hselect
    · split at hselect'
      · cases hselect
        cases hselect'
        simp only at hab
        subst hab
        rw [ht.disjoint hrow] at hrow'
        cases hrow'
      · cases hselect'
    · cases hselect

/-! ## The loops -/

theorem Bound.inv (h : Bound ok start j) (hstart : Inv ok [] start) : Inv ok [] j := by
  cases h with
  | refl => exact hstart
  | tail _ hnext =>
    obtain ⟨_, _, hbinds⟩ := hnext
    exact (@Binds.reaches _ _ _ _ _ hbinds (fun _ _ => False)).inv

/-- What binding an operation does not change. -/
def KeptByBinding (ok : String → Prop) (P : UploadJournal → Prop) : Prop :=
  ∀ {gained : Uuid → Resource → Prop} {id : Uuid} {j j' : UploadJournal},
    Binds ok gained j j' id → P j → P j'

variable {P : UploadJournal → Prop}

/-- The operations that are left in the loop over the destinations. -/
def DestinationsLeft (ok : String → Prop) (P : UploadJournal → Prop) (start : UploadJournal)
    (rest : List Queue.Waiting) (j : UploadJournal) : Prop :=
  Bound ok start j ∧ P j ∧ (rest.map Queue.Waiting.id).Nodup ∧
    ∀ w ∈ rest, DestinationWaits j.queue w.id

theorem resolveDestination_left (hkept : KeptByBinding ok P) (hstart : Inv ok [] start)
    (w : Queue.Waiting) (rest : List Queue.Waiting) :
    Commits.Triple (DestinationsLeft ok P start (w :: rest))
      (Commits.commit (fun j => j.resolveDestination w.id))
      (fun j => Bound ok start j ∧ P j)
      (fun _ => DestinationsLeft ok P start rest) := by
  apply Commits.triple_commit
  rintro j ⟨hbound, hP, hnodup, hwaits⟩ j' h
  have hinv := hbound.inv hstart
  obtain ⟨x, row, hx, hincomplete, hrow, hunresolved, hready⟩ := hwaits w List.mem_cons_self
  have hbinds : Binds ok (fun y k => y = w.id ∧ Reveals j y k) j j' w.id :=
    (resolveDestination_binds hinv hx hincomplete hrow hunresolved hready
      (fun k hk => ⟨rfl, hk⟩) h).1
  have hnext : Bound ok start j' := hbound.tail ⟨_, hinv, hbinds⟩
  rw [List.map_cons, List.nodup_cons] at hnodup
  refine ⟨⟨hnext, hkept hbinds hP⟩, hnext, hkept hbinds hP, hnodup.2, ?_⟩
  intro w' hw'
  have hne : w'.id ≠ w.id := by
    intro heq
    exact hnodup.1 (heq ▸ List.mem_map_of_mem hw')
  exact hbinds.destinationWaits hinv hne (hwaits w' (List.mem_cons_of_mem _ hw'))

theorem resolveReadyDestinations_path (hkept : KeptByBinding ok P) (hstart : Inv ok [] start) :
    Commits.Triple (fun j => Bound ok start j ∧ P j) UploadJournal.resolveReadyDestinations
      (fun j => Bound ok start j ∧ P j) (fun settled j => Bound ok start j ∧ P j ∧
        (settled = true → j.queue.readyDestinations = [])) := by
  unfold UploadJournal.resolveReadyDestinations
  refine Commits.triple_bind (Q := DestinationsLeft ok P start) ?_ ?_
  · apply Commits.triple_read
    rintro j ⟨hbound, hP⟩ rows hrows
    cases hrows
    have hsub := List.take_sublist UploadJournal.resolveLimit j.queue.readyDestinations
    refine ⟨hbound, hP, (hsub.map _).nodup (readyDestinations_nodup _), ?_⟩
    intro w hw
    exact mem_readyDestinations (hbound.inv hstart).tidy (hsub.subset hw)
  · intro rows
    refine Commits.triple_bind
      (Commits.triple_forEach_rest (resolveDestination_left hkept hstart) rows) ?_
    intro _
    apply Commits.triple_read
    rintro j ⟨hbound, hP, _, _⟩ settled hsettled
    cases hsettled
    exact ⟨hbound, hP, List.isEmpty_iff.mp⟩

/-- The operations that are left in the loop over the bases. -/
def BasesLeft (ok : String → Prop) (P : UploadJournal → Prop) (start : UploadJournal)
    (rest : List Queue.Waiting) (j : UploadJournal) : Prop :=
  Bound ok start j ∧ P j ∧ (rest.map Queue.Waiting.id).Nodup ∧ ∀ w ∈ rest, BaseWaits j.queue w

/-- One turn binds its operation, or lets it fail. -/
theorem resolveGeneration_binds (hinv : Inv ok [] j) {w : Queue.Waiting}
    (hwaits : BaseWaits j.queue w)
    (h : (if w.isUpload then j.resolveUpload w.id else j.resolveMutation w.id) = .ok j') :
    Binds ok (fun x k => x = w.id ∧ Reveals j x k) j j' w.id ∧
      ∃ x, j'.queue.find w.id = some x ∧ (x.failed = true ∨ baseBound x.base = true) := by
  obtain ⟨x, b, hx, hkind, _, hwaiting, hfailed, hbase, hunresolved, hcompleted⟩ := hwaits
  cases x with
  | upload r =>
    rw [← hkind] at h
    simp only [Operation.waiting, Operation.failed, Bool.or_eq_true, decide_eq_true_eq,
      decide_eq_false_iff_not] at hwaiting hfailed
    exact resolveUpload_binds hinv hx (hwaiting.resolve_right hfailed) hbase hunresolved
      (fun k hk => ⟨rfl, _, hx, .inl hk⟩) h
  | mutation r =>
    rw [← hkind] at h
    simp only [Operation.waiting, Operation.failed, Bool.or_eq_true, decide_eq_true_eq,
      decide_eq_false_iff_not] at hwaiting hfailed
    exact resolveMutation_binds hinv hx (hwaiting.resolve_right hfailed) hbase hunresolved hcompleted
      (fun k hk => ⟨rfl, _, hx, .inl hk⟩) h

theorem resolveGeneration_left (hkept : KeptByBinding ok P) (hstart : Inv ok [] start)
    (w : Queue.Waiting) (rest : List Queue.Waiting) :
    Commits.Triple (BasesLeft ok P start (w :: rest)) (UploadJournal.resolveGeneration w)
      (fun j => Bound ok start j ∧ P j) (fun _ => BasesLeft ok P start rest) := by
  apply Commits.triple_commit
  rintro j ⟨hbound, hP, hnodup, hwaits⟩ j' h
  have hinv := hbound.inv hstart
  obtain ⟨hbinds, _⟩ := resolveGeneration_binds hinv (hwaits w List.mem_cons_self) h
  have hnext : Bound ok start j' := hbound.tail ⟨_, hinv, hbinds⟩
  rw [List.map_cons, List.nodup_cons] at hnodup
  refine ⟨⟨hnext, hkept hbinds hP⟩, hnext, hkept hbinds hP, hnodup.2, ?_⟩
  intro w' hw'
  have hne : w'.id ≠ w.id := by
    intro heq
    exact hnodup.1 (heq ▸ List.mem_map_of_mem hw')
  exact hbinds.baseWaits hinv hne (hwaits w' (List.mem_cons_of_mem _ hw'))

/-- `resolve_ready_generations` binds what it can, and keeps what binding does not change. -/
theorem resolveReadyGenerations_keeps (hkept : KeptByBinding ok P) (hstart : Inv ok [] start) :
    Commits.Triple (fun j => Bound ok start j ∧ P j) UploadJournal.resolveReadyGenerations
      (fun j => Bound ok start j ∧ P j) (fun settled j => Bound ok start j ∧ P j ∧
        (settled = true → j.queue.readyGenerations = [])) := by
  unfold UploadJournal.resolveReadyGenerations
  refine Commits.triple_bind (resolveReadyDestinations_path hkept hstart) ?_
  intro destinations
  refine Commits.triple_bind (Q := BasesLeft ok P start) ?_ ?_
  · apply Commits.triple_read
    rintro j ⟨hbound, hP, _⟩ rows hrows
    cases hrows
    have ht := (hbound.inv hstart).tidy
    have hsub := List.take_sublist UploadJournal.resolveLimit j.queue.readyGenerations
    refine ⟨hbound, hP, (hsub.map _).nodup (readyGenerations_nodup ht), ?_⟩
    intro w hw
    exact mem_readyGenerations ht (hsub.subset hw)
  · intro rows
    refine Commits.triple_bind
      (Commits.triple_forEach_rest (resolveGeneration_left hkept hstart) rows) ?_
    intro _
    refine Commits.triple_bind (Q := fun settled j => Bound ok start j ∧ P j ∧
      (settled = true → j.queue.readyGenerations = [])) ?_ ?_
    · apply Commits.triple_read
      rintro j ⟨hbound, hP, _, _⟩ settled hsettled
      cases hsettled
      exact ⟨hbound, hP, List.isEmpty_iff.mp⟩
    · intro settled
      apply Commits.triple_pure
      rintro j ⟨hbound, hP, hempty⟩
      exact ⟨hbound, hP, fun hboth => hempty (Bool.and_eq_true_iff.mp hboth).2⟩

end Cirrove.Journal
