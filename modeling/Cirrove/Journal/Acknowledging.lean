import Cirrove.Journal.Outcomes
import Cirrove.Journal.Retaining

/-!
# Receipts that are recorded

A worker reports a receipt for the change it holds. The queue takes it in whatever state the journal
is: the change has its row and its place in the queue. What may refuse it are the names, when the
receipt confirms a cloud item for the object of the change: `Namespace.Takes` says when they do
not, and `acknowledgeMutation_iff` that nothing else is refused.
-/

namespace Cirrove.Journal

open Cirrove.Library

variable {ok : String → Prop} {underway : List Uuid} {lowercase : String → String}
  {n : Namespace} {j : UploadJournal} {id attempt : Uuid}

/-! ## Names -/

/-- The object takes this cloud item for its own: it has none or the same one, of its kind, that no
    other object owns, and its revisions are not spent. -/
structure NamespaceObject.Takes (n : Namespace) (o : NamespaceObject) (remote : Node) : Prop where
  same : ∀ old, o.remote = some old → old.id = remote.id
  kind : remote.kind = o.node.kind
  revision : o.revision + 1 < 2 ^ 64
  owner : o.remoteOwned = true → ∀ owner, n.remote.get (o.scope, remote.id) = some owner →
    owner = o.id

/-- The names take an operation's confirmed item: the operation has no object, its object has
    confirmed a later one, or it takes this one. -/
def Namespace.Takes (n : Namespace) (operation : Uuid) (sequence : Nat) (remote : Node) : Prop :=
  ∀ o row, n.operations.get operation = some o → n.objects.get o = some row →
    row.body.remoteSequence < sequence → row.body.Takes n remote

/-- Another state of a stored object, with the same place, file and last operation. -/
structure NamespaceObject.Restated (old new : NamespaceObject) : Prop where
  id : new.id = old.id
  scope : new.scope = old.scope
  names : new.names = old.names
  parent : new.node.parentId = old.node.parentId
  name : new.node.name = old.node.name
  unlinked : new.unlinked = old.unlinked
  follows : new.followsRemote = old.followsRemote
  owned : new.remoteOwned = old.remoteOwned
  file : new.workingFile = old.workingFile
  latest : new.latest = old.latest
  remote : old.remote.isSome = true → new.remote.isSome = true

/-- Another object owns the cloud item of this one. -/
def NamespaceObject.disowned (n : Namespace) (o : NamespaceObject) : Bool :=
  o.remoteOwned && o.remote.any (fun node => (n.remote.get (o.scope, node.id)).any (· ≠ o.id))

/-- Of all that storing an object checks, only the owner of its cloud item is left to be checked
    when the object is stored already. -/
theorem Namespace.Indexed.save_eq (hindex : n.Indexed lowercase) {row : ObjectRow}
    {o : NamespaceObject} (hrow : n.objects.get id = some row) (hsame : row.body.Restated o)
    (hlatest : ∀ p, row.body.latest = some p → n.operations.get p = some id) :
    ∃ slot, n.save lowercase o =
      (check (!o.disowned n) .stale >>= fun () => .ok (n.write slot o)) := by
  have hid : o.id = id := hsame.id.trans (hindex.key hrow)
  obtain ⟨parent, hparent⟩ := Option.isSome_iff_exists.mp (hindex.placed hrow)
  have hplaced : o.node.parentId = some parent := hsame.parent.trans hparent
  have hpolicy : n.policy o.scope = .ok o.names := by
    unfold Namespace.policy
    rw [hsame.scope, hindex.names hrow, hsame.names]
  have hentry : n.entrySlot lowercase o.scope parent o.node.name =
      .ok (o.scope, parent, o.names.fold lowercase o.node.name) := by
    unfold Namespace.entrySlot
    rw [hpolicy]
    rfl
  have hnew : n.checkNewSlot lowercase o = .ok () := by
    unfold Namespace.checkNewSlot
    rw [check_eq_ok, hid, hrow]
    cases hunlinked : o.unlinked <;> cases hfollows : o.followsRemote <;>
      simp [← hsame.unlinked, ← hsame.follows, hunlinked, hfollows, hsame.parent, hsame.name]
  have howned : check (o.remoteOwned || o.unlinked) .storage = .ok () := by
    rw [check_eq_ok, hsame.owned, hsame.unlinked, Bool.or_eq_true]
    exact hindex.owned hrow
  have hfollows : check (!o.followsRemote || !(o.unlinked || o.workingFile.isSome ||
      o.latest.isSome || o.remote.isNone)) .corrupt = .ok () := by
    rw [check_eq_ok]
    cases hfollows : o.followsRemote with
    | false => rfl
    | true =>
      obtain ⟨hlinked, hfile, hnone, hremote⟩ := hindex.follows hrow (hsame.follows ▸ hfollows)
      have hsome := hsame.remote hremote
      simp [hsame.unlinked, hsame.file, hsame.latest, hlinked, hfile, hnone, hsome]
  have hslot : row.body.slot lowercase =
      some (o.scope, parent, o.names.fold lowercase o.node.name) := by
    rw [NamespaceObject.slot, hparent, hsame.scope, hsame.names, hsame.name]
    rfl
  have hfree : check (!(n.entries.get (o.scope, parent, o.names.fold lowercase o.node.name)).any
      (· ≠ o.id) || o.followsRemote || o.unlinked) .stale = .ok () := by
    rw [check_eq_ok, hid, hsame.follows, hsame.unlinked]
    cases hunlinked : row.body.unlinked with
    | true => simp
    | false =>
      cases hfollowing : row.body.followsRemote with
      | true => simp
      | false =>
        -- the name is the object's own
        rw [(hindex.entries _ id).mpr ⟨row, hrow, hunlinked, hfollowing, hslot⟩]
        simp
  have hstored : check ((n.objects.get o.id).isSome || (n.byLocal o.scope o.node.id).isNone)
      .storage = .ok () := by
    rw [check_eq_ok, hid, hrow]
    rfl
  have hfile : check (o.workingFile.isNone || n.allObjects.all (fun x =>
      x.id = o.id || x.workingFile ≠ o.workingFile)) .storage = .ok () := by
    rw [check_eq_ok, hid, hsame.file, Bool.or_eq_true, List.all_eq_true]
    by_cases hnone : row.body.workingFile = none
    · exact .inl (by rw [hnone]; rfl)
    · refine .inr fun x hx => ?_
      obtain ⟨other, found, hfound, hbody⟩ := (Table.mem_select _ _ _).mp hx
      obtain rfl := Option.some.inj hbody
      rw [hindex.key hfound, Bool.or_eq_true, decide_eq_true_eq, decide_eq_true_eq]
      by_cases hother : other = id
      · exact .inl hother
      · refine .inr fun hshared => hother ?_
        have hsome := Option.isSome_iff_ne_none.mpr hnone
        exact hindex.working hfound hrow (hshared ▸ hsome) hshared
  have howner : check (o.latest.all (fun operation =>
      (n.operations.get operation).all (· = o.id))) .stale = .ok () := by
    rw [check_eq_ok, hid, hsame.latest]
    cases hp : row.body.latest with
    | none => rfl
    | some p => simp [hlatest p hp]
  refine ⟨(o.scope, parent, o.names.fold lowercase o.node.name), ?_⟩
  unfold Namespace.save
  simp only [hnew, howned, hfollows, hpolicy, hplaced, hentry, hfree, hstored, hfile, howner,
    bind, Except.bind]
  rfl

theorem NamespaceObject.disowned_eq_false {o : NamespaceObject} :
    o.disowned n = false ↔ (o.remoteOwned = true → ∀ node, o.remote = some node →
      ∀ owner, n.remote.get (o.scope, node.id) = some owner → owner = o.id) := by
  unfold NamespaceObject.disowned
  cases hremote : o.remote with
  | none => simp
  | some node =>
    cases howner : n.remote.get (o.scope, node.id) <;> cases o.remoteOwned <;> simp [howner]

/-- What the confirmation of a cloud item makes of an object. -/
def NamespaceObject.confirmed (o : NamespaceObject) (sequence : Nat) (remote : Node)
    (revision : Nat) : NamespaceObject :=
  { o with
    node := if o.workingFile.isSome then o.node else { o.node with
      etag := remote.etag
      contentVersion := remote.contentVersion
      size := remote.size
      modifiedUnix := remote.modifiedUnix }
    remote := some remote
    remoteSequence := sequence
    revision := revision }

theorem NamespaceObject.confirmed_restated (o : NamespaceObject) (sequence : Nat) (remote : Node)
    (revision : Nat) : o.Restated (o.confirmed sequence remote revision) := by
  refine ⟨rfl, rfl, rfl, ?_, ?_, rfl, rfl, rfl, rfl, rfl, fun _ => rfl⟩ <;>
    simp only [NamespaceObject.confirmed] <;> split <;> rfl

theorem increment_eq_ok {a b : Nat} : increment a = .ok b ↔ a + 1 < 2 ^ 64 ∧ b = a + 1 := by
  unfold increment
  split
  · next h => rw [Except.ok.injEq, eq_comm, and_iff_right h]
  · next h => exact iff_of_false (by rintro ⟨⟩) fun hb => h hb.1

theorem byId_ok {row : ObjectRow} (hrow : n.objects.get id = some row) :
    n.byId id = .ok row.body := by
  unfold Namespace.byId
  rw [hrow]

theorem confirm_eq {operation : Uuid} {sequence : Nat} {remote : Node} {row : ObjectRow}
    (howner : n.operations.get operation = some id) (hrow : n.objects.get id = some row)
    (hearlier : row.body.remoteSequence < sequence) :
    n.confirm lowercase operation sequence remote =
      (check (row.body.remote.all (fun old => old.id = remote.id) &&
        remote.kind = row.body.node.kind && remote.target.isNone) .corrupt >>= fun () =>
          increment row.body.revision >>= fun revision =>
            n.save lowercase (row.body.confirmed sequence remote revision)) := by
  unfold Namespace.confirm
  rw [howner]
  show (n.byId id >>= _) = _
  rw [byId_ok hrow]
  show (if sequence ≤ row.body.remoteSequence then _ else _) = _
  rw [if_neg (Nat.not_le.mpr hearlier)]
  rfl

/-- `namespace::confirm` refuses what `Takes` does not allow, and nothing else. -/
theorem Namespace.Indexed.confirm_iff {operation : Uuid} {sequence : Nat} {remote : Node}
    (hindex : n.Indexed lowercase) (htarget : remote.target = none)
    (hlatest : ∀ id row p, n.objects.get id = some row → row.body.latest = some p →
      n.operations.get p = some id) :
    (∃ n', n.confirm lowercase operation sequence remote = .ok n') ↔
      n.Takes operation sequence remote := by
  cases howner : n.operations.get operation with
  | none =>
    refine iff_of_true ⟨n, by unfold Namespace.confirm; rw [howner]⟩ ?_
    intro o row ho
    rw [howner] at ho
    cases ho
  | some id =>
    obtain ⟨row, hrow⟩ := Option.isSome_iff_exists.mp (hindex.operations howner)
    have honly : n.Takes operation sequence remote ↔
        (row.body.remoteSequence < sequence → row.body.Takes n remote) := by
      refine ⟨fun h => h id row howner hrow, fun h o found ho hfound => ?_⟩
      obtain rfl := Option.some.inj (howner.symm.trans ho)
      obtain rfl := Option.some.inj (hrow.symm.trans hfound)
      exact h
    rw [honly]
    by_cases hearlier : row.body.remoteSequence < sequence
    · rw [confirm_eq howner hrow hearlier]
      have hsave := fun revision => hindex.save_eq hrow
        (row.body.confirmed_restated sequence remote revision) (hlatest id row · hrow)
      constructor
      · rintro ⟨n', h⟩ -
        obtain ⟨_, hcheck, h⟩ := bind_eq_ok h
        obtain ⟨revision, hrevision, h⟩ := bind_eq_ok h
        obtain ⟨slot, hstore⟩ := hsave revision
        rw [hstore] at h
        obtain ⟨_, howned, -⟩ := bind_eq_ok h
        rw [check_eq_ok, Bool.not_eq_true', NamespaceObject.disowned_eq_false] at howned
        rw [check_eq_ok, Bool.and_eq_true, Bool.and_eq_true, decide_eq_true_eq] at hcheck
        refine ⟨fun old hold => ?_, hcheck.1.2, (increment_eq_ok.mp hrevision).1,
          fun howner => howned howner remote rfl⟩
        simpa [hold] using hcheck.1.1
      · intro htakes
        obtain ⟨hremote, hkind, hrevision, howned⟩ := htakes hearlier
        have hcheck : check (row.body.remote.all (fun old => old.id = remote.id) &&
            remote.kind = row.body.node.kind && remote.target.isNone) .corrupt = .ok () := by
          rw [check_eq_ok, hkind, htarget]
          cases hold : row.body.remote with
          | none => simp
          | some old => simp [hremote old hold]
        obtain ⟨slot, hstore⟩ := hsave (row.body.revision + 1)
        have hfree : check (!(row.body.confirmed sequence remote
            (row.body.revision + 1)).disowned n) .stale = .ok () := by
          rw [check_eq_ok, Bool.not_eq_true', NamespaceObject.disowned_eq_false]
          rintro howner node ⟨⟩
          exact howned howner
        rw [hcheck, increment_eq_ok.mpr ⟨hrevision, rfl⟩]
        show ∃ n', n.save lowercase _ = .ok n'
        rw [hstore, hfree]
        exact ⟨_, rfl⟩
    · refine iff_of_true ⟨n, ?_⟩ fun h => absurd h hearlier
      unfold Namespace.confirm
      rw [howner]
      show (n.byId id >>= _) = _
      rw [byId_ok hrow]
      exact if_pos (Nat.le_of_not_lt hearlier)

/-! ## The queue -/

/-- A change that was read has its row. -/
theorem Inv.mutation_row (hinv : Inv ok underway j) {r : MutationRecord}
    (hr : j.queue.mutation id = .ok r) :
    r.id = id ∧ j.queue.mutations.get id = some ⟨r.sequence, r.state, r⟩ := by
  have hfind := (Queue.mutation_ok hinv.tidy).mp hr
  exact ⟨hinv.tidy.id_of_find hfind, (Queue.find_mutation_iff hinv.tidy).mp hfind⟩

/-- A change is stored again unless the names refuse what it confirms. -/
theorem saveMutation_iff (hinv : Inv ok [] j) {old : MutationRecord} (new : MutationRecord)
    (hold : j.queue.mutation id = .ok old) (hid : new.id = id)
    (htarget : ∀ node, new.receipt = some (.upsert node) → node.target = none) :
    (∃ j', j.saveMutation new = .ok j') ↔ (new.state = .applied → ∀ node,
      new.receipt = some (.upsert node) → j.names.Takes id new.sequence node) := by
  subst hid
  obtain ⟨-, hrow⟩ := hinv.mutation_row hold
  obtain ⟨entry, hentry⟩ : ∃ entry, j.queue.writeQueue.get new.id = some entry := by
    rw [hinv.tidy.queue, (Queue.mutation_ok hinv.tidy).mp hold]
    exact ⟨_, rfl⟩
  have hlatest : ∀ o row p, j.names.objects.get o = some row → row.body.latest = some p →
      j.names.operations.get p = some o := fun o row p ho hp =>
    (hinv.latest ho hp).resolve_left List.not_mem_nil
  have hupdate : j.queue.updateMutation new = .ok { j.queue with
      mutations := j.queue.mutations.set new.id ⟨old.sequence, new.state, new⟩ } := by
    unfold Queue.updateMutation
    rw [hrow]
  unfold UploadJournal.saveMutation Queue.queueComplete
  simp only [hupdate, hentry, bind, Except.bind]
  split
  · next node hstate hreceipt =>
    have hconfirmed : (∃ n', j.names.confirm j.settings.lowercase new.id new.sequence node =
        .ok n') ↔ j.names.Takes new.id new.sequence node :=
      hinv.index.confirm_iff (htarget node hreceipt) hlatest
    have honly : (new.state = .applied → ∀ node, new.receipt = some (.upsert node) →
        j.names.Takes new.id new.sequence node) ↔ j.names.Takes new.id new.sequence node := by
      refine ⟨fun h => h hstate node hreceipt, fun h _ other hother => ?_⟩
      obtain rfl : node = other := by
        rw [hreceipt] at hother
        cases hother
        rfl
      exact h
    rw [honly, ← hconfirmed]
    unfold UploadJournal.confirmObject
    constructor
    · rintro ⟨j', h⟩
      obtain ⟨n', hn', -⟩ := bind_eq_ok h
      exact ⟨n', hn'⟩
    · rintro ⟨n', hn'⟩
      dsimp only
      rw [hn']
      exact ⟨_, rfl⟩
  · next hnot =>
    refine iff_of_true ⟨_, rfl⟩ fun hstate node hreceipt => ?_
    exact absurd hreceipt (hnot node hstate)

/-- A receipt for the change says nothing of where a shortcut leads. -/
theorem MutationRequest.target_of_accepts {request : MutationRequest} {node : Node}
    (h : request.accepts (.upsert node) = true) : node.target = none := by
  unfold MutationRequest.accepts at h
  split at h <;> simp_all

/-- The change with its receipt. -/
def MutationRecord.acknowledged (r : MutationRecord) (receipt : MutationReceipt) :
    MutationRecord :=
  { r with
    state := UploadJournal.reconciledState r receipt
    verifiedContent := none
    receipt := some receipt
    attempt := none }

/-- The receipt is recorded with the change, in the state it calls for, unless the names refuse the
    item that it confirms. -/
structure Acknowledges (j : UploadJournal) (id attempt : Uuid) (r : MutationRecord)
    (receipt : MutationReceipt) : Prop where
  taken : (∃ answer, j.acknowledgeMutation id attempt receipt none = .ok answer) ↔
    (UploadJournal.reconciledState r receipt = .applied → ∀ node, receipt = .upsert node →
      j.names.Takes id r.sequence node)
  recorded : ∀ state j', j.acknowledgeMutation id attempt receipt none = .ok (state, j') →
    state = UploadJournal.reconciledState r receipt ∧
    j'.queue.mutations.get id = some ⟨r.sequence, state, r.acknowledged receipt⟩

/-- What is reported of a change that a worker holds, if it is of the change and of the item that
    was reserved for it. -/
theorem acknowledgeMutation_eq {r : MutationRecord} {receipt : MutationReceipt}
    (hr : j.mutationAttempt id attempt = .ok r) (haccepts : r.request.accepts receipt = true)
    (hitem : r.preparedItem.all (· = UploadJournal.receiptItem receipt) = true) :
    j.acknowledgeMutation id attempt receipt none = (j.saveMutation (r.acknowledged receipt)).map
      fun j => (UploadJournal.reconciledState r receipt, j) := by
  have hof : check (r.request.accepts receipt) .corrupt = .ok () := if_pos haccepts
  have hsame : check (r.preparedItem.all (· = UploadJournal.receiptItem receipt)) .corrupt =
    .ok () := if_pos hitem
  unfold UploadJournal.acknowledgeMutation
  simp only [hr, hof, hsame, bind, Except.bind, Option.isSome_none, Bool.false_eq_true, if_false,
    MutationRecord.acknowledged]
  cases j.saveMutation _ <;> rfl

theorem acknowledges (hinv : Inv ok [] j) {r : MutationRecord} {receipt : MutationReceipt}
    (hr : j.mutationAttempt id attempt = .ok r) (haccepts : r.request.accepts receipt = true)
    (hitem : r.preparedItem.all (· = UploadJournal.receiptItem receipt) = true) :
    Acknowledges j id attempt r receipt := by
  have heq := acknowledgeMutation_eq hr haccepts hitem
  obtain ⟨found, hread, hr⟩ := bind_eq_ok hr
  obtain ⟨_, _, hr⟩ := bind_eq_ok hr
  obtain rfl := Except.ok.inj hr
  obtain ⟨hid, hrow⟩ := hinv.mutation_row hread
  have hsave := saveMutation_iff hinv (found.acknowledged receipt) hread hid (by
    rintro node ⟨⟩
    exact MutationRequest.target_of_accepts haccepts)
  constructor
  · have hanswers : (∃ answer, j.acknowledgeMutation id attempt receipt none = .ok answer) ↔
        ∃ j', j.saveMutation (found.acknowledged receipt) = .ok j' := by
      rw [heq]
      cases j.saveMutation (found.acknowledged receipt) with
      | error e => exact iff_of_false (by rintro ⟨_, ⟨⟩⟩) (by rintro ⟨_, ⟨⟩⟩)
      | ok j' => exact iff_of_true ⟨_, rfl⟩ ⟨_, rfl⟩
    rw [hanswers, hsave]
    refine forall_congr' fun _ => forall_congr' fun node => ?_
    rw [show (found.acknowledged receipt).receipt = some receipt from rfl, Option.some.injEq]
    rfl
  · intro state j' h
    rw [heq] at h
    cases hsaved : j.saveMutation (found.acknowledged receipt) with
    | error e =>
      rw [hsaved] at h
      cases h
    | ok j₁ =>
      rw [hsaved] at h
      cases h
      refine ⟨rfl, ?_⟩
      obtain ⟨q, hupdate, -, hmutations⟩ := saveMutation_queue hsaved
      unfold Queue.updateMutation at hupdate
      rw [show (found.acknowledged receipt).id = id from hid, hrow] at hupdate
      cases hupdate
      rw [hmutations]
      exact Table.get_set_self _ _ _

end Cirrove.Journal
