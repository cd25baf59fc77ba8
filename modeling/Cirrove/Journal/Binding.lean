import Cirrove.Journal.Results
import Mathlib.Data.List.Dedup

/-!
# Receipts become bases, and the invariant is kept

`resolve_upload`, `resolve_mutation` and `resolve_destination` store an operation with what a
finished one revealed. `Reveals` are the keys the receipts of a state give to operations that wait
for them; binding gives an operation these keys and no others.
-/

namespace Cirrove.Journal

open Cirrove.Library

variable {ok : String → Prop} {j j' : UploadJournal} {gained : Uuid → Resource → Prop} {id : Uuid}

/-! ## Confirmed nodes -/

theorem Operation.confirmed {p : Operation} {n : Node} (hwell : p.WellFormed ok)
    (h : p.confirmedNode = some n) : Confirmed ok n := by
  cases p with
  | upload r =>
    simp only [confirmedNode] at h
    split at h
    · next hstate =>
      obtain ⟨n', hn', hid, _, _, htags⟩ := hwell.receipt hstate
      rw [h] at hn'
      cases hn'
      exact ⟨hid, htags⟩
    · cases h
  | mutation r =>
    simp only [confirmedNode] at h
    split at h
    · next node hstate hreceipt =>
      split at h
      · next haccepts =>
        cases h
        obtain ⟨receipt, hsome, _, htags⟩ := hwell.receipt hstate
        rw [hreceipt] at hsome
        cases hsome
        refine ⟨?_, htags n rfl⟩
        unfold MutationRequest.accepts at haccepts
        split at haccepts
        · simp_all
        · next before parent name _ hintent hnode =>
          cases hnode
          simp only [Bool.and_eq_true, decide_eq_true_eq] at haccepts
          rw [haccepts.1.1.1.1.1]
          exact (hwell.before before (by rw [hintent]; rfl)).1
        all_goals simp_all
      · cases h
    · cases h

/-! ## Keys of a change -/

section Keys

variable {lowercase : String → String} {request : MutationRequest} {keys : List Resource}

theorem mutationResources_eq (hbefore : ∀ b, request.intent.before = some b → b.parentId.isSome = true) :
    mutationResources lowercase request = .ok
      ((request.intent.before.toList.flatMap (fun b => .item request.scope b.id ::
          b.parentId.toList.map (fun parent => slotKey lowercase request.scope parent b.name)) ++
        request.intent.place.toList.map (fun place =>
          slotKey lowercase request.scope place.1 place.2)).dedup) := by
  unfold mutationResources
  cases hintent : request.intent with
  | createFolder parent name => simp [MutationIntent.before, MutationIntent.place]; rfl
  | relocate b parent name =>
    obtain ⟨source, hsource⟩ := Option.isSome_iff_exists.mp (hbefore b (by rw [hintent]; rfl))
    simp [MutationIntent.before, MutationIntent.place, hsource]; rfl
  | removeFile b =>
    obtain ⟨source, hsource⟩ := Option.isSome_iff_exists.mp (hbefore b (by rw [hintent]; rfl))
    simp [MutationIntent.before, MutationIntent.place, hsource]; rfl
  | removeFolder b =>
    obtain ⟨source, hsource⟩ := Option.isSome_iff_exists.mp (hbefore b (by rw [hintent]; rfl))
    simp [MutationIntent.before, MutationIntent.place, hsource]; rfl
  | trashNativeDocument b =>
    obtain ⟨source, hsource⟩ := Option.isSome_iff_exists.mp (hbefore b (by rw [hintent]; rfl))
    simp [MutationIntent.before, MutationIntent.place, hsource]; rfl

/-- A change without the folder of its source has no keys. -/
theorem parent_of_mutationResources (h : mutationResources lowercase request = .ok keys) :
    ∀ b, request.intent.before = some b → b.parentId.isSome = true := by
  intro b hb
  unfold mutationResources at h
  simp only [hb] at h
  cases hparent : b.parentId with
  | some parent => rfl
  | none =>
    simp only [hparent] at h
    cases h

/-- The keys of a change are those of its source and of its place. -/
theorem mem_mutationResources {k : Resource} (h : mutationResources lowercase request = .ok keys) :
    k ∈ keys ↔ (∃ b, request.intent.before = some b ∧ (k = .item request.scope b.id ∨
        ∃ parent, b.parentId = some parent ∧ k = slotKey lowercase request.scope parent b.name)) ∨
      ∃ place, request.intent.place = some place ∧
        k = slotKey lowercase request.scope place.1 place.2 := by
  rw [mutationResources_eq (parent_of_mutationResources h)] at h
  cases h
  simp only [List.mem_dedup, List.mem_append, List.mem_flatMap, Option.mem_toList, List.mem_cons,
    List.mem_map]
  constructor
  · rintro (⟨b, hb, rfl | ⟨parent, hparent, rfl⟩⟩ | ⟨place, hplace, rfl⟩)
    · exact .inl ⟨b, hb, .inl rfl⟩
    · exact .inl ⟨b, hb, .inr ⟨parent, hparent, rfl⟩⟩
    · exact .inr ⟨place, hplace, rfl⟩
  · rintro (⟨b, hb, rfl | ⟨parent, hparent, rfl⟩⟩ | ⟨place, hplace, rfl⟩)
    · exact .inl ⟨b, hb, .inl rfl⟩
    · exact .inl ⟨b, hb, .inr ⟨parent, hparent, rfl⟩⟩
    · exact .inr ⟨place, hplace, rfl⟩

end Keys

/-! ## The step of binding -/

/-- The receipt a change waits for can be what it is sent against. -/
def BaseUsable (q : Queue) (r : MutationRecord) (b : WriteBase) : Prop :=
  ∃ n intent, q.baseNode b r.request.scope r.sequence = .ok (some n) ∧
    r.request.intent.before.any (fun before => before.kind = n.kind) = true ∧
    r.request.intent.follow n = some intent ∧
    ({ r.request with intent := intent } : MutationRequest).validate = true

/-- The change waits for a receipt that is there and is of no use. -/
def Stalled (q : Queue) (r : MutationRecord) : Prop :=
  ∃ b, r.base = some b ∧ b.resolved = false ∧ q.completed b.predecessor = true ∧ ¬ BaseUsable q r b

/-- The journal after one operation was bound, or has failed to be. -/
structure Binds (ok : String → Prop) (gained : Uuid → Resource → Prop) (j j' : UploadJournal)
    (id : Uuid) : Prop where
  reaches : ∀ {claimed}, Reaches ok claimed gained [] j j'
  rest : j' = { j with queue := j'.queue }
  others : ∀ x, x ≠ id → j'.queue.find x = j.queue.find x
  self : ∃ old op, j.queue.find id = some old ∧ j'.queue.find id = some op ∧ op.isComplete = false
  destinations : ∀ x, x ≠ id → j'.queue.writeDestinations.get x = j.queue.writeDestinations.get x
  unresolved : ∀ x row, j'.queue.writeDestinations.get x = some row → row.resolved = false →
    j.queue.writeDestinations.get x = some row
  absent : ∀ x, j.queue.Absent x → j'.queue.Absent x
  stalled : ∀ r', j'.queue.find id = some (.mutation r') → r'.localReady = false →
    r'.state = .failed → ∃ r, j.queue.find id = some (.mutation r) ∧ r.localReady = false ∧
      (r.state = .failed ∨ Stalled j.queue r)

/-- A revision that hands nothing out. -/
theorem Binds.of_revised (hinv : Inv ok [] j) {q' : Queue} {old new : Operation}
    {keys : List Resource} {bound : Bool} (hrevises : Revises ok j old new keys bound)
    (hrevised : j.queue.Revised q' new keys bound) (hid : new.id = id)
    (hincomplete : new.isComplete = false) (hflight : new.inFlight = false)
    (hgained : ∀ k ∈ keys, k ∈ j.queue.resources new.id ∨ gained new.id k)
    (hstate : ∀ r', new = .mutation r' → r'.localReady = false → r'.state = .failed →
      ∃ r, old = .mutation r ∧ r.localReady = false ∧ r.state = .failed) :
    Binds ok gained j { j with queue := q' } id where
  reaches := ⟨hinv.revise hrevises hrevised
      (fun hcomplete => absurd (hincomplete.symm.trans hcomplete) (by decide)),
    hrevised.evolves hrevises.stored hrevises.continues
      (fun hin => absurd (hflight.symm.trans hin) (by decide)) hrevises.begun hgained, rfl,
    .of_same rfl rfl rfl⟩
  rest := rfl
  others := fun x hx => hrevised.find_of_ne (hid ▸ hx)
  self := ⟨old, new, hid ▸ hrevises.stored, hid ▸ hrevised.find_self, hincomplete⟩
  destinations := by
    intro x hx
    exact (hrevised.destinations x).trans (if_neg (fun hboth => hx (hid ▸ hboth.2)))
  unresolved := fun x row hrow => hrevised.unresolved hrow
  absent := fun x hx => hrevised.absent hrevises.stored hx
  stalled := by
    intro r' hr' hready hfailed
    have hself : q'.find id = some new := hid ▸ hrevised.find_self
    obtain rfl : new = .mutation r' := Option.some.inj (hself.symm.trans hr')
    obtain ⟨r, rfl, hlocal, hwas⟩ := hstate r' rfl hready hfailed
    exact ⟨r, hid ▸ hrevises.stored, hlocal, .inl hwas⟩

theorem save_rest {r : UploadRecord} (h : j.save r = .ok j') (hstate : r.state ≠ .uploaded) :
    j' = { j with queue := j'.queue } := by
  unfold UploadJournal.save at h
  obtain ⟨q₁, _, h⟩ := bind_eq_ok h
  obtain ⟨q₂, _, h⟩ := bind_eq_ok h
  split at h
  · next hs _ => exact absurd hs hstate
  · cases h
    rfl

theorem saveMutation_rest {r : MutationRecord} (h : j.saveMutation r = .ok j')
    (hstate : r.state ≠ .applied) : j' = { j with queue := j'.queue } := by
  unfold UploadJournal.saveMutation at h
  obtain ⟨q₁, _, h⟩ := bind_eq_ok h
  obtain ⟨q₂, _, h⟩ := bind_eq_ok h
  split at h
  · next hs _ => exact absurd hs hstate
  · cases h
    rfl

/-- The receipt of the predecessor, when it can be used. -/
theorem baseNode_eq_some {q : Queue} {b : WriteBase} {scope : Scope} {sequence : Nat} {n : Node}
    (h : q.baseNode b scope sequence = .ok (some n)) :
    ∃ p, q.find b.predecessor = some p ∧ p.scope = scope ∧ p.confirmedNode = some n := by
  unfold Queue.baseNode at h
  obtain ⟨p, hp, h⟩ := bind_eq_ok h
  split at h
  · cases h
  · next hguard =>
    simp only [Bool.or_eq_true, decide_eq_true_eq, not_or, not_not] at hguard
    have hfilter : Option.filter (fun n => n.target.isNone) p.confirmedNode = some n := by
      injection h
    exact ⟨p, Queue.operation_ok.mp hp, hguard.1, (Option.filter_eq_some_iff.mp hfilter).1⟩

/-- `UploadJournal::resolve_upload` binds the upload or lets it fail. -/
theorem resolveUpload_binds (hinv : Inv ok [] j) {r : UploadRecord} {b : WriteBase}
    (hfind : j.queue.find id = some (.upload r)) (hstate : r.state = .pending ∨ r.state = .preparing)
    (hbase : r.base = some b) (hunresolved : b.resolved = false)
    (hgained : ∀ k, j.queue.BaseReveals j.settings.lowercase (.upload r) k → gained id k)
    (h : j.resolveUpload id = .ok j') :
    Binds ok gained j j' id ∧ ∃ op, j'.queue.find id = some op ∧
      (op.failed = true ∨ baseBound op.base = true) := by
  have hid : r.id = id := hinv.tidy.id_of_find hfind
  subst hid
  have hattempt : r.attempt = none := by
    have hiff := hinv.queue.attempt hfind
    rcases hstate with hstate | hstate <;>
      simpa [Operation.attempt, Operation.inFlight, hstate, UploadState.inFlight] using hiff
  have hincomplete : r.state.isComplete = false := by
    rcases hstate with hstate | hstate <;> rw [hstate] <;> rfl
  have hunbound : baseBound r.base = false := by rw [hbase]; exact hunresolved
  unfold UploadJournal.resolveUpload at h
  obtain ⟨r', hr', h⟩ := bind_eq_ok h
  rw [(Queue.upload_ok hinv.tidy).mpr hfind] at hr'
  cases hr'
  simp only [hbase] at h
  obtain ⟨node, hnode, h⟩ := bind_eq_ok h
  cases hintent : (node.bind Queue.intentFrom).filter UploadIntent.validate with
  | none =>
    simp only [hintent] at h
    have hrevises : Revises ok j (.upload r)
        (.upload { r with state := .failed, base := some b }) [] false := by
      refine .of_upload hinv hfind ⟨rfl, rfl, rfl, rfl, hbase.symm, rfl, rfl⟩ hincomplete ?_ ?_
        (.inr ⟨rfl, hunbound⟩) ?_ ?_ ?_
      · simp [hattempt, UploadState.inFlight]
      · simp
      · simp [UploadState.inFlight, UploadState.isComplete]
      · simp [Operation.waiting]
      · intro _ hbound
        rw [hunbound] at hbound
        cases hbound
    have hsave : ∀ claimed, Leads ok claimed gained [] j j' ∧ _ := fun claimed =>
      save_leads hinv h hrevises (by simp) (by simp [UploadState.inFlight])
    have hrevised := (hsave (fun _ _ => False)).2
    refine ⟨⟨fun {_} => (hsave _).1.toReaches, save_rest h (by simp), fun x hx => hrevised.find_of_ne hx,
      ⟨_, _, hfind, hrevised.find_self, rfl⟩, ?_, fun x row hrow => hrevised.unresolved hrow,
      fun x hx => hrevised.absent hrevises.stored hx, ?_⟩, _,
      hrevised.find_self, .inl (by simp [Operation.failed])⟩
    · intro x hx
      exact (hrevised.destinations x).trans (if_neg (fun hboth => hx hboth.2))
    · intro r' hr'
      have hself := hrevised.find_self
      rw [show (Operation.upload { r with state := .failed, base := some b }).id = r.id from rfl, hr']
        at hself
      cases hself
  | some intent =>
    simp only [hintent] at h
    cases h
    -- The receipt the upload waited for.
    obtain ⟨hsome, _⟩ := Option.filter_eq_some_iff.mp hintent
    obtain ⟨n, rfl, hfrom⟩ := Option.bind_eq_some_iff.mp hsome
    obtain ⟨p, hp, hscope, hn⟩ := baseNode_eq_some hnode
    have hconfirmed := Operation.confirmed (hinv.queue.wellFormed hp) hn
    have hshape : ∃ etag, n.etag = some etag ∧ intent = .replace n.id etag := by
      unfold Queue.intentFrom at hfrom
      split at hfrom
      · cases hfrom
      · obtain ⟨etag, hetag, rfl⟩ := Option.map_eq_some_iff.mp hfrom
        exact ⟨etag, hetag, rfl⟩
    obtain ⟨etag, hetag, rfl⟩ := hshape
    have hrevises : Revises ok j (.upload r) (.upload { r with
        intent := .replace n.id etag
        base := some { b with resolved := true } })
        (uploadResources j.settings.lowercase r.scope (.replace n.id etag)) false := by
      have hwell : r.WellFormed ok := hinv.queue.wellFormed hfind
      constructor
      · exact hfind
      · exact hincomplete
      · refine ⟨rfl, rfl, rfl, rfl, rfl, ?_, ?_, ?_, fun h => h, rfl, rfl, ?_, ?_⟩
        · simp [Operation.base, hbase]
        · simp [Operation.destination, hbase]
        · intro hbound
          rw [Operation.base, hunbound] at hbound
          cases hbound
        · intro name hname
          cases hname
        · intro hcomplete
          rw [Operation.isComplete, hincomplete] at hcomplete
          cases hcomplete
      · have hsame := hinv.queue.attempt hfind
        exact hsame
      · refine ⟨hwell.receipt, ?_, ?_⟩
        · intro _ item tag heq
          cases heq
          exact ⟨hconfirmed.tags _ (by simp [nodeTags]), hconfirmed.tags _ (by simp [nodeTags, hetag])⟩
        · rcases hwell.digest with hdigest | hpreparing | ⟨hfailed, _⟩
          · exact .inl hdigest
          · exact .inr (.inl hpreparing)
          · rcases hstate with hstate | hstate <;> rw [hstate] at hfailed <;> cases hfailed
      · intro b' hb' _
        cases hb'
        exact ⟨p, hp, hscope, n, hn, etag, hetag, rfl⟩
      · intro _ hwaiting
        rcases hstate with hstate | hstate <;> simp [Operation.waiting, hstate] at hwaiting
      · intro hfailed
        rcases hstate with hstate | hstate <;> simp [Operation.failed, hstate] at hfailed
      · intro k hk
        exact .inl hk
      · intro parent hparent
        simp [Operation.destination] at hparent
      · exact fun _ hnew => by cases hnew
      · intro hboth
        rcases hstate with hstate | hstate <;>
          simp [Operation.inFlight, Operation.isComplete, hstate, UploadState.inFlight,
            UploadState.isComplete] at hboth
      · exact fun hbegun => (Bool.false_ne_true hbegun).elim
    have hrevised : j.queue.Revised _ (.upload { r with
        intent := .replace n.id etag
        base := some { b with resolved := true } })
        (uploadResources j.settings.lowercase r.scope (.replace n.id etag)) false :=
      Queue.revised_of_updateUploadBody hinv.tidy hfind rfl rfl
    refine ⟨.of_revised hinv hrevises hrevised rfl hincomplete ?_ ?_ (fun _ hnew => by cases hnew), _,
      hrevised.find_self, .inr rfl⟩
    · rcases hstate with hstate | hstate <;>
        simp [Operation.inFlight, hstate, UploadState.inFlight]
    · intro k hk
      refine .inr (hgained k ⟨b, p, n, hbase, hunresolved, hp, hn, ?_⟩)
      simpa [Operation.sourceKeys, uploadResources] using hk

/-- Following a node keeps everything but the source. -/
structure MutationIntent.Follows (intent intent' : MutationIntent) (n : Node) : Prop where
  before : intent'.before = some n
  place : intent'.place = intent.place
  destination : intent'.destination = intent.destination
  preview : intent'.preview.isSome = true
  source : ∃ b, intent.before = some b
  removes : ∀ r r' : MutationRecord, r.request.intent = intent → r'.request.intent = intent' →
    (Operation.mutation r').removesFile = (Operation.mutation r).removesFile

theorem MutationIntent.follow_eq_some {intent intent' : MutationIntent} {n : Node}
    (h : intent.follow n = some intent') : intent.Follows intent' n := by
  cases intent <;> simp only [MutationIntent.follow] at h <;> cases h <;>
    exact ⟨rfl, rfl, rfl, rfl, ⟨_, rfl⟩, fun r r' hr hr' => by simp [Operation.removesFile, hr, hr']⟩

/-- The kind of a change whose source stays of a kind. -/
theorem kind_of_follow {r : MutationRecord} {intent : MutationIntent} {n : Node}
    (h : r.request.intent.follow n = some intent)
    (hkind : ∀ b, r.request.intent.before = some b → b.kind = n.kind) (r' : MutationRecord)
    (hr' : r'.request.intent = intent) :
    (Operation.mutation r').kind = (Operation.mutation r).kind := by
  simp only [Operation.kind, hr']
  cases hintent : r.request.intent with
  | relocate before parent name =>
    rw [hintent] at h hkind
    cases h
    simp [hkind before rfl]
  | removeFile before =>
    rw [hintent] at h
    cases h
    rfl
  | createFolder parent name => rw [hintent] at h; cases h
  | removeFolder before => rw [hintent] at h; cases h
  | trashNativeDocument before => rw [hintent] at h; cases h

/-- A request that is valid has the folder of its source. -/
theorem parent_of_validate {request : MutationRequest} (h : request.validate = true) :
    ∀ b, request.intent.before = some b → b.id ≠ "" ∧ b.parentId.isSome = true := by
  intro b hb
  unfold MutationRequest.validate at h
  rw [hb] at h
  simp only [Option.all_some, validBefore, Bool.and_eq_true] at h
  refine ⟨?_, ?_⟩
  · have hid := h.1.2.1.1.1.1.1
    unfold validText at hid
    simp only [Bool.and_eq_true, decide_eq_true_eq] at hid
    exact hid.1.1
  · have hparent := h.1.2.1.1.1.2
    cases hnone : b.parentId with
    | some parent => rfl
    | none =>
      rw [hnone] at hparent
      cases hparent

/-- The key of the place of a change that waits is held, or will be. -/
theorem Inv.place_covered (hinv : Inv ok [] j) {r : MutationRecord} {place : String × String}
    (hfind : j.queue.find r.id = some (.mutation r)) (hstate : r.state = .pending)
    (hplace : r.request.intent.place = some place) :
    slotKey j.settings.lowercase r.request.scope place.1 place.2 ∈ j.queue.resources r.id ∨
      j.queue.BaseReveals j.settings.lowercase (.mutation r)
        (slotKey j.settings.lowercase r.request.scope place.1 place.2) := by
  have hwell : r.WellFormed ok := hinv.queue.wellFormed hfind
  have hparent : ∀ source, r.request.intent.before = some source →
      source.parentId.isSome = true := by
    intro source hsource
    refine (hwell.before source hsource).2.resolve_right ?_
    rintro ⟨hfailed, _⟩
    rw [hstate] at hfailed
    cases hfailed
  apply hinv.covered hfind
  simp only [Operation.keys, mutationResources_eq hparent]
  exact (mem_mutationResources (mutationResources_eq hparent)).mpr (.inr ⟨place, hplace, rfl⟩)

/-- What a change that follows its receipt must satisfy to be stored. -/
theorem Revises.of_follow (hinv : Inv ok [] j) {r r' : MutationRecord} {b : WriteBase}
    {intent : MutationIntent} {n : Node} {p : Operation} {keys : List Resource}
    (hfind : j.queue.find r.id = some (.mutation r)) (hstate : r.state = .pending)
    (hbase : r.base = some b) (hunresolved : b.resolved = false)
    (hp : j.queue.find b.predecessor = some p) (hscope : p.scope = r.request.scope)
    (hn : p.confirmedNode = some n)
    (hkind : ∀ before, r.request.intent.before = some before → before.kind = n.kind)
    (hfollow : r.request.intent.follow n = some intent)
    (hid : r'.id = r.id) (hsequence : r'.sequence = r.sequence)
    (hrequest : r'.request = { r.request with intent := intent })
    (hattempt : r'.attempt = r.attempt) (hready : r'.localReady = r.localReady)
    (hcases : (r'.state = .failed ∧ r'.base = some b) ∨
      (r'.state = .pending ∧ r'.base = some { b with resolved := true } ∧
        n.parentId.isSome = true ∧ mutationResources j.settings.lowercase r'.request = .ok keys)) :
    Revises ok j (.mutation r) (.mutation r') keys false := by
  have hfollows := MutationIntent.follow_eq_some hfollow
  have hconfirmed := Operation.confirmed (hinv.queue.wellFormed hp) hn
  have hbefore : r'.request.intent.before = some n := by rw [hrequest]; exact hfollows.before
  have hflight : r.attempt = none := by
    have hiff := hinv.queue.attempt hfind
    simpa [Operation.attempt, Operation.inFlight, hstate, MutationState.inFlight] using hiff
  have hpredecessor : r'.base.map WriteBase.predecessor = r.base.map WriteBase.predecessor := by
    rcases hcases with ⟨_, hb⟩ | ⟨_, hb, _⟩
    · rw [hb, hbase]
    · rw [hb, hbase]
      rfl
  constructor
  · exact (congrArg j.queue.find hid).trans hfind
  · simp [Operation.isComplete, hstate, MutationState.isComplete]
  · refine ⟨hid, rfl, ?_, hsequence, kind_of_follow hfollow hkind r' (by rw [hrequest]),
      hpredecessor, ?_, ?_, ?_, hfollows.removes r r' rfl (by rw [hrequest]), rfl, ?_, ?_⟩
    · simp [Operation.scope, hrequest]
    · simp [Operation.destination, hrequest, hfollows.destination]
    · intro hbound
      rw [Operation.base, hbase, baseBound, Option.all_some, hunresolved] at hbound
      cases hbound
    · simp [Operation.localReady, hready]
    · simp [Operation.newName, hrequest, hfollows.place]
    · intro hcomplete
      simp [Operation.isComplete, hstate, MutationState.isComplete] at hcomplete
  · rcases hcases with ⟨hs, _⟩ | ⟨hs, _⟩ <;>
      simp [Operation.attempt, Operation.inFlight, hattempt, hflight, hs, MutationState.inFlight]
  · refine ⟨?_, ?_, ?_, ?_, ?_⟩
    · intro before hb
      rw [hbefore] at hb
      cases hb
      refine ⟨hconfirmed.id, ?_⟩
      rcases hcases with ⟨hs, hb⟩ | ⟨_, _, hparent, _⟩
      · exact .inr ⟨hs, by rw [hb]; exact hunresolved⟩
      · exact .inl hparent
    · rcases hcases with ⟨hs, _⟩ | ⟨hs, _⟩ <;> simp [hs]
    · rcases hcases with ⟨hs, _⟩ | ⟨hs, _⟩ <;> simp [hs]
    · intro _ before hb
      rw [hbefore] at hb
      cases hb
      exact hconfirmed.tags
    · intro _
      rw [hrequest]
      exact hfollows.preview
  · intro b' hb' hresolved
    rcases hcases with ⟨_, hb⟩ | ⟨_, hb, _⟩
    · rw [Operation.base, hb] at hb'
      cases hb'
      rw [hunresolved] at hresolved
      cases hresolved
    · rw [Operation.base, hb] at hb'
      cases hb'
      exact ⟨p, hp, by rw [hscope]; simp [Operation.scope, hrequest], n, hn, hbefore⟩
  · intro _ hwaiting
    rcases hcases with ⟨hs, _⟩ | ⟨hs, _⟩ <;> simp [Operation.waiting, hs] at hwaiting
  · intro hfailed hbound
    rcases hcases with ⟨_, hb⟩ | ⟨hs, _⟩
    · rw [Operation.base, hb, baseBound, Option.all_some, hunresolved] at hbound
      cases hbound
    · simp [Operation.failed, hs] at hfailed
  · intro k hk
    rcases hcases with ⟨_, hb⟩ | ⟨_, _, _, hkeys⟩
    · -- The keys of the new source are those the receipt reveals.
      simp only [Operation.keys] at hk
      cases hresources : mutationResources j.settings.lowercase r'.request with
      | error e =>
        rw [hresources] at hk
        cases hk
      | ok keys' =>
        rw [hresources] at hk
        rcases (mem_mutationResources hresources).mp hk with ⟨source, hsource, hk⟩ | ⟨place, hplace, hk⟩
        · rw [hbefore] at hsource
          cases hsource
          refine .inr (.inr ⟨b, p, n, hb, hunresolved, hp, hn, ?_⟩)
          simp only [Operation.sourceKeys, List.mem_cons, List.mem_map, Option.mem_toList]
          rcases hk with hk | ⟨parent, hparent, hk⟩
          · exact .inl hk
          · exact .inr ⟨parent, hparent, hk.symm⟩
        · -- The place is what it was, so its key is held.
          rw [hrequest] at hplace hk
          subst hk
          rcases hinv.place_covered hfind hstate (hfollows.place.symm.trans hplace) with
            hheld | ⟨b', p', n', hb', hun', hp', hn', hk'⟩
          · exact .inr (.inl ((congrArg j.queue.resources hid).symm ▸ hheld))
          · refine .inr (.inr ⟨b', p', n', ?_, hun', hp', hn', ?_⟩)
            · rw [Operation.base, hb, ← hbase]
              exact hb'
            · simpa only [Operation.sourceKeys, hrequest] using hk'
    · simp only [Operation.keys, hkeys] at hk
      exact .inl hk
  · intro parent hparent
    refine .inr ⟨rfl, ?_⟩
    simp only [Operation.destination, hrequest] at hparent ⊢
    exact hfollows.destination.symm.trans hparent
  · intro x hx _
    cases hx
    rcases hcases with ⟨hs, hb⟩ | ⟨hs, _⟩
    · exact .inr ⟨hs, by rw [hb]; exact hunresolved⟩
    · exact .inl hs
  · intro hboth
    rcases hcases with ⟨hs, _⟩ | ⟨hs, _⟩ <;>
      simp [Operation.inFlight, Operation.isComplete, hs, MutationState.inFlight,
        MutationState.isComplete] at hboth
  · intro hbegun
    rcases hcases with ⟨hs, _⟩ | ⟨hs, _⟩ <;>
      simp [Operation.begun, hs, MutationState.inFlight] at hbegun

/-- A step that lets the change fail. -/
theorem Binds.of_saveMutation (hinv : Inv ok [] j) {old r : MutationRecord} (hid : r.id = id)
    (h : j.saveMutation r = .ok j') (hrevises : Revises ok j (.mutation old) (.mutation r) [] false)
    (hstate : r.state = .failed) (hready : r.localReady = old.localReady)
    (hstalled : Stalled j.queue old) :
    Binds ok gained j j' id ∧ j'.queue.find id = some (.mutation r) := by
  have hsave : ∀ claimed, Reaches ok claimed gained [] j j' ∧
      j.queue.Revised j'.queue (.mutation r) [] false := fun claimed =>
    saveMutation_reaches hinv h hrevises (by simp [hstate])
      (by simp [hstate, MutationState.inFlight])
  have hrevised := (hsave (fun _ _ => False)).2
  have hself : j'.queue.find id = some (.mutation r) := hid ▸ hrevised.find_self
  have hold : j.queue.find id = some (.mutation old) := hid ▸ hrevises.stored
  refine ⟨⟨fun {_} => (hsave _).1, saveMutation_rest h (by simp [hstate]),
    fun x hx => hrevised.find_of_ne (fun heq => hx (heq.trans hid)),
    ⟨_, _, hold, hself, ?_⟩, ?_, fun x row hrow => hrevised.unresolved hrow,
    fun x hx => hrevised.absent hrevises.stored hx, ?_⟩, hself⟩
  · simp [Operation.isComplete, hstate, MutationState.isComplete]
  · intro x hx
    exact (hrevised.destinations x).trans (if_neg (fun hboth => hx (hboth.2.trans hid)))
  · intro r' hr' hlocal _
    rw [hself] at hr'
    cases hr'
    exact ⟨old, hold, hready.symm.trans hlocal, .inr hstalled⟩

/-- `UploadJournal::resolve_mutation` binds the change or lets it fail. -/
theorem resolveMutation_binds (hinv : Inv ok [] j) {r : MutationRecord} {b : WriteBase}
    (hfind : j.queue.find id = some (.mutation r)) (hstate : r.state = .pending)
    (hbase : r.base = some b) (hunresolved : b.resolved = false)
    (hcompleted : j.queue.completed b.predecessor = true)
    (hgained : ∀ k, j.queue.BaseReveals j.settings.lowercase (.mutation r) k → gained id k)
    (h : j.resolveMutation id = .ok j') :
    Binds ok gained j j' id ∧ ∃ op, j'.queue.find id = some op ∧
      (op.failed = true ∨ baseBound op.base = true) := by
  have hid : r.id = id := hinv.tidy.id_of_find hfind
  subst hid
  have hattempt : r.attempt = none := by
    have hiff := hinv.queue.attempt hfind
    simpa [Operation.attempt, Operation.inFlight, hstate, MutationState.inFlight] using hiff
  have hunbound : baseBound r.base = false := by rw [hbase]; exact hunresolved
  unfold UploadJournal.resolveMutation at h
  obtain ⟨r', hr', h⟩ := bind_eq_ok h
  rw [(Queue.mutation_ok hinv.tidy).mpr hfind] at hr'
  cases hr'
  simp only [hbase] at h
  obtain ⟨node, hnode, h⟩ := bind_eq_ok h
  cases hvalid : node.filter (fun n => r.request.intent.before.any (fun b => b.kind = n.kind)) with
  | none =>
    simp only [hvalid] at h
    have hrevises : Revises ok j (.mutation r)
        (.mutation { r with state := .failed, base := some b }) [] false := by
      refine .of_mutation hinv hfind ⟨rfl, rfl, rfl, hbase.symm, fun h => h⟩ ?_ ?_ ?_ ?_ ?_ ?_ ?_
        (fun _ => .inr ⟨rfl, hunbound⟩)
      · simp [hstate, MutationState.isComplete]
      · simp [hstate]
      · simp
      · simp [hattempt, MutationState.inFlight]
      · simp
      · simp [Operation.waiting]
      · intro _ hbound
        rw [hunbound] at hbound
        cases hbound
    have hstalled : Stalled j.queue r := by
      refine ⟨b, hbase, hunresolved, hcompleted, ?_⟩
      rintro ⟨n, _, hn, hsame, _⟩
      rw [hn] at hnode
      cases hnode
      exact absurd hvalid (by simp [Option.filter, hsame])
    obtain ⟨hbinds, hself⟩ := Binds.of_saveMutation hinv rfl h hrevises rfl rfl hstalled
    exact ⟨hbinds, _, hself, .inl (by simp [Operation.failed])⟩
  | some n =>
    simp only [hvalid] at h
    obtain ⟨hsome, hkind⟩ := Option.filter_eq_some_iff.mp hvalid
    subst hsome
    obtain ⟨p, hp, hscope, hn⟩ := baseNode_eq_some hnode
    have hkind' : ∀ before, r.request.intent.before = some before → before.kind = n.kind := by
      intro before hbefore
      rw [hbefore] at hkind
      simpa using hkind
    cases hfollow : r.request.intent.follow n with
    | none =>
      simp only [hfollow] at h
      cases h
    | some intent =>
      simp only [hfollow] at h
      split at h
      · next hvalidate =>
        -- The receipt has no usable ETag.
        have hstalled : Stalled j.queue r := by
          refine ⟨b, hbase, hunresolved, hcompleted, ?_⟩
          rintro ⟨n', intent', hn', _, hfollow', hvalid'⟩
          rw [hn'] at hnode
          cases hnode
          rw [hfollow] at hfollow'
          cases hfollow'
          simp [hvalid'] at hvalidate
        obtain ⟨hbinds, hself⟩ := Binds.of_saveMutation hinv rfl h
          (.of_follow hinv hfind hstate hbase hunresolved hp hscope hn hkind' hfollow rfl rfl rfl rfl
            rfl (.inl ⟨rfl, rfl⟩)) rfl rfl hstalled
        exact ⟨hbinds, _, hself, .inl (by simp [Operation.failed])⟩
      · next hvalidate =>
        obtain ⟨keys, hkeys, h⟩ := bind_eq_ok h
        cases h
        have hfollows := MutationIntent.follow_eq_some hfollow
        have hparent : n.parentId.isSome = true :=
          parent_of_mutationResources hkeys n hfollows.before
        have hrevises : Revises ok j (.mutation r) (.mutation { r with
            request := { r.request with intent := intent }
            base := some { b with resolved := true } }) keys false :=
          .of_follow hinv hfind hstate hbase hunresolved hp hscope hn hkind' hfollow rfl rfl rfl rfl
            rfl (.inr ⟨hstate, rfl, hparent, hkeys⟩)
        have hrevised : j.queue.Revised _ (.mutation { r with
            request := { r.request with intent := intent }
            base := some { b with resolved := true } }) keys false :=
          Queue.revised_of_updateMutationBody hinv.tidy hfind rfl rfl
        refine ⟨.of_revised hinv hrevises hrevised rfl ?_ ?_ ?_ ?_, _, hrevised.find_self, .inr rfl⟩
        · simp [Operation.isComplete, hstate, MutationState.isComplete]
        · simp [Operation.inFlight, hstate, MutationState.inFlight]
        rotate_left
        · intro r' hr' _ hfailed
          cases hr'
          rw [hstate] at hfailed
          cases hfailed
        · intro k hk
          rcases (mem_mutationResources hkeys).mp hk with ⟨source, hsource, hk⟩ | ⟨place, hplace, rfl⟩
          · have heq : source = n := Option.some.inj (hsource.symm.trans hfollows.before)
            subst heq
            refine .inr (hgained k ⟨b, p, source, hbase, hunresolved, hp, hn, ?_⟩)
            simp only [Operation.sourceKeys, List.mem_cons, List.mem_map, Option.mem_toList]
            rcases hk with hk | ⟨parent, hparent, hk⟩
            · exact .inl hk
            · exact .inr ⟨parent, hparent, hk.symm⟩
          · rcases hinv.place_covered hfind hstate (hfollows.place.symm.trans hplace) with
              hheld | hreveals
            · exact .inl hheld
            · exact .inr (hgained _ hreveals)

/-! ## Destinations -/

/-- The folder an operation waits for is confirmed, and will give it this key. -/
def DestinationReveals (j : UploadJournal) (id : Uuid) (op : Operation) (k : Resource) : Prop :=
  ∃ row folder n name, j.queue.writeDestinations.get id = some row ∧ row.resolved = false ∧
    j.names.byId row.parent = .ok folder ∧ j.destinationNode op row folder = .ok (some n) ∧
    op.newName = some name ∧ k = slotKey j.settings.lowercase op.scope n.id name

/-- The keys that the receipts of this state give to an operation that waits for them. -/
def Reveals (j : UploadJournal) (id : Uuid) (k : Resource) : Prop :=
  ∃ op, j.queue.find id = some op ∧
    (j.queue.BaseReveals j.settings.lowercase op k ∨ DestinationReveals j id op k)

/-- A finished change of a folder names the folder. -/
theorem Operation.confirmed_folder {p : Operation} (hwell : p.WellFormed ok)
    (hkind : p.kind = some .folder) (hcomplete : p.isComplete = true) :
    ∃ n, p.confirmedNode = some n ∧ n.kind = .folder ∧ n.target = none := by
  cases p with
  | upload r => cases hkind
  | mutation r =>
    have happlied : r.state = .applied := by
      cases hstate : r.state <;> simp_all [isComplete, MutationState.isComplete]
      have hnone := hwell.resolved hstate
      rw [hkind] at hnone
      cases hnone
    obtain ⟨receipt, hreceipt, haccepts, _⟩ := hwell.receipt happlied
    simp only [kind] at hkind
    cases hintent : r.request.intent with
    | createFolder parent name =>
      cases receipt with
      | removed item => simp [MutationRequest.accepts, hintent] at haccepts
      | upsert n =>
        refine ⟨n, by simp [confirmedNode, happlied, hreceipt, haccepts], ?_⟩
        simp [MutationRequest.accepts, hintent] at haccepts
        tauto
    | relocate before parent name =>
      rw [hintent] at hkind
      cases receipt with
      | removed item => simp [MutationRequest.accepts, hintent] at haccepts
      | upsert n =>
        refine ⟨n, by simp [confirmedNode, happlied, hreceipt, haccepts], ?_⟩
        simp [MutationRequest.accepts, hintent] at haccepts
        have hbefore : before.kind = .folder := Option.some.inj hkind
        rw [hbefore] at haccepts
        tauto
    | removeFile before => rw [hintent] at hkind; cases hkind
    | removeFolder before => rw [hintent] at hkind; cases hkind
    | trashNativeDocument before => rw [hintent] at hkind; cases hkind

/-- A destination that is ready to be resolved has a folder. -/
theorem destinationNode_some (hinv : Inv ok [] j) {op : Operation} {row : DestinationRow}
    {folder : NamespaceObject} {remote : Option Node} (hfind : j.queue.find id = some op)
    (hrow : j.queue.writeDestinations.get id = some row)
    (hready : row.predecessor.all j.queue.completed = true)
    (hfolder : j.names.byId row.parent = .ok folder) (hkind : folder.node.kind = .folder)
    (h : j.destinationNode op row folder = .ok remote) :
    ∃ n, remote = some n ∧ Confirmed ok n := by
  have hsound := hinv.destinations hrow
  unfold UploadJournal.destinationNode at h
  cases hpredecessor : row.predecessor with
  | none =>
    simp only [hpredecessor] at h
    obtain ⟨f, hf, _, hremote⟩ := hsound.folder
    obtain ⟨f', hf', rfl⟩ := byId_eq_ok hfolder
    rw [hf] at hf'
    cases hf'
    obtain ⟨n, hn⟩ := Option.isSome_iff_exists.mp (hremote hpredecessor hkind)
    obtain ⟨hnkind, htarget, hid, htags⟩ := (hinv.objects hf).remote n hn
    rw [hkind] at hnkind
    cases h
    refine ⟨n, ?_, hid, htags⟩
    simp [hn, hnkind, htarget, hid]
  | some p =>
    rw [hpredecessor, Option.all_some] at hready
    obtain ⟨howner, prev, hprev, hprevKind, hearlier⟩ := hsound.predecessor p hpredecessor
    obtain ⟨hscope, hlt⟩ := hearlier op hfind
    obtain ⟨prev', hprev', hcomplete⟩ := (Queue.completed_iff hinv.tidy).mp hready
    rw [hprev] at hprev'
    cases hprev'
    obtain ⟨n, hn, hnkind, htarget⟩ :=
      Operation.confirmed_folder (hinv.queue.wellFormed hprev) hprevKind hcomplete
    have hconfirmed := Operation.confirmed (hinv.queue.wellFormed hprev) hn
    simp only [hpredecessor] at h
    obtain ⟨prev', hprev', h⟩ := bind_eq_ok h
    rw [Queue.operation_ok, hprev] at hprev'
    cases hprev'
    simp only [howner, hscope, hlt, decide_true, Bool.and_self, if_true] at h
    cases h
    refine ⟨n, ?_, hconfirmed⟩
    simp [hn, hnkind, htarget, hconfirmed.id]

/-- A destination that is not resolved belongs to an operation that waits. -/
theorem Inv.waiting_of_destination (hinv : Inv ok [] j) {op : Operation} {row : DestinationRow}
    (hfind : j.queue.find id = some op) (hincomplete : op.isComplete = false)
    (hrow : j.queue.writeDestinations.get id = some row) (hunresolved : row.resolved = false) :
    op.waiting = true ∧ (op.failed = true → baseBound op.base = false) := by
  have hnot : j.queue.destinationReady id = false := by
    simp [Queue.destinationReady, hrow, hunresolved]
  constructor
  · by_contra hwaiting
    rw [Bool.not_eq_true] at hwaiting
    have hready := (hinv.queue.bound hfind hincomplete hwaiting).2
    rw [hnot] at hready
    cases hready
  · intro hfailed
    by_contra hbound
    rw [Bool.not_eq_false] at hbound
    have hready := hinv.queue.failed hfind hfailed hbound
    rw [hnot] at hready
    cases hready

/-- An operation with a new place keeps everything else. -/
structure MutationRecord.Moved (r r' : MutationRecord) (n : Node) (name : String) : Prop where
  id : r'.id = r.id
  sequence : r'.sequence = r.sequence
  state : r'.state = r.state
  attempt : r'.attempt = r.attempt
  base : r'.base = r.base
  scope : r'.request.scope = r.request.scope
  before : r'.request.intent.before = r.request.intent.before
  kind : (Operation.mutation r').kind = (Operation.mutation r).kind
  preview : r'.request.intent.preview.isSome = r.request.intent.preview.isSome
  place : r'.request.intent.place = some (n.id, name)
  destination : r'.request.intent.destination = some n.id
  name : (Operation.mutation r).newName = some name
  ready : r'.localReady = r.localReady
  removes : (Operation.mutation r').removesFile = (Operation.mutation r).removesFile

theorem boundMutation_moved {r r' : MutationRecord} {n : Node}
    (h : UploadJournal.boundMutation r (some n) = .ok r') : ∃ name, r.Moved r' n name := by
  unfold UploadJournal.boundMutation at h
  cases hintent : r.request.intent with
  | createFolder parent name =>
    rw [hintent] at h
    cases h
    refine ⟨name, rfl, rfl, rfl, rfl, rfl, rfl, ?_, ?_, ?_, rfl, rfl, ?_, rfl, ?_⟩ <;>
      simp [hintent, MutationIntent.before, Operation.kind, MutationIntent.preview,
        Operation.newName, MutationIntent.place, Operation.removesFile]
  | relocate before parent name =>
    rw [hintent] at h
    cases h
    refine ⟨name, rfl, rfl, rfl, rfl, rfl, rfl, ?_, ?_, ?_, rfl, rfl, ?_, rfl, ?_⟩ <;>
      simp [hintent, MutationIntent.before, Operation.kind, MutationIntent.preview,
        Operation.newName, MutationIntent.place, Operation.removesFile]
  | removeFile before => rw [hintent] at h; cases h
  | removeFolder before => rw [hintent] at h; cases h
  | trashNativeDocument before => rw [hintent] at h; cases h

/-- What a change with its confirmed folder must satisfy to be stored. -/
theorem Revises.of_moved (hinv : Inv ok [] j) {r r' : MutationRecord} {n : Node} {name : String}
    {keys : List Resource} (hfind : j.queue.find r.id = some (.mutation r))
    (hincomplete : (Operation.mutation r).isComplete = false)
    (hwaiting : (Operation.mutation r).waiting = true) (hmoved : r.Moved r' n name)
    (hn : Confirmed ok n) (hkeys : mutationResources j.settings.lowercase r'.request = .ok keys) :
    Revises ok j (.mutation r) (.mutation r') keys true := by
  have hwell : r.WellFormed ok := hinv.queue.wellFormed hfind
  have hdestination : (Operation.mutation r).destination.isSome = true := by
    have hname := hmoved.name
    cases hintent : r.request.intent <;>
      simp_all [Operation.newName, MutationIntent.place, Operation.destination,
        MutationIntent.destination]
  constructor
  · exact (congrArg j.queue.find hmoved.id).trans hfind
  · exact hincomplete
  · refine ⟨hmoved.id, rfl, hmoved.scope, hmoved.sequence, hmoved.kind, ?_, ?_,
      fun _ => hmoved.base, ?_, hmoved.removes, rfl, ?_, ?_⟩
    · simp only [Operation.base, hmoved.base]
    · rw [hdestination, Operation.destination, hmoved.destination]
      rfl
    · simp [Operation.localReady, hmoved.ready]
    · intro other hother
      rw [Operation.newName, hmoved.place] at hother
      rw [hmoved.name]
      exact hother
    · intro hcomplete
      rw [hincomplete] at hcomplete
      cases hcomplete
  · have hattempt := hinv.queue.attempt hfind
    simpa only [Operation.attempt, Operation.inFlight, hmoved.attempt, hmoved.state] using hattempt
  · refine ⟨?_, ?_, ?_, ?_, ?_⟩
    · rw [hmoved.before, hmoved.state, hmoved.base]
      exact hwell.before
    · rw [hmoved.state, hmoved.kind]
      exact hwell.resolved
    · intro happlied
      rw [hmoved.state] at happlied
      simp [Operation.waiting, happlied] at hwaiting
    · rw [hmoved.base, hmoved.before]
      exact hwell.source
    · rw [hmoved.base, hmoved.preview]
      exact hwell.base
  · intro b hb hresolved
    rw [Operation.base, hmoved.base] at hb
    obtain ⟨_, p, hp, _, _, hfollows⟩ := hinv.queue.lineage hfind hb
    obtain ⟨hscope, m, hm, hcarries⟩ := hfollows hresolved
    refine ⟨p, hp, hscope.trans hmoved.scope.symm, m, hm, ?_⟩
    simp only [Operation.carries, hmoved.before]
    exact hcarries
  · intro _ hnot
    have hsame : (Operation.mutation r').waiting = (Operation.mutation r).waiting := by
      simp only [Operation.waiting, hmoved.state]
    rw [hsame, hwaiting] at hnot
    cases hnot
  · exact fun _ _ => .inl rfl
  · intro k hk
    simp only [Operation.keys, hkeys] at hk
    exact .inl hk
  · intro parent hparent
    rw [Operation.destination, hmoved.destination] at hparent
    cases hparent
    exact .inl (hn.tags _ (by simp [nodeTags]))
  · intro x hx hready
    cases hx
    rw [hmoved.state, hmoved.base]
    exact (hinv.held hfind (hmoved.ready.symm.trans hready) List.not_mem_nil).state
  · intro hboth
    have hsame : (Operation.mutation r).inFlight = true ∨
        (Operation.mutation r).isComplete = true := by
      simpa only [Operation.inFlight, Operation.isComplete, hmoved.state] using hboth
    rcases hsame with hflight | hcomplete
    · rw [Operation.not_waiting_of_inFlight hflight] at hwaiting
      cases hwaiting
    · rw [hincomplete] at hcomplete
      cases hcomplete
  · intro hbegun
    left
    simpa only [Operation.begun, hmoved.state] using hbegun

/-- The keys of a change with its confirmed folder were held, or were revealed. -/
theorem Inv.moved_keys (hinv : Inv ok [] j) {r r' : MutationRecord} {n : Node} {name : String}
    {keys : List Resource} (hfind : j.queue.find r.id = some (.mutation r))
    (hmoved : r.Moved r' n name)
    (hkeys : mutationResources j.settings.lowercase r'.request = .ok keys) {k : Resource}
    (hk : k ∈ keys) :
    k ∈ j.queue.resources r.id ∨ j.queue.BaseReveals j.settings.lowercase (.mutation r) k ∨
      k = slotKey j.settings.lowercase r.request.scope n.id name := by
  rcases (mem_mutationResources hkeys).mp hk with ⟨source, hsource, hk'⟩ | ⟨place, hplace, rfl⟩
  · -- The source is what it was.
    rw [hmoved.before] at hsource
    have hparent : ∀ b, r.request.intent.before = some b → b.parentId.isSome = true := by
      intro b hb
      exact parent_of_mutationResources hkeys b (hmoved.before.trans hb)
    have hold : mutationResources j.settings.lowercase r.request = .ok _ :=
      mutationResources_eq hparent
    have hmem : k ∈ (Operation.mutation r).keys j.settings.lowercase := by
      simp only [Operation.keys, hold]
      rw [hmoved.scope] at hk'
      exact (mem_mutationResources hold).mpr (.inl ⟨source, hsource, hk'⟩)
    rcases hinv.covered hfind k hmem with hheld | hreveals
    · exact .inl hheld
    · exact .inr (.inl hreveals)
  · rw [hmoved.place] at hplace
    cases hplace
    rw [hmoved.scope]
    exact .inr (.inr rfl)

/-- What an upload with its confirmed folder must satisfy to be stored. -/
theorem Revises.of_placed (hinv : Inv ok [] j) {r : UploadRecord} {parent name : String} {n : Node}
    (hfind : j.queue.find r.id = some (.upload r))
    (hincomplete : (Operation.upload r).isComplete = false)
    (hwaiting : (Operation.upload r).waiting = true) (hbase : r.base = none)
    (hintent : r.intent = .create parent name) (hn : Confirmed ok n) :
    Revises ok j (.upload r) (.upload { r with intent := .create n.id name })
      (uploadResources j.settings.lowercase r.scope (.create n.id name)) true := by
  have hwell : r.WellFormed ok := hinv.queue.wellFormed hfind
  constructor
  · exact hfind
  · exact hincomplete
  · refine ⟨rfl, rfl, rfl, rfl, rfl, rfl, ?_, fun _ => rfl, fun h => h, rfl, rfl, ?_, ?_⟩
    · simp [Operation.destination, hbase, hintent]
    · simp [Operation.newName, hintent]
    · intro hcomplete
      rw [hincomplete] at hcomplete
      cases hcomplete
  · have hattempt := hinv.queue.attempt hfind
    exact hattempt
  · refine ⟨hwell.receipt, ?_, hwell.digest⟩
    intro _ item etag heq
    cases heq
  · intro b hb
    rw [Operation.base, hbase] at hb
    cases hb
  · intro _ hnot
    have hsame : (Operation.upload r).waiting = false := hnot
    rw [hwaiting] at hsame
    cases hsame
  · exact fun _ _ => .inl rfl
  · exact fun k hk => .inl hk
  · intro parent hparent
    simp only [Operation.destination, hbase, Option.some.injEq] at hparent
    subst hparent
    exact .inl (hn.tags _ (by simp [nodeTags]))
  · exact fun _ hnew => by cases hnew
  · intro hboth
    have hsame : (Operation.upload r).inFlight = true ∨ (Operation.upload r).isComplete = true :=
      hboth
    rcases hsame with hflight | hcomplete
    · rw [Operation.not_waiting_of_inFlight hflight] at hwaiting
      cases hwaiting
    · rw [hincomplete] at hcomplete
      cases hcomplete
  · exact fun hbegun => (Bool.false_ne_true hbegun).elim

/-- The destination of an operation that was stored with its folder is resolved. -/
theorem Revised.destinationReady {q q' : Queue} {new : Operation} {keys : List Resource}
    (h : q.Revised q' new keys true) : q'.destinationReady new.id = true :=
  Revised.ready_self h (.inl rfl)

/-- `UploadJournal::resolve_destination` gives the operation its confirmed folder. -/
theorem resolveDestination_binds (hinv : Inv ok [] j) {op : Operation} {row : DestinationRow}
    (hfind : j.queue.find id = some op) (hincomplete : op.isComplete = false)
    (hrow : j.queue.writeDestinations.get id = some row) (hunresolved : row.resolved = false)
    (hready : row.predecessor.all j.queue.completed = true)
    (hgained : ∀ k, Reveals j id k → gained id k) (h : j.resolveDestination id = .ok j') :
    Binds ok gained j j' id ∧ j'.queue.destinationReady id = true := by
  have hid : op.id = id := hinv.tidy.id_of_find hfind
  subst hid
  obtain ⟨hwaiting, hfailed⟩ := hinv.waiting_of_destination hfind hincomplete hrow hunresolved
  unfold UploadJournal.resolveDestination at h
  simp only [hrow, Option.filter_some, hunresolved, Bool.not_false, if_true] at h
  obtain ⟨folder, hfolder, h⟩ := bind_eq_ok h
  obtain ⟨op', hop', h⟩ := bind_eq_ok h
  obtain ⟨remote, hremote, h⟩ := bind_eq_ok h
  obtain ⟨_, hcheck, h⟩ := bind_eq_ok h
  rw [Queue.operation_ok, hfind] at hop'
  cases hop'
  rw [check_eq_ok, Bool.and_eq_true, decide_eq_true_eq, decide_eq_true_eq] at hcheck
  obtain ⟨n, rfl, hn⟩ := destinationNode_some hinv hfind hrow hready hfolder hcheck.2 hremote
  -- The only new key is that of the name in the confirmed folder.
  have hreveals : ∀ name k, op.newName = some name →
      k = slotKey j.settings.lowercase op.scope n.id name → gained op.id k := by
    intro name k hname hk
    exact hgained k ⟨op, hfind, .inr ⟨row, folder, n, name, hrow, hunresolved, hfolder, hremote,
      hname, hk⟩⟩
  cases op with
  | upload r =>
    obtain ⟨op, hop, hdestination⟩ := (hinv.destinations hrow).operation
    rw [hfind] at hop
    cases hop
    cases hintent : r.intent with
    | replace item etag => simp [Operation.destination, hintent] at hdestination
    | create parent name =>
      cases hbase : r.base with
      | some b => simp [Operation.destination, hbase] at hdestination
      | none =>
        simp only [UploadJournal.boundUpload, hintent] at h
        obtain ⟨r', hr', h⟩ := bind_eq_ok h
        cases hr'
        obtain ⟨queue, hqueue, h⟩ := bind_eq_ok h
        cases h
        have hrevises := Revises.of_placed hinv hfind hincomplete hwaiting hbase hintent hn
        have hrevised : j.queue.Revised _ (.upload { r with intent := .create n.id name })
            (uploadResources j.settings.lowercase r.scope (.create n.id name)) true :=
          Queue.revised_of_boundUpload hinv.tidy hfind rfl rfl hrow hqueue
        have hready' := Revised.destinationReady hrevised
        refine ⟨.of_revised hinv hrevises hrevised rfl hincomplete ?_ ?_ (fun _ hnew => by cases hnew),
          hready'⟩
        · rw [Operation.waiting] at hwaiting
          cases hstate : r.state <;>
            simp_all [Operation.inFlight, UploadState.inFlight]
        · intro k hk
          refine .inr (hreveals name k (by simp [Operation.newName, hintent]) ?_)
          simpa [uploadResources, Operation.scope] using hk
  | mutation r =>
    simp only at h
    obtain ⟨r', hbound, h⟩ := bind_eq_ok h
    obtain ⟨keys, hkeys, h⟩ := bind_eq_ok h
    obtain ⟨queue, hqueue, h⟩ := bind_eq_ok h
    obtain ⟨name, hmoved⟩ := boundMutation_moved hbound
    have hrevises := Revises.of_moved hinv hfind hincomplete hwaiting hmoved hn hkeys
    have hid : (Operation.mutation r).id = r'.id := hmoved.id.symm
    rw [hid] at hrow hqueue h
    cases h
    have hrevised := Queue.revised_of_boundMutation hinv.tidy (r := r') (hid ▸ hfind)
      hmoved.sequence (by rw [hmoved.state]) hrow hqueue
    have hready' := Revised.destinationReady hrevised
    rw [hid]
    refine ⟨.of_revised hinv hrevises hrevised rfl ?_ ?_ ?_ ?_, hready'⟩
    · rw [Operation.isComplete, hmoved.state]
      exact hincomplete
    · rw [Operation.inFlight, hmoved.state]
      rw [Operation.waiting] at hwaiting
      cases hstate : r.state <;> simp_all [MutationState.inFlight]
    · intro k hk
      show k ∈ j.queue.resources r'.id ∨ gained r'.id k
      rw [← hid]
      rcases hinv.moved_keys hfind hmoved hkeys hk with hheld | hbase | hslot
      · exact .inl hheld
      · exact .inr (hgained k ⟨_, hfind, .inl hbase⟩)
      · exact .inr (hreveals name k hmoved.name hslot)
    · intro x hx hlocal hstate
      cases hx
      exact ⟨r, rfl, hmoved.ready.symm.trans hlocal, hmoved.state.symm.trans hstate⟩

end Cirrove.Journal
