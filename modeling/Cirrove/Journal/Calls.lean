import Cirrove.Journal.Reopening

/-!
# Every call

`discard_stuck_removal` is the only call that takes an operation out of the queue. With it every
call of the interface is a path of moves (`exec_path`).
-/

namespace Cirrove.Journal

open Cirrove.Library
open UploadJournal

variable {ok : String → Prop} {j j' : UploadJournal}

/-! ## Taking a removal back -/

/-- The queue without a removal that nobody holds. -/
theorem Queue.discard_discarded {q : Queue} (ht : q.Tidy) {id : Uuid} {r : MutationRecord}
    (hfind : q.find id = some (.mutation r)) (hkind : (Operation.mutation r).kind = none)
    (hincomplete : (Operation.mutation r).isComplete = false)
    (hflight : (Operation.mutation r).inFlight = false) : q.Discarded (q.discard id) id := by
  have hupload : q.uploads.get id = none := by
    cases hrow : q.uploads.get id with
    | none => rfl
    | some row =>
      rw [Queue.find_of_upload hrow] at hfind
      cases hfind
  have hfinds : ∀ x, (q.discard id).find x = if x = id then none else q.find x := by
    intro x
    unfold Queue.find Queue.discard
    simp only [Table.get_erase]
    by_cases hx : x = id
    · subst hx
      simp [hupload]
    · simp only [if_neg hx]
  refine ⟨⟨ht.upload, ?_, ?_, ?_⟩, ⟨_, hfind, hkind, hincomplete, hflight⟩, hfinds, ?_, ?_, rfl, rfl,
    rfl⟩
  · intro x row hrow
    unfold Queue.discard at hrow
    simp only [Table.get_erase] at hrow
    split at hrow
    · cases hrow
    · exact ht.mutation hrow
  · intro x row hrow
    unfold Queue.discard
    simp only [Table.get_erase]
    split
    · rfl
    · exact ht.disjoint hrow
  · intro x
    rw [hfinds]
    unfold Queue.discard
    simp only [Table.get_erase]
    split
    · rfl
    · exact ht.queue x
  · intro x k
    rw [Queue.mem_resources, Queue.mem_resources]
    unfold Queue.discard
    simp only [Table.get_deleteWhere]
    by_cases hx : x = id
    · cases hget : q.writeResources.get (x, k) <;> simp [hx]
    · cases hget : q.writeResources.get (x, k) <;> simp [hx]
  · rfl

section Discard

variable {q' : Queue} {id : Uuid} {r : MutationRecord}

theorem Queue.Discarded.find_of_ne {q : Queue} (h : q.Discarded q' id) {x : Uuid} (hx : x ≠ id) :
    q'.find x = q.find x := by
  rw [h.find, if_neg hx]

/-- What is left was there before. -/
theorem Queue.Discarded.mem {q : Queue} (h : q.Discarded q' id) {x : Uuid} {op : Operation}
    (hop : q'.find x = some op) : x ≠ id ∧ q.find x = some op := by
  rw [h.find] at hop
  split at hop
  · cases hop
  · next hx => exact ⟨hx, hop⟩

/-- An operation that leaves something behind is not the removal. -/
theorem Queue.Discarded.kept {q : Queue} (h : q.Discarded q' id) {x : Uuid} {op : Operation}
    (hop : q.find x = some op) (hkind : op.kind.isSome = true) : q'.find x = some op := by
  rw [h.find_of_ne]
  · exact hop
  · rintro rfl
    obtain ⟨removal, hremoval, hnone, _⟩ := h.removal
    rw [hremoval] at hop
    cases hop
    rw [hnone] at hkind
    cases hkind

theorem Queue.Discarded.head {q : Queue} (h : q.Discarded q' id) {latest : Option Uuid}
    (hhead : HeadSound q latest) : HeadSound q' latest := by
  intro p hp
  obtain ⟨op, hop, hkind⟩ := hhead p hp
  exact ⟨op, h.kept hop hkind, hkind⟩

/-- What is complete, and what waits for a receipt, is not the removal. -/
theorem Queue.Discarded.reveals {q : Queue} (h : q.Discarded q' id) (hsound : q.Sound ok)
    {lowercase : String → String} {x : Uuid} {op : Operation} {k : Resource}
    (hop : q.find x = some op) (hreveals : q.BaseReveals lowercase op k) :
    q'.BaseReveals lowercase op k := by
  obtain ⟨b, p, n, hb, hunresolved, hp, hn, hk⟩ := hreveals
  obtain ⟨_, p', hp', _, hkind, _⟩ := hsound.lineage hop hb
  rw [hp] at hp'
  cases hp'
  exact ⟨b, p, n, hb, hunresolved, h.kept hp hkind, hn, hk⟩

theorem Queue.Discarded.sound {q : Queue} (h : q.Discarded q' id) (hsound : q.Sound ok) :
    q'.Sound ok := by
  have hready : ∀ x, q'.destinationReady x = q.destinationReady x := by
    intro x
    simp only [Queue.destinationReady, h.destinations]
  refine ⟨h.tidy, ?_, ?_, ?_, ?_, ?_, ?_, ?_, ?_⟩
  · intro x op hop
    exact hsound.attempt (h.mem hop).2
  · intro x op hop
    rw [h.lastSequence]
    exact hsound.sequence (h.mem hop).2
  · intro a b x y hx hy heq
    exact hsound.unique (h.mem hx).2 (h.mem hy).2 heq
  · intro x op hop
    exact hsound.wellFormed (h.mem hop).2
  · intro x op b hop hb
    rw [h.successors]
    obtain ⟨hsuccessor, p, hp, hlt, hkind, hfollows⟩ := hsound.lineage (h.mem hop).2 hb
    exact ⟨hsuccessor, p, h.kept hp hkind, hlt, hkind, hfollows⟩
  · intro p s op hsuccessor hop
    rw [h.successors] at hsuccessor
    exact hsound.successor hsuccessor (h.mem hop).2
  · intro x op hop hincomplete hwaiting
    rw [hready]
    exact hsound.bound (h.mem hop).2 hincomplete hwaiting
  · intro x op hop hfailed hbound
    rw [hready]
    exact hsound.failed (h.mem hop).2 hfailed hbound

/-- Taking a removal out of the queue keeps the invariant. -/
theorem Inv.discard (hinv : Inv ok [] j) (hfind : j.queue.find id = some (.mutation r))
    (hdestination : r.request.intent.destination = none) (h : j.queue.Discarded q' id) :
    Inv ok [] { j with queue := q' } := by
  refine ⟨h.sound hinv.queue, ?_, ?_, ?_, ?_, ?_, ?_, hinv.index, hinv.latest, hinv.cleanups, ?_,
    hinv.detached, ?_⟩
  · intro x op hop k hk
    obtain ⟨hx, hold⟩ := h.mem hop
    rcases hinv.covered hold k hk with hheld | hreveals
    · exact .inl ((h.resources x k).mpr ⟨hx, hheld⟩)
    · exact .inr (h.reveals hinv.queue hold hreveals)
  · intro x row hrow
    have hsound := hinv.objects hrow
    refine { hsound with head := fun hlinked => h.head (hsound.head hlinked), folder := ?_ }
    intro hlinked hfolder p hp
    obtain ⟨howner, hop⟩ := hsound.folder hlinked hfolder p hp
    exact ⟨howner, fun op hfound => hop op (h.mem hfound).2⟩
  · intro x row hrow
    have hsound := hinv.files hrow
    exact { hsound with head := fun hlinked => h.head (hsound.head hlinked) }
  · intro x row hrow
    have hget : j.queue.writeDestinations.get x = some row := by
      rw [← h.destinations]
      exact hrow
    obtain ⟨⟨op, hop, hsome⟩, ⟨f, hf, hscope, hremote⟩, hpredecessor⟩ := hinv.destinations hget
    -- A removal has no destination.
    have hx : x ≠ id := by
      rintro rfl
      rw [hfind] at hop
      cases hop
      simp only [Operation.destination, hdestination] at hsome
      cases hsome
    refine ⟨⟨op, by rw [← hop]; exact h.find_of_ne hx, hsome⟩, ⟨f, hf, ?_, hremote⟩, ?_⟩
    · intro op' hop'
      exact hscope op' (h.mem hop').2
    · intro p hp
      obtain ⟨howner, prev, hprev, hkind, hearlier⟩ := hpredecessor p hp
      refine ⟨howner, prev, h.kept hprev (by rw [hkind]; rfl), hkind, ?_⟩
      intro op' hop'
      exact hearlier op' (h.mem hop').2
  · intro x op parent hop hparent
    rcases hinv.parents (h.mem hop).2 hparent with ⟨row, hrow, hunresolved⟩ | hrest
    · refine .inl ⟨row, ?_, hunresolved⟩
      show q'.writeDestinations.get x = some row
      rw [h.destinations]
      exact hrow
    · exact .inr hrest
  · intro x record hrecord
    have hsound := hinv.replacements hrecord
    obtain ⟨u, hu⟩ := hsound.upload
    have hx : x ≠ id := by
      rintro rfl
      rw [hfind] at hu
      cases hu
    have hsame : q'.find x = j.queue.find x := h.find_of_ne hx
    refine ⟨hsound.key, ⟨u, hsame.trans hu⟩, ?_, hsound.cleanup, ?_, ?_, ?_, ?_⟩
    · intro hnot hincomplete
      obtain ⟨howner, hsource, row, hrow, hun, hhead⟩ := hsound.running hnot (fun op hop =>
        hincomplete op (hsame.trans hop))
      exact ⟨howner, hsource, row, hrow, hun, h.head hhead⟩
    · intro hrescued hnot op hop
      exact hsound.rescuedDone hrescued hnot op (hsame.symm.trans hop)
    · intro hunready op hop
      exact hsound.unready hunready op (hsame.symm.trans hop)
    · intro hrescued hnot
      rw [h.prerequisites]
      exact hsound.awaits hrescued hnot
    · intro hnot op hop
      exact hsound.done hnot op (hsame.symm.trans hop)
  · intro x m hm hready hnot
    have hheld := hinv.held (h.mem hm).2 hready hnot
    exact ⟨hheld.removes, hheld.state, hheld.object⟩
  · intro x u hu hdigest hnot
    exact hinv.unsealed (h.mem hu).2 hdigest hnot

end Discard

/-- A removal is a change that leaves nothing behind. -/
theorem MutationIntent.isRemoval_spec {r : MutationRecord} (h : r.request.intent.isRemoval = true) :
    (Operation.mutation r).kind = none ∧ r.request.intent.destination = none := by
  cases hintent : r.request.intent <;> rw [hintent] at h <;> simp [MutationIntent.isRemoval] at h
  all_goals simp [Operation.kind, hintent, MutationIntent.destination]

/-- `UploadJournal::discard_stuck_removal` keeps the invariant. -/
theorem discardStuckRemoval_spec (hinv : Inv ok [] j) {id : Uuid}
    (h : j.discardStuckRemoval id = .ok j') :
    Inv ok [] j' ∧ j.queue.Discarded j'.queue id ∧ Relinked j j' id ∧ j'.settings = j.settings := by
  unfold UploadJournal.discardStuckRemoval at h
  obtain ⟨r, hr, h⟩ := bind_eq_ok h
  have hfind : j.queue.find id = some (.mutation r) := (Queue.mutation_ok hinv.tidy).mp hr
  obtain ⟨_, hstuck, h⟩ := bind_eq_ok h
  obtain ⟨_, hremoval, h⟩ := bind_eq_ok h
  split at h
  · next o howner =>
    obtain ⟨_, hcheck, h⟩ := bind_eq_ok h
    obtain ⟨revision, _, h⟩ := bind_eq_ok h
    obtain ⟨j₁, hsave, h⟩ := bind_eq_ok h
    cases h
    rw [check_eq_ok] at hstuck hremoval
    simp only [check_eq_ok, Bool.and_eq_true, decide_eq_true_eq] at hcheck
    obtain ⟨hunlinked, hlatest⟩ := hcheck
    obtain ⟨⟨row, hrow, rfl⟩, howns⟩ := forOperation_eq_some hinv howner
    obtain ⟨n', hstored, rfl⟩ := saveObject_eq_ok hsave
    obtain ⟨hkind, hdestination⟩ := MutationIntent.isRemoval_spec hremoval
    have hidle : (Operation.mutation r).isComplete = false ∧
        (Operation.mutation r).inFlight = false := by
      cases hstate : r.state <;> rw [hstate] at hstuck <;>
        simp_all [MutationState.stuck, Operation.isComplete, Operation.inFlight,
          MutationState.isComplete, MutationState.inFlight]
    have hdiscarded := Queue.discard_discarded hinv.tidy hfind hkind hidle.1 hidle.2
    have hinv₁ := hinv.discard hfind hdestination hdiscarded
    have hgone : (j.queue.discard id).find id = none := by
      rw [hdiscarded.find, if_pos rfl]
    have hsound := hinv.objects hrow
    have hscope := hinv.scope_known hrow
    -- The removal is gone, so its object can have its name again.
    have hstorable : Storable ok [] { j with queue := j.queue.discard id }
        { row.body with unlinked := false, latest := none, revision := revision } := by
      have hself : ∀ x, j.names.objects.get row.body.id = some x → x = row := by
        intro x hx
        rw [hrow] at hx
        exact (Option.some.inj hx).symm
      refine ⟨?_, hsound.remote, hsound.working, ?_, ?_, ?_, hscope, ?_, ?_, ?_⟩
      · intro x hx
        obtain rfl := hself x hx
        exact ⟨rfl, fun hfollows hfile => ⟨hfile, .inl hfollows⟩⟩
      · intro hunconfirmed
        have hlinked := (hsound.unconfirmed ⟨hunconfirmed.1, hunconfirmed.2⟩).2
        rw [hunlinked] at hlinked
        cases hlinked
      · intro _ p hp
        cases hp
      · intro _ _ p op hp
        cases hp
      · intro x hx hspare
        obtain rfl := hself x hx
        exact .inl hspare
      · intro x hx _
        obtain rfl := hself x hx
        refine .inr ⟨?_, ?_⟩
        · intro p m hp hm
          rw [hlatest] at hp
          cases hp
          rw [show (j.queue.discard id).find id = none from hgone] at hm
          cases hm
        · -- The victim of a running replacement has an operation that leaves something behind.
          intro x record hrecord hvictim
          have hreplacement := hinv.replacements hrecord
          obtain ⟨u, hu⟩ := hreplacement.upload
          have hx : x ≠ id := by
            rintro rfl
            rw [hfind] at hu
            cases hu
          refine .inr ⟨_, (hdiscarded.find_of_ne hx).trans hu, ?_⟩
          cases hcomplete : (Operation.upload u).isComplete with
          | true => rfl
          | false =>
            obtain ⟨v, hv, _, hhead⟩ := (hreplacement.running List.not_mem_nil (by
              intro op hop
              rw [hu] at hop
              cases hop
              exact hcomplete)).victim
            rw [hvictim, hrow] at hv
            cases hv
            obtain ⟨op, hop, hsome⟩ := hhead id hlatest
            rw [hfind] at hop
            cases hop
            rw [hkind] at hsome
            cases hsome
      · intro hfalse
        cases hfalse
    have hinv₂ := hinv₁.store hstorable hstored
    have hforget : Inv ok [] { j with
        queue := j.queue.discard id
        names := { n' with operations := n'.operations.erase id } } := by
      have hkeep : ∀ p, p ≠ id → (n'.operations.erase id).get p = n'.operations.get p := by
        intro p hp
        rw [Table.get_erase, if_neg hp]
      refine hinv₂.forget ?_ ?_ ?_ ?_ ?_
      · intro p x hp
        rw [Table.get_erase] at hp
        split at hp
        · cases hp
        · exact hp
      · intro x other p hother hp
        have hne : p ≠ id := by
          rintro rfl
          rcases hinv₂.latest hother hp with hnil | hget
          · cases hnil
          · rw [show n'.operations.get p = some row.body.id from hstored.operations _ _ howns] at hget
            cases hget
            rw [show n'.objects.get row.body.id = _ from hstored.self] at hother
            cases hother
            cases hp
        rw [hkeep p hne]
        exact hinv₂.latest hother hp
      · intro p op hop _
        refine hkeep p ?_
        rintro rfl
        rw [show (j.queue.discard p).find p = none from hgone] at hop
        cases hop
      · intro p record hrecord _
        refine hkeep p ?_
        rintro rfl
        rw [show j.fileReplacements.get p = none from hinv.no_replacement hfind] at hrecord
        cases hrecord
      · intro p m hm _ _
        refine hkeep p ?_
        rintro rfl
        rw [show (j.queue.discard p).find p = none from hgone] at hm
        cases hm
    exact ⟨hforget, hdiscarded, ⟨⟨row, revision, n', hrow, hunlinked, hlatest, hstored, hscope, rfl⟩,
      rfl, rfl⟩, rfl⟩
  · cases h

/-! ## Every call -/

/-- What a call answers about an operation it hands out. Only a direct `claim_verification` does not
    look at the older operations. -/
def Answered (env : Env) (op : Op) (j : UploadJournal) (answer : Option Operation) : Prop :=
  ∀ x, answer = some x →
    HandedOut env j x ∧ (op = .claimVerification x.id ∨ j.queue.blocked x.id x.sequence = false)

/-- The call is a path of moves, what it hands out can be relied on, and nobody else holds
    anything new. -/
def Performs (ok : String → Prop) (start : UploadJournal) (env : Env) (op : Op)
    (x : Commits UploadJournal JournalError Reply) : Prop :=
  Commits.Contract (fun j => j = start) x (Path ok start env op)
    (fun reply j => Path ok start env op j ∧ Answered env op j (handedOut (.ok reply)) ∧
      Granted start j (handedOut (.ok reply))) (fun j => Granted start j none)

section Performs

variable {start : UploadJournal} {env : Env} {op : Op} {α : Type} {f : α → Reply}

/-- A call that hands nothing out grants nothing. -/
theorem Path.granted (h : Path ok start env op j) (hop : op.claims = false) :
    Granted start j none := by
  refine h.invariant (fun j => Granted start j none) (.refl start) ?_
  intro a b hmove hgranted
  cases hmove with
  | quiet _ h => exact hgranted.evolves h.evolves
  | bind _ _ h => exact hgranted.evolves h.2.reaches.evolves
  | claim _ hclaims _ _ _ =>
    rw [hop] at hclaims
    cases hclaims
  | discard _ _ _ h _ _ =>
    intro id x hx hflight
    exact hgranted id x (h.mem hx).2 hflight

theorem Performs.of_path {x : Commits UploadJournal JournalError α} (hop : op.claims = false)
    (h : Commits.Triple (fun j => j = start) x (Path ok start env op) (fun _ => Path ok start env op))
    (hreply : ∀ a, handedOut (.ok (f a)) = none) : Performs ok start env op (answer f x) := by
  refine Commits.contract_bind (h.contract ?_ (fun _ hpath => hpath.granted hop)) ?_
  · rintro j rfl
    exact .refl j
  intro a
  apply Commits.contract_pure
  intro j hpath
  rw [hreply a]
  refine ⟨hpath, ?_, hpath.granted hop⟩
  intro y hy
  cases hy

/-- A call of one transaction. -/
theorem Performs.of_transaction (hstart : Inv ok [] start) (hop : op.claims = false)
    {tx : UploadJournal → Except JournalError (α × UploadJournal)}
    (h : ∀ a j', tx start = .ok (a, j') →
      Leads ok (fun _ _ => False) (fun _ _ => False) [] start j')
    (hreply : ∀ a, handedOut (.ok (f a)) = none) :
    Performs ok start env op (answer f (Commits.transaction tx)) := by
  refine .of_path hop ?_ hreply
  apply Commits.triple_transaction
  rintro j rfl a j' htx
  have hpath : Path ok j env op j' := Path.quiet .refl hstart (h a j' htx)
  exact ⟨hpath, hpath⟩

theorem Performs.of_commit {f : PUnit → Reply} (hstart : Inv ok [] start) (hop : op.claims = false)
    {tx : UploadJournal → Except JournalError UploadJournal}
    (h : ∀ j', tx start = .ok j' → Leads ok (fun _ _ => False) (fun _ _ => False) [] start j')
    (hreply : ∀ a, handedOut (.ok (f a)) = none) :
    Performs ok start env op (answer f (Commits.commit tx)) := by
  refine .of_path hop ?_ hreply
  apply Commits.triple_commit
  rintro j rfl j' htx
  have hpath : Path ok j env op j' := Path.quiet .refl hstart (h j' htx)
  exact ⟨hpath, hpath⟩

/-- A claim of the next operation. -/
theorem Performs.of_claim {x : Commits UploadJournal JournalError (Option α)} {g : α → Operation}
    (h : Commits.Contract (fun j => j = start) x (Path ok start env op)
      (fun r => Claimed ok start env op (r.map g)) (fun j => Granted start j none)) :
    Performs ok start env op (answer (fun r => .claimed (r.map g)) x) := by
  refine Commits.contract_bind h ?_
  intro r
  apply Commits.contract_pure
  rintro j ⟨hpath, hoffered, hgranted⟩
  refine ⟨hpath, ?_, hgranted⟩
  intro y hy
  obtain ⟨hhanded, hfree⟩ := hoffered y hy
  exact ⟨hhanded, .inr hfree⟩

end Performs

/-- Every call is a path of moves. -/
theorem exec_path {start : UploadJournal} {env : Env} (hstart : Inv ok [] start)
    (hinjective : Function.Injective env.uuid) (hunused : ∀ n, Unused start (env.uuid n)) (op : Op)
    (hparent : ∀ n, op.parent ≠ some (localDirectory (env.uuid n)))
    (hcaptured : ∀ scope node, (scope, node) ∈ op.captured → isLocalDirectory node.id = true →
      (start.names.byLocal scope node.id).isSome = true)
    (htags : ∀ tag ∈ op.tags, ok tag) : Performs ok start env op (exec env op) := by
  have hdistinct : env.uuid 1 ≠ env.uuid 0 := fun heq => absurd (hinjective heq) (by decide)
  cases op with
  | configureNamespace scope names =>
    exact .of_commit hstart rfl (fun j' h => configureNamespace_leads hstart h) (fun _ => rfl)
  | observeNamespaceFile scope node =>
    exact .of_transaction hstart rfl
      (fun _ _ h => observeNamespaceFile_leads hstart h (hunused 0) htags) (fun _ => rfl)
  | captureNamespaceAncestors entries =>
    refine .of_commit hstart rfl (fun _ h =>
      captureNamespaceAncestors_leads hstart h hinjective hunused ?_) (fun _ => rfl)
    intro scope node hmem
    have htag : ∀ tag, (tag ∈ if isLocalDirectory node.id then node.etag.toList else nodeTags node) →
        ok tag := fun tag htag => htags tag (List.mem_flatMap.mpr ⟨(scope, node), hmem, htag⟩)
    -- A folder that was created here has its object, and what else is named comes from the cloud.
    cases hlocal : isLocalDirectory node.id with
    | true =>
      rw [hlocal] at htag
      exact ⟨htag, .inl (hcaptured scope node hmem hlocal)⟩
    | false =>
      rw [hlocal] at htag
      exact ⟨fun tag hmem => htag tag (List.mem_cons_of_mem _ hmem),
        .inr (htag node.id List.mem_cons_self)⟩
  | enqueue scope intent =>
    refine .of_transaction hstart rfl (fun _ _ h => enqueue_leads hstart h (hunused 0) ?_) (fun _ => rfl)
    rintro item etag rfl
    exact ⟨htags item (by simp [Op.tags]), htags etag (by simp [Op.tags])⟩
  | enqueueAfterAll predecessor prerequisites =>
    exact .of_transaction hstart rfl (fun _ _ h => enqueueAfterAll_leads hstart h (hunused 0))
      (fun _ => rfl)
  | enqueueMutation request =>
    refine .of_transaction hstart rfl (fun _ _ h => enqueueMutation_leads hstart h (hunused 0) ?_)
      (fun _ => rfl)
    intro b hb tag htag
    refine htags tag ?_
    simp only [Op.tags, hb, Option.toList_some, List.flatMap_cons, List.flatMap_nil, List.append_nil]
    exact htag
  | enqueueMutationAfterAll predecessor prerequisites request =>
    exact .of_transaction hstart rfl (fun _ _ h => enqueueMutationAfterAll_leads hstart h (hunused 0))
      (fun _ => rfl)
  | publishWorking scope node new truncate =>
    exact .of_transaction hstart rfl (fun _ _ h => publishWorking_leads hstart h (hunused 0) htags)
      (fun _ => rfl)
  | writeWorking id written =>
    refine .of_path rfl (Commits.triple_consequence (writeWorking_path hstart id written) ?_
      (fun _ h => h) (fun _ _ h => h)) (fun _ => rfl)
    rintro j rfl
    exact .refl
  | sealWorking id =>
    exact .of_transaction hstart rfl (fun _ _ h => (sealWorking_spec hstart h (hunused 0).absent).1)
      (fun _ => rfl)
  | relocateWorking id parent name =>
    exact .of_path rfl (relocateWorking_path hstart hdistinct (hunused 0).absent (hunused 1).absent id
      parent name) (fun _ => rfl)
  | createNamespaceDirectory scope parent name =>
    refine .of_transaction hstart rfl (fun _ _ h =>
      createNamespaceDirectory_leads hstart h (hunused 0) (hunused 1) ?_) (fun _ => rfl)
    rintro rfl
    exact hparent 0 rfl
  | removeNamespaceDirectory id revision =>
    exact .of_transaction hstart rfl (fun _ _ h => removeNamespaceDirectory_leads hstart h (hunused 0))
      (fun _ => rfl)
  | relocateNamespaceItem id revision parent name =>
    exact .of_path rfl (relocateNamespaceItem_path hstart hdistinct (hunused 0) (hunused 1) id revision
      parent name) (fun _ => rfl)
  | unlinkNamespaceFile id revision preserveReaders =>
    exact .of_transaction hstart rfl (fun _ _ h => unlinkNamespaceFile_leads hstart h (hunused 0))
      (fun _ => rfl)
  | replaceNamespaceFile source sourceRevision victim victimRevision preserveReaders =>
    exact .of_transaction hstart rfl (fun _ _ h => replaceNamespaceFile_leads hstart h hdistinct hunused)
      (fun _ => rfl)
  | handoffNamespace id revision remote =>
    exact .of_commit hstart rfl (fun _ h => handoffNamespace_leads hstart h htags) (fun _ => rfl)
  | claimNext => exact .of_claim (claimNext_path hstart rfl)
  | claimVerification id =>
    refine Commits.contract_bind (Q := fun r j => Path ok start env (.claimVerification id) j ∧
      HandedOut env j (.upload r) ∧ r.id = id ∧ Granted start j (some (.upload r))) ?_ ?_
    · refine Commits.contract_transaction ?_ ?_
      · rintro j rfl r j' h
        obtain ⟨old, hid, hclaimable, hrecord, hleads, hhanded, _⟩ := claimVerification_spec hstart h
        have hpath : Path ok j env (.claimVerification id) j' := by
          refine Relation.ReflTransGen.single (.claim hstart rfl hclaimable ?_ ?_)
          · exact .inl ⟨by rw [← hid]; rfl, rfl, rfl⟩
          · rw [show (Operation.upload old).id = id from hid]
            exact hleads
        have hid' : r.id = id := by
          rw [hrecord]
          exact hid
        exact ⟨hpath, hpath, hhanded, hid', (Granted.refl j).claim hleads hid' hhanded.attempt⟩
      · rintro j rfl
        exact .refl j
    · intro r
      apply Commits.contract_pure
      rintro j ⟨hpath, hhanded, hid, hgranted⟩
      refine ⟨hpath, ?_, hgranted⟩
      intro x hx
      cases hx
      exact ⟨hhanded, .inl (by rw [← hid]; rfl)⟩
  | claimNextVerification => exact .of_claim (claimNextVerification_path hstart rfl)
  | claimMutation => exact .of_claim (claimMutation_path hstart rfl)
  | recordSession id attempt key transferred =>
    exact .of_commit hstart rfl (fun _ h => recordSession_leads hstart h) (fun _ => rfl)
  | deferAttempt id attempt state delay =>
    exact .of_commit hstart rfl (fun _ h => deferAttempt_leads hstart h) (fun _ => rfl)
  | acknowledge id attempt remote =>
    exact .of_commit hstart rfl (fun _ h => acknowledge_leads hstart htags h) (fun _ => rfl)
  | retryVerifiedUncommitted id =>
    exact .of_commit hstart rfl (fun _ h => retryVerifiedUncommitted_leads hstart h) (fun _ => rfl)
  | requestRetry id =>
    exact .of_commit hstart rfl (fun _ h => requestRetry_leads hstart h) (fun _ => rfl)
  | releaseReplacementReaders id =>
    exact .of_commit hstart rfl (fun _ h => releaseReplacementReaders_leads hstart h) (fun _ => rfl)
  | recordPreparedMutation id attempt item =>
    exact .of_commit hstart rfl (fun _ h => recordPreparedMutation_leads hstart h) (fun _ => rfl)
  | acknowledgeMutation id attempt receipt proof =>
    refine .of_transaction hstart rfl (fun _ _ h => acknowledgeMutation_leads hstart ?_ h) (fun _ => rfl)
    rintro n rfl
    exact htags
  | deferMutation id attempt state delay =>
    exact .of_commit hstart rfl (fun _ h => deferMutation_leads hstart h) (fun _ => rfl)
  | deferMutationPreparation id attempt delay =>
    exact .of_commit hstart rfl (fun _ h => deferMutationPreparation_leads hstart h) (fun _ => rfl)
  | retryUncommittedMutation id attempt =>
    exact .of_commit hstart rfl (fun _ h => retryUncommittedMutation_leads hstart h) (fun _ => rfl)
  | requestMutationRetry id =>
    exact .of_commit hstart rfl (fun _ h => requestMutationRetry_leads hstart h) (fun _ => rfl)
  | releaseUnlinkedReaders id =>
    exact .of_commit hstart rfl (fun _ h => releaseUnlinkedReaders_leads hstart h) (fun _ => rfl)
  | discardStuckRemoval id =>
    refine .of_path rfl ?_ (fun _ => rfl)
    apply Commits.triple_commit
    rintro j rfl j' h
    obtain ⟨hinv', hdiscarded, hrelinked, hsettings⟩ := discardStuckRemoval_spec hstart h
    have hpath : Path ok j env (.discardStuckRemoval id) j' :=
      Relation.ReflTransGen.single (.discard hstart rfl hinv' hdiscarded hsettings hrelinked)
    exact ⟨hpath, hpath⟩
  | keepBoth id parent name =>
    exact .of_path rfl (keepBoth_path rfl hstart hinjective hunused id parent name) (fun _ => rfl)

end Cirrove.Journal
