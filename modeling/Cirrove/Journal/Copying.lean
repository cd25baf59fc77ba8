import Cirrove.Journal.Rescuing
import Cirrove.Journal.Settling

/-!
# The commit of a rescue keeps the invariant

The saves of the plan and the cleanups of its replacements are underway: their owners are forgotten
before they are resolved. `Midway` is the state after some of the replacements were taken over.
-/

namespace Cirrove.Journal

open Cirrove.Library
open UploadJournal

variable {ok : String → Prop} {underway : List Uuid} {j j' : UploadJournal}
  {claimed : Uuid → Uuid → Prop} {gained : Uuid → Resource → Prop}

/-! ## Resolving an operation -/

/-- An operation that nobody holds is resolved. -/
theorem resolved_leads (hinv : Inv ok underway j) {old new : Operation} {q' : Queue}
    (hrevises : Revises ok j old new [] false) (hrevised : j.queue.Revised q' new [] false)
    (hcomplete : new.isComplete = true)
    (hdone : new.id ∉ underway → j.fileReplacements.get new.id = none) :
    Leads ok claimed gained underway j { j with queue := q' } := by
  have hflight : new.inFlight = false := by
    cases hflight : new.inFlight with
    | false => rfl
    | true =>
      rw [Operation.not_isComplete_of_inFlight hflight] at hcomplete
      cases hcomplete
  refine ⟨⟨hinv.revise hrevises hrevised ?_, ?_, rfl, .of_same rfl rfl rfl⟩, ?_⟩
  · intro _ hunderway record hrecord
    rw [hdone hunderway] at hrecord
    cases hrecord
  · refine Queue.Revised.evolves hrevised hrevises.stored hrevises.continues ?_ hrevises.begun ?_
    · intro htrue
      rw [hflight] at htrue
      cases htrue
    · intro k hk
      cases hk
  · refine Revised.steady hrevised ?_
    intro r hr _ hstate
    rw [hr, Operation.isComplete, hstate] at hcomplete
    cases hcomplete

/-- No replacement has the identity of a namespace change. -/
theorem Inv.no_replacement (hinv : Inv ok underway j) {id : Uuid} {r : MutationRecord}
    (h : j.queue.find id = some (.mutation r)) : j.fileReplacements.get id = none := by
  cases hrecord : j.fileReplacements.get id with
  | none => rfl
  | some record =>
    obtain ⟨u, hu⟩ := (hinv.replacements hrecord).upload
    rw [h] at hu
    cases hu

/-- The cleanup of a replacement is resolved, and its owner is forgotten. -/
theorem resolveCleanup_leads (hinv : Inv ok underway j) {save : Uuid} {source : NamespaceObject}
    {a : AtomicRescue} {j₀ : UploadJournal} (hsound : AtomicSound j₀ save source a)
    (hfind : j.queue.find a.cleanup.id = some (.mutation a.cleanup)) (hunderway : a.cleanup.id ∈ underway)
    (h : j.resolveCleanup a.cleanup = .ok j') :
    Leads ok claimed gained underway j j' ∧
      j'.queue.find a.cleanup.id = some (.mutation { a.cleanup with state := .resolved }) ∧
      (∀ x, x ≠ a.cleanup.id → j'.queue.find x = j.queue.find x) ∧
      (∀ x, j.queue.Absent x → j'.queue.Absent x) ∧
      j'.names = { j.names with operations := j.names.operations.erase a.cleanup.id } ∧
      j'.workingFiles = j.workingFiles ∧ j'.fileReplacements = j.fileReplacements := by
  unfold UploadJournal.resolveCleanup at h
  rw [(Queue.find_mutation_iff hinv.tidy).mp hfind] at h
  obtain ⟨_, _, h⟩ := bind_eq_ok h
  obtain ⟨q', hqueue, h⟩ := bind_eq_ok h
  cases h
  obtain ⟨before, hbefore⟩ := hsound.removes
  obtain ⟨hbeside, huploads, hmutations⟩ :=
    Queue.beside_of_queueComplete hqueue (q := j.queue) rfl rfl rfl rfl rfl rfl
  have hrevised : j.queue.Revised q' (.mutation { a.cleanup with state := .resolved }) [] false :=
    Queue.Revised.of_mutation hinv.tidy hfind rfl huploads hmutations hbeside
  have hrevises : Revises ok j (.mutation a.cleanup)
      (.mutation { a.cleanup with state := .resolved }) [] false := by
    refine .of_mutation hinv hfind ⟨rfl, rfl, rfl, rfl, fun h => h⟩ ?_ (.inr hsound.bound) ?_ ?_ ?_ ?_
      ?_ ?_
    · rw [hsound.pending]
      rfl
    · intro _
      simp only [Operation.kind, hbefore]
    · rw [hsound.attempt]
      simp [MutationState.inFlight]
    · intro hstate
      cases hstate
    · intro hopen
      cases hopen
    · intro hstate
      cases hstate
    · intro hheld
      exact absurd (hsound.localReady.symm.trans hheld) (by decide)
  have hleads : Leads ok claimed gained underway j { j with queue := q' } :=
    resolved_leads hinv hrevises hrevised rfl (fun _ => hinv.no_replacement hfind)
  have hself : q'.find a.cleanup.id = some (.mutation { a.cleanup with state := .resolved }) :=
    hrevised.find_self
  -- Only the object of the cleanup has it as its last operation.
  have hforget : Inv ok underway { j with
      queue := q', names := { j.names with operations := j.names.operations.erase a.cleanup.id } } := by
    have hkeep : ∀ p, p ≠ a.cleanup.id →
        (j.names.operations.erase a.cleanup.id).get p = j.names.operations.get p := by
      intro p hp
      rw [Table.get_erase, if_neg hp]
    refine hleads.inv.forget ?_ ?_ ?_ ?_ ?_
    · intro p id hp
      rw [Table.get_erase] at hp
      split at hp
      · cases hp
      · exact hp
    · intro id row p hrow hlatest
      by_cases hp : p = a.cleanup.id
      · exact .inl (hp ▸ hunderway)
      · rw [hkeep p hp]
        exact hinv.latest hrow hlatest
    · intro p op hop hkind
      refine hkeep p ?_
      rintro rfl
      rw [show q'.find a.cleanup.id = _ from hself] at hop
      cases hop
      simp only [Operation.kind, hbefore] at hkind
      cases hkind
    · intro p record hrecord _
      refine hkeep p ?_
      rintro rfl
      rw [show j.fileReplacements.get a.cleanup.id = none from hinv.no_replacement hfind] at hrecord
      cases hrecord
    · intro p r hr hheld _
      refine hkeep p ?_
      rintro rfl
      rw [show q'.find a.cleanup.id = _ from hself] at hr
      cases hr
      exact absurd (hsound.localReady.symm.trans hheld) (by decide)
  refine ⟨⟨⟨hforget, hleads.evolves, rfl, ?_⟩, hleads.steady⟩, hself,
    fun x hx => hrevised.find_of_ne hx, ?_, rfl, rfl, rfl⟩
  · refine Relation.ReflTransGen.single (.forget rfl rfl ?_ rfl)
    intro p id hp
    rw [Table.get_erase] at hp
    split at hp
    · cases hp
    · exact hp
  · intro x habsent
    exact hrevised.absent hfind habsent

/-- A save that may be resolved in this state. -/
structure Resolvable (underway : List Uuid) (j : UploadJournal) (save : UploadRecord) : Prop where
  state : save.state = .conflict ∨ save.state = .failed ∨ save.state = .pending
  digest : save.sha256.utf8ByteSize = 64
  ready : j.locallyReady save.id = true
  underway : save.id ∈ underway

theorem resolveSave_leads (hinv : Inv ok underway j) {save : UploadRecord} {q' : Queue}
    (hfind : j.queue.find save.id = some (.upload save)) (hsave : Resolvable underway j save)
    (h : resolveSave j.queue save = .ok q') :
    Leads ok claimed gained underway j { j with queue := q' } ∧
      j.queue.Revised q' (.upload { save with state := .resolved }) [] false := by
  unfold resolveSave at h
  obtain ⟨_, _, h⟩ := bind_eq_ok h
  rw [(Queue.find_upload_iff hinv.tidy).mp hfind] at h
  obtain ⟨_, _, h⟩ := bind_eq_ok h
  obtain ⟨hbeside, huploads, hmutations⟩ :=
    Queue.beside_of_queueComplete h (q := j.queue) rfl rfl rfl rfl rfl rfl
  have hrevised : j.queue.Revised q' (.upload { save with state := .resolved }) [] false :=
    Queue.Revised.of_upload hinv.tidy hfind rfl huploads hmutations hbeside
  have hidle := (Refused.mk hfind hsave.state).incomplete
  have hrevises : Revises ok j (.upload save) (.upload { save with state := .resolved }) [] false := by
    refine .of_upload hinv hfind ⟨rfl, rfl, rfl, rfl, rfl, rfl, rfl⟩ hidle.1 ?_ ?_ (.inl hsave.digest)
      (fun _ => hsave.ready) ?_ ?_
    · -- Nobody holds the save.
      have hattempt := hinv.queue.attempt hfind
      have hflight : (Operation.upload save).inFlight = false := hidle.2
      rw [hflight] at hattempt
      exact hattempt
    · intro hstate
      cases hstate
    · intro hopen
      cases hopen
    · intro hstate
      cases hstate
  exact ⟨resolved_leads hinv hrevises hrevised rfl (fun hnot => absurd hsave.underway hnot), hrevised⟩

/-- The last loop of `rescue::commit` resolves every save. -/
theorem resolveSaves_leads {saves : List UploadRecord} : ∀ {j : UploadJournal} {q' : Queue},
    Inv ok underway j → (∀ save ∈ saves, Resolvable underway j save ∧
      (j.queue.find save.id = some (.upload save) ∨
        ∃ r, j.queue.find save.id = some (.upload r) ∧ r.state = .resolved)) →
    resolveSaves saves j.queue = .ok q' →
    Leads ok claimed gained underway j { j with queue := q' } ∧
      (∀ save ∈ saves, ∃ r, q'.find save.id = some (.upload r) ∧ r.state = .resolved) ∧
      ∀ x, (∀ save ∈ saves, save.id ≠ x) → q'.find x = j.queue.find x := by
  induction saves with
  | nil =>
    intro j q' hinv _ h
    cases h
    exact ⟨.refl hinv, fun _ hmem => absurd hmem List.not_mem_nil, fun _ _ => rfl⟩
  | cons save rest ih =>
    intro j q' hinv hsaves h
    obtain ⟨q₁, hfirst, hrest⟩ := bind_eq_ok h
    obtain ⟨hresolvable, hfind⟩ := hsaves save List.mem_cons_self
    -- A save that was resolved before would be refused.
    have hstored : j.queue.find save.id = some (.upload save) := by
      rcases hfind with hfind | ⟨r, hr, hstate⟩
      · exact hfind
      · unfold resolveSave at hfirst
        obtain ⟨_, _, hfirst⟩ := bind_eq_ok hfirst
        rw [(Queue.find_upload_iff hinv.tidy).mp hr] at hfirst
        obtain ⟨_, hcheck, _⟩ := bind_eq_ok hfirst
        rw [check_eq_ok, decide_eq_true_eq] at hcheck
        have hresolved : save.state = .resolved := hcheck.symm.trans hstate
        rcases hresolvable.state with hother | hother | hother <;>
        · rw [hother] at hresolved
          cases hresolved
    obtain ⟨hleads, hrevised⟩ : Leads ok claimed gained underway j { j with queue := q₁ } ∧ _ :=
      resolveSave_leads hinv hstored hresolvable hfirst
    have hself : q₁.find save.id = some (.upload { save with state := .resolved }) :=
      hrevised.find_self
    obtain ⟨hlater, hresolved, hothers⟩ := ih hleads.inv (by
      intro other hother
      obtain ⟨hresolvable', hfind'⟩ := hsaves other (List.mem_cons_of_mem _ hother)
      refine ⟨⟨hresolvable'.state, hresolvable'.digest, hresolvable'.ready, hresolvable'.underway⟩, ?_⟩
      by_cases hsame : other.id = save.id
      · rw [hsame]
        exact .inr ⟨_, hself, rfl⟩
      · have hfindOther : q₁.find other.id = j.queue.find other.id := hrevised.find_of_ne hsame
        show q₁.find other.id = _ ∨ ∃ r, q₁.find other.id = _ ∧ _
        rw [hfindOther]
        exact hfind') hrest
    refine ⟨hleads.trans hlater, ?_, ?_⟩
    · intro other hother
      rcases List.mem_cons.mp hother with rfl | hmem
      · by_cases hagain : ∃ x ∈ rest, x.id = other.id
        · obtain ⟨x, hx, heq⟩ := hagain
          rw [← heq]
          exact hresolved x hx
        · rw [hothers other.id (fun x hx heq => hagain ⟨x, hx, heq⟩)]
          exact ⟨_, hself, rfl⟩
      · exact hresolved other hmem
    · intro x hx
      rw [hothers x (fun other hother => hx other (List.mem_cons_of_mem _ hother))]
      exact hrevised.find_of_ne (fun heq => hx save List.mem_cons_self heq.symm)

/-! ## Taking a replacement over -/

/-- The victim of a running replacement is not the object of a cleanup. -/
theorem AtomicSound.victim_ne {s t : Uuid} {x y : NamespaceObject} {a b : AtomicRescue}
    (ha : AtomicSound j s x a) (hb : AtomicSound j t y b) : a.victim.id ≠ b.cleanupObject.id := by
  intro heq
  obtain ⟨v, hv, hvictim⟩ := ha.victim
  obtain ⟨c, hc, hcleanup⟩ := hb.cleanupObject
  rw [heq, hc] at hv
  cases hv
  -- Its last operation would be the removal.
  obtain ⟨op, hop, hkind⟩ := ha.head b.cleanup.id (by rw [← hvictim, hcleanup]; exact hb.latest)
  rw [hb.cleanup] at hop
  cases hop
  obtain ⟨before, hbefore⟩ := hb.removes
  simp only [Operation.kind, hbefore] at hkind
  cases hkind

/-- Different objects have different cleanups. -/
theorem AtomicSound.cleanup_ne (hinv : Inv ok [] j) {s t : Uuid} {x y : NamespaceObject}
    {a b : AtomicRescue} (ha : AtomicSound j s x a) (hb : AtomicSound j t y b)
    (hne : a.cleanupObject.id ≠ b.cleanupObject.id) : a.cleanup.id ≠ b.cleanup.id := by
  intro heq
  have howner : ∀ {u : Uuid} {z : NamespaceObject} {c : AtomicRescue}, AtomicSound j u z c →
      j.names.operations.get c.cleanup.id = some c.cleanupObject.id := by
    intro u z c hc
    obtain ⟨row, hrow, hbody⟩ := hc.cleanupObject
    rcases hinv.latest hrow (by rw [hbody]; exact hc.latest) with hmem | hget
    · cases hmem
    · exact hget
  have hget := howner ha
  rw [heq, howner hb] at hget
  exact hne (Option.some.inj hget).symm

/-- The cloud identity of an object without a name becomes free. -/
theorem freeVictim_leads (hinv : Inv ok underway j) {row : ObjectRow} {revision : Nat}
    (hrow : j.names.objects.get row.body.id = some row) (hunlinked : row.body.unlinked = true)
    (hremote : row.body.remote.isSome = true)
    (h : j.saveObject { row.body with remoteOwned := false, revision := revision } = .ok j') :
    Leads ok claimed gained underway j j' ∧
      Stored j.settings.lowercase j.names j'.names
        { row.body with remoteOwned := false, revision := revision } ∧
      j' = { j with names := j'.names } := by
  have hsound := hinv.objects hrow
  refine like_leads h hinv hrow ?_ ?_ ?_ ?_
  · exact ⟨rfl, fun hfile => hfile, rfl, fun hspare => ⟨rfl, hspare.2⟩, fun hun => ⟨hun, rfl⟩⟩
  · refine ⟨hsound.remote, hsound.working, ?_, ?_, ?_⟩
    · intro _ hnone
      rw [show row.body.remote = none from hnone] at hremote
      cases hremote
    · intro hlinked
      exact absurd (hunlinked.symm.trans hlinked) (by decide)
    · intro hlinked
      exact absurd (hunlinked.symm.trans hlinked) (by decide)
  · intro _ w hw
    exact hinv.detached hrow hunlinked hw
  · intro n
    exact .same hrow ⟨rfl, rfl, rfl, rfl, rfl, rfl⟩ rfl

/-- The object of a cleanup takes the identity that is to be removed. -/
theorem claimTemporary_leads (hinv : Inv ok underway j) {row : ObjectRow} {node temporary : Node}
    {sequence revision : Nat} {cleanup fresh save : Uuid} {old : MutationRecord}
    {record : ReplacementRecord}
    (hrow : j.names.objects.get row.body.id = some row) (hunlinked : row.body.unlinked = true)
    (hbare : row.body.workingFile = none) (hlatest : row.body.latest = some cleanup)
    (hcleanup : cleanup ∈ underway) (hfind : j.queue.find cleanup = some (.mutation old))
    (hkind : (Operation.mutation old).kind = none)
    (hrecord : j.fileReplacements.get save = some record) (hsave : save ∈ underway)
    (howns : record.cleanupObject = row.body.id)
    (htemporary : temporary.kind = .file ∧ (temporary.kind ≠ .shortcut → temporary.target = none) ∧
      temporary.id ≠ "" ∧ ∀ tag ∈ nodeTags temporary, ok tag) (hnode : node.kind = temporary.kind)
    (h : j.saveObject { row.body with
      node := node
      remote := some temporary
      remoteOwned := true
      remoteSequence := sequence
      latest := some fresh
      revision := revision } = .ok j') :
    Leads ok claimed gained underway j j' ∧
      Stored j.settings.lowercase j.names j'.names { row.body with
        node := node
        remote := some temporary
        remoteOwned := true
        remoteSequence := sequence
        latest := some fresh
        revision := revision } ∧ j' = { j with names := j'.names } := by
  have hfile : node.kind = .file := hnode.trans htemporary.1
  have hself : ∀ other, j.names.objects.get row.body.id = some other → other = row := by
    intro other hother
    rw [hrow] at hother
    exact (Option.some.inj hother).symm
  refine store_leads h hinv ?_ (fun n => .of_none hbare rfl)
  refine ⟨?_, ?_, fun _ => hfile, ?_, ?_, ?_, hinv.scope_known hrow, ?_, ?_, ?_⟩
  · intro other hother
    obtain rfl := hself other hother
    exact ⟨rfl, fun hfollows _ => ⟨hfile, .inl hfollows⟩⟩
  · intro r hr
    cases hr
    exact ⟨hnode.symm, htemporary.2⟩
  · intro hun
    exact absurd (hfile.symm.trans hun.1) (by decide)
  · intro hlinked
    exact absurd (hunlinked.symm.trans hlinked) (by decide)
  · intro hlinked
    exact absurd (hunlinked.symm.trans hlinked) (by decide)
  · -- The only replacement with this object is underway.
    intro other _ _
    right
    intro id x hx heq
    obtain rfl := hinv.cleanups hx hrecord (heq.trans howns.symm)
    exact .inr (.inr hsave)
  · intro other hother _
    obtain rfl := hself other hother
    refine .inr ⟨?_, ?_⟩
    · intro p r hp _
      rw [hlatest] at hp
      cases hp
      exact .inr hcleanup
    · -- A running replacement has no victim whose last operation is a removal.
      intro id x hx hvictim
      by_cases hmem : id ∈ underway
      · exact .inl hmem
      · have hsound := hinv.replacements hx
        obtain ⟨r, hr⟩ := hsound.upload
        cases hcomplete : (Operation.upload r).isComplete with
        | true => exact .inr ⟨_, hr, hcomplete⟩
        | false =>
          obtain ⟨v, hv, _, hhead⟩ := (hsound.running hmem (by
            intro op hop
            rw [hr] at hop
            cases hop
            exact hcomplete)).victim
          rw [hvictim, hrow] at hv
          cases hv
          obtain ⟨op, hop, hsome⟩ := hhead cleanup hlatest
          rw [hfind] at hop
          cases hop
          rw [hkind] at hsome
          cases hsome
  · intro _ w hw
    rw [show row.body.workingFile = none from hbare] at hw
    cases hw

/-- The record of a replacement that was taken over. -/
theorem recordRescue_inv (hinv : Inv ok underway j) {save : Uuid} {old record : ReplacementRecord}
    (hold : j.fileReplacements.get save = some old) (hsave : save ∈ underway)
    (hid : record.id = save) (hready : record.localReady = true)
    (hrescued : record.rescuedAs.isSome = true) (howns : record.cleanupObject = old.cleanupObject) :
    Inv ok underway { j with fileReplacements := j.fileReplacements.set save record } := by
  have hsound := hinv.replacements hold
  refine hinv.setReplacement ⟨hid, hsound.upload, fun hnot => absurd hsave hnot, ?_,
    fun _ hnot => absurd hsave hnot, ?_, ?_, fun hnot => absurd hsave hnot⟩ ?_
  · obtain ⟨row, hrow, _⟩ := hsound.cleanup
    refine ⟨row, by rw [howns]; exact hrow, ?_⟩
    intro _ hnone
    rw [hnone] at hrescued
    cases hrescued
  · intro hunready
    exact absurd (hready.symm.trans hunready) (by decide)
  · intro hnone
    rw [hnone] at hrescued
    cases hrescued
  · intro other x hne hx heq
    exact hne (hinv.cleanups hx hold (heq.trans howns))

/-- The journal `j₁` after the replacement `a` was taken over: `fresh` is the new cleanup. -/
structure TookOver (ok : String → Prop) (claimed : Uuid → Uuid → Prop)
    (gained : Uuid → Resource → Prop) (underway : List Uuid) (a : AtomicRescue) (save fresh : Uuid)
    (j₁ j' : UploadJournal) : Prop where
  leads : Leads ok claimed gained underway j₁ j'
  finds : ∀ x, x ≠ a.cleanup.id → x ≠ fresh → j'.queue.find x = j₁.queue.find x
  rows : ∀ x row, x ≠ a.cleanupObject.id → j₁.names.objects.get x = some row →
    ∃ row', j'.names.objects.get x = some row' ∧ row'.body.unlinked = row.body.unlinked ∧
      row'.body.latest = row.body.latest ∧ row'.body.workingFile = row.body.workingFile
  before : ∀ x row', x ≠ a.cleanupObject.id → j'.names.objects.get x = some row' →
    (j₁.names.objects.get x).isSome = true
  object : ∀ row', j'.names.objects.get a.cleanupObject.id = some row' → row'.body.latest = some fresh
  victim : ∀ p, a.victim.latest = some p → p ≠ a.cleanup.id →
    j'.names.operations.get p = some a.victim.id
  owners : ∀ p id, p ≠ a.cleanup.id → j₁.names.operations.get p = some id →
    j'.names.operations.get p = some id
  records : ∃ record, j'.fileReplacements = j₁.fileReplacements.set save record ∧
    record.localReady = true ∧ record.rescuedAs.isSome = true
  absent : ∀ x, x ≠ fresh → j₁.queue.Absent x → j'.queue.Absent x

/-- `rescue::atomic::commit` on a victim and a cleanup that are still as they were read. -/
theorem commitAtomic_tookOver (hinv : Inv ok underway j) {j₀ : UploadJournal} {save fresh : Uuid}
    {a : AtomicRescue} {source : NamespaceObject} {copy : UploadRecord} {original : Node}
    (hsound : AtomicSound j₀ save source a)
    (hvictim : ∀ row, j.names.objects.get a.victim.id = some row → row.body.unlinked = true ∧
      row.body.latest = a.victim.latest)
    (hobject : ∀ row, j.names.objects.get a.cleanupObject.id = some row →
      row.body.unlinked = true ∧ row.body.latest = some a.cleanup.id ∧ row.body.workingFile = none)
    (hdistinct : a.cleanupObject.id ≠ a.victim.id)
    (hfind : j.queue.find a.cleanup.id = some (.mutation a.cleanup))
    (hrecord : j.fileReplacements.get save = some a.record)
    (hsave : save ∈ underway) (hcleanup : a.cleanup.id ∈ underway)
    (hsource : ∀ r, source.remote = some r → r.kind = .file ∧
      (r.kind ≠ .shortcut → r.target = none) ∧ r.id ≠ "" ∧ ∀ tag ∈ nodeTags r, ok tag) (hfresh : j.queue.Absent fresh)
    (h : commitAtomic a source copy fresh j = .ok (original, j')) :
    TookOver ok claimed gained underway a save fresh j j' ∧
      (original.kind ≠ .shortcut → original.target = none) ∧ original.id ≠ "" ∧
        ∀ tag ∈ nodeTags original, ok tag := by
  unfold commitAtomic at h
  obtain ⟨v, hv, h⟩ := bind_eq_ok h
  obtain ⟨c, hc, h⟩ := bind_eq_ok h
  obtain ⟨_, _, h⟩ := bind_eq_ok h
  split at h
  · next remote hremote =>
    split at h
    · next temporary htemporary =>
      obtain ⟨victimRevision, _, h⟩ := bind_eq_ok h
      obtain ⟨j₂, hsaveVictim, h⟩ := bind_eq_ok h
      obtain ⟨j₃, hresolve, h⟩ := bind_eq_ok h
      obtain ⟨j₄, hchange, h⟩ := bind_eq_ok h
      obtain ⟨cleanupRevision, _, h⟩ := bind_eq_ok h
      obtain ⟨j₅, hsaveCleanup, h⟩ := bind_eq_ok h
      cases h
      obtain ⟨vrow, hvrow, rfl⟩ := byId_eq_ok hv
      obtain ⟨crow, hcrow, rfl⟩ := byId_eq_ok hc
      have hvkey := (hinv.objects hvrow).key
      have hckey := (hinv.objects hcrow).key
      obtain ⟨hvunlinked, hvlatest⟩ := hvictim vrow hvrow
      obtain ⟨hcunlinked, hclatest, hcbare⟩ := hobject crow hcrow
      -- The victim's cloud identity becomes free.
      obtain ⟨hleads₂, hstored₂, heq₂⟩ : Leads ok claimed gained underway j j₂ ∧ _ :=
        freeVictim_leads hinv (by rw [hvkey]; exact hvrow) hvunlinked (by rw [hremote]; rfl)
          hsaveVictim
      have hqueue₂ : j₂.queue = j.queue := by rw [heq₂]
      -- The old cleanup is resolved, and a new one waits for the copy.
      obtain ⟨hleads₃, hself₃, hfind₃, habsent₃, hnames₃, hfiles₃, hrecords₃⟩ :
          Leads ok claimed gained underway j₂ j₃ ∧ _ :=
        resolveCleanup_leads hleads₂.inv hsound (by rw [hqueue₂]; exact hfind) hcleanup hresolve
      obtain ⟨before, hbefore⟩ := hsound.removes
      have hwell : a.cleanup.WellFormed ok := hinv.queue.wellFormed hfind
      have henters := enqueueChange_spec hleads₃.inv hchange
        (habsent₃ _ (by rw [hqueue₂]; exact hfresh)) rfl hsound.pending hsound.attempt (.none j₃)
        ⟨fun b hb => (hwell.before b hb).1, fun _ => hwell.source hsound.bound,
          fun hsome => absurd hsome (by simp)⟩ (.inl hsound.localReady)
        (by
          show a.cleanup.request.intent.destination = none
          rw [hbefore]
          rfl)
      have hnames₄ : j₄.names = { j₂.names with
          operations := j₂.names.operations.erase a.cleanup.id } := by rw [henters.rest, hnames₃]
      have hne : a.cleanup.id ≠ fresh := by
        rintro rfl
        rw [hfresh.find] at hfind
        cases hfind
      have hself₄ : j₄.queue.find a.cleanup.id =
          some (.mutation { a.cleanup with state := .resolved }) :=
        (henters.find_of_ne hne).trans hself₃
      have hcrow₄ : j₄.names.objects.get crow.body.id = some crow := by
        rw [hnames₄, hckey]
        show j₂.names.objects.get a.cleanupObject.id = some crow
        rw [hstored₂.others _ (by rw [hvkey]; exact hdistinct)]
        exact hcrow
      have hrecords₄ : j₄.fileReplacements = j.fileReplacements := by
        rw [henters.rest, hrecords₃, heq₂]
      -- The object of the cleanup takes the identity that is to be removed.
      generalize hnode : j₄.names.localizeParent copy.scope
        { temporary with id := crow.body.node.id } = node at hsaveCleanup
      have hnodekind : node.kind = temporary.kind := by
        rw [← hnode]
        rfl
      have hclaims : Leads ok claimed gained underway j₄ j₅ ∧ _ :=
        claimTemporary_leads henters.inv hcrow₄ hcunlinked hcbare hclatest hcleanup hself₄
          (by simp only [Operation.kind, hbefore]) (by rw [hrecords₄]; exact hrecord) hsave
          (hsound.owns.trans hckey.symm) (hsource temporary htemporary) hnodekind hsaveCleanup
      obtain ⟨hleads₅, hstored₅, heq₅⟩ := hclaims
      have hid : a.record.id = save := (hinv.replacements hrecord).key
      have hrecords₅ : j₅.fileReplacements = j.fileReplacements := by rw [heq₅, hrecords₄]
      have hrecord₅ : j₅.fileReplacements.get save = some a.record := by rw [hrecords₅]; exact hrecord
      have hinv₆ : Inv ok underway { j₅ with
          fileReplacements := j₅.fileReplacements.set save { a.record with
            cleanup := fresh
            rescuedAs := some copy.id } } :=
        recordRescue_inv hleads₅.inv hrecord₅ hsave hid hsound.ready rfl rfl
      have hsound₁ := hinv.objects hvrow
      refine ⟨⟨?_, ?_, ?_, ?_, ?_, ?_, ?_, ?_, ?_⟩, (hsound₁.remote _ hremote).2⟩
      · refine hleads₂.trans (hleads₃.trans (henters.leads.trans (hleads₅.trans ?_)))
        rw [hid]
        exact .of_inv hinv₆ rfl rfl (.of_same rfl rfl rfl)
      · intro x hx hxfresh
        show j₅.queue.find x = _
        rw [heq₅]
        show j₄.queue.find x = _
        rw [(henters.find_of_ne hxfresh : j₄.queue.find x = _), hfind₃ x hx, hqueue₂]
      · intro x row hx hrow
        show ∃ row', j₅.names.objects.get x = some row' ∧ _
        rw [hstored₅.others x (by rw [show crow.body.id = _ from hckey]; exact hx), hnames₄]
        show ∃ row', j₂.names.objects.get x = some row' ∧ _
        by_cases hxv : x = vrow.body.id
        · rw [hxv, hvkey, hvrow] at hrow
          cases hrow
          rw [hxv]
          exact ⟨_, hstored₂.self, rfl, rfl, rfl⟩
        · rw [hstored₂.others x hxv]
          exact ⟨row, hrow, rfl, rfl, rfl⟩
      · intro x row' hx hrow'
        replace hrow' : j₅.names.objects.get x = some row' := hrow'
        rw [hstored₅.others x (by rw [show crow.body.id = _ from hckey]; exact hx), hnames₄] at hrow'
        replace hrow' : j₂.names.objects.get x = some row' := hrow'
        by_cases hxv : x = vrow.body.id
        · rw [hxv, hvkey, hvrow]
          rfl
        · rw [hstored₂.others x hxv] at hrow'
          rw [hrow']
          rfl
      · intro row' hrow'
        replace hrow' : j₅.names.objects.get a.cleanupObject.id = some row' := hrow'
        have hself := hstored₅.self
        rw [show j₅.names.objects.get crow.body.id = j₅.names.objects.get a.cleanupObject.id by
          rw [hckey], hrow'] at hself
        cases hself
        rfl
      · intro p hp hpne
        have hget : j₂.names.operations.get p = some vrow.body.id :=
          hstored₂.latest p (hvlatest.trans hp)
        refine hstored₅.operations p _ ?_
        rw [hnames₄]
        show (j₂.names.operations.erase a.cleanup.id).get p = _
        rw [Table.get_erase, if_neg hpne, hget, hvkey]
      · intro p id hpne hget
        refine hstored₅.operations p _ ?_
        rw [hnames₄]
        show (j₂.names.operations.erase a.cleanup.id).get p = _
        rw [Table.get_erase, if_neg hpne]
        exact hstored₂.operations p id hget
      · refine ⟨{ a.record with cleanup := fresh, rescuedAs := some copy.id }, ?_, hsound.ready, rfl⟩
        show j₅.fileReplacements.set a.record.id _ = j.fileReplacements.set save _
        rw [hrecords₅, hid]
      · intro x hx habsent
        show j₅.queue.Absent x
        rw [heq₅]
        show j₄.queue.Absent x
        exact henters.absent hx (habsent₃ x (by rw [hqueue₂]; exact habsent))
    · cases h
  · cases h

/-! ## Midway -/

/-- No operation and no object has the identity. -/
structure Vacant (j : UploadJournal) (id : Uuid) : Prop where
  absent : j.queue.Absent id
  object : j.names.objects.get id = none

theorem Unused.vacant {id : Uuid} (h : Unused j id) : Vacant j id := ⟨h.absent, h.objects⟩

theorem Binds.vacant {id x : Uuid} (h : Binds ok gained j j' id) (hvacant : Vacant j x) :
    Vacant j' x := by
  refine ⟨h.absent x hvacant.absent, ?_⟩
  rw [h.rest]
  exact hvacant.object

theorem Enters.vacant {op : Operation} {prerequisites : List Uuid} {x : Uuid}
    (h : Enters ok underway j j' op prerequisites) (hx : x ≠ op.id) (hvacant : Vacant j x) :
    Vacant j' x := by
  refine ⟨h.absent hx hvacant.absent, ?_⟩
  rw [h.rest]
  exact hvacant.object

/-- The rescue began in `j`. The object `moved` has its copy, and the replacements `done` were taken
    over with the identities `fresh`. -/
structure Midway (ok : String → Prop) (claimed : Uuid → Uuid → Prop)
    (gained : Uuid → Resource → Prop) (underway : List Uuid) (j : UploadJournal) (moved : Uuid)
    (fresh : Nat → Uuid) (done : List (AtomicRescue × NamespaceObject)) (j' : UploadJournal) :
    Prop where
  leads : Leads ok claimed gained underway j j'
  finds : ∀ x op, j.queue.find x = some op → (∀ pair ∈ done, x ≠ pair.1.cleanup.id) →
    j'.queue.find x = some op
  rows : ∀ x row, j.names.objects.get x = some row → x ≠ moved →
    (∀ pair ∈ done, x ≠ pair.1.cleanupObject.id) → ∃ row', j'.names.objects.get x = some row' ∧
      row'.body.unlinked = row.body.unlinked ∧ row'.body.latest = row.body.latest ∧
      row'.body.workingFile = row.body.workingFile
  before : ∀ x row', j'.names.objects.get x = some row' → (j.names.objects.get x).isSome = true
  latest : ∀ x row' p, j'.names.objects.get x = some row' → row'.body.latest = some p →
    p ∈ underway → x ≠ moved ∧ (∀ pair ∈ done, x ≠ pair.1.cleanupObject.id) ∧
      ∃ row, j.names.objects.get x = some row ∧ row.body.latest = some p
  owners : ∀ pair ∈ done, ∀ p, pair.1.victim.latest = some p →
    j'.names.operations.get p = some pair.1.victim.id
  records : ∀ x record', j'.fileReplacements.get x = some record' →
    ∃ record, j.fileReplacements.get x = some record ∧ record'.localReady = record.localReady
  rescued : ∀ pair ∈ done, ∃ record, j'.fileReplacements.get pair.1.record.id = some record ∧
    record.localReady = true ∧ record.rescuedAs.isSome = true
  running : ∀ x record, j.fileReplacements.get x = some record →
    (∀ pair ∈ done, x ≠ pair.1.record.id) → j'.fileReplacements.get x = some record
  absent : ∀ n, done.length ≤ n → j'.queue.Absent (fresh n)

/-- What is known of the replacement that is taken over next. -/
structure TakenNext (underway : List Uuid) (j : UploadJournal) (moved : Uuid)
    (done : List (AtomicRescue × NamespaceObject)) (a : AtomicRescue) (source : NamespaceObject)
    (save : Uuid) : Prop where
  sound : AtomicSound j save source a
  saveUnderway : save ∈ underway
  cleanupUnderway : a.cleanup.id ∈ underway
  stands : Stands j source
  kind : source.node.kind = .file
  victim : a.victim.id ≠ moved
  object : a.cleanupObject.id ≠ moved
  before : ∀ pair ∈ done, (∃ s, AtomicSound j s pair.2 pair.1) ∧
    pair.1.cleanupObject.id ≠ a.cleanupObject.id

/-- A replacement whose record was not touched is not among those taken over. -/
theorem TakenNext.save_ne (hinv : Inv ok [] j) {moved save : Uuid}
    {done : List (AtomicRescue × NamespaceObject)} {a : AtomicRescue} {source : NamespaceObject}
    (h : TakenNext underway j moved done a source save) :
    ∀ pair ∈ done, save ≠ pair.1.record.id := by
  intro pair hpair heq
  obtain ⟨⟨s, hs⟩, hne⟩ := h.before pair hpair
  have hkey : pair.1.record.id = s := (hinv.replacements hs.record).key
  have hsame := h.sound.record
  rw [heq, hkey, hs.record] at hsame
  have hrecord : pair.1.record = a.record := Option.some.inj hsame
  exact hne (by rw [← hs.owns, hrecord, h.sound.owns])

/-- One more replacement was taken over. -/
theorem Midway.next (hinv : Inv ok [] j) {moved save : Uuid} {fresh : Nat → Uuid}
    {done : List (AtomicRescue × NamespaceObject)} {a : AtomicRescue} {source : NamespaceObject}
    {j₁ : UploadJournal} (hfresh : ∀ n, Vacant j (fresh n)) (hinjective : Function.Injective fresh)
    (hknown : ∀ p ∈ underway, (j.queue.find p).isSome = true)
    (hnext : TakenNext underway j moved done a source save)
    (hmidway : Midway ok claimed gained underway j moved fresh done j₁)
    (htook : TookOver ok claimed gained underway a save (fresh done.length) j₁ j') :
    Midway ok claimed gained underway j moved fresh ((a, source) :: done) j' := by
  have hsound := hnext.sound
  have hid : a.record.id = save := (hinv.replacements hsound.record).key
  obtain ⟨record, hrecords, hready, hrescued⟩ := htook.records
  have hunknown : j.queue.find (fresh done.length) = none :=
    (hfresh _).absent.find
  -- The last operation of a victim is not a removal.
  have hvictim : ∀ {b : AtomicRescue} {t : Uuid} {y : NamespaceObject}, AtomicSound j t y b →
      ∀ p, b.victim.latest = some p → p ≠ a.cleanup.id := by
    intro b t y hb p hp heq
    obtain ⟨op, hop, hkind⟩ := hb.head p hp
    rw [heq, hsound.cleanup] at hop
    cases hop
    obtain ⟨before, hbefore⟩ := hsound.removes
    simp only [Operation.kind, hbefore] at hkind
    cases hkind
  refine ⟨hmidway.leads.trans htook.leads, ?_, ?_, ?_, ?_, ?_, ?_, ?_, ?_, ?_⟩
  · intro x op hx hne
    have hfirst : x ≠ a.cleanup.id := hne (a, source) List.mem_cons_self
    rw [htook.finds x hfirst ?_]
    · exact hmidway.finds x op hx (fun pair hpair => hne pair (List.mem_cons_of_mem _ hpair))
    · rintro rfl
      rw [hunknown] at hx
      cases hx
  · intro x row hrow hmoved hne
    obtain ⟨row₁, hrow₁, hunlinked, hlatest, hworking⟩ := hmidway.rows x row hrow hmoved
      (fun pair hpair => hne pair (List.mem_cons_of_mem _ hpair))
    obtain ⟨row', hrow', hunlinked', hlatest', hworking'⟩ :=
      htook.rows x row₁ (hne (a, source) List.mem_cons_self) hrow₁
    exact ⟨row', hrow', hunlinked'.trans hunlinked, hlatest'.trans hlatest, hworking'.trans hworking⟩
  · intro x row' hrow'
    by_cases hx : x = a.cleanupObject.id
    · obtain ⟨row, hrow, _⟩ := hsound.cleanupObject
      rw [hx, hrow]
      rfl
    · obtain ⟨row₁, hrow₁⟩ := Option.isSome_iff_exists.mp (htook.before x row' hx hrow')
      exact hmidway.before x row₁ hrow₁
  · intro x row' p hrow' hlatest hunderway
    -- The object of the cleanup has the new cleanup, which was unknown.
    have hx : x ≠ a.cleanupObject.id := by
      rintro rfl
      rw [htook.object row' hrow'] at hlatest
      cases hlatest
      have hsome := hknown _ hunderway
      rw [hunknown] at hsome
      cases hsome
    obtain ⟨row₁, hrow₁⟩ := Option.isSome_iff_exists.mp (htook.before x row' hx hrow')
    obtain ⟨row₂, hrow₂, _, hlatest₂, _⟩ := htook.rows x row₁ hx hrow₁
    rw [hrow'] at hrow₂
    cases hrow₂
    obtain ⟨hmoved, hdone, hbefore⟩ :=
      hmidway.latest x row₁ p hrow₁ (hlatest₂.symm.trans hlatest) hunderway
    refine ⟨hmoved, ?_, hbefore⟩
    intro pair hpair
    rcases List.mem_cons.mp hpair with rfl | hmem
    · exact hx
    · exact hdone pair hmem
  · intro pair hpair p hp
    rcases List.mem_cons.mp hpair with rfl | hmem
    · exact htook.victim p hp (hvictim hsound p hp)
    · obtain ⟨⟨s, hs⟩, _⟩ := hnext.before pair hmem
      exact htook.owners p _ (hvictim hs p hp) (hmidway.owners pair hmem p hp)
  · intro x record' hrecord'
    rw [hrecords] at hrecord'
    by_cases hx : x = save
    · subst hx
      rw [Table.get_set_self] at hrecord'
      cases hrecord'
      exact ⟨a.record, hsound.record, hready.trans hsound.ready.symm⟩
    · rw [Table.get_set_of_ne _ _ hx] at hrecord'
      exact hmidway.records x record' hrecord'
  · intro pair hpair
    rw [hrecords]
    rcases List.mem_cons.mp hpair with rfl | hmem
    · exact ⟨record, by rw [hid, Table.get_set_self], hready, hrescued⟩
    · rw [Table.get_set_of_ne _ _ (fun heq => hnext.save_ne hinv pair hmem heq.symm)]
      exact hmidway.rescued pair hmem
  · intro x r hr hne
    have hx : x ≠ save := hid ▸ hne (a, source) List.mem_cons_self
    rw [hrecords, Table.get_set_of_ne _ _ hx]
    exact hmidway.running x r hr (fun pair hpair => hne pair (List.mem_cons_of_mem _ hpair))
  · intro n hn
    rw [List.length_cons] at hn
    refine htook.absent _ (fun heq => ?_) (hmidway.absent n (by omega))
    have : n = done.length := hinjective heq
    omega

/-- `rescue::atomic::commit` takes one replacement over. -/
theorem commitAtomic_midway (hinv : Inv ok [] j) {moved save : Uuid} {fresh : Nat → Uuid}
    {done : List (AtomicRescue × NamespaceObject)} {a : AtomicRescue} {source : NamespaceObject}
    {copy : UploadRecord} {original : Node} {j₁ : UploadJournal}
    (hfresh : ∀ n, Vacant j (fresh n)) (hinjective : Function.Injective fresh)
    (hknown : ∀ p ∈ underway, (j.queue.find p).isSome = true)
    (hnext : TakenNext underway j moved done a source save)
    (hmidway : Midway ok claimed gained underway j moved fresh done j₁)
    (h : commitAtomic a source copy (fresh done.length) j₁ = .ok (original, j')) :
    Midway ok claimed gained underway j moved fresh ((a, source) :: done) j' ∧
      (original.kind ≠ .shortcut → original.target = none) ∧ original.id ≠ "" ∧
        ∀ tag ∈ nodeTags original, ok tag := by
  have hsound := hnext.sound
  obtain ⟨srow, hsrow, hsbody⟩ := hnext.stands
  refine And.imp_left (hmidway.next hinv hfresh hinjective hknown hnext) ?_
  refine commitAtomic_tookOver hmidway.leads.inv hsound ?_ ?_ (hsound.victim_ne hsound).symm ?_ ?_
    hnext.saveUnderway hnext.cleanupUnderway ?_ (hmidway.absent _ le_rfl) h
  · -- The victim and the object of the cleanup are still as they were.
    intro vrow hvrow
    obtain ⟨row, hrow, hbody⟩ := hsound.victim
    obtain ⟨row', hrow', hun, hlatest, _⟩ := hmidway.rows _ row hrow hnext.victim (by
      intro pair hpair
      obtain ⟨⟨s, hs⟩, _⟩ := hnext.before pair hpair
      exact hsound.victim_ne hs)
    rw [hvrow] at hrow'
    cases hrow'
    rw [hun, hlatest, hbody]
    exact ⟨hsound.unlinked, rfl⟩
  · intro crow hcrow
    obtain ⟨row, hrow, hbody⟩ := hsound.cleanupObject
    obtain ⟨row', hrow', hun, hlatest, hworking⟩ := hmidway.rows _ row hrow hnext.object
      (fun pair hpair heq => (hnext.before pair hpair).2 heq.symm)
    rw [hcrow] at hrow'
    cases hrow'
    rw [hun, hlatest, hworking, hbody]
    exact ⟨hsound.detached, hsound.latest, hsound.bare⟩
  · refine hmidway.finds _ _ hsound.cleanup ?_
    intro pair hpair
    obtain ⟨⟨s, hs⟩, hne⟩ := hnext.before pair hpair
    exact hsound.cleanup_ne hinv hs (fun heq => hne heq.symm)
  · exact hmidway.running _ _ hsound.record (hnext.save_ne hinv)
  · intro r hr
    obtain ⟨hkind, htarget, hnonempty, htags⟩ := (hinv.objects hsrow).remote r (hsbody ▸ hr)
    exact ⟨by rw [hkind, hsbody]; exact hnext.kind, htarget, hnonempty, htags⟩

/-- `Chain::commit` takes every replacement of the chain over, the newest first. -/
theorem commitChain_midway (hinv : Inv ok [] j) {moved : Uuid} {fresh : Nat → Uuid}
    {copy : UploadRecord} {j₁ : UploadJournal} (hfresh : ∀ n, Vacant j (fresh n))
    (hinjective : Function.Injective fresh)
    (hknown : ∀ p ∈ underway, (j.queue.find p).isSome = true)
    (hmidway : Midway ok claimed gained underway j moved fresh [] j₁)
    {pairs : List (AtomicRescue × NamespaceObject)} :
    ∀ {restored : Option Node} {j' : UploadJournal},
    (∀ pair ∈ pairs, ∃ save, TakenNext underway j moved [] pair.1 pair.2 save) →
    pairs.Pairwise (fun x y => x.1.cleanupObject.id ≠ y.1.cleanupObject.id) →
    commitChain copy fresh pairs j₁ = .ok (restored, j') →
    Midway ok claimed gained underway j moved fresh pairs j' ∧ ∀ original, restored = some original →
      (original.kind ≠ .shortcut → original.target = none) ∧ original.id ≠ "" ∧
        ∀ tag ∈ nodeTags original, ok tag := by
  induction pairs with
  | nil =>
    intro restored j' _ _ h
    cases h
    refine ⟨hmidway, ?_⟩
    intro original hnone
    cases hnone
  | cons pair rest ih =>
    intro restored j' hpairs hdistinct h
    obtain ⟨⟨_, j₂⟩, hlater, h⟩ := bind_eq_ok h
    obtain ⟨⟨original, j₃⟩, hfirst, h⟩ := bind_eq_ok h
    cases h
    obtain ⟨hmidway₂, _⟩ := ih (fun x hx => hpairs x (List.mem_cons_of_mem _ hx))
      (List.pairwise_cons.mp hdistinct).2 hlater
    obtain ⟨save, hsave⟩ := hpairs pair List.mem_cons_self
    have hnext : TakenNext underway j moved rest pair.1 pair.2 save := by
      refine { hsave with before := ?_ }
      intro x hx
      obtain ⟨s, hs⟩ := hpairs x (List.mem_cons_of_mem _ hx)
      exact ⟨⟨s, hs.sound⟩, fun heq => (List.pairwise_cons.mp hdistinct).1 x hx heq.symm⟩
    obtain ⟨hmidway₃, horiginal⟩ :=
      commitAtomic_midway hinv hfresh hinjective hknown hnext hmidway₂ hfirst
    refine ⟨hmidway₃, ?_⟩
    intro x hx
    cases hx
    exact horiginal

/-! ## The rescued file -/

/-- The owners of the saves are forgotten. -/
theorem forgetSaves_leads (hinv : Inv ok underway j) {saves : List UploadRecord}
    (hsaves : ∀ save ∈ saves, j.queue.find save.id = some (.upload save) ∧ save.id ∈ underway) :
    Leads ok claimed gained underway j { j with names := { j.names with
      operations := j.names.operations.deleteWhere (fun operation _ =>
        saves.any (fun save => save.id = operation)) } } := by
  have hkept : ∀ p, (∀ save ∈ saves, save.id ≠ p) → (j.names.operations.deleteWhere
      (fun operation _ => saves.any (fun save => save.id = operation))).get p =
        j.names.operations.get p := by
    intro p hp
    refine Table.get_deleteWhere_of_kept _ ?_
    intro _ _
    simpa using hp
  have hless : ∀ p id, (j.names.operations.deleteWhere
      (fun operation _ => saves.any (fun save => save.id = operation))).get p = some id →
        j.names.operations.get p = some id := by
    intro p id hp
    exact ((Table.get_deleteWhere_eq_some_iff _ _ _ _).mp hp).1
  refine .of_inv (hinv.forget hless ?_ ?_ ?_ ?_) rfl rfl
    (Relation.ReflTransGen.single (.forget rfl rfl hless rfl))
  · intro id row p hrow hlatest
    by_cases hp : ∃ save ∈ saves, save.id = p
    · obtain ⟨save, hmem, rfl⟩ := hp
      exact .inl (hsaves save hmem).2
    · rw [hkept p (fun save hmem heq => hp ⟨save, hmem, heq⟩)]
      exact hinv.latest hrow hlatest
  · -- A save is not a change of a folder.
    intro p op hop hkind
    refine hkept p ?_
    rintro save hmem rfl
    rw [(hsaves save hmem).1] at hop
    cases hop
    cases hkind
  · intro p record _ hnot
    refine hkept p ?_
    rintro save hmem rfl
    exact hnot (hsaves save hmem).2
  · intro p r _ _ hnot
    refine hkept p ?_
    rintro save hmem rfl
    exact hnot (hsaves save hmem).2

/-- The rescued file takes the copy as its own, and leaves its cloud identity. -/
theorem moveRescued_midway (hinv : Inv ok underway j) {saved : RescueCommit} {copy : UploadRecord}
    {parent name : String} {o moved : NamespaceObject} {w : WorkingFile} {fresh : Nat → Uuid}
    (hmovable : Movable j saved o w)
    (hsaves : ∀ save ∈ saved.saves, j.queue.find save.id = some (.upload save) ∧ save.id ∈ underway)
    (hcopy : j.queue.find copy.id = some (.upload copy)) (hcopied : copy.id ∉ underway)
    (hfresh : ∀ n, Vacant j (fresh n))
    (h : moveRescued saved copy parent name o w j = .ok (moved, j')) :
    Midway ok claimed gained underway j o.id fresh [] j' ∧ moved.scope = o.scope := by
  unfold moveRescued at h
  obtain ⟨current, hcurrent, h⟩ := bind_eq_ok h
  obtain ⟨_, _, h⟩ := bind_eq_ok h
  obtain ⟨revision, _, h⟩ := bind_eq_ok h
  obtain ⟨slot, hslot, h⟩ := bind_eq_ok h
  obtain ⟨j₁, hwrite, h⟩ := bind_eq_ok h
  obtain ⟨j₂, hsave, h⟩ := bind_eq_ok h
  obtain ⟨hobject, rfl⟩ := Prod.mk.inj (Except.ok.inj h)
  rw [hobject] at hsave
  generalize hworking : ({ w with
    node := { w.node with
      parentId := some (j.names.localParent copy.scope parent)
      name := name }
    intent := copy.intent
    initialRemote := none
    latest := some copy.id } : WorkingFile) = w' at hslot hwrite hobject
  obtain ⟨row, hrow, rfl⟩ := byId_eq_ok hcurrent
  obtain rfl : row.body = o := by
    obtain ⟨row', hrow', hbody⟩ := hmovable.stands
    rw [hrow] at hrow'
    cases hrow'
    exact hbody
  obtain ⟨file, hfile, hfileBody⟩ := hmovable.file
  have hsound := hinv.files hfile
  rw [hfileBody] at hsound
  have hwid : w'.id = w.id := by rw [← hworking]
  obtain ⟨old, hold, rfl⟩ := writeWorkingRow_eq_ok hwrite
  have hhead : HeadSound j.queue (some copy.id) := by
    intro p hp
    cases hp
    exact ⟨_, hcopy, rfl⟩
  have hid : moved.id = row.body.id := by rw [← hobject]
  have hscope : moved.scope = row.body.scope := by rw [← hobject]
  have hnode : moved.node = w'.node := by rw [← hobject]
  have hkind : moved.node.kind = .file := by
    rw [hnode, ← hworking]
    exact hsound.kind
  have hlatest : moved.latest = some copy.id := by rw [← hobject]
  have hunlinked : moved.unlinked = false := by rw [← hobject]; exact hmovable.linked
  have hattached : moved.workingFile = some w.id := by rw [← hobject]; exact hmovable.attached
  -- The object and its file take the new name together.
  have hlike : row.body.Like moved := by
    refine ⟨hscope, fun _ => hkind, by rw [← hobject], ?_, ?_⟩
    · intro hspare
      rw [NamespaceObject.Spare, hmovable.attached] at hspare
      cases hspare.2
    · intro hun
      exact absurd (hmovable.linked.symm.trans hun) (by decide)
  have hfits : Fits ok j.queue moved := by
    refine ⟨?_, fun _ => hkind, ?_, fun _ => hlatest ▸ hhead, ?_⟩
    · intro r hr
      rw [← hobject] at hr
      cases hr
    · intro hfolder
      exact absurd (hkind.symm.trans hfolder) (by decide)
    · intro _ hfolder
      exact absurd (hkind.symm.trans hfolder) (by decide)
  have hnew : FileSound ok j.queue w.id w' := by
    rw [← hworking]
    refine ⟨rfl, hsound.kind, fun _ => hhead, ?_, ?_, fun _ => .inr rfl⟩
    · intro r hr
      cases hr
    · intro hnone
      cases hnone
  have hforgotten : Leads ok claimed gained underway j { j with names := { j.names with
      operations := j.names.operations.deleteWhere (fun operation _ =>
        saved.saves.any (fun save => save.id = operation)) } } := forgetSaves_leads hinv hsaves
  generalize j.names.operations.deleteWhere (fun operation _ =>
    saved.saves.any (fun save => save.id = operation)) = operations at hsave hforgotten
  have hrow' : j.names.objects.get moved.id = some row := by rw [hid]; exact hrow
  rw [show j.workingFiles.get w'.id = some file by rw [hwid]; exact hfile] at hold
  obtain rfl := Option.some.inj hold
  rw [hwid] at hsave
  have hfiles : FileMoved ok { j with names := { j.names with operations := operations } } row.body
      moved (j.workingFiles.set w.id ⟨file.identity, slot, w'⟩) := by
    refine .written hmovable.attached hattached hfile hnew ?_ ?_
    · rw [hlatest, ← hworking]
    · intro hmatches
      have hscope' : w'.scope = moved.scope := by
        rw [← hworking, hscope, ← hmatches.scope, hfileBody]
      have hunlinked' : w'.unlinked = moved.unlinked := by
        rw [hunlinked, ← hworking]
        exact hmovable.unlinked
      refine ⟨hscope', hnode.symm, hunlinked', by rw [hlatest, ← hworking], ?_⟩
      refine workingSlot_eq_ok hslot hscope'.symm hnode hunlinked'.symm ?_
      rw [hscope, hinv.index.names hrow, ← hobject]
  obtain ⟨hleads, hstored, heq⟩ :
      Leads ok claimed gained underway { j with names := { j.names with operations := operations } } j₂ ∧
        Stored j.settings.lowercase { j.names with operations := operations } j₂.names moved ∧
        j₂ = { j with
          names := j₂.names
          workingFiles := j.workingFiles.set w.id ⟨file.identity, slot, w'⟩ } :=
    storeMoved_leads hsave hforgotten.inv hrow' hmovable.linked hlike hfits hfiles
  have hothers : ∀ x, x ≠ row.body.id → j₂.names.objects.get x = j.names.objects.get x :=
    fun x hx => hstored.others x (by rw [hid]; exact hx)
  have hqueue : j₂.queue = j.queue := by rw [heq]
  have hrecords : j₂.fileReplacements = j.fileReplacements := by rw [heq]
  refine ⟨⟨hforgotten.trans hleads, ?_, ?_, ?_, ?_, ?_, ?_, ?_, ?_, ?_⟩, hscope⟩
  · intro x op hx _
    rw [hqueue]
    exact hx
  · intro x other hother hx _
    rw [hothers x hx]
    exact ⟨other, hother, rfl, rfl, rfl⟩
  · intro x other hother
    by_cases hx : x = row.body.id
    · rw [hx, hrow]
      rfl
    · rw [hothers x hx] at hother
      rw [hother]
      rfl
  · intro x other p hother hp hunderway
    have hx : x ≠ row.body.id := by
      rintro rfl
      rw [← hid, hstored.self] at hother
      cases hother
      rw [hlatest] at hp
      cases hp
      exact hcopied hunderway
    rw [hothers x hx] at hother
    exact ⟨hx, fun _ hmem => absurd hmem List.not_mem_nil, other, hother, hp⟩
  · intro _ hmem
    exact absurd hmem List.not_mem_nil
  · intro x record hrecord
    rw [hrecords] at hrecord
    exact ⟨record, hrecord, rfl⟩
  · intro _ hmem
    exact absurd hmem List.not_mem_nil
  · intro x record hrecord _
    rw [hrecords]
    exact hrecord
  · intro n _
    rw [hqueue]
    exact (hfresh n).absent

/-! ## The names of a rescue -/

/-- The operations a rescue resolves. -/
def RescueCommit.resolves (saved : RescueCommit) : List Uuid :=
  saved.saves.map UploadRecord.id ++ saved.takeovers.map (fun pair => pair.1.cleanup.id)

theorem RescueCommit.mem_resolves {saved : RescueCommit} {p : Uuid} :
    p ∈ saved.resolves ↔ (∃ save ∈ saved.saves, save.id = p) ∨
      ∃ pair ∈ saved.takeovers, pair.1.cleanup.id = p := by
  simp only [RescueCommit.resolves, List.mem_append, List.mem_map]

theorem Rescuable.known {saved : RescueCommit} (h : Rescuable j saved) :
    ∀ p ∈ saved.resolves, (j.queue.find p).isSome = true := by
  intro p hp
  rcases RescueCommit.mem_resolves.mp hp with ⟨save, hmem, rfl⟩ | ⟨pair, hmem, rfl⟩
  · rw [(h.saves save hmem).1.stored]
    rfl
  · obtain ⟨⟨_, _, hsound⟩, _⟩ := h.atomics pair hmem
    rw [hsound.cleanup]
    rfl

/-- An object with a name is not one without. -/
theorem Stands.ne {x y : NamespaceObject} (hx : Stands j x) (hy : Stands j y)
    (hlinked : x.unlinked = false) (hunlinked : y.unlinked = true) : y.id ≠ x.id := by
  intro heq
  obtain ⟨row, hrow, hbody⟩ := hx
  obtain ⟨row', hrow', hbody'⟩ := hy
  rw [heq, hrow] at hrow'
  cases hrow'
  rw [← hbody, hbody', hunlinked] at hlinked
  cases hlinked

/-- Every replacement of the plan can be taken over. -/
theorem Rescuable.next {saved : RescueCommit} {o : NamespaceObject} {w : WorkingFile}
    (h : Rescuable j saved) (hmovable : Movable j saved o w) :
    ∀ pair ∈ saved.takeovers, ∃ save, TakenNext saved.resolves j o.id [] pair.1 pair.2 save := by
  intro pair hmem
  obtain ⟨⟨save, hsave, hsound⟩, hstands, hkind⟩ := h.atomics pair hmem
  refine ⟨save.id, hsound, ?_, ?_, hstands, hkind, ?_, ?_, ?_⟩
  · exact RescueCommit.mem_resolves.mpr (.inl ⟨save, hsave, rfl⟩)
  · exact RescueCommit.mem_resolves.mpr (.inr ⟨pair, hmem, rfl⟩)
  · exact hmovable.stands.ne hsound.victim hmovable.linked hsound.unlinked
  · exact hmovable.stands.ne hsound.cleanupObject hmovable.linked hsound.detached
  · intro _ hnil
    exact absurd hnil List.not_mem_nil

/-- The replacements among the saves are taken over. -/
theorem commitReplacements_midway (hinv : Inv ok [] j) {saved : RescueCommit} {copy : UploadRecord}
    {o : NamespaceObject} {w : WorkingFile} {fresh : Nat → Uuid} {restored : Option Node}
    {j₁ : UploadJournal} (hrescuable : Rescuable j saved) (hmovable : Movable j saved o w)
    (hfresh : ∀ n, Vacant j (fresh n)) (hinjective : Function.Injective fresh)
    (hmidway : Midway ok claimed gained saved.resolves j o.id (fun n => fresh (n + 1)) [] j₁)
    (h : commitReplacements saved copy fresh o j₁ = .ok (restored, j')) :
    Midway ok claimed gained saved.resolves j o.id (fun n => fresh (n + 1)) saved.takeovers j' ∧
      ∀ original, restored = some original →
        (original.kind ≠ .shortcut → original.target = none) ∧ original.id ≠ "" ∧
        ∀ tag ∈ nodeTags original, ok tag := by
  have hnext := hrescuable.next hmovable
  have hdistinct := hrescuable.distinct
  have hinjective' : Function.Injective (fun n => fresh (n + 1)) := by
    intro a b hab
    exact Nat.succ.inj (hinjective hab)
  unfold commitReplacements at h
  split at h
  · next chain hchain =>
    have htakeovers : saved.takeovers = chain.atomics := by
      unfold RescueCommit.takeovers
      rw [hchain]
    rw [htakeovers] at hnext hdistinct ⊢
    obtain ⟨⟨original, j₂⟩, hcommit, h⟩ := bind_eq_ok h
    have hmidway' := commitChain_midway hinv (fun n => hfresh (n + 1)) hinjective'
      hrescuable.known hmidway hnext hdistinct hcommit
    cases original with
    | none => cases h
    | some remote =>
      cases h
      exact hmidway'
  · next atomic hchain hatomic =>
    have htakeovers : saved.takeovers = [(atomic, o)] := by
      unfold RescueCommit.takeovers
      rw [hchain, hatomic, hmovable.object]
    rw [htakeovers] at hnext ⊢
    obtain ⟨⟨original, j₂⟩, hcommit, h⟩ := bind_eq_ok h
    cases h
    obtain ⟨save, hsave⟩ := hnext _ List.mem_cons_self
    obtain ⟨hmidway', horiginal⟩ := commitAtomic_midway hinv (fun n => hfresh (n + 1)) hinjective'
      hrescuable.known hsave hmidway hcommit
    refine ⟨hmidway', ?_⟩
    intro x hx
    cases hx
    exact horiginal
  · next hchain hatomic =>
    have htakeovers : saved.takeovers = [] := by
      unfold RescueCommit.takeovers
      rw [hchain, hatomic]
    rw [htakeovers]
    cases h
    refine ⟨hmidway, ?_⟩
    intro r hr
    obtain ⟨row, hrow, hbody⟩ := hmovable.stands
    exact ((hinv.objects hrow).remote r (hbody ▸ hr)).2

/-- What the rescue of the names leaves to be resolved. -/
structure Renamed (ok : String → Prop) (claimed : Uuid → Uuid → Prop)
    (gained : Uuid → Resource → Prop) (saved : RescueCommit) (j j' : UploadJournal) : Prop where
  leads : Leads ok claimed gained saved.resolves j j'
  finds : ∀ save ∈ saved.saves, j'.queue.find save.id = some (.upload save)
  latest : ∀ p ∈ saved.resolves, ∀ x row, j'.names.objects.get x = some row →
    row.body.latest = some p → j'.names.operations.get p = some x
  ready : ∀ save ∈ saved.saves, j'.locallyReady save.id = true
  rescued : ∀ save ∈ saved.saves, ∀ record, j'.fileReplacements.get save.id = some record →
    record.localReady = true ∧ record.rescuedAs.isSome = true

/-- All replacements were taken over. -/
theorem Midway.renamed (hinv : Inv ok [] j) {saved : RescueCommit} {o : NamespaceObject}
    {w : WorkingFile} {fresh : Nat → Uuid} (hrescuable : Rescuable j saved)
    (hmovable : Movable j saved o w)
    (h : Midway ok claimed gained saved.resolves j o.id fresh saved.takeovers j') :
    Renamed ok claimed gained saved j j' := by
  have hrescued : ∀ save ∈ saved.saves, ∀ record, j'.fileReplacements.get save.id = some record →
      record.localReady = true ∧ record.rescuedAs.isSome = true := by
    intro save hsave record hrecord
    obtain ⟨before, hbefore, _⟩ := h.records _ _ hrecord
    obtain ⟨pair, hmem, hpair⟩ := hrescuable.recorded save hsave before hbefore
    obtain ⟨record', hrecord', hready, hrescued⟩ := h.rescued pair hmem
    rw [(hinv.replacements hpair).key, hrecord] at hrecord'
    cases hrecord'
    exact ⟨hready, hrescued⟩
  refine ⟨h.leads, ?_, ?_, ?_, hrescued⟩
  · intro save hsave
    have hstored := (hrescuable.saves save hsave).1.stored
    refine h.finds _ _ hstored ?_
    intro pair hmem heq
    obtain ⟨⟨_, _, hsound⟩, _⟩ := hrescuable.atomics pair hmem
    rw [heq, hsound.cleanup] at hstored
    cases hstored
  · intro p hp x row hrow hlatest
    obtain ⟨hmoved, hobjects, before, hbefore, hbeforeLatest⟩ := h.latest x row p hrow hlatest hp
    rcases RescueCommit.mem_resolves.mp hp with ⟨save, hsave, rfl⟩ | ⟨pair, hmem, rfl⟩
    · -- Only the rescued file and the victims had a save as their last operation.
      rcases hmovable.owners save hsave x before hbefore hbeforeLatest with rfl | ⟨pair, hmem, rfl⟩
      · exact absurd rfl hmoved
      · obtain ⟨⟨_, _, hsound⟩, _⟩ := hrescuable.atomics pair hmem
        obtain ⟨vrow, hvrow, hvbody⟩ := hsound.victim
        rw [hbefore] at hvrow
        cases hvrow
        exact h.owners pair hmem save.id (hvbody ▸ hbeforeLatest)
    · -- The old cleanup is nobody's last operation.
      exfalso
      obtain ⟨⟨_, _, hsound⟩, _⟩ := hrescuable.atomics pair hmem
      obtain ⟨crow, hcrow, hcbody⟩ := hsound.cleanupObject
      rcases hinv.latest hbefore hbeforeLatest with hnil | howner
      · cases hnil
      · rcases hinv.latest hcrow (hcbody ▸ hsound.latest) with hnil | howner'
        · cases hnil
        · rw [howner] at howner'
          exact hobjects pair hmem (Option.some.inj howner')
  · intro save hsave
    unfold UploadJournal.locallyReady
    cases hrecord : j'.fileReplacements.get save.id with
    | none => rfl
    | some record => exact (hrescued save hsave record hrecord).1

/-- The cloud's version of the rescued file gets its object. -/
theorem Renamed.restore {saved : RescueCommit} {j₁ : UploadJournal} {restored : NamespaceObject}
    {remote : Node} (h : Renamed ok claimed gained saved j j₁)
    (habsent : j₁.names.objects.get restored.id = none)
    (hscope : (j₁.names.scopes.get restored.scope).isSome = true)
    (hremote : restored.remote = some remote) (hkind : restored.node.kind = remote.kind)
    (hsource : (remote.kind ≠ .shortcut → remote.target = none) ∧ remote.id ≠ "" ∧
      ∀ tag ∈ nodeTags remote, ok tag)
    (hlatest : restored.latest = none) (hworking : restored.workingFile = none)
    (hsave : j₁.saveObject restored = .ok j') : Renamed ok claimed gained saved j j' := by
  have hstorable : Storable ok saved.resolves j₁ restored := by
    refine ⟨?_, ?_, ?_, ?_, ?_, ?_, hscope, ?_, ?_, ?_⟩
    · intro row hrow
      rw [habsent] at hrow
      cases hrow
    · intro r hr
      rw [hremote] at hr
      cases hr
      exact ⟨hkind.symm, hsource⟩
    · intro hsome
      rw [hworking] at hsome
      cases hsome
    · intro hunconfirmed
      have hnone := hunconfirmed.2
      rw [hremote] at hnone
      cases hnone
    · intro _ p hp
      rw [hlatest] at hp
      cases hp
    · intro _ _ p op hp
      rw [hlatest] at hp
      cases hp
    · intro row hrow
      rw [habsent] at hrow
      cases hrow
    · intro row hrow
      rw [habsent] at hrow
      cases hrow
    · intro _ w hw
      rw [hworking] at hw
      cases hw
  obtain ⟨hleads, hstored, heq⟩ : Leads ok claimed gained saved.resolves j₁ j' ∧
      Stored j₁.settings.lowercase j₁.names j'.names restored ∧ j' = { j₁ with names := j'.names } :=
    store_leads hsave h.leads.inv hstorable (fun n => .of_none hworking rfl)
  refine ⟨h.leads.trans hleads, ?_, ?_, ?_, ?_⟩
  · rw [heq]
    exact h.finds
  · intro p hp x row hrow hx
    by_cases hself : x = restored.id
    · rw [hself, hstored.self] at hrow
      cases hrow
      rw [hlatest] at hx
      cases hx
    · rw [hstored.others x hself] at hrow
      exact hstored.operations p x (h.latest p hp x row hrow hx)
  · rw [heq]
    exact h.ready
  · rw [heq]
    exact h.rescued

/-- The object's part of `rescue::commit`. -/
theorem commitObject_renamed (hinv : Inv ok [] j) {saved : RescueCommit} {copy : UploadRecord}
    {parent name : String} {o : NamespaceObject} {w : WorkingFile} {fresh : Nat → Uuid}
    (hrescuable : Rescuable j saved) (hmovable : Movable j saved o w)
    (hcopy : j.queue.find copy.id = some (.upload copy)) (hnew : copy.id ∉ saved.resolves)
    (hfresh : ∀ n, Vacant j (fresh n)) (hinjective : Function.Injective fresh)
    (h : commitObject saved copy parent name fresh o w j = .ok j') :
    Renamed ok claimed gained saved j j' := by
  unfold commitObject at h
  obtain ⟨⟨moved, j₁⟩, hmove, h⟩ := bind_eq_ok h
  obtain ⟨⟨restored, j₂⟩, hreplacements, h⟩ := bind_eq_ok h
  have hsaves : ∀ save ∈ saved.saves,
      j.queue.find save.id = some (.upload save) ∧ save.id ∈ saved.resolves := by
    intro save hsave
    exact ⟨(hrescuable.saves save hsave).1.stored,
      RescueCommit.mem_resolves.mpr (.inl ⟨save, hsave, rfl⟩)⟩
  obtain ⟨hmidway₁, hscope⟩ : Midway ok claimed gained saved.resolves j o.id
      (fun n => fresh (n + 1)) [] j₁ ∧ moved.scope = o.scope :=
    moveRescued_midway (hinv.begin _) hmovable hsaves hcopy hnew (fun n => hfresh (n + 1)) hmove
  obtain ⟨hmidway₂, horiginal⟩ := commitReplacements_midway hinv hrescuable hmovable hfresh
    hinjective hmidway₁ hreplacements
  have hrenamed := hmidway₂.renamed hinv hrescuable hmovable
  cases restored with
  | none =>
    cases h
    exact hrenamed
  | some remote =>
    obtain ⟨_, _, h⟩ := bind_eq_ok h
    have hremote : (j₂.aliasOf (fresh 0) moved remote).remote = some remote := rfl
    refine hrenamed.restore ?_ ?_ hremote rfl (horiginal remote rfl) rfl rfl h
    · cases hget : j₂.names.objects.get (fresh 0) with
      | none => exact hget
      | some row =>
        have hsome := hmidway₂.before _ row hget
        rw [(hfresh 0).object] at hsome
        cases hsome
    · obtain ⟨row, hrow, hbody⟩ := hmovable.stands
      show (j₂.names.scopes.get moved.scope).isSome = true
      rw [hscope, ← hbody, hmidway₂.leads.reshaped.scopes (hinv.index.names hrow)]
      rfl

/-- The local names of a rescue. -/
theorem commitNames_renamed (hinv : Inv ok [] j) {saved : RescueCommit} {copy : UploadRecord}
    {parent name : String} {fresh : Nat → Uuid} (hrescuable : Rescuable j saved)
    (hcopy : j.queue.find copy.id = some (.upload copy)) (hnew : copy.id ∉ saved.resolves)
    (hfresh : ∀ n, Vacant j (fresh n)) (hinjective : Function.Injective fresh)
    (h : commitNames saved copy parent name fresh j = .ok j') :
    Renamed ok claimed gained saved j j' := by
  unfold commitNames at h
  rcases hrescuable.names with ⟨hnone, htakeovers⟩ | ⟨o, w, hmovable⟩
  · rw [hnone] at h
    cases h
    -- None of the saves belongs to a file.
    have hunrecorded : ∀ save ∈ saved.saves, j.fileReplacements.get save.id = none := by
      intro save hsave
      cases hrecord : j.fileReplacements.get save.id with
      | none => rfl
      | some record =>
        obtain ⟨pair, hmem, _⟩ := hrescuable.recorded save hsave record hrecord
        rw [htakeovers] at hmem
        cases hmem
    refine ⟨.refl (hinv.begin _), fun save hsave => (hrescuable.saves save hsave).1.stored, ?_, ?_, ?_⟩
    · intro p _ x row hrow hlatest
      rcases hinv.latest hrow hlatest with hnil | howner
      · cases hnil
      · exact howner
    · intro save hsave
      rw [UploadJournal.locallyReady, hunrecorded save hsave]
      rfl
    · intro save hsave record hrecord
      rw [hunrecorded save hsave] at hrecord
      cases hrecord
  · rw [hmovable.object, hmovable.working] at h
    exact commitObject_renamed hinv hrescuable hmovable hcopy hnew hfresh hinjective h

/-! ## The commit -/

/-- What was read for the plan does not depend on the copy that enters the queue. -/
theorem AtomicSound.enters {save : Uuid} {source : NamespaceObject} {a : AtomicRescue}
    {op : Operation} (h : AtomicSound j save source a) (henters : Enters ok underway j j' op [])
    (hnew : j.queue.find op.id = none) : AtomicSound j' save source a := by
  obtain ⟨_, _, hadmitted⟩ := henters.admitted
  have hnames : j'.names = j.names := by rw [henters.rest]
  have hrecords : j'.fileReplacements = j.fileReplacements := by rw [henters.rest]
  have hstands : ∀ {o : NamespaceObject}, Stands j o → Stands j' o := by
    rintro o ⟨row, hrow, hbody⟩
    exact ⟨row, by rw [hnames]; exact hrow, hbody⟩
  refine { h with
    record := by rw [hrecords]; exact h.record
    victim := hstands h.victim
    head := h.head.mono (Admitted.keeps hadmitted)
    cleanupObject := hstands h.cleanupObject
    cleanup := ?_
    awaits := ?_ }
  · rw [henters.find_of_ne]
    · exact h.cleanup
    · intro heq
      rw [← heq, h.cleanup] at hnew
      cases hnew
  · intro x hx
    rcases (hadmitted.prerequisites _ _).mp hx with hold | ⟨_, hnil⟩
    · exact h.awaits x hold
    · cases hnil

theorem Rescuable.enters {saved : RescueCommit} {op : Operation} (h : Rescuable j saved)
    (henters : Enters ok underway j j' op []) (hnew : j.queue.find op.id = none) :
    Rescuable j' saved := by
  have hnames : j'.names = j.names := by rw [henters.rest]
  have hfiles : j'.workingFiles = j.workingFiles := by rw [henters.rest]
  have hrecords : j'.fileReplacements = j.fileReplacements := by rw [henters.rest]
  refine ⟨?_, ?_, ?_, h.distinct, ?_⟩
  · intro save hsave
    obtain ⟨⟨hstored, hstate⟩, hdigest⟩ := h.saves save hsave
    refine ⟨⟨?_, hstate⟩, hdigest⟩
    rw [henters.find_of_ne]
    · exact hstored
    · intro heq
      rw [← heq, hstored] at hnew
      cases hnew
  · rw [hrecords]
    exact h.recorded
  · intro pair hmem
    obtain ⟨⟨save, hsave, hsound⟩, hstands, hkind⟩ := h.atomics pair hmem
    refine ⟨⟨save, hsave, hsound.enters henters hnew⟩, ?_, hkind⟩
    rw [Stands, hnames]
    exact hstands
  · rcases h.names with hnone | ⟨o, w, hmovable⟩
    · exact .inl hnone
    · refine .inr ⟨o, w, { hmovable with
        stands := ?_
        file := by rw [hfiles]; exact hmovable.file
        owners := by rw [hnames]; exact hmovable.owners }⟩
      rw [Stands, hnames]
      exact hmovable.stands

/-- `rescue::commit` keeps the invariant. -/
theorem commitRescue_leads (hinv : Inv ok [] j) {saved : RescueCommit} {copy : UploadRecord}
    {fresh : Nat → Uuid} (hrescuable : Rescuable j saved)
    (hcopy : j.queue.find copy.id = some (.upload copy)) (hnew : copy.id ∉ saved.resolves)
    (hfresh : ∀ n, Vacant j (fresh n)) (hinjective : Function.Injective fresh)
    (h : commitRescue saved fresh j copy = .ok j') : Leads ok claimed gained [] j j' := by
  unfold commitRescue at h
  split at h
  · cases h
  · obtain ⟨_, _, h⟩ := bind_eq_ok h
    obtain ⟨j₁, hnames, h⟩ := bind_eq_ok h
    obtain ⟨q', hresolve, h⟩ := bind_eq_ok h
    cases h
    have hrenamed : Renamed ok claimed gained saved j j₁ :=
      commitNames_renamed hinv hrescuable hcopy hnew hfresh hinjective hnames
    obtain ⟨hleads, hresolved, hothers⟩ :
        Leads ok claimed gained saved.resolves j₁ { j₁ with queue := q' } ∧
        (∀ save ∈ saved.saves, ∃ r, q'.find save.id = some (.upload r) ∧ r.state = .resolved) ∧
        ∀ x, (∀ save ∈ saved.saves, save.id ≠ x) → q'.find x = j₁.queue.find x := by
      refine resolveSaves_leads hrenamed.leads.inv ?_ hresolve
      intro save hsave
      obtain ⟨hrefused, hdigest⟩ := hrescuable.saves save hsave
      exact ⟨⟨hrefused.state, hdigest, hrenamed.ready save hsave,
        RescueCommit.mem_resolves.mpr (.inl ⟨save, hsave, rfl⟩)⟩, .inl (hrenamed.finds save hsave)⟩
    have hall := hrenamed.leads.trans hleads
    -- The cleanups are changes whose files are ready.
    have hcleanup : ∀ pair ∈ saved.takeovers, ∃ r, q'.find pair.1.cleanup.id = some (.mutation r) ∧
        r.localReady = true := by
      intro pair hmem
      obtain ⟨⟨_, _, hsound⟩, _⟩ := hrescuable.atomics pair hmem
      obtain ⟨op, hop, hcont⟩ := hall.evolves.kept _ _ hsound.cleanup
      cases op with
      | upload r => cases hcont.isUpload
      | mutation r => exact ⟨r, hop, hcont.ready hsound.localReady⟩
    refine ⟨⟨?_, hall.evolves, hall.settings, hall.reshaped⟩, hall.steady⟩
    refine hleads.inv.finish ?_ hrenamed.latest ?_ ?_
    · intro id hmem record hrecord
      rcases RescueCommit.mem_resolves.mp hmem with ⟨save, hsave, rfl⟩ | ⟨pair, hpair, rfl⟩
      · obtain ⟨r, hr, hstate⟩ := hresolved save hsave
        obtain ⟨hready, hrescued⟩ := hrenamed.rescued save hsave record hrecord
        have hsound := hleads.inv.replacements hrecord
        have hcomplete : ∀ op, q'.find save.id = some op → op.isComplete = true := by
          intro op hop
          rw [hr] at hop
          cases hop
          rw [Operation.isComplete, hstate]
          rfl
        refine ⟨hsound.key, hsound.upload, ?_, ?_, fun _ _ => hcomplete, ?_, ?_, ?_⟩
        · intro _ hincomplete
          have hfalse := hincomplete _ hr
          rw [hcomplete _ hr] at hfalse
          cases hfalse
        · obtain ⟨row, hrow, _⟩ := hsound.cleanup
          refine ⟨row, hrow, ?_⟩
          intro _ hnone
          rw [hnone] at hrescued
          cases hrescued
        · intro hunready
          rw [hready] at hunready
          cases hunready
        · intro hnone
          rw [hnone] at hrescued
          cases hrescued
        · intro _ _ _ _
          exact .inr hrescued
      · obtain ⟨r, hr, _⟩ := hcleanup pair hpair
        rw [hleads.inv.no_replacement hr] at hrecord
        cases hrecord
    · intro id hmem r hr hunready
      rcases RescueCommit.mem_resolves.mp hmem with ⟨save, hsave, rfl⟩ | ⟨pair, hpair, rfl⟩
      · obtain ⟨u, hu, _⟩ := hresolved save hsave
        rw [hu] at hr
        cases hr
      · obtain ⟨x, hx, hready⟩ := hcleanup pair hpair
        rw [hx] at hr
        cases hr
        rw [hready] at hunready
        cases hunready
    · intro id hmem r hr hdigest
      rcases RescueCommit.mem_resolves.mp hmem with ⟨save, hsave, rfl⟩ | ⟨pair, hpair, rfl⟩
      · -- A save keeps its bytes.
        obtain ⟨op, hop, hcont⟩ := hall.evolves.kept _ _ (hrescuable.saves save hsave).1.stored
        rw [hr] at hop
        cases hop
        have hbytes : some (r.sha256, r.workingFile) = some (save.sha256, save.workingFile) :=
          hcont.bytes
        rw [(Prod.mk.inj (Option.some.inj hbytes)).1] at hdigest
        exact absurd (hrescuable.saves save hsave).2 hdigest
      · obtain ⟨x, hx, _⟩ := hcleanup pair hpair
        rw [hx] at hr
        cases hr

/-! ## The call -/

/-- `rescue::prepare` finds a plan for the state it ends in. -/
theorem prepareRescue_path {start : UploadJournal} {env : Env} {op : Op} (hop : op.resolves = true)
    (hstart : Inv ok [] start) (hinjective : Function.Injective env.uuid)
    (hfresh : ∀ n, Vacant start (env.uuid n)) (id : Uuid) (parent name : String) :
    Commits.Triple (fun j => j = start) (prepareRescue env id parent name) (Path ok start env op)
      (fun saved j => Path ok start env op j ∧ Rescuable j saved ∧
        ∀ n, Vacant j (env.uuid (n + 1))) := by
  unfold prepareRescue
  have hread : Commits.Triple
      (fun j => Path ok start env op j ∧ ∀ n, Vacant j (env.uuid (n + 1)))
      (Commits.read (fun j : UploadJournal => j.prepareSaved id parent name)) (Path ok start env op)
      (fun saved j => Path ok start env op j ∧ Rescuable j saved ∧
        ∀ n, Vacant j (env.uuid (n + 1))) := by
    apply Commits.triple_read
    rintro j ⟨hpath, hvacant⟩ saved h
    exact ⟨hpath, prepareSaved_spec (hpath.inv hstart) h, hvacant⟩
  have hkept : KeptByBinding ok (fun j => ∀ n, Vacant j (env.uuid n)) :=
    fun hbinds hvacant n => hbinds.vacant (hvacant n)
  refine Commits.triple_bind (Q := fun _ j => Path ok start env op j ∧ ∀ n, Vacant j (env.uuid n))
    ?_ ?_
  · refine Commits.triple_consequence (resolveReadyGenerations_keeps hkept hstart) ?_
      (fun _ h => h.1.path hop) ?_
    · rintro j rfl
      exact ⟨.refl, hfresh⟩
    · rintro _ j ⟨hbound, hvacant, _⟩
      exact ⟨hbound.path hop, hvacant⟩
  · intro _
    refine Commits.triple_bind (Q := fun saved j => (Path ok start env op j ∧ Rescuable j saved) ∧
      ∀ n, Vacant j (env.uuid n)) ?_ ?_
    · apply Commits.triple_read
      rintro j ⟨hpath, hvacant⟩ saved h
      exact ⟨⟨hpath, prepareSaved_spec (hpath.inv hstart) h⟩, hvacant⟩
    · intro saved
      split
      · apply Commits.triple_pure
        rintro j ⟨⟨hpath, hrescuable⟩, hvacant⟩
        exact ⟨hpath, hrescuable, fun n => hvacant (n + 1)⟩
      · next working _ =>
        -- The newest bytes take the first identity.
        refine Commits.triple_bind (Q := fun _ j => Path ok start env op j ∧
          ∀ n, Vacant j (env.uuid (n + 1))) ?_ ?_
        · apply Commits.triple_transaction
          rintro j ⟨⟨hpath, _⟩, hvacant⟩ sealed j' h
          have hinv := hpath.inv hstart
          obtain ⟨hleads, habsent, hobjects, _⟩ := sealWorking_spec hinv h (hvacant 0).absent
          have hnext := hpath.quiet hinv hleads
          refine ⟨hnext, hnext, ?_⟩
          intro n
          refine ⟨habsent _ ?_ (hvacant (n + 1)).absent, hobjects _ (hvacant (n + 1)).object⟩
          intro heq
          exact absurd (hinjective heq) (by omega)
        · intro sealed
          split
          · exact Commits.triple_fail _
          · exact hread

/-- `UploadJournal::keep_both` -/
theorem keepBoth_path {start : UploadJournal} {env : Env} {op : Op} (hop : op.resolves = true)
    (hstart : Inv ok [] start) (hinjective : Function.Injective env.uuid)
    (hfresh : ∀ n, Unused start (env.uuid n)) (id : Uuid) (parent name : String) :
    Commits.Triple (fun j => j = start) (keepBoth env id parent name) (Path ok start env op)
      (fun _ => Path ok start env op) := by
  unfold keepBoth
  refine Commits.triple_bind (Q := fun _ j => j = start) ?_ ?_
  · exact Commits.triple_read (fun j hj _ _ => hj)
  · intro _
    refine Commits.triple_bind
      (prepareRescue_path hop hstart hinjective (fun n => (hfresh n).vacant) id parent name) ?_
    intro saved
    refine Commits.triple_bind (Q := fun _ j => Path ok start env op j ∧ Rescuable j saved ∧
      ∀ n, Vacant j (env.uuid (n + 1))) ?_ ?_
    · exact Commits.triple_read (fun j hboth _ _ => hboth)
    · intro _
      apply Commits.triple_transaction
      rintro j ⟨hpath, hrescuable, hvacant⟩ copy j' h
      have hinv := hpath.inv hstart
      obtain ⟨j₁, size, sha256, _, hcopy, henters, hcommit⟩ :=
        enqueueGeneration_spec hinv h (hvacant 0).absent (.none j)
          (fun _ _ _ hreplace => by cases hreplace)
      have hid : copy.id = env.uuid 1 := by rw [hcopy]; rfl
      have hunknown : j.queue.find copy.id = none := by
        rw [hid]
        exact (hvacant 0).absent.find
      have hnew : copy.id ∉ saved.resolves := by
        intro hmem
        have hsome := hrescuable.known _ hmem
        rw [hunknown] at hsome
        cases hsome
      have hcommits : Leads ok (fun _ _ => False) (fun _ _ => False) [] j₁ j' := by
        refine commitRescue_leads henters.inv (hrescuable.enters henters hunknown)
          henters.find_self hnew ?_ ?_ hcommit
        · intro n
          refine henters.vacant ?_ (hvacant (n + 1))
          show env.uuid (n + 2) ≠ copy.id
          rw [hid]
          intro heq
          exact absurd (hinjective heq) (by omega)
        · intro a b hab
          have := hinjective hab
          omega
      have hnext := hpath.quiet hinv (henters.leads.trans hcommits)
      exact ⟨hnext, hnext⟩

end Cirrove.Journal
