import Cirrove.Journal.Replacing
import Mathlib.Data.List.SplitBy

/-!
# Keeping both versions keeps the invariant

The plan of a rescue is read and committed in one state, so what it found is still there
(`AtomicSound`, `Rescuable`). The commit resolves the saves and the cleanups of their replacements;
until their objects are stored again these operations are underway.
-/

namespace Cirrove.Journal

open Cirrove.Library
open UploadJournal

variable {ok : String → Prop} {underway : List Uuid} {j j' : UploadJournal} {save : UploadRecord}
  {claimed : Uuid → Uuid → Prop} {gained : Uuid → Resource → Prop}

/-! ## The saves -/

/-- A save that can be resolved. -/
structure Refused (j : UploadJournal) (save : UploadRecord) : Prop where
  stored : j.queue.find save.id = some (.upload save)
  state : save.state = .conflict ∨ save.state = .failed ∨ save.state = .pending

theorem Refused.incomplete {save : UploadRecord} (h : Refused j save) :
    save.state.isComplete = false ∧ save.state.inFlight = false := by
  rcases h.state with hstate | hstate | hstate <;>
  · rw [hstate]
    exact ⟨rfl, rfl⟩

theorem awaited_eq_false {q : Queue} {id : Uuid} {cleanup : Option Uuid}
    (h : q.awaited id cleanup = false) (x : Uuid)
    (hx : (q.writePrerequisites.get (x, id)).isSome = true) : cleanup = some x := by
  obtain ⟨u, hu⟩ := Option.isSome_iff_exists.mp hx
  have hmem := (Table.mem_rows _ _ _).mpr hu
  unfold Queue.awaited at h
  rw [List.any_eq_false] at h
  have hrow := h _ hmem
  simp only [decide_true, Bool.true_and, Bool.not_eq_true] at hrow
  cases cleanup with
  | none => cases hrow
  | some c =>
    simp only [Option.all_some, ne_eq, decide_eq_false_iff_not, not_not] at hrow
    rw [hrow]

/-- An untouched save after another. -/
structure Follower (j : UploadJournal) (original next : UploadRecord) : Prop where
  refused : Refused j next
  pending : next.state = .pending
  later : original.sequence < next.sequence

theorem untouchedAfter_spec {next original previous : UploadRecord}
    (h : next.untouchedAfter original previous = true) :
    next.state = .pending ∧ previous.sequence < next.sequence := by
  unfold UploadRecord.untouchedAfter at h
  simp only [Bool.and_eq_true, decide_eq_true_eq] at h
  exact ⟨h.1.1.1.1.1.1.1.1.1, h.1.1.1.1.1.1.1.1.2⟩

theorem rescueSuccessors_spec (hinv : Inv ok underway j) {original : UploadRecord}
    {cleanup : Option Uuid} (fuel : Nat) : ∀ {previous : UploadRecord} {saves : List UploadRecord},
    j.rescueSuccessors original cleanup fuel previous = .ok saves →
    j.queue.awaited previous.id cleanup = false ∧ ∀ next ∈ saves,
      Follower j previous next ∧ next.workingFile = original.workingFile ∧
        j.queue.awaited next.id cleanup = false := by
  induction fuel with
  | zero =>
    intro previous saves h
    unfold UploadJournal.rescueSuccessors at h
    obtain ⟨_, hawaited, h⟩ := bind_eq_ok h
    rw [check_eq_ok, Bool.not_eq_true'] at hawaited
    split at h
    · cases h
      exact ⟨hawaited, fun _ hmem => absurd hmem List.not_mem_nil⟩
    · cases h
    · next heq => cases heq
  | succ fuel ih =>
    intro previous saves h
    unfold UploadJournal.rescueSuccessors at h
    obtain ⟨_, hawaited, h⟩ := bind_eq_ok h
    rw [check_eq_ok, Bool.not_eq_true'] at hawaited
    refine ⟨hawaited, ?_⟩
    split at h
    · cases h
      exact fun _ hmem => absurd hmem List.not_mem_nil
    · next heq => cases heq
    · next id _ _ heq =>
      cases heq
      obtain ⟨next, hnext, h⟩ := bind_eq_ok h
      obtain ⟨_, hcheck, h⟩ := bind_eq_ok h
      obtain ⟨rest, hrest, h⟩ := bind_eq_ok h
      cases h
      obtain ⟨hstored, _⟩ := upload_eq_ok hinv hnext
      rw [check_eq_ok, Bool.and_eq_true, decide_eq_true_eq] at hcheck
      obtain ⟨hpending, hlater⟩ := untouchedAfter_spec hcheck.1
      obtain ⟨hawaited', hrest'⟩ := ih hrest
      intro save hsave
      rcases List.mem_cons.mp hsave with rfl | hmem
      · exact ⟨⟨⟨hstored, .inr (.inr hpending)⟩, hpending, hlater⟩, hcheck.2, hawaited'⟩
      · obtain ⟨hfollower, hworking, hfree⟩ := hrest' save hmem
        exact ⟨⟨hfollower.refused, hfollower.pending, hlater.trans hfollower.later⟩, hworking, hfree⟩

theorem chainSuccessors_spec (hinv : Inv ok underway j) {original : UploadRecord} (fuel : Nat) :
    ∀ {previous : UploadRecord} {saves : List UploadRecord},
    j.chainSuccessors original fuel previous = .ok saves →
    ∀ next ∈ saves, Follower j previous next := by
  induction fuel with
  | zero =>
    intro previous saves h
    unfold UploadJournal.chainSuccessors at h
    split at h
    · cases h
      exact fun _ hmem => absurd hmem List.not_mem_nil
    · cases h
    · next heq => cases heq
  | succ fuel ih =>
    intro previous saves h
    unfold UploadJournal.chainSuccessors at h
    split at h
    · cases h
      exact fun _ hmem => absurd hmem List.not_mem_nil
    · next heq => cases heq
    · next id _ _ heq =>
      cases heq
      obtain ⟨next, hnext, h⟩ := bind_eq_ok h
      obtain ⟨_, hcheck, h⟩ := bind_eq_ok h
      obtain ⟨rest, hrest, h⟩ := bind_eq_ok h
      cases h
      obtain ⟨hstored, _⟩ := upload_eq_ok hinv hnext
      obtain ⟨hpending, hlater⟩ := untouchedAfter_spec (check_eq_ok.mp hcheck)
      intro save hsave
      rcases List.mem_cons.mp hsave with rfl | hmem
      · exact ⟨⟨hstored, .inr (.inr hpending)⟩, hpending, hlater⟩
      · have hfollower := ih hrest save hmem
        exact ⟨hfollower.refused, hfollower.pending, hlater.trans hfollower.later⟩

/-! ## Replacements among the saves -/

/-- The object is stored as it was read. -/
def Stands (j : UploadJournal) (o : NamespaceObject) : Prop :=
  ∃ row, j.names.objects.get o.id = some row ∧ row.body = o

/-- A replacement that can be taken over. -/
structure AtomicSound (j : UploadJournal) (save : Uuid) (source : NamespaceObject)
    (a : AtomicRescue) : Prop where
  record : j.fileReplacements.get save = some a.record
  ready : a.record.localReady = true
  unrescued : a.record.rescuedAs = none
  victim : Stands j a.victim
  unlinked : a.victim.unlinked = true
  head : HeadSound j.queue a.victim.latest
  cleanupObject : Stands j a.cleanupObject
  owns : a.record.cleanupObject = a.cleanupObject.id
  detached : a.cleanupObject.unlinked = true
  bare : a.cleanupObject.workingFile = none
  latest : a.cleanupObject.latest = some a.cleanup.id
  cleanup : j.queue.find a.cleanup.id = some (.mutation a.cleanup)
  pending : a.cleanup.state = .pending
  attempt : a.cleanup.attempt = none
  localReady : a.cleanup.localReady = true
  bound : baseBound a.cleanup.base = true
  removes : ∃ before, a.cleanup.request.intent = .removeFile before
  names : a.cleanup.id = a.record.cleanup
  awaits : ∀ x, (j.queue.writePrerequisites.get (a.cleanup.id, x)).isSome = true → x = save
  source : source.remote.isSome = true

theorem byId_stands (hinv : Inv ok underway j) {id : Uuid} {o : NamespaceObject}
    (h : j.names.byId id = .ok o) : Stands j o ∧ o.id = id := by
  obtain ⟨row, hrow, rfl⟩ := byId_eq_ok h
  have hkey := (hinv.objects hrow).key
  exact ⟨⟨row, by rw [hkey]; exact hrow, rfl⟩, hkey⟩

theorem handoffVictim_spec (hinv : Inv ok underway j) {upload : UploadRecord}
    {source victim : NamespaceObject} (h : j.handoffVictim upload source = .ok (some victim)) :
    ∃ record, j.fileReplacements.get upload.id = some record ∧ Stands j victim ∧
      victim.id = record.victim ∧ victim.unlinked = true := by
  unfold UploadJournal.handoffVictim at h
  split at h
  · cases h
  · next record hrecord =>
    obtain ⟨v, hv, h⟩ := bind_eq_ok h
    obtain ⟨hstands, hid⟩ := byId_stands hinv hv
    split at h
    · obtain ⟨_, hcheck, h⟩ := bind_eq_ok h
      cases h
      simp only [check_eq_ok, Bool.and_eq_true] at hcheck
      exact ⟨record, hrecord, hstands, hid, hcheck.1.1.1.1.1.1.2⟩
    · cases h

theorem takenVictim_spec (hinv : Inv ok underway j) {upload : UploadRecord}
    {record : ReplacementRecord} {object victim : NamespaceObject}
    {predecessor : Option NamespaceObject} (hrecord : j.fileReplacements.get upload.id = some record)
    (hpredecessor : ∀ p, predecessor = some p → Stands j p)
    (h : j.takenVictim upload record object predecessor = .ok victim) :
    Stands j victim ∧ victim.id = record.victim ∧ victim.unlinked = true ∧
      ∀ p, predecessor = some p → victim = p := by
  cases predecessor with
  | none =>
    obtain ⟨found, hfound, h⟩ := bind_eq_ok h
    cases found with
    | none => cases h
    | some v =>
      cases h
      obtain ⟨record', hrecord', hstands, hid, hunlinked⟩ := handoffVictim_spec hinv hfound
      rw [hrecord] at hrecord'
      cases hrecord'
      exact ⟨hstands, hid, hunlinked, fun p hp => absurd hp (by simp)⟩
  | some previous =>
    unfold UploadJournal.takenVictim UploadJournal.chainVictim at h
    obtain ⟨_, hcheck, h⟩ := bind_eq_ok h
    cases h
    simp only [check_eq_ok, Bool.and_eq_true, decide_eq_true_eq] at hcheck
    refine ⟨hpredecessor _ rfl, hcheck.1.1.1.1.1.1.1.2.symm, hcheck.1.1.1.1.1.2, ?_⟩
    intro p hp
    exact Option.some.inj hp

/-- `rescue::atomic::prepare_bound` finds a replacement that can be taken over. -/
theorem prepareBound_spec (hinv : Inv ok [] j) {save : UploadRecord} {object : NamespaceObject}
    {allowed : List Uuid} {predecessor : Option NamespaceObject} {atomic : Option AtomicRescue}
    (hsave : Refused j save) (hpredecessor : ∀ p, predecessor = some p → Stands j p)
    (h : j.prepareBound save object allowed predecessor = .ok atomic) :
    (atomic = none ∧ j.fileReplacements.get save.id = none) ∨
      ∃ a, atomic = some a ∧ AtomicSound j save.id object a ∧ ∀ p, predecessor = some p → a.victim = p := by
  unfold UploadJournal.prepareBound at h
  obtain ⟨_, _, h⟩ := bind_eq_ok h
  split at h
  · next hnone =>
    cases h
    exact .inl ⟨rfl, hnone⟩
  · next record hrecord =>
    obtain ⟨_, hrunning, h⟩ := bind_eq_ok h
    simp only [check_eq_ok, Bool.and_eq_true, Option.isNone_iff_eq_none] at hrunning
    -- The save is open, so its replacement is running.
    have hsound := hinv.replacements hrecord
    have hrun := hsound.running List.not_mem_nil (by
      intro op hop
      rw [hsave.stored] at hop
      cases hop
      exact hsave.incomplete.1)
    obtain ⟨victim, hvictim, h⟩ := bind_eq_ok h
    obtain ⟨hstands, hid, hunlinked, hprevious⟩ := takenVictim_spec hinv hrecord hpredecessor hvictim
    obtain ⟨cleanupObject, hobject, h⟩ := bind_eq_ok h
    obtain ⟨cleanup, hcleanup, h⟩ := bind_eq_ok h
    obtain ⟨hobjectStands, hobjectId⟩ := byId_stands hinv hobject
    obtain ⟨hfind, hcleanupId⟩ := mutation_eq_ok hinv hcleanup
    split at h
    · next remote hremote =>
      obtain ⟨_, hidle, h⟩ := bind_eq_ok h
      obtain ⟨_, hawaits, h⟩ := bind_eq_ok h
      obtain ⟨_, _, h⟩ := bind_eq_ok h
      cases h
      simp only [check_eq_ok, Bool.and_eq_true, Option.isNone_iff_eq_none, decide_eq_true_eq,
        Bool.not_eq_true', and_assoc] at hidle hawaits
      obtain ⟨hstate, hattempt, _, _, _, _, hready, hbound, _, hremoves, _, hdetached, _, hbare,
        hlatest⟩ := hidle
      obtain ⟨row, hrow, _, hhead⟩ := hrun.victim
      refine .inr ⟨_, rfl, ⟨hrecord, hrunning.1.2, hrunning.1.1, hstands, hunlinked, ?_, hobjectStands,
        hobjectId.symm, hdetached, hbare, hlatest, hfind, hstate, hattempt, hready, hbound, ?_,
        hcleanupId, ?_, by rw [hremote]; rfl⟩, hprevious⟩
      · obtain ⟨row', hrow', hbody⟩ := hstands
        rw [hid, hrow] at hrow'
        cases hrow'
        rw [← hbody]
        exact hhead
      · split at hremoves
        · next before hintent => exact ⟨before, hintent⟩
        · cases hremoves
      · intro x hx
        obtain ⟨u, hu⟩ := Option.isSome_iff_exists.mp hx
        have hall := List.all_eq_true.mp hawaits.1 _ ((Table.mem_rows _ _ _).mpr hu)
        simp only [ne_eq, not_true_eq_false, decide_false, Bool.false_or, decide_eq_true_eq] at hall
        exact hall
    · cases h

/-- The cleanup of a running replacement waits for the save. -/
theorem Refused.awaited (h : Refused j save) (hinv : Inv ok [] j) {record : ReplacementRecord}
    (hrecord : j.fileReplacements.get save.id = some record) :
    (j.queue.writePrerequisites.get (record.cleanup, save.id)).isSome = true := by
  have hsound := hinv.replacements hrecord
  refine hsound.awaits ?_ List.not_mem_nil
  cases hrescued : record.rescuedAs with
  | none => rfl
  | some copy =>
    have hcomplete := hsound.rescuedDone (by rw [hrescued]; rfl) List.not_mem_nil _ h.stored
    exact absurd (h.incomplete.1.symm.trans hcomplete) (by decide)

/-- The bytes of a save are sealed, unless a replacement still has to fetch them. -/
theorem Refused.digest (h : Refused j save) (hinv : Inv ok [] j)
    (hsealed : save.workingFile.isSome = true ∨ j.fileReplacements.get save.id = none) :
    save.sha256.utf8ByteSize = 64 := by
  by_contra hdigest
  obtain ⟨hworking, hrecord⟩ := hinv.unsealed h.stored hdigest List.not_mem_nil
  rcases hsealed with hsome | hnone
  · rw [hworking] at hsome
    cases hsome
  · rw [hnone] at hrecord
    cases hrecord

theorem Follower.digest {original : UploadRecord} (h : Follower j original save)
    (hinv : Inv ok [] j) : save.sha256.utf8ByteSize = 64 := by
  have hwell : save.WellFormed ok := hinv.queue.wellFormed h.refused.stored
  rcases hwell.digest with hdigest | hstate | ⟨hstate, _⟩
  · exact hdigest
  · rw [h.pending] at hstate
    cases hstate
  · rw [h.pending] at hstate
    cases hstate

/-- Among saves that only the cleanup of `a` waits for, only its own one is a replacement. -/
theorem AtomicSound.unique {first : UploadRecord} {source : NamespaceObject} {a : AtomicRescue}
    (h : AtomicSound j first.id source a) (hinv : Inv ok [] j) (hsave : Refused j save)
    (hfree : j.queue.awaited save.id (some a.cleanup.id) = false) {record : ReplacementRecord}
    (hrecord : j.fileReplacements.get save.id = some record) : save.id = first.id := by
  have hrow := hsave.awaited hinv hrecord
  have hsame := Option.some.inj (awaited_eq_false hfree _ hrow)
  rw [← hsame] at hrow
  exact h.awaits _ hrow

/-! ## Groups of saves -/

/-- The saves of one file in a chain, and the replacement that begins them. -/
structure GroupTaken (j : UploadJournal) (previous : Option NamespaceObject)
    (group : List UploadRecord) (a : AtomicRescue) (o : NamespaceObject) : Prop where
  atomic : ∃ save ∈ group, AtomicSound j save.id o a
  sealed : ∀ save, group.head? = some save → save.workingFile.isSome = true
  victim : ∀ p, previous = some p → a.victim = p
  stands : Stands j o
  kind : o.node.kind = .file
  owner : ∀ save ∈ group, (j.names.forOperation save.id).map NamespaceObject.id = some o.id
  free : ∀ save ∈ group, j.queue.awaited save.id (some a.cleanup.id) = false

inductive ChainTaken (j : UploadJournal) : Option NamespaceObject → List (List UploadRecord) →
    List (AtomicRescue × NamespaceObject) → Prop where
  | nil {previous : Option NamespaceObject} : ChainTaken j previous [] []
  | cons {previous : Option NamespaceObject} {group : List UploadRecord}
      {rest : List (List UploadRecord)} {a : AtomicRescue} {o : NamespaceObject}
      {later : List (AtomicRescue × NamespaceObject)} (hgroup : GroupTaken j previous group a o)
      (hrest : ChainTaken j (some o) rest later) : ChainTaken j previous (group :: rest) ((a, o) :: later)

theorem forOperation_eq_some (hinv : Inv ok underway j) {p : Uuid} {o : NamespaceObject}
    (h : j.names.forOperation p = some o) : Stands j o ∧ j.names.operations.get p = some o.id := by
  unfold Namespace.forOperation at h
  obtain ⟨id, hid, h⟩ := Option.bind_eq_some_iff.mp h
  obtain ⟨row, hrow, h⟩ := Option.bind_eq_some_iff.mp h
  cases h
  have hkey := (hinv.objects hrow).key
  exact ⟨⟨row, by rw [hkey]; exact hrow, rfl⟩, by rw [hkey]; exact hid⟩

theorem prepareGroup_spec (hinv : Inv ok [] j) {original save latest : UploadRecord}
    {allowed : List Uuid} {objects : List NamespaceObject} {detached : Bool}
    {group : List UploadRecord} {a : AtomicRescue} {o : NamespaceObject}
    (hsave : Refused j save) (hhead : group.head? = some save)
    (hobjects : ∀ x ∈ objects, Stands j x)
    (h : j.prepareGroup original allowed objects detached save latest group = .ok (a, o)) :
    GroupTaken j objects.getLast? group a o ∧ ∀ x ∈ objects, x.id ≠ o.id := by
  unfold UploadJournal.prepareGroup at h
  split at h
  · next object hobject =>
    obtain ⟨hstands, _⟩ := forOperation_eq_some hinv hobject
    split at h
    · next id hid =>
      obtain ⟨working, hworking, h⟩ := bind_eq_ok h
      obtain ⟨_, hcheck, h⟩ := bind_eq_ok h
      obtain ⟨atomic, hatomic, h⟩ := bind_eq_ok h
      simp only [check_eq_ok, Bool.and_eq_true, Bool.not_eq_true', decide_eq_true_eq, and_assoc]
        at hcheck
      obtain ⟨_, _, _, _, _, hkind, _, _, _, _, _, _, hsealed, hdistinct⟩ := hcheck
      have hpredecessor : ∀ p, objects.getLast? = some p → Stands j p := by
        intro p hp
        exact hobjects p (List.mem_of_getLast? hp)
      rcases prepareBound_spec hinv hsave hpredecessor hatomic with ⟨rfl, _⟩ | ⟨b, rfl, hsound, hvictim⟩
      · cases h
      · obtain ⟨_, hgroup, h⟩ := bind_eq_ok h
        cases h
        rw [check_eq_ok, List.all_eq_true] at hgroup
        simp only [Bool.and_eq_true, decide_eq_true_eq, Bool.not_eq_true'] at hgroup
        refine ⟨⟨⟨save, List.mem_of_mem_head? hhead, hsound⟩, ?_, hvictim, hstands, hkind,
          fun m hm => (hgroup m hm).1, fun m hm => (hgroup m hm).2⟩, ?_⟩
        · intro x hx
          rw [hhead] at hx
          cases hx
          rw [hsealed]
          rfl
        · intro x hx heq
          rw [List.any_eq_false] at hdistinct
          exact hdistinct x hx (by simpa using heq)
    · cases h
  · cases h

theorem prepareGroups_spec (hinv : Inv ok [] j) {original : UploadRecord} {allowed : List Uuid}
    {groups : List (List UploadRecord)} : ∀ {objects : List NamespaceObject}
      {pairs : List (AtomicRescue × NamespaceObject)},
    (∀ group ∈ groups, ∀ save ∈ group, Refused j save) → (∀ x ∈ objects, Stands j x) →
    j.prepareGroups original allowed objects groups = .ok pairs →
    ChainTaken j objects.getLast? groups pairs ∧
      (pairs.map (fun pair => pair.2.id)).Nodup ∧ ∀ pair ∈ pairs, ∀ x ∈ objects, x.id ≠ pair.2.id := by
  induction groups with
  | nil =>
    intro objects pairs _ _ h
    cases h
    exact ⟨.nil, List.nodup_nil, fun _ hmem => absurd hmem List.not_mem_nil⟩
  | cons group rest ih =>
    intro objects pairs hsaves hobjects h
    unfold UploadJournal.prepareGroups at h
    split at h
    · next save latest hhead _ =>
      obtain ⟨⟨a, o⟩, hgroup, h⟩ := bind_eq_ok h
      obtain ⟨later, hlater, h⟩ := bind_eq_ok h
      cases h
      have hsave := hsaves group List.mem_cons_self save (List.mem_of_mem_head? hhead)
      obtain ⟨htaken, hdistinct⟩ := prepareGroup_spec hinv hsave hhead hobjects hgroup
      have hobjects' : ∀ x ∈ objects ++ [o], Stands j x := by
        intro x hx
        rcases List.mem_append.mp hx with hx | hx
        · exact hobjects x hx
        · rw [List.mem_singleton.mp hx]
          exact htaken.stands
      obtain ⟨hchain, hnodup, hothers⟩ :=
        ih (fun g hg => hsaves g (List.mem_cons_of_mem _ hg)) hobjects' hlater
      rw [List.getLast?_append_of_ne_nil _ (List.cons_ne_nil _ _)] at hchain
      refine ⟨.cons htaken hchain, ?_, ?_⟩
      · rw [List.map_cons, List.nodup_cons]
        refine ⟨?_, hnodup⟩
        intro hmem
        obtain ⟨pair, hpair, heq⟩ := List.mem_map.mp hmem
        exact hothers pair hpair o (List.mem_append_right _ (List.mem_singleton.mpr rfl)) heq.symm
      · intro pair hpair x hx
        rcases List.mem_cons.mp hpair with rfl | hpair
        · exact hdistinct x hx
        · exact hothers pair hpair x (List.mem_append_left _ hx)
    · cases h

/-- What a chain of saves is made of. -/
theorem ChainTaken.pair {previous : Option NamespaceObject} {groups : List (List UploadRecord)}
    {pairs : List (AtomicRescue × NamespaceObject)} (h : ChainTaken j previous groups pairs) :
    ∀ pair ∈ pairs, ∃ group ∈ groups, ∃ previous, GroupTaken j previous group pair.1 pair.2 := by
  induction h with
  | nil => exact fun _ hmem => absurd hmem List.not_mem_nil
  | @cons previous group rest a o later hgroup _ ih =>
    intro pair hpair
    rcases List.mem_cons.mp hpair with rfl | hpair
    · exact ⟨group, List.mem_cons_self, previous, hgroup⟩
    · obtain ⟨g, hg, hrest⟩ := ih pair hpair
      exact ⟨g, List.mem_cons_of_mem _ hg, hrest⟩

/-- Every save of a chain belongs to the last file, or to the victim of the replacement after it. -/
theorem ChainTaken.member {previous : Option NamespaceObject} {groups : List (List UploadRecord)}
    {pairs : List (AtomicRescue × NamespaceObject)} (h : ChainTaken j previous groups pairs) :
    ∀ group ∈ groups, ∀ save ∈ group, ∃ pair ∈ pairs,
      (j.names.forOperation save.id).map NamespaceObject.id = some pair.2.id ∧
      j.queue.awaited save.id (some pair.1.cleanup.id) = false ∧
      (∃ first ∈ group, AtomicSound j first.id pair.2 pair.1) ∧
      (pairs.getLast? = some pair ∨ ∃ next ∈ pairs, next.1.victim = pair.2) := by
  induction h with
  | nil => exact fun _ hmem => absurd hmem List.not_mem_nil
  | @cons previous group rest a o later hgroup hrest ih =>
    intro g hg save hsave
    rcases List.mem_cons.mp hg with rfl | hg
    · refine ⟨(a, o), List.mem_cons_self, hgroup.owner save hsave, hgroup.free save hsave,
        hgroup.atomic, ?_⟩
      cases hrest with
      | nil => exact .inl rfl
      | @cons _ _ _ b o' _ hnext _ =>
        exact .inr ⟨(b, o'), List.mem_cons_of_mem _ List.mem_cons_self, hnext.victim o rfl⟩
    · obtain ⟨pair, hpair, howner, hfree, hatomic, hlast⟩ := ih g hg save hsave
      refine ⟨pair, List.mem_cons_of_mem _ hpair, howner, hfree, hatomic, ?_⟩
      rcases hlast with hlast | ⟨next, hnext, hvictim⟩
      · left
        have hne : later ≠ [] := List.ne_nil_of_mem hpair
        rw [List.getLast?_cons_of_ne_nil hne]
        exact hlast
      · exact .inr ⟨next, List.mem_cons_of_mem _ hnext, hvictim⟩

/-! ## The plan -/

/-- The replacements a rescue takes over, each with its source. -/
def RescueCommit.takeovers (saved : RescueCommit) : List (AtomicRescue × NamespaceObject) :=
  match saved.chain, saved.atomic, saved.object with
  | some chain, _, _ => chain.atomics
  | none, some atomic, some object => [(atomic, object)]
  | _, _, _ => []

/-- The file that gets the copy. -/
structure Movable (j : UploadJournal) (saved : RescueCommit) (o : NamespaceObject) (w : WorkingFile) :
    Prop where
  object : saved.object = some o
  working : saved.working = some w
  stands : Stands j o
  linked : o.unlinked = false
  own : o.followsRemote = false
  kind : o.node.kind = .file
  file : ∃ row, j.workingFiles.get w.id = some row ∧ row.body = w
  attached : o.workingFile = some w.id
  unlinked : w.unlinked = false
  owners : ∀ save ∈ saved.saves, ∀ x row, j.names.objects.get x = some row →
    row.body.latest = some save.id → x = o.id ∨ ∃ pair ∈ saved.takeovers, pair.1.victim.id = x

/-- A plan that was read in this state. -/
structure Rescuable (j : UploadJournal) (saved : RescueCommit) : Prop where
  saves : ∀ save ∈ saved.saves, Refused j save ∧ save.sha256.utf8ByteSize = 64
  recorded : ∀ save ∈ saved.saves, ∀ record, j.fileReplacements.get save.id = some record →
    ∃ pair ∈ saved.takeovers, j.fileReplacements.get save.id = some pair.1.record
  atomics : ∀ pair ∈ saved.takeovers, (∃ save ∈ saved.saves, AtomicSound j save.id pair.2 pair.1) ∧
    Stands j pair.2 ∧ pair.2.node.kind = .file
  distinct : saved.takeovers.Pairwise (fun x y => x.1.cleanupObject.id ≠ y.1.cleanupObject.id)
  names : (saved.object = none ∧ saved.takeovers = []) ∨ ∃ o w, Movable j saved o w

/-- `rescueWorking` finds the file of the object as it is. -/
theorem rescueWorking_spec (hinv : Inv ok underway j) {original latest : UploadRecord}
    {o : NamespaceObject} {parent name : String} {w : WorkingFile}
    (h : j.rescueWorking original latest o parent name = .ok w) :
    o.unlinked = false ∧ o.followsRemote = false ∧ o.node.kind = .file ∧
      (∃ row, j.workingFiles.get w.id = some row ∧ row.body = w) ∧ o.workingFile = some w.id ∧
      w.unlinked = false ∧ latest.workingFile = some w.id := by
  unfold UploadJournal.rescueWorking at h
  obtain ⟨_, hobject, h⟩ := bind_eq_ok h
  split at h
  · next id hid =>
    obtain ⟨file, hfile, h⟩ := bind_eq_ok h
    obtain ⟨_, hworking, h⟩ := bind_eq_ok h
    obtain ⟨_, _, h⟩ := bind_eq_ok h
    split at h
    · obtain ⟨_, _, h⟩ := bind_eq_ok h
      obtain ⟨_, _, h⟩ := bind_eq_ok h
      obtain ⟨_, _, h⟩ := bind_eq_ok h
      cases h
      obtain ⟨row, hrow, rfl⟩ := workingFile_eq_ok hfile
      have hkey := (hinv.files hrow).key
      simp only [check_eq_ok, Bool.and_eq_true, Bool.not_eq_true', decide_eq_true_eq, and_assoc]
        at hobject hworking
      exact ⟨hobject.1, hobject.2.1, hobject.2.2.2.2.1, ⟨row, by rw [hkey]; exact hrow, rfl⟩,
        by rw [hkey]; exact hid, hworking.1, hworking.2.2.2.2⟩
    · cases h
  · cases h

/-- Replacements of different files have different cleanups. -/
theorem cleanupObjects_distinct (hinv : Inv ok [] j) {x y : AtomicRescue × NamespaceObject}
    {a b : UploadRecord} (ha : AtomicSound j a.id x.2 x.1) (hb : AtomicSound j b.id y.2 y.1)
    (hx : (j.names.forOperation a.id).map NamespaceObject.id = some x.2.id)
    (hy : (j.names.forOperation b.id).map NamespaceObject.id = some y.2.id) (hne : x.2.id ≠ y.2.id) :
    x.1.cleanupObject.id ≠ y.1.cleanupObject.id := by
  intro heq
  have hsame := hinv.cleanups ha.record hb.record (by rw [ha.owns, hb.owns, heq])
  rw [hsame, hy] at hx
  exact hne (Option.some.inj hx).symm

/-- The saves of a chain can be resolved, and its replacements taken over. -/
theorem prepareChain_spec (hinv : Inv ok [] j) {original : UploadRecord} {chain : RescueChain}
    (horiginal : Refused j original) (h : j.prepareChain original = .ok (some chain)) :
    ∃ groups, groups.flatten = original :: chain.successors ∧
      (∀ save ∈ chain.successors, Follower j original save) ∧
      ChainTaken j none groups chain.atomics ∧ (chain.atomics.map (fun pair => pair.2.id)).Nodup ∧
      ∃ a, chain.atomics.getLast? = some (a, chain.object) := by
  unfold UploadJournal.prepareChain at h
  obtain ⟨successors, hsuccessors, h⟩ := bind_eq_ok h
  split at h
  · cases h
  · obtain ⟨atomics, hatomics, h⟩ := bind_eq_ok h
    have hfollowers := chainSuccessors_spec hinv 9999 hsuccessors
    split at h
    · cases h
    · next a o hlast =>
      cases h
      have hflatten := List.flatten_splitBy
        (fun a b : UploadRecord => decide (a.workingFile = b.workingFile)) (original :: successors)
      have hsaves : ∀ save ∈ original :: successors, Refused j save := by
        intro save hsave
        rcases List.mem_cons.mp hsave with rfl | hmem
        · exact horiginal
        · exact (hfollowers save hmem).refused
      obtain ⟨htaken, hnodup, _⟩ := prepareGroups_spec hinv (by
        intro group hgroup save hsave
        exact hsaves save (hflatten ▸ List.mem_flatten_of_mem hgroup hsave))
        (fun x hx => absurd hx List.not_mem_nil) hatomics
      exact ⟨_, hflatten, hfollowers, htaken, hnodup, a, hlast⟩

/-- The first save of a chain has bytes of its own. -/
theorem ChainTaken.sealed {previous : Option NamespaceObject} {groups : List (List UploadRecord)}
    {pairs : List (AtomicRescue × NamespaceObject)} (h : ChainTaken j previous groups pairs)
    {original : UploadRecord} {rest : List UploadRecord}
    (hflatten : groups.flatten = original :: rest) : original.workingFile.isSome = true := by
  cases h with
  | nil => cases hflatten
  | @cons _ group _ _ _ _ hgroup _ =>
    obtain ⟨first, hfirst, _⟩ := hgroup.atomic
    cases group with
    | nil => exact absurd hfirst List.not_mem_nil
    | cons x xs =>
      rw [List.flatten_cons, List.cons_append] at hflatten
      cases hflatten
      exact hgroup.sealed _ rfl

theorem rescuable_of_chain (hinv : Inv ok [] j) {original : UploadRecord} {chain : RescueChain}
    {w : WorkingFile} {parent name : String} (horiginal : Refused j original)
    (hchain : j.prepareChain original = .ok (some chain))
    (hworking : j.rescueWorking original (chain.successors.getLast?.getD original) chain.object
      parent name = .ok w) :
    Rescuable j ⟨none, some chain, original, chain.successors, some chain.object, some w⟩ := by
  obtain ⟨groups, hflatten, hfollowers, htaken, hnodup, a, hlast⟩ :=
    prepareChain_spec hinv horiginal hchain
  obtain ⟨hlinked, hown, hkind, hfile, hattached, hunlinked, _⟩ := rescueWorking_spec hinv hworking
  have hrefused : ∀ save ∈ original :: chain.successors, Refused j save := by
    intro save hsave
    rcases List.mem_cons.mp hsave with rfl | hmem
    · exact horiginal
    · exact (hfollowers save hmem).refused
  have hmember : ∀ save ∈ original :: chain.successors, ∃ group ∈ groups, save ∈ group := by
    intro save hsave
    rw [← hflatten] at hsave
    exact List.mem_flatten.mp hsave
  have hgroups : ∀ group ∈ groups, ∀ save ∈ group, save ∈ original :: chain.successors := by
    intro group hgroup save hsave
    rw [← hflatten]
    exact List.mem_flatten_of_mem hgroup hsave
  refine ⟨?_, ?_, ?_, ?_, .inr ⟨chain.object, w, ?_⟩⟩
  · intro save hsave
    refine ⟨hrefused save hsave, ?_⟩
    rcases List.mem_cons.mp hsave with rfl | hmem
    · exact horiginal.digest hinv (.inl (htaken.sealed hflatten))
    · exact (hfollowers save hmem).digest hinv
  · intro save hsave record hrecord
    obtain ⟨group, hgroup, hin⟩ := hmember save hsave
    obtain ⟨pair, hpair, _, hfree, ⟨first, _, hsound⟩, _⟩ := htaken.member group hgroup save hin
    have hfirst := hsound.unique hinv (hrefused save hsave) hfree hrecord
    exact ⟨pair, hpair, by rw [hfirst]; exact hsound.record⟩
  · intro pair hpair
    obtain ⟨group, hgroup, _, hgroupTaken⟩ := htaken.pair pair hpair
    obtain ⟨save, hsave, hsound⟩ := hgroupTaken.atomic
    exact ⟨⟨save, hgroups group hgroup save hsave, hsound⟩, hgroupTaken.stands, hgroupTaken.kind⟩
  · have hpairwise := List.pairwise_map.mp hnodup
    refine hpairwise.imp_of_mem ?_
    intro x y hx hy hne
    obtain ⟨gx, _, _, htx⟩ := htaken.pair x hx
    obtain ⟨gy, _, _, hty⟩ := htaken.pair y hy
    obtain ⟨sx, hsx, hax⟩ := htx.atomic
    obtain ⟨sy, hsy, hay⟩ := hty.atomic
    exact cleanupObjects_distinct hinv hax hay (htx.owner sx hsx) (hty.owner sy hsy) hne
  · have hobject : Stands j chain.object := by
      obtain ⟨_, _, _, hgroupTaken⟩ := htaken.pair _ (List.mem_of_getLast? hlast)
      exact hgroupTaken.stands
    refine ⟨rfl, rfl, hobject, hlinked, hown, hkind, hfile, hattached, hunlinked, ?_⟩
    intro save hsave x row hrow hlatest
    obtain ⟨group, hgroup, hin⟩ := hmember save hsave
    obtain ⟨pair, hpair, howner, _, _, hposition⟩ := htaken.member group hgroup save hin
    -- The object whose last operation is a save is the one that owns it.
    have hx : x = pair.2.id := by
      rcases hinv.latest hrow hlatest with hmem | hoperation
      · cases hmem
      · obtain ⟨o, ho, heq⟩ := Option.map_eq_some_iff.mp howner
        obtain ⟨_, hget⟩ := forOperation_eq_some hinv ho
        rw [hoperation] at hget
        rw [Option.some.inj hget, heq]
    rcases hposition with hposition | ⟨next, hnext, hvictim⟩
    · left
      rw [hlast] at hposition
      cases hposition
      exact hx
    · exact .inr ⟨next, hnext, by rw [hvictim, hx]⟩

theorem rescuable_of_object (hinv : Inv ok [] j) {original : UploadRecord}
    {object : NamespaceObject} {atomic : Option AtomicRescue} {successors : List UploadRecord}
    {w : WorkingFile} {parent name : String} (horiginal : Refused j original)
    (hobject : j.names.forOperation original.id = some object)
    (hatomic : j.prepareBound original object [original.id] none = .ok atomic)
    (hsuccessors : j.rescueSuccessors original (atomic.map (fun a => a.cleanup.id)) 10000 original =
      .ok successors)
    (hworking : j.rescueWorking original (successors.getLast?.getD original) object parent name =
      .ok w)
    (howners : ∀ save ∈ successors,
      (j.names.forOperation save.id).map NamespaceObject.id = some object.id) :
    Rescuable j ⟨atomic, none, original, successors, some object, some w⟩ := by
  obtain ⟨hfree, hfollowers⟩ := rescueSuccessors_spec hinv 10000 hsuccessors
  obtain ⟨hlinked, hown, hkind, hfile, hattached, hunlinked, hlatestWorking⟩ :=
    rescueWorking_spec hinv hworking
  obtain ⟨hstands, howner⟩ := forOperation_eq_some hinv hobject
  have hrefused : ∀ save ∈ original :: successors, Refused j save := by
    intro save hsave
    rcases List.mem_cons.mp hsave with rfl | hmem
    · exact horiginal
    · exact (hfollowers save hmem).1.refused
  have hsealed : original.workingFile.isSome = true := by
    cases hlast : successors.getLast? with
    | none =>
      rw [hlast] at hlatestWorking
      have hsame : original.workingFile = some w.id := hlatestWorking
      rw [hsame]
      rfl
    | some last =>
      rw [hlast] at hlatestWorking
      have hsame : last.workingFile = some w.id := hlatestWorking
      rw [← (hfollowers last (List.mem_of_getLast? hlast)).2.1, hsame]
      rfl
  have hbound := prepareBound_spec hinv horiginal (fun p hp => absurd hp (by simp)) hatomic
  refine ⟨?_, ?_, ?_, ?_, .inr ⟨object, w, rfl, rfl, hstands, hlinked, hown, hkind, hfile, hattached,
    hunlinked, ?_⟩⟩
  · intro save hsave
    refine ⟨hrefused save hsave, ?_⟩
    rcases List.mem_cons.mp hsave with rfl | hmem
    · exact horiginal.digest hinv (.inl hsealed)
    · exact (hfollowers save hmem).1.digest hinv
  · intro save hsave record hrecord
    rcases hbound with ⟨rfl, hnone⟩ | ⟨a, rfl, hsound, _⟩
    · -- Nothing waits for any of the saves.
      rcases List.mem_cons.mp hsave with rfl | hmem
      · rw [hnone] at hrecord
        cases hrecord
      · have hawaited := (hrefused save hsave).awaited hinv hrecord
        cases awaited_eq_false (hfollowers save hmem).2.2 _ hawaited
    · refine ⟨(a, object), List.mem_singleton.mpr rfl, ?_⟩
      have hsaveFree : j.queue.awaited save.id (some a.cleanup.id) = false := by
        rcases List.mem_cons.mp hsave with rfl | hmem
        · exact hfree
        · exact (hfollowers save hmem).2.2
      rw [hsound.unique hinv (hrefused save hsave) hsaveFree hrecord]
      exact hsound.record
  · intro pair hpair
    rcases hbound with ⟨rfl, _⟩ | ⟨a, rfl, hsound, _⟩
    · cases hpair
    · obtain rfl := List.mem_singleton.mp hpair
      exact ⟨⟨original, List.mem_cons_self, hsound⟩, hstands, hkind⟩
  · rcases hbound with ⟨rfl, _⟩ | ⟨a, rfl, _, _⟩
    · exact List.Pairwise.nil
    · exact List.pairwise_singleton _ _
  · intro save hsave x row hrow hlatest
    left
    have hget : j.names.operations.get save.id = some object.id := by
      rcases List.mem_cons.mp hsave with rfl | hmem
      · exact howner
      · obtain ⟨o, ho, heq⟩ := Option.map_eq_some_iff.mp (howners save hmem)
        rw [← heq]
        exact (forOperation_eq_some hinv ho).2
    rcases hinv.latest hrow hlatest with hmem | hoperation
    · cases hmem
    · rw [hget] at hoperation
      exact (Option.some.inj hoperation).symm

theorem rescuable_of_bare (hinv : Inv ok [] j) {original : UploadRecord}
    {successors : List UploadRecord} (horiginal : Refused j original)
    (hsuccessors : j.rescueSuccessors original none 10000 original = .ok successors) :
    Rescuable j ⟨none, none, original, successors, none, none⟩ := by
  obtain ⟨hfree, hfollowers⟩ := rescueSuccessors_spec hinv 10000 hsuccessors
  have hrefused : ∀ save ∈ original :: successors, Refused j save ∧
      j.queue.awaited save.id none = false := by
    intro save hsave
    rcases List.mem_cons.mp hsave with rfl | hmem
    · exact ⟨horiginal, hfree⟩
    · exact ⟨(hfollowers save hmem).1.refused, (hfollowers save hmem).2.2⟩
  -- The cleanup of a replacement would wait for its save.
  have hnone : ∀ save ∈ original :: successors, j.fileReplacements.get save.id = none := by
    intro save hsave
    obtain ⟨hsaveRefused, hsaveFree⟩ := hrefused save hsave
    cases hrecord : j.fileReplacements.get save.id with
    | none => rfl
    | some record => cases awaited_eq_false hsaveFree _ (hsaveRefused.awaited hinv hrecord)
  refine ⟨?_, ?_, fun pair hpair => absurd hpair List.not_mem_nil, List.Pairwise.nil,
    .inl ⟨rfl, rfl⟩⟩
  · intro save hsave
    exact ⟨(hrefused save hsave).1, (hrefused save hsave).1.digest hinv (.inr (hnone save hsave))⟩
  · intro save hsave record hrecord
    rw [hnone save hsave] at hrecord
    cases hrecord

/-- The plan of a rescue describes the state it was read in. -/
theorem prepareSaved_spec (hinv : Inv ok [] j) {id : Uuid} {parent name : String}
    {saved : RescueCommit} (h : j.prepareSaved id parent name = .ok saved) : Rescuable j saved := by
  unfold UploadJournal.prepareSaved at h
  obtain ⟨original, horiginal, h⟩ := bind_eq_ok h
  obtain ⟨_, hstate, h⟩ := bind_eq_ok h
  obtain ⟨_, _, h⟩ := bind_eq_ok h
  obtain ⟨chain, hchain, h⟩ := bind_eq_ok h
  obtain ⟨hstored, hid⟩ := upload_eq_ok hinv horiginal
  rw [check_eq_ok, Bool.or_eq_true, decide_eq_true_eq, decide_eq_true_eq] at hstate
  have hrefused : Refused j original := by
    refine ⟨hstored, ?_⟩
    rcases hstate with hstate | hstate
    · exact .inl hstate
    · exact .inr (.inl hstate)
  cases chain with
  | some chain =>
    obtain ⟨w, hworking, h⟩ := bind_eq_ok h
    cases h
    exact rescuable_of_chain hinv hrefused hchain hworking
  | none =>
    simp only at h
    split at h
    · obtain ⟨successors, hsuccessors, h⟩ := bind_eq_ok h
      obtain ⟨_, _, h⟩ := bind_eq_ok h
      cases h
      exact rescuable_of_bare hinv hrefused hsuccessors
    · next object hobject =>
      obtain ⟨atomic, hatomic, h⟩ := bind_eq_ok h
      obtain ⟨successors, hsuccessors, h⟩ := bind_eq_ok h
      obtain ⟨w, hworking, h⟩ := bind_eq_ok h
      obtain ⟨_, howners, h⟩ := bind_eq_ok h
      cases h
      rw [check_eq_ok, List.all_eq_true] at howners
      rw [← hid] at hobject
      exact rescuable_of_object hinv hrefused hobject hatomic hsuccessors hworking
        (fun save hsave => by simpa using howners save hsave)

end Cirrove.Journal
