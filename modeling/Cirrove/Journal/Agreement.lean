import Cirrove.Journal.Histories

/-!
# An object and its working file

Every transaction writes the row of an object together with the row of its working file, except
that a removal that is taken back restores the object alone. `paired_of_run` is what holds over the
runs that take no removal of a file with local bytes back: the two rows say the same, and the bytes
behind a name can be written.
-/

namespace Cirrove.Journal

open Cirrove.Library

variable {ok : String → Prop} {w : World} {j j' : UploadJournal}

/-! ## Refusals -/

/-- The part of a transaction that failed. -/
theorem bind_eq_error {α β : Type} {x : Except JournalError α} {f : α → Except JournalError β}
    {e : JournalError} (h : (x >>= f) = .error e) :
    x = .error e ∨ ∃ a, x = .ok a ∧ f a = .error e := by
  cases x with
  | error e' =>
    have heq : e' = e := Except.error.inj h
    exact .inl (congrArg Except.error heq)
  | ok a => exact .inr ⟨a, rfl, h⟩

theorem check_eq_error {condition : Bool} {error e : JournalError} (h : check condition error = .error e) :
    condition = false ∧ error = e := by
  unfold check at h
  split at h
  · cases h
  · next hc => exact ⟨by simpa using hc, Except.error.inj h⟩

/-- A check that is passed is not what failed. -/
theorem check_passed {β : Type} {condition : Bool} {error e : JournalError}
    {f : Unit → Except JournalError β} (h : (check condition error >>= f) = .error e)
    (hpassed : error = e → condition = true) : f () = .error e := by
  rcases bind_eq_error h with herror | ⟨_, _, h⟩
  · obtain ⟨hcondition, rfl⟩ := check_eq_error herror
    rw [hpassed rfl] at hcondition
    cases hcondition
  · exact h

theorem increment_ne_stale {n : Nat} : increment n ≠ .error .stale := by
  unfold increment
  split <;> simp

theorem policy_ne_stale {n : Namespace} {scope : Scope} : n.policy scope ≠ .error .stale := by
  unfold Namespace.policy
  split
  · simp
  · split <;> simp

/-- An object that has a name can be stored with it again. -/
theorem save_again_ne_stale {lowercase : String → String} {n : Namespace} {row : ObjectRow}
    {id : Uuid} {revision : Nat} (hindex : n.Indexed lowercase) (hrow : n.objects.get id = some row)
    (hlinked : row.body.unlinked = false)
    (hlatest : ∀ p, row.body.latest = some p → n.operations.get p = some id) :
    n.save lowercase { row.body with revision := revision } ≠ .error .stale := by
  have hid := hindex.key hrow
  intro h
  unfold Namespace.save at h
  rcases bind_eq_error h with hnew | ⟨_, _, h⟩
  · -- It keeps the slot that it has.
    obtain ⟨hrefused, _⟩ := check_eq_error hnew
    simp only [hid, hrow, hlinked, Bool.or_eq_false_iff] at hrefused
    simp_all
  have h := check_passed h (by simp)
  have h := check_passed h (by simp)
  rcases bind_eq_error h with hpolicy | ⟨names, hpolicy, h⟩
  · exact policy_ne_stale hpolicy
  have h := check_passed h (by simp)
  cases hparent : row.body.node.parentId with
  | none =>
    simp only [hparent] at h
    cases h
  | some parent =>
    simp only [hparent] at h
    rcases bind_eq_error h with hslot | ⟨slot, hslot, h⟩
    · rcases bind_eq_error hslot with hpolicy | ⟨_, _, hslot⟩
      · exact policy_ne_stale hpolicy
      · cases hslot
    have hown : row.body.followsRemote = false → n.entries.get slot = some id := by
      intro hfollows
      refine (hindex.entries slot id).mpr ⟨row, hrow, hlinked, hfollows, ?_⟩
      have hpolicy : n.policy row.body.scope = .ok row.body.names := by
        unfold Namespace.policy
        rw [hindex.names hrow]
      unfold Namespace.entrySlot at hslot
      rw [hpolicy] at hslot
      rw [NamespaceObject.slot, hparent]
      exact congrArg some (Except.ok.inj hslot)
    have h := check_passed h ?_
    · have h := check_passed h (by simp)
      have h := check_passed h (by simp)
      have h := check_passed h ?_
      · have h := check_passed h ?_
        · cases h
        · intro _
          rw [Option.all_eq_true]
          intro p hp
          rw [hlatest p hp, hid]
          simp
      · intro _
        cases howned : row.body.remoteOwned with
        | false => simp
        | true =>
          cases hremote : row.body.remote with
          | none => simp
          | some r =>
            have hmine : n.remote.get (row.body.scope, r.id) = some id :=
              (hindex.remote _ id).mpr ⟨row, r, hrow, howned, hremote, rfl⟩
            simp [hmine, hid]
    · intro _
      cases hfollows : row.body.followsRemote with
      | true => simp
      | false => simp [hown hfollows, hid]

/-- The row of an object is written again with the row of its file. -/
theorem updateWorking_ne_stale {lowercase : String → String} {n : Namespace} {row : ObjectRow}
    {id file : Uuid} {v : WorkingFile} (hindex : n.Indexed lowercase)
    (hrow : n.objects.get id = some row) (hlinked : row.body.unlinked = false)
    (hworking : row.body.workingFile = some file)
    (hoperations : ∀ p, row.body.latest = some p → n.operations.get p = some id)
    (hkey : v.id = file) (hscope : v.scope = row.body.scope) (hnode : v.node = row.body.node)
    (hunlinked : v.unlinked = row.body.unlinked) (hlatest : v.latest = row.body.latest) :
    n.updateWorking lowercase v ≠ .error .stale := by
  intro h
  unfold Namespace.updateWorking at h
  split at h
  · cases h
  · next o hfound =>
    obtain ⟨x, found, hx, hbody⟩ := (Table.mem_select _ _ _).mp (List.mem_of_find?_eq_some hfound)
    have hfile : o.workingFile = some v.id := by simpa using List.find?_some hfound
    cases hbody
    -- No other object has this file.
    have hsame : x = id := by
      refine hindex.working hx hrow (by rw [hfile]; rfl) ?_
      rw [hfile, hworking, hkey]
    subst hsame
    rw [hrow] at hx
    cases hx
    have h := check_passed h (by simp [hscope, hnode, hunlinked])
    rcases bind_eq_error h with hrevision | ⟨revision, _, h⟩
    · exact increment_ne_stale hrevision
    · rw [hnode, hlatest] at h
      exact save_again_ne_stale hindex hrow hlinked hoperations h

theorem workingSlot_ne_stale {n : Namespace} {lowercase : String → String} {file : WorkingFile} :
    n.workingSlot lowercase file ≠ .error .stale := by
  intro h
  unfold Namespace.workingSlot at h
  split at h
  · cases h
  · split at h
    · cases h
    · rcases bind_eq_error h with hslot | ⟨_, _, h⟩
      · rcases bind_eq_error hslot with hpolicy | ⟨_, _, hslot⟩
        · exact policy_ne_stale hpolicy
        · cases hslot
      · cases h

/-- The bytes behind a name can be written when the rows agree. -/
theorem markDirty_ne_stale (hinv : Inv ok [] j) (hagrees : Agrees j) {id file : Uuid}
    {row : ObjectRow} (hrow : j.names.objects.get id = some row)
    (hlinked : row.body.unlinked = false) (hworking : row.body.workingFile = some file) :
    j.markDirty file ≠ .error .stale := by
  obtain ⟨stored, hstored, hmatches⟩ := hagrees id row file hrow hworking
  have hkey : stored.body.id = file := (hinv.files hstored).key
  intro h
  unfold UploadJournal.markDirty at h
  rcases bind_eq_error h with hmissing | ⟨v, hv, h⟩
  · simp [UploadJournal.workingFile, hstored] at hmissing
  obtain rfl : v = stored.body := by simpa [UploadJournal.workingFile, hstored] using hv.symm
  rcases bind_eq_error h with hgeneration | ⟨generation, _, h⟩
  · exact increment_ne_stale hgeneration
  rcases bind_eq_error h with hsave | ⟨_, _, h⟩
  swap
  · cases h
  unfold UploadJournal.saveWorking at hsave
  rcases bind_eq_error hsave with hslot | ⟨slot, _, hsave⟩
  · exact workingSlot_ne_stale hslot
  rcases bind_eq_error hsave with hwrite | ⟨j₁, hwrite, hsave⟩
  · unfold UploadJournal.writeWorkingRow at hwrite
    simp only [hkey, hstored] at hwrite
    rcases bind_eq_error hwrite with hcheck | ⟨_, _, hwrite⟩
    · exact absurd (check_eq_error hcheck).2 (by simp)
    · cases hwrite
  have hnames : j₁.names = j.names ∧ j₁.settings = j.settings := by
    unfold UploadJournal.writeWorkingRow at hwrite
    simp only [hkey, hstored] at hwrite
    obtain ⟨_, _, hwrite⟩ := bind_eq_ok hwrite
    cases hwrite
    exact ⟨rfl, rfl⟩
  rw [hnames.1, hnames.2] at hsave
  rcases bind_eq_error hsave with hupdate | ⟨_, _, hsave⟩
  · refine updateWorking_ne_stale hinv.index hrow hlinked hworking ?_ hkey hmatches.scope
      hmatches.node hmatches.unlinked hmatches.latest hupdate
    intro p hp
    exact (hinv.latest hrow hp).resolve_left (by simp)
  · cases hsave

/-! ## Agreement -/

/-- The rows of an object and of its working file agree, and so the file can be written. -/
structure Paired (j : UploadJournal) : Prop where
  agrees : Agrees j
  writable : ∀ id row file, j.names.objects.get id = some row → row.body.unlinked = false →
    row.body.workingFile = some file → j.markDirty file ≠ .error .stale

/-- A removal is taken back only when its object has no bytes of its own. -/
def TakesBackRemote (w : World) (e : Event) : Prop :=
  ∀ env id, e.request = some (env, .discardStuckRemoval id) →
    ∀ o row, w.journal.names.operations.get id = some o → w.journal.names.objects.get o = some row →
      row.body.workingFile = none

/-- An object without bytes has its name again. -/
theorem Relinked.agrees {start : UploadJournal} {id : Uuid} (h : Relinked start j' id)
    (hinv : Inv ok [] start) (hsettings : j'.settings = start.settings) (hagrees : Agrees start)
    (hremote : ∀ o row, start.names.operations.get id = some o →
      start.names.objects.get o = some row → row.body.workingFile = none) : Agrees j' := by
  obtain ⟨row, revision, n', hrow, _, hlatest, hstored, _, hnames⟩ := h.object
  have howner := (hinv.latest hrow hlatest).resolve_left (by simp)
  have hnone := hremote _ row howner hrow
  intro x found file hx hfile
  replace hx : n'.objects.get x = some found := by
    rw [hnames] at hx
    exact hx
  rw [h.files, hsettings]
  by_cases hid : x = row.body.id
  · rw [hid] at hx
    have hbody := congrArg (Option.map (fun row => row.body.workingFile))
      (hx.symm.trans hstored.self)
    simp only [Option.map_some, Option.some.injEq] at hbody
    rw [hfile, hnone] at hbody
    cases hbody
  · rw [hstored.others x hid] at hx
    exact hagrees x found file hx hfile

theorem step_agrees {e : Event} (hpermitted : Permitted ok w e) (hback : TakesBackRemote w e)
    (hinv : Inv ok [] w.journal) (h : Agrees w.journal) : Agrees (step w e).journal := by
  refine step_invariant hpermitted hinv h ?_ ?_
  · intro env op j j' hrequest _ hmove hagrees
    cases hmove with
    | quiet hinv hleads => exact hleads.reshaped.agrees hinv.index hagrees
    | bind _ _ hbinds =>
      exact (@Binds.reaches _ _ _ _ _ hbinds.2 (fun _ _ => False)).reshaped.agrees
        hbinds.1.index hagrees
    | claim hinv _ _ _ hleads => exact hleads.reshaped.agrees hinv.index hagrees
    | discard hinv hop _ _ hsettings hrelinked =>
      subst hop
      exact hrelinked.agrees hinv hsettings hagrees (hback env _ hrequest)
  · intro j hopening
    exact hopening.reshaped.agrees hinv.index h

/-- An object and its working file agree after every run that takes no removal of a file with local
    bytes back. -/
theorem paired_of_run {settings : Settings} {events : List Event}
    (h : Run step (fun w e => Permitted (fun _ => True) w e ∧ TakesBackRemote w e)
      (World.create settings) events w) : Paired w.journal := by
  obtain ⟨hinv, hagrees⟩ := h.invariant
    (fun w => Inv (fun _ => True) [] w.journal ∧ Agrees w.journal)
    ⟨.create settings, fun _ _ _ h => (by cases h)⟩
    (fun w e hw he => ⟨step_inv he.1 hw.1, step_agrees he.1 he.2 hw.1 hw.2⟩)
  exact ⟨hagrees, fun id row file hrow hlinked hfile =>
    markDirty_ne_stale hinv hagrees hrow hlinked hfile⟩

/-- A cloud file is opened for writing. -/
def opened : List Op := [.publishWorking sampleDrive (sampleFile "item" "root" "notes") false false]

/-- A discard finds that the object of the removal has no bytes. -/
def takesBackRemote (w : World) (e : Event) : Bool :=
  match e.request with
  | some (_, .discardStuckRemoval id) => (w.journal.names.operations.get id).all fun o =>
      (w.journal.names.objects.get o).all fun row => row.body.workingFile.isNone
  | _ => true

theorem TakesBackRemote.of_check (w : World) (e : Event) (h : takesBackRemote w e = true) :
    TakesBackRemote w e := by
  intro env id hrequest o row ho hrow
  simpa [takesBackRemote, hrequest, ho, hrow] using h

/-- Two files are open for writing. The removal of a third one is refused and taken back, and then
    the first one is deleted. -/
def remoteTakenBack : List Op := opened ++
  [.publishWorking sampleDrive (sampleFile "draft" "root" "draft") false false,
    .observeNamespaceFile sampleDrive (sampleFile "letter" "root" "letter"),
    .unlinkNamespaceFile ⟨21⟩ 0 false, .claimMutation, .deferMutation ⟨31⟩ ⟨41⟩ .conflict 0,
    .discardStuckRemoval ⟨31⟩, .unlinkNamespaceFile ⟨1⟩ 1 false]

theorem paired_remoteTakenBack :
    (exec (.numbered 61) (.discardStuckRemoval ⟨31⟩)
        (scriptWorld .sample (remoteTakenBack.take 6)).journal).result = .ok .done ∧
      ([⟨1⟩, ⟨11⟩, ⟨21⟩].map fun id =>
        ((scriptWorld .sample remoteTakenBack).journal.names.objects.get id).map fun row =>
          (row.body.unlinked, row.body.workingFile)) =
        [some (true, some ⟨1⟩), some (false, some ⟨11⟩), some (false, none)] ∧
      Paired (scriptWorld .sample remoteTakenBack).journal := by
  refine ⟨by decide +kernel, by decide +kernel, ?_⟩
  exact paired_of_run (run_of_checked TakesBackRemote.of_check (by decide +kernel)
    (by decide +kernel) (fun _ _ _ _ => trivial))

/-- The file is deleted, the cloud refuses, and the removal is taken back. -/
def takenBack : List Op := opened ++
  [.unlinkNamespaceFile ⟨1⟩ 1 false, .claimMutation, .deferMutation ⟨11⟩ ⟨21⟩ .conflict 0,
    .discardStuckRemoval ⟨11⟩]

theorem takenBack_not_paired :
    Run step (Permitted (fun _ => True)) (World.create .sample) (script 1 takenBack)
        (scriptWorld .sample takenBack) ∧
      ¬ Paired (scriptWorld .sample takenBack).journal := by
  refine ⟨run_of_script (by decide +kernel) (fun _ _ _ _ => trivial), ?_⟩
  intro h
  have hobject : ((scriptWorld .sample takenBack).journal.names.objects.get ⟨1⟩).map
      (fun row => (row.body.unlinked, row.body.workingFile)) = some (false, some ⟨1⟩) := by
    decide +kernel
  have hrefused : (match (scriptWorld .sample takenBack).journal.markDirty ⟨1⟩ with
      | .error e => some e
      | .ok _ => none) = some .stale := by decide +kernel
  obtain ⟨row, hrow, hbody⟩ := Option.map_eq_some_iff.mp hobject
  refine h.writable ⟨1⟩ row ⟨1⟩ hrow (congrArg Prod.fst hbody) (congrArg Prod.snd hbody) ?_
  split at hrefused
  · next heq => rw [heq, Option.some.inj hrefused]
  · cases hrefused

end Cirrove.Journal
