import Cirrove.Journal.Enqueueing
import Cirrove.Journal.Moves

/-!
# Working files keep the invariant

Writing, sealing and moving the bytes of a local file. The row of a working file and its object are
written in one transaction (`writeFile_leads`), so they never disagree.
-/

namespace Cirrove.Journal

open Cirrove.Library

variable {ok : String → Prop} {underway : List Uuid} {j j' : UploadJournal}
  {claimed : Uuid → Uuid → Prop} {gained : Uuid → Resource → Prop}

/-! ## A file and its object -/

theorem workingFile_eq_ok {id : Uuid} {w : WorkingFile} (h : j.workingFile id = .ok w) :
    ∃ row, j.workingFiles.get id = some row ∧ row.body = w := by
  unfold UploadJournal.workingFile at h
  split at h
  · next row hrow =>
    cases h
    exact ⟨row, hrow, rfl⟩
  · cases h

/-- `namespace::update_working` stores the object of the file again. -/
theorem updateWorking_eq_ok {n n' : Namespace} {lowercase : String → String} {w : WorkingFile}
    (hkey : ∀ {id row}, n.objects.get id = some row → row.body.id = id)
    (h : n.updateWorking lowercase w = .ok n') :
    ∃ row revision, n.objects.get row.body.id = some row ∧ row.body.workingFile = some w.id ∧
      row.body.scope = w.scope ∧ row.body.node.id = w.node.id ∧ row.body.unlinked = w.unlinked ∧
      n.save lowercase { row.body with
        node := w.node, latest := w.latest, revision := revision } = .ok n' := by
  unfold Namespace.updateWorking at h
  split at h
  · cases h
  · next o hfound =>
    obtain ⟨_, hcheck, h⟩ := bind_eq_ok h
    obtain ⟨revision, _, h⟩ := bind_eq_ok h
    simp only [check_eq_ok, Bool.and_eq_true, decide_eq_true_eq] at hcheck
    obtain ⟨id, row, hrow, hbody⟩ := (Table.mem_select _ _ _).mp (List.mem_of_find?_eq_some hfound)
    cases hbody
    have hworking := List.find?_some hfound
    simp only [decide_eq_true_eq] at hworking
    exact ⟨row, revision, by rw [hkey hrow]; exact hrow, hworking, hcheck.1.1, hcheck.1.2, hcheck.2, h⟩

/-- The slot of a file is that of its object. -/
theorem workingSlot_eq_ok {n : Namespace} {lowercase : String → String} {w : WorkingFile}
    {slot : Option Slot} (h : n.workingSlot lowercase w = .ok slot) {o : NamespaceObject}
    (hscope : o.scope = w.scope) (hnode : o.node = w.node) (hunlinked : o.unlinked = w.unlinked)
    (hnames : n.scopes.get o.scope = some o.names) : slot = o.fileSlot lowercase := by
  unfold Namespace.workingSlot at h
  unfold NamespaceObject.fileSlot NamespaceObject.slot
  rw [hunlinked, hnode]
  split at h
  · next hun =>
    cases h
    rw [if_pos hun]
  · next hun =>
    rw [if_neg hun]
    split at h
    · cases h
    · next parent hparent =>
      obtain ⟨s, hs, h⟩ := bind_eq_ok h
      cases h
      unfold Namespace.entrySlot at hs
      obtain ⟨names, hpolicy, hs⟩ := bind_eq_ok hs
      cases hs
      unfold Namespace.policy at hpolicy
      rw [← hscope, hnames] at hpolicy
      cases hpolicy
      rw [hparent, hscope]
      rfl

/-- The object of a working file is stored again; no other one becomes known. -/
theorem updateWorking_objects {n n' : Namespace} {lowercase : String → String} {w : WorkingFile}
    (hkey : ∀ {id row}, n.objects.get id = some row → row.body.id = id)
    (h : n.updateWorking lowercase w = .ok n') {x : Uuid} (hx : n.objects.get x = none) :
    n'.objects.get x = none := by
  obtain ⟨row, _, hrow, _, _, _, _, hsave⟩ := updateWorking_eq_ok hkey h
  rw [(save_stored hsave).others x ?_]
  · exact hx
  · rintro rfl
    have hget : n.objects.get row.body.id = none := hx
    rw [hrow] at hget
    cases hget

/-- The slot a row is written with: that of the file now, or the one it had. -/
def SlotKept (j : UploadJournal) (row : WorkingRow) : Prop :=
  j.names.workingSlot j.settings.lowercase row.body = .ok row.slot ∨
    ∃ old, j.workingFiles.get row.body.id = some old ∧ row.slot = old.slot ∧
      old.body.node.parentId = row.body.node.parentId ∧ old.body.node.name = row.body.node.name

/-- The row of a file is written, and its object is stored with it. -/
theorem writeFile_leads (hinv : Inv ok underway j) (row : WorkingRow) {names : Namespace}
    (hsound : FileSound ok j.queue row.body.id row.body)
    (hlatest : row.body.unlinked = true → ∀ old, j.workingFiles.get row.body.id = some old →
      row.body.latest = old.body.latest)
    (hslot : SlotKept j row)
    (h : j.names.updateWorking j.settings.lowercase row.body = .ok names) :
    Leads ok claimed gained underway j
      { j with names := names, workingFiles := j.workingFiles.set row.body.id row } := by
  obtain ⟨orow, revision, horow, hworking, hscope, _, hunlinked, hsave⟩ :=
    updateWorking_eq_ok hinv.index.key h
  have hosound := hinv.objects horow
  -- The only object of the file is the one that is stored.
  have hdetached : ∀ o x, j.names.objects.get o = some x → x.body.unlinked = true →
      x.body.workingFile = some row.body.id → row.body.latest = x.body.latest := by
    intro o x hx hun hw
    obtain rfl := hinv.index.working hx horow (by rw [hw]; rfl) (hw.trans hworking.symm)
    rw [horow] at hx
    cases hx
    obtain ⟨old, hold, hsame⟩ := hinv.detached horow hun hworking
    rw [← hsame]
    exact hlatest (hunlinked.symm.trans hun) old hold
  have hinv₁ := hinv.setFile row hsound hdetached
  have hsaved : ({ j with workingFiles := j.workingFiles.set row.body.id row } :
      UploadJournal).saveObject { orow.body with
        node := row.body.node, latest := row.body.latest, revision := revision } = .ok
      { j with names := names, workingFiles := j.workingFiles.set row.body.id row } := by
    unfold UploadJournal.saveObject
    rw [hsave]
    rfl
  have hfile : orow.body.node.kind = .file := hosound.working (by rw [hworking]; rfl)
  obtain ⟨hinv', hstored, _⟩ := saveObject_like hinv₁ hsaved
    ⟨by
      intro r hr
      obtain ⟨hkind, hrest⟩ := hosound.remote r hr
      exact ⟨by rw [hkind, hfile, hsound.kind], hrest⟩,
      fun _ => hsound.kind,
      fun hfolder => absurd (hsound.kind.symm.trans hfolder) (by decide),
      fun hlinked => hsound.head (hunlinked.symm.trans hlinked),
      fun _ hfolder => absurd (hsound.kind.symm.trans hfolder) (by decide)⟩
    (hinv.scope_known horow)
    (like_of_row horow ⟨rfl, fun _ => hsound.kind, rfl,
      fun hspare => absurd (hworking.symm.trans hspare.2) (by simp),
      fun hun => ⟨hun, hdetached _ orow horow hun hworking⟩⟩)
    (by
      intro _ w hw
      have heq : w = row.body.id := Option.some.inj (hw.symm.trans hworking)
      subst heq
      exact ⟨row, Table.get_set_self _ _ _, rfl⟩)
  refine .of_inv hinv' rfl rfl (.of_store rfl hstored (hinv.scope_known horow) ?_)
  have hothers : ∀ x, x ≠ row.body.id →
      (j.workingFiles.set row.body.id row).get x = j.workingFiles.get x :=
    fun x hx => Table.get_set_of_ne _ _ hx
  rcases hslot with hslot | ⟨old, hold, hslot, hparent, hname⟩
  · refine .written hworking (Table.get_set_self _ _ _) ⟨hscope.symm, rfl, hunlinked.symm, rfl, ?_⟩
      hothers
    exact workingSlot_eq_ok hslot hscope rfl hunlinked (hinv.index.names horow)
  · refine .kept hold horow hworking hworking (Table.get_set_self _ _ _) ?_ hothers
    intro hmatches
    refine ⟨hscope.symm, rfl, hunlinked.symm, rfl, ?_⟩
    rw [hslot, hmatches.slot]
    unfold NamespaceObject.fileSlot NamespaceObject.slot
    rw [← hmatches.node, hparent, hname]

/-- `UploadJournal::save_working` -/
theorem saveWorking_spec (hinv : Inv ok underway j) (w : WorkingFile)
    (hsound : FileSound ok j.queue w.id w)
    (hlatest : w.unlinked = true → ∀ old, j.workingFiles.get w.id = some old →
      w.latest = old.body.latest)
    (h : j.saveWorking w = .ok j') :
    Leads ok claimed gained underway j j' ∧
      ∃ row, j'.workingFiles = j.workingFiles.set w.id row ∧ row.body = w ∧
        j'.queue = j.queue := by
  unfold UploadJournal.saveWorking at h
  obtain ⟨slot, hslot, h⟩ := bind_eq_ok h
  obtain ⟨j₁, hrow, h⟩ := bind_eq_ok h
  obtain ⟨names, hnames, h⟩ := bind_eq_ok h
  cases h
  unfold UploadJournal.writeWorkingRow at hrow
  split at hrow
  · cases hrow
  · next old _ =>
    obtain ⟨_, _, hrow⟩ := bind_eq_ok hrow
    cases hrow
    have hleads : Leads ok claimed gained underway j { j with
        names := names
        workingFiles := j.workingFiles.set w.id ⟨old.identity, slot, w⟩ } :=
      writeFile_leads hinv ⟨old.identity, slot, w⟩ hsound hlatest (.inl hslot) hnames
    exact ⟨hleads, _, rfl, rfl, rfl⟩

/-! ## Writing -/

/-- `prepare_working_change` -/
theorem markDirty_spec (hinv : Inv ok [] j) {id : Uuid} {w : WorkingFile}
    (h : j.markDirty id = .ok (w, j')) :
    Leads ok claimed gained [] j j' ∧ ∃ row, j'.workingFiles.get id = some row ∧ row.body = w := by
  unfold UploadJournal.markDirty at h
  obtain ⟨old, hold, h⟩ := bind_eq_ok h
  obtain ⟨row, hrow, rfl⟩ := workingFile_eq_ok hold
  obtain ⟨generation, _, h⟩ := bind_eq_ok h
  obtain ⟨j₁, hsave, h⟩ := bind_eq_ok h
  cases h
  have hsound := hinv.files hrow
  have hkey : row.body.id = id := hsound.key
  obtain ⟨hleads, row', hset, hbody, _⟩ := saveWorking_spec hinv
    { row.body with dirty := true, generation := generation }
    ⟨rfl, hsound.kind, hsound.head, hsound.remote, hsound.intent, fun _ => .inl rfl⟩
    (by
      intro _ old hold
      have hget : j.workingFiles.get row.body.id = some old := hold
      rw [hkey, hrow] at hget
      cases hget
      rfl) hsave
  refine ⟨hleads, row', ?_, hbody⟩
  rw [hset, ← hkey]
  exact Table.get_set_self _ _ _

/-- The bytes of a file have another number. -/
theorem resize_spec (hinv : Inv ok [] j) {id : Uuid} {row : WorkingRow} {size modified : Nat}
    (hrow : j.workingFiles.get id = some row)
    (h : j.saveWorking { row.body with
      node := { row.body.node with size := size, modifiedUnix := modified } } = .ok j') :
    Leads ok claimed gained [] j j' := by
  have hsound := hinv.files hrow
  have hkey : row.body.id = id := hsound.key
  refine (saveWorking_spec hinv { row.body with
      node := { row.body.node with size := size, modifiedUnix := modified } }
    ⟨rfl, hsound.kind, hsound.head, hsound.remote, hsound.intent, hsound.sent⟩ ?_ h).1
  intro _ old hold
  have hget : j.workingFiles.get row.body.id = some old := hold
  rw [hkey, hrow] at hget
  cases hget
  rfl

theorem writeWorking_path {start : UploadJournal} {env : Env} {op : Op} (hstart : Inv ok [] start)
    (id : Uuid) (written : Except JournalError Nat) :
    Commits.Triple (Path ok start env op) (UploadJournal.writeWorking env id written)
      (Path ok start env op) (fun _ => Path ok start env op) := by
  unfold UploadJournal.writeWorking
  refine Commits.triple_bind (Q := fun w j => Path ok start env op j ∧
    ∃ row, j.workingFiles.get id = some row ∧ row.body = w) ?_ ?_
  · apply Commits.triple_transaction
    intro j hpath w j' h
    have hinv := hpath.inv hstart
    obtain ⟨hleads, hrow⟩ := markDirty_spec hinv h
    exact ⟨hpath.quiet hinv hleads, hpath.quiet hinv hleads, hrow⟩
  · intro w
    refine Commits.triple_bind (Q := fun _ j => Path ok start env op j ∧
      ∃ row, j.workingFiles.get id = some row ∧ row.body = w) ?_ ?_
    · exact Commits.triple_read (fun j hboth _ _ => hboth)
    · intro size
      refine Commits.triple_bind (Q := fun _ => Path ok start env op) ?_ ?_
      · apply Commits.triple_commit
        rintro j ⟨hpath, row, hrow, rfl⟩ j' h
        have hinv := hpath.inv hstart
        have hleads : Leads ok (fun _ _ => False) (fun _ _ => False) [] j j' :=
          resize_spec hinv hrow h
        exact ⟨hpath.quiet hinv hleads, hpath.quiet hinv hleads⟩
      · intro _
        exact Commits.triple_pure (fun j hpath => hpath)

/-! ## Sealing -/

/-- `working::commit_generation` makes the new upload the last operation of the file. -/
theorem commitGeneration_leads (hinv : Inv ok underway j) {id : Uuid} {generation : Nat}
    {previous : Option Uuid} {upload : UploadRecord}
    (hupload : j.queue.find upload.id = some (.upload upload))
    (hlinked : ∀ row, j.workingFiles.get id = some row → row.body.unlinked = false)
    (h : UploadJournal.commitGeneration id generation previous j upload = .ok j') :
    Leads ok claimed gained underway j j' := by
  unfold UploadJournal.commitGeneration at h
  split at h
  · cases h
  · next row hrow =>
    obtain ⟨_, _, h⟩ := bind_eq_ok h
    obtain ⟨names, hnames, h⟩ := bind_eq_ok h
    cases h
    have hsound := hinv.files hrow
    obtain rfl : row.body.id = id := hsound.key
    refine writeFile_leads hinv { row with body := { row.body with
        latest := some upload.id
        dirty := false
        node := { row.body.node with size := upload.size } } }
      ⟨rfl, hsound.kind, ?_, hsound.remote, fun hnone => (Option.some_ne_none _ hnone).elim,
        fun _ => .inr rfl⟩ ?_ (.inr ⟨row, hrow, rfl, rfl, rfl⟩) hnames
    · intro _ p hp
      cases hp
      exact ⟨_, hupload, rfl⟩
    · intro hun
      have hfalse := hlinked row hrow
      rw [hun] at hfalse
      cases hfalse

/-- `UploadJournal::seal_working` does nothing, or a new upload enters the queue. -/
theorem sealWorking_spec (hinv : Inv ok [] j) {env : Env} {upload id : Uuid}
    {record : Option UploadRecord} (h : j.sealWorking env upload id = .ok (record, j'))
    (habsent : j.queue.Absent upload) :
    Leads ok claimed gained [] j j' ∧ (∀ x, x ≠ upload → j.queue.Absent x → j'.queue.Absent x) ∧
      (∀ x, j.names.objects.get x = none → j'.names.objects.get x = none) ∧
      ∀ row', j'.workingFiles.get id = some row' →
        ∃ row, j.workingFiles.get id = some row ∧ row'.body.unlinked = row.body.unlinked := by
  unfold UploadJournal.sealWorking at h
  obtain ⟨w, hw, h⟩ := bind_eq_ok h
  obtain ⟨row, hrow, rfl⟩ := workingFile_eq_ok hw
  have hsound := hinv.files hrow
  split at h
  · cases h
    exact ⟨.refl hinv, fun _ _ habsent => habsent, fun _ hnone => hnone,
      fun row' hrow' => ⟨row', hrow', rfl⟩⟩
  · next hguard =>
    simp only [Bool.or_eq_true, Bool.not_eq_true', not_or, Bool.not_eq_false,
      Bool.not_eq_true] at hguard
    obtain ⟨_, hlinked⟩ := hguard
    -- The new upload follows the last operation of the file, if there is one.
    have hplan : ∃ intent base, (Orderly j base ∧ (base = none → ∀ item etag,
        intent = .replace item etag → ok item ∧ ok etag)) ∧ (do
        let created ← j.enqueueGeneration env upload row.body.scope intent ⟨base, []⟩ (some id)
          (UploadJournal.commitGeneration id row.body.generation row.body.latest)
        return (some created.1, created.2)) = .ok (record, j') := by
      cases hlatest : row.body.latest with
      | none =>
        rw [hlatest] at h
        exact ⟨_, _, ⟨.none j, fun _ => hsound.intent hlatest⟩, h⟩
      | some previous =>
        rw [hlatest] at h
        obtain ⟨⟨scope, intent⟩, hafter, h⟩ := bind_eq_ok h
        obtain ⟨p, hp, hkind, _⟩ := uploadIntentAfter_kind hafter
        refine ⟨_, _, ⟨⟨?_, ?_⟩, fun hnone => (Option.some_ne_none _ hnone).elim⟩, h⟩
        · intro b hb
          cases hb
          rfl
        · intro b hb x hx
          cases hb
          rw [hp] at hx
          cases hx
          rw [hkind]
          rfl
    obtain ⟨intent, base, ⟨horder, hsource⟩, h⟩ := hplan
    obtain ⟨⟨created, j₂⟩, henqueue, h⟩ := bind_eq_ok h
    change Except.ok (some created, j₂) = .ok (record, j') at h
    cases h
    obtain ⟨j₁, size, sha256, _, hcreated, henters, hcommit⟩ :=
      enqueueGeneration_spec hinv henqueue habsent horder hsource
    have hid : created.id = upload := by rw [hcreated]; rfl
    have hcommits : Leads ok claimed gained [] j₁ j' := commitGeneration_leads henters.inv
      henters.find_self (by
        intro row' hrow'
        rw [henters.rest] at hrow'
        have hget : j.workingFiles.get id = some row' := hrow'
        rw [hrow] at hget
        cases hget
        exact hlinked) hcommit
    have hfiles : j₁.workingFiles = j.workingFiles := by rw [henters.rest]
    obtain ⟨hqueue, hobjects, hunlinked⟩ : j'.queue = j₁.queue ∧
        (∀ x, j₁.names.objects.get x = none → j'.names.objects.get x = none) ∧
        ∀ row', j'.workingFiles.get id = some row' → row'.body.unlinked = row.body.unlinked := by
      unfold UploadJournal.commitGeneration at hcommit
      rw [hfiles, hrow] at hcommit
      obtain ⟨_, _, hcommit⟩ := bind_eq_ok hcommit
      obtain ⟨_, hnames, hcommit⟩ := bind_eq_ok hcommit
      cases hcommit
      refine ⟨rfl, fun x hx => updateWorking_objects henters.inv.index.key hnames hx, ?_⟩
      intro row' hrow'
      rw [Table.get_set_self] at hrow'
      cases hrow'
      rfl
    refine ⟨henters.leads.trans hcommits, ?_, ?_, fun row' hrow' => ⟨row, hrow, hunlinked row' hrow'⟩⟩
    · intro x hx hnone
      rw [hqueue]
      exact henters.absent (by show x ≠ created.id; rw [hid]; exact hx) hnone
    · intro x hx
      refine hobjects x ?_
      rw [henters.rest]
      exact hx

/-! ## Moving -/

/-- `working::commit_relocation` makes the move the last operation of the file. -/
theorem commitRelocationOf_leads {w : WorkingFile} {mutation : MutationRecord}
    (h : UploadJournal.commitRelocationOf w j mutation = .ok j') (hinv : Inv ok underway j)
    (hmutation : j.queue.find mutation.id = some (.mutation mutation))
    (hkind : (Operation.mutation mutation).kind.isSome = true) (hfile : w.node.kind = .file)
    (hremote : ∀ r, w.initialRemote = some r → ∀ tag ∈ nodeTags r, ok tag)
    (hlinked : w.unlinked = false) :
    Leads ok claimed gained underway j j' := by
  unfold UploadJournal.commitRelocationOf at h
  split at h
  · cases h
  · next row hrow =>
    obtain ⟨_, _, h⟩ := bind_eq_ok h
    split at h
    · obtain ⟨_, _, h⟩ := bind_eq_ok h
      obtain ⟨slot, hslot, h⟩ := bind_eq_ok h
      obtain ⟨_, _, h⟩ := bind_eq_ok h
      obtain ⟨j₁, hwritten, h⟩ := bind_eq_ok h
      obtain ⟨names, hnames, h⟩ := bind_eq_ok h
      cases h
      unfold UploadJournal.writeWorkingRow at hwritten
      rw [hrow] at hwritten
      obtain ⟨_, _, hwritten⟩ := bind_eq_ok hwritten
      cases hwritten
      refine writeFile_leads hinv ⟨row.identity, slot, { w with latest := some mutation.id }⟩
        ⟨rfl, hfile, ?_, hremote, fun hnone => (Option.some_ne_none _ hnone).elim,
          fun _ => .inr rfl⟩ ?_ (.inl hslot) hnames
      · intro _ p hp
        cases hp
        exact ⟨_, hmutation, hkind⟩
      · intro hun
        rw [hlinked] at hun
        cases hun
    · cases h

/-- The second transaction of `relocate_working`. -/
theorem relocateSealed_leads (hinv : Inv ok [] j) {env : Env} {id : Uuid} {parent name : String}
    {record : MutationRecord} (h : j.relocateSealed env id parent name = .ok (record, j'))
    (habsent : j.queue.Absent (env.uuid 1))
    (hlinked : ∀ row, j.workingFiles.get id = some row → row.body.unlinked = false) :
    Leads ok claimed gained [] j j' := by
  unfold UploadJournal.relocateSealed at h
  obtain ⟨w, hw, h⟩ := bind_eq_ok h
  obtain ⟨row, hrow, rfl⟩ := workingFile_eq_ok hw
  obtain ⟨base, hbase, h⟩ := bind_eq_ok h
  obtain ⟨generation, _, h⟩ := bind_eq_ok h
  have hsound := hinv.files hrow
  obtain ⟨horder, hpredecessor, hpreview, hnamed, _, _⟩ := followLatest_spec hbase
  -- The bytes were sealed, or came from the cloud.
  have hclean : row.body.dirty = false := by
    obtain ⟨_, q', _, _, _, hcommit⟩ := enqueueMutationTransaction_eq_ok h
    unfold UploadJournal.commitRelocationOf at hcommit
    rw [hsound.key, hrow] at hcommit
    obtain ⟨_, hcheck, _⟩ := bind_eq_ok hcommit
    simp only [check_eq_ok, Bool.and_eq_true, Bool.not_eq_true'] at hcheck
    exact hcheck.1.1.1.1.1.1.1
  have hsourced : Sourced ok ⟨row.body.scope, .relocate row.body.mutationSource parent name⟩
      base := by
    refine ⟨hnamed, ?_, hpreview⟩
    intro hnone b hb
    cases hb
    have hlatest : row.body.latest = none := by rw [← hpredecessor, hnone]; rfl
    unfold WorkingFile.mutationSource
    rw [hlatest]
    cases hinitial : row.body.initialRemote with
    | some r => exact hsound.remote r hinitial
    | none =>
      have hsent := hsound.sent hinitial
      rw [hclean, hlatest] at hsent
      simp at hsent
  obtain ⟨j₁, hrecord, henters, hcommit⟩ :=
    enqueueMutationTransaction_spec hinv h habsent horder hsourced
  refine henters.leads.trans (commitRelocationOf_leads hcommit henters.inv henters.find_self ?_
    hsound.kind hsound.remote (hlinked row hrow))
  rw [hrecord]
  rfl

theorem relocateWorking_path {start : UploadJournal} {env : Env} {op : Op}
    (hstart : Inv ok [] start) (hdistinct : env.uuid 1 ≠ env.uuid 0)
    (hfirst : start.queue.Absent (env.uuid 0)) (hsecond : start.queue.Absent (env.uuid 1)) (id : Uuid)
    (parent name : String) :
    Commits.Triple (fun j => j = start) (UploadJournal.relocateWorking env id parent name)
      (Path ok start env op) (fun _ => Path ok start env op) := by
  unfold UploadJournal.relocateWorking
  refine Commits.triple_bind (Q := fun w j => j = start ∧
    ∀ row, j.workingFiles.get id = some row → row.body.unlinked = false) ?_ ?_
  · apply Commits.triple_read
    rintro j rfl w h
    obtain ⟨_, _, h⟩ := bind_eq_ok h
    obtain ⟨w', hw, h⟩ := bind_eq_ok h
    obtain ⟨_, hcheck, h⟩ := bind_eq_ok h
    cases h
    obtain ⟨row, hrow, rfl⟩ := workingFile_eq_ok hw
    simp only [check_eq_ok, Bool.and_eq_true, Bool.not_eq_true'] at hcheck
    refine ⟨rfl, ?_⟩
    intro row' hrow'
    rw [hrow] at hrow'
    cases hrow'
    exact hcheck.1
  · intro w
    -- A file that was written since its last save is sealed first.
    have hmove : Commits.Triple (fun j => Path ok start env op j ∧ j.queue.Absent (env.uuid 1) ∧
          ∀ row, j.workingFiles.get id = some row → row.body.unlinked = false)
        (Commits.transaction (fun j => j.relocateSealed env id parent name)) (Path ok start env op)
        (fun _ => Path ok start env op) := by
      apply Commits.triple_transaction
      rintro j ⟨hpath, habsent, hlinked⟩ record j' h
      have hinv := hpath.inv hstart
      have hnext := hpath.quiet hinv (relocateSealed_leads hinv h habsent hlinked)
      exact ⟨hnext, hnext⟩
    split
    · refine Commits.triple_bind (Q := fun _ j => Path ok start env op j ∧
        j.queue.Absent (env.uuid 1) ∧
        ∀ row, j.workingFiles.get id = some row → row.body.unlinked = false) ?_ (fun _ => hmove)
      apply Commits.triple_transaction
      rintro j ⟨rfl, hlinked⟩ record j' h
      obtain ⟨hleads, habsent, _, hunlinked⟩ := sealWorking_spec hstart h hfirst
      have hpath : Path ok j env op j' := Path.quiet .refl hstart hleads
      refine ⟨hpath, hpath, habsent _ hdistinct hsecond, ?_⟩
      intro row' hrow'
      obtain ⟨row, hrow, hsame⟩ := hunlinked row' hrow'
      rw [hsame]
      exact hlinked row hrow
    · refine Commits.triple_consequence hmove ?_ (fun _ h => h) (fun _ _ h => h)
      rintro j ⟨rfl, hlinked⟩
      exact ⟨.refl, hsecond, hlinked⟩

/-! ## Attaching -/

/-- The object of the cloud item `source`, which is the first to get bytes of its own. -/
structure Adopts (row : ObjectRow) (w : WorkingFile) (o : NamespaceObject) : Prop where
  owned : row.body.remoteOwned = true
  free : row.body.workingFile = none
  id : o.id = row.body.id
  scope : o.scope = row.body.scope
  names : o.names = row.body.names
  unlinked : o.unlinked = row.body.unlinked
  latest : o.latest = row.body.latest
  kind : row.body.node.kind = w.node.kind
  follows : o.followsRemote = false
  remote : o.remote = row.body.remote ∨ o.remote = w.initialRemote

/-- The file `w` and the object it gets, before the object is stored. -/
structure Attaches (n : Namespace) (w w' : WorkingFile) (o : NamespaceObject) : Prop where
  file : ∃ node, node.kind = w.node.kind ∧
    w' = { w with node := node, latest := o.latest, initialRemote := o.remote }
  scope : o.scope = w.scope
  unlinked : o.unlinked = w.unlinked
  sent : o.remote = none → w.initialRemote = none
  found : w.unlinked = true → ∃ r, o.remote = some r ∧ (n.byRemote w.scope r.id).isSome = true
  object : (∃ row, n.objects.get row.body.id = some row ∧ Adopts row w o) ∨
    (o.id = w.id ∧ o.followsRemote = false ∧ o.remote = w.initialRemote ∧ o.latest = w.latest ∧
      n.policy w.scope = .ok o.names)

theorem byRemote_eq_some {n : Namespace} {scope : Scope} {item : String} {o : NamespaceObject}
    (h : n.byRemote scope item = some o) :
    ∃ id row, n.remote.get (scope, item) = some id ∧ n.objects.get id = some row ∧ row.body = o := by
  unfold Namespace.byRemote at h
  obtain ⟨id, hid, h⟩ := Option.bind_eq_some_iff.mp h
  obtain ⟨row, hrow, h⟩ := Option.bind_eq_some_iff.mp h
  exact ⟨id, row, hid, hrow, Option.some.inj h⟩

/-- What a stream that resumes its own edits keeps. -/
theorem resumed_spec {n : Namespace} {o o' : NamespaceObject} {w : WorkingFile}
    (h : n.resumed o w = .ok o') :
    o'.id = o.id ∧ o'.scope = o.scope ∧ o'.names = o.names ∧ o'.unlinked = o.unlinked ∧
      o'.latest = o.latest ∧ o'.node.kind = o.node.kind ∧ o'.followsRemote = false ∧
      (o'.remote = o.remote ∨ o'.remote = w.initialRemote) := by
  unfold Namespace.resumed at h
  split at h
  · next hfollows =>
    cases h
    exact ⟨rfl, rfl, rfl, rfl, rfl, rfl, by simpa using hfollows, .inl rfl⟩
  · split at h
    · cases h
    · next source hsource =>
      obtain ⟨_, _, h⟩ := bind_eq_ok h
      cases h
      exact ⟨rfl, rfl, rfl, rfl, rfl, rfl, rfl, .inr hsource.symm⟩

/-- `namespace::prepare_attachment` adopts the object of the cloud item, or makes a new one. -/
theorem prepareAttachment_spec {n : Namespace} {lowercase : String → String}
    {w w' : WorkingFile} {o : NamespaceObject} (hindex : n.Indexed lowercase)
    (hfound : w.unlinked = true → ∃ r, w.initialRemote = some r ∧
      (n.byRemote w.scope r.id).isSome = true)
    (h : n.prepareAttachment w = .ok (w', o)) : Attaches n w w' o := by
  unfold Namespace.prepareAttachment at h
  simp only at h
  split at h
  · next old hexisting =>
    obtain ⟨_, hfree, h⟩ := bind_eq_ok h
    obtain ⟨o', hresumed, h⟩ := bind_eq_ok h
    obtain ⟨_, hcontent, h⟩ := bind_eq_ok h
    cases h
    simp only [check_eq_ok, Bool.and_eq_true, decide_eq_true_eq, Option.isNone_iff_eq_none]
      at hfree hcontent
    obtain ⟨hid, hscope, hnames, hunlinked, hlatest, hkind, hfollows, hremote⟩ :=
      resumed_spec hresumed
    -- The content is compared with that of a cloud item, so there is one.
    obtain ⟨current, source, hcurrent, hsource⟩ : ∃ current source, o.remote = some current ∧
        w.initialRemote = some source := by
      have hboth := hcontent.2
      split at hboth
      · next current source hcurrent hsource => exact ⟨current, source, hcurrent, hsource⟩
      · cases hboth
    rw [hsource] at hexisting
    replace hexisting : n.byRemote w.scope source.id = some old := hexisting
    obtain ⟨id, row, hindexed, hrow, rfl⟩ := byRemote_eq_some hexisting
    obtain ⟨row', r, hrow', howned, hr, hitem⟩ := (hindex.remote _ _).mp hindexed
    rw [hrow] at hrow'
    cases hrow'
    have hkey := hindex.key hrow
    obtain ⟨hrowScope, hrowItem⟩ := Prod.mk.inj hitem
    refine ⟨⟨_, ?_, rfl⟩, ?_, hunlinked.trans hfree.1, ?_, ?_,
      .inl ⟨row, by rw [hkey]; exact hrow, ?_⟩⟩
    · rfl
    · rw [hscope]
      exact hrowScope.symm
    · intro hnone
      rw [hcurrent] at hnone
      cases hnone
    · intro _
      -- The item is the one the file was opened from, in whichever version.
      have hsame : current.id = source.id := by
        rcases hremote with hremote | hremote
        · rw [hcurrent, hr] at hremote
          rw [Option.some.inj hremote, hrowItem]
        · rw [hcurrent, hsource] at hremote
          rw [Option.some.inj hremote]
      exact ⟨current, hcurrent, by rw [hsame, hexisting]; rfl⟩
    · exact ⟨howned, hfree.2, hid, hscope, hnames, hunlinked, hlatest,
        hkind.symm.trans hcontent.1, hfollows, hremote⟩
  · next hnone =>
    obtain ⟨_, _, h⟩ := bind_eq_ok h
    obtain ⟨names, hpolicy, h⟩ := bind_eq_ok h
    cases h
    have hun : w.unlinked = false := by
      cases hun : w.unlinked with
      | false => rfl
      | true =>
        obtain ⟨r, hinitial, hsome⟩ := hfound hun
        rw [hinitial] at hnone
        replace hnone : n.byRemote w.scope r.id = none := hnone
        rw [hnone] at hsome
        cases hsome
    cases hinitial : w.initialRemote with
    | none =>
      simp only [hinitial, Option.isSome_none, Bool.false_eq_true, if_false] at hpolicy ⊢
      exact ⟨⟨w.node, rfl, by rw [← hinitial]⟩, rfl, hun.symm, fun _ => hinitial,
        fun htrue => absurd (hun.symm.trans htrue) (by decide), .inr ⟨rfl, rfl, hinitial.symm, rfl, hpolicy⟩⟩
    | some r =>
      simp only [hinitial, Option.isSome_some, if_true] at hpolicy ⊢
      exact ⟨⟨n.localizeParent w.scope w.node, rfl, rfl⟩, rfl, hun.symm, fun hno => (Option.some_ne_none _ hno).elim,
        fun htrue => absurd (hun.symm.trans htrue) (by decide), .inr ⟨rfl, rfl, hinitial.symm, rfl, hpolicy⟩⟩

/-- `namespace::ensure_legacy_policy` keeps every policy that is there. -/
theorem ensureLegacyPolicy_spec (n : Namespace) (scope : Scope) :
    ∃ scopes, n.ensureLegacyPolicy scope = { n with scopes := scopes } ∧
      (∀ x names, n.scopes.get x = some names → scopes.get x = some names) ∧
      (scopes.get scope).isSome = true := by
  unfold Namespace.ensureLegacyPolicy
  split
  · next hsome => exact ⟨n.scopes, rfl, fun _ _ h => h, hsome⟩
  · next hnone =>
    refine ⟨_, rfl, ?_, by rw [Table.get_set_self]; rfl⟩
    intro x names hx
    rw [Table.get_set_of_ne]
    · exact hx
    · rintro rfl
      rw [hx] at hnone
      exact hnone rfl

theorem policy_of_isSome {n : Namespace} {scope : Scope} {names : NamespaceNames}
    (h : n.policy scope = .ok names) (hsome : (n.scopes.get scope).isSome = true) :
    n.scopes.get scope = some names := by
  obtain ⟨x, hx⟩ := Option.isSome_iff_exists.mp hsome
  unfold Namespace.policy at h
  rw [hx] at h
  cases h
  exact hx

/-- The names a scope gets when it is first used. -/
theorem ensurePolicy_leads (hinv : Inv ok underway j) (scope : Scope) :
    Leads ok claimed gained underway j { j with names := j.names.ensureLegacyPolicy scope } ∧
      ((j.names.ensureLegacyPolicy scope).scopes.get scope).isSome = true := by
  obtain ⟨scopes, heq, hkept, hsome⟩ := ensureLegacyPolicy_spec j.names scope
  rw [heq]
  refine ⟨.of_inv (hinv.setScopes hkept) rfl rfl ?_, hsome⟩
  exact Relation.ReflTransGen.single (.configure rfl rfl hkept rfl)

/-- What an attached object says of its cloud item and of its last operation. -/
theorem Attaches.sound (hinv : Inv ok [] j) {w w' : WorkingFile} {o : NamespaceObject}
    (h : Attaches j.names w w' o) (hobject : j.names.objects.get w.id = none)
    (hkind : w.node.kind = .file)
    (hremote : ∀ r, w.initialRemote = some r → r.kind = .file ∧ r.target = none ∧ r.id ≠ "" ∧
      ∀ tag ∈ nodeTags r, ok tag)
    (hhead : w.unlinked = false → HeadSound j.queue w.latest) :
    (∀ r, o.remote = some r → r.kind = .file ∧ r.target = none ∧ r.id ≠ "" ∧
        ∀ tag ∈ nodeTags r, ok tag) ∧
      (o.unlinked = false → HeadSound j.queue o.latest) ∧
      (∀ row, j.names.objects.get o.id = some row → Adopts row w o) ∧
      ((j.names.scopes.get w.scope).isSome = true → j.names.scopes.get o.scope = some o.names) := by
  rcases h.object with ⟨row, hrow, hadopts⟩ | ⟨hid, _, hsame, hlatest, hpolicy⟩
  · have hsound := hinv.objects hrow
    refine ⟨?_, ?_, ?_, ?_⟩
    · intro r hr
      rcases hadopts.remote with hsame | hsame
      · obtain ⟨hrkind, htarget, hrest⟩ := hsound.remote r (hsame.symm.trans hr)
        have hfile := hrkind.trans (hadopts.kind.trans hkind)
        exact ⟨hfile, htarget (by rw [hfile]; decide), hrest⟩
      · exact hremote r (hsame.symm.trans hr)
    · intro hlinked
      rw [hadopts.latest]
      exact hsound.head (hadopts.unlinked.symm.trans hlinked)
    · intro row' hrow'
      rw [hadopts.id, hrow] at hrow'
      cases hrow'
      exact hadopts
    · intro _
      rw [hadopts.scope, hadopts.names]
      exact hinv.index.names hrow
  · refine ⟨?_, ?_, ?_, ?_⟩
    · intro r hr
      exact hremote r (hsame.symm.trans hr)
    · intro hlinked
      rw [hlatest]
      exact hhead (h.unlinked.symm.trans hlinked)
    · intro row hrow
      rw [hid, hobject] at hrow
      cases hrow
    · intro hscope
      rw [h.scope]
      exact policy_of_isSome hpolicy hscope

/-- A file and the object it is attached to are stored. -/
theorem attach_leads (hinv : Inv ok [] j) {w w' : WorkingFile} {o : NamespaceObject}
    {names : Namespace} {revision : Nat} {slot : Option Slot}
    (hattaches : Attaches j.names w w' o) (hobject : j.names.objects.get w.id = none)
    (hfile : j.workingFiles.get w.id = none)
    (hscope : (j.names.scopes.get w.scope).isSome = true) (hkind : w.node.kind = .file)
    (hremote : ∀ r, w.initialRemote = some r → r.kind = .file ∧ r.target = none ∧ r.id ≠ "" ∧
      ∀ tag ∈ nodeTags r, ok tag)
    (hlatest : w.unlinked = false → HeadSound j.queue w.latest)
    (hintent : ∀ item etag, w.intent = .replace item etag → ok item ∧ ok etag)
    (hsent : w.initialRemote = none → w.dirty = true)
    (hsave : j.names.save j.settings.lowercase { o with
      node := w'.node, workingFile := some w'.id, revision := revision } = .ok names)
    (hslot : names.workingSlot j.settings.lowercase w' = .ok slot) :
    Leads ok claimed gained [] j { j with
      names := names
      workingFiles := j.workingFiles.set w.id ⟨(w.scope, w'.node.id), slot, w'⟩ } := by
  obtain ⟨node, hnode, rfl⟩ := hattaches.file
  have hnodeFile : node.kind = .file := hnode.trans hkind
  obtain ⟨hverified, hhead, hexisting, hnames⟩ :=
    hattaches.sound hinv hobject hkind hremote hlatest
  replace hnames := hnames hscope
  -- Nothing without a name has the bytes of a new file.
  have hinv₁ := hinv.setFile
    ⟨(w.scope, node.id), slot, { w with
      node := node, latest := o.latest, initialRemote := o.remote }⟩
    ⟨rfl, hnodeFile, fun hlinked => hhead (hattaches.unlinked.trans hlinked),
      fun r hr => (hverified r hr).2.2.2, fun _ => hintent, fun hnone => .inl (hsent (hattaches.sent hnone))⟩
    (by
      intro x row hrow hun hw
      obtain ⟨file, hget, _⟩ := hinv.detached hrow hun hw
      rw [hfile] at hget
      cases hget)
  have hstored := save_stored hsave
  have hknown : (j.names.scopes.get o.scope).isSome = true := by
    rw [hnames]
    rfl
  refine .of_inv (hinv₁.store ?_ hstored) rfl rfl (.of_store rfl hstored hknown
    (.written rfl (Table.get_set_self _ _ _) ⟨hattaches.scope.symm, rfl, hattaches.unlinked.symm, rfl, ?_⟩
      (fun x hx => Table.get_set_of_ne _ _ hx)))
  · refine ⟨?_, ?_, fun _ => hnodeFile, ?_, hhead, ?_, hknown, ?_, ?_, ?_⟩
    · intro row hrow
      have hadopts := hexisting row hrow
      exact ⟨hadopts.scope, fun _ _ => ⟨hnodeFile, .inl hadopts.follows⟩⟩
    · intro r hr
      obtain ⟨hrkind, htarget, hrest⟩ := hverified r hr
      exact ⟨hrkind.trans hnodeFile.symm, fun _ => htarget, hrest⟩
    · intro hun
      exact absurd (hnodeFile.symm.trans hun.1) (by decide)
    · intro _ hfolder
      exact absurd (hnodeFile.symm.trans hfolder) (by decide)
    · intro row hrow hspare
      exact absurd ((hexisting row hrow).owned.symm.trans hspare.1) (by decide)
    · intro row hrow hun
      have hadopts := hexisting row hrow
      exact .inl ⟨hadopts.unlinked.trans hun, hadopts.latest⟩
    · intro _ x hx
      cases hx
      exact ⟨_, Table.get_set_self _ _ _, rfl⟩
  · refine workingSlot_eq_ok hslot hattaches.scope rfl hattaches.unlinked ?_
    rw [hstored.scopes]
    exact hnames

/-- `UploadJournal::publish_working_content` gives a file bytes of its own. -/
theorem publishWorking_leads (hinv : Inv ok [] j) {env : Env} {scope : Scope} {node : Node}
    {new truncate : Bool} {w : WorkingFile}
    (h : j.publishWorking env scope node new truncate = .ok (w, j'))
    (hunused : Unused j (env.uuid 0)) (htags : ∀ tag ∈ nodeTags node, ok tag) :
    Leads ok claimed gained [] j j' := by
  unfold UploadJournal.publishWorking at h
  obtain ⟨⟨size, sha256⟩, _, h⟩ := bind_eq_ok h
  obtain ⟨_, _, h⟩ := bind_eq_ok h
  obtain ⟨_, _, h⟩ := bind_eq_ok h
  obtain ⟨_, hcheck, h⟩ := bind_eq_ok h
  simp only [check_eq_ok, Bool.and_eq_true, decide_eq_true_eq, Option.isNone_iff_eq_none] at hcheck
  obtain ⟨⟨⟨_, hkind⟩, htarget⟩, _⟩ := hcheck
  obtain ⟨parent, intent, hintent, h⟩ : ∃ (parent : String) (intent : UploadIntent),
      ((new = true ∧ intent = .create parent node.name) ∨
        (new = false ∧ ∃ etag, node.etag = some etag ∧ intent = .replace node.id etag)) ∧ (do
      check (intent.validate && (UploadIntent.create parent node.name).validate) .intent
      let first ← j.names.prepareAttachment
        (j.newWorking env (env.uuid 0) scope node intent new truncate size)
      let slot ← j.names.workingSlot j.settings.lowercase first.1
      check (!j.workingFiles.rows.any (fun row => row.2.identity = (scope, first.1.node.id)) &&
        !j.slotTaken slot (env.uuid 0)) .stale
      let last ← j.names.attachWorking j.settings.lowercase first.1
      let slot ← last.2.workingSlot j.settings.lowercase last.1
      return (last.1, ({ j with
        names := last.2
        workingFiles := j.workingFiles.set (env.uuid 0) ⟨(scope, last.1.node.id), slot, last.1⟩ } :
          UploadJournal))) = .ok (w, j') := by
    split at h
    · next parent hparent =>
      cases new with
      | true => exact ⟨parent, _, .inl ⟨rfl, rfl⟩, h⟩
      | false =>
        simp only [Bool.false_eq_true, if_false] at h
        split at h
        · next etag hetag => exact ⟨parent, _, .inr ⟨rfl, etag, hetag, rfl⟩, h⟩
        · cases h
    · cases h
  obtain ⟨_, hvalid, h⟩ := bind_eq_ok h
  obtain ⟨⟨first, o₁⟩, hprepare, h⟩ := bind_eq_ok h
  obtain ⟨_, _, h⟩ := bind_eq_ok h
  obtain ⟨_, _, h⟩ := bind_eq_ok h
  obtain ⟨⟨last, names⟩, hattach, h⟩ := bind_eq_ok h
  obtain ⟨slot, hslot, h⟩ := bind_eq_ok h
  cases h
  simp only [check_eq_ok, Bool.and_eq_true] at hvalid
  -- The bytes are those of a new file, or of the item the caller has read.
  have hnamed : new = false → node.id ≠ "" := by
    intro hnew
    rcases hintent with ⟨htrue, _⟩ | ⟨_, etag, _, rfl⟩
    · rw [hnew] at htrue
      cases htrue
    · simp only [UploadIntent.validate, Bool.and_eq_true] at hvalid
      exact validText_ne hvalid.1.1
  have hremote : ∀ r, (j.newWorking env (env.uuid 0) scope node intent new truncate size).initialRemote =
      some r → r.kind = .file ∧ r.target = none ∧ r.id ≠ "" ∧ ∀ tag ∈ nodeTags r, ok tag := by
    intro r hr
    cases new with
    | true => cases hr
    | false =>
      cases hr
      exact ⟨hkind, htarget, hnamed rfl, htags⟩
  have hfirst : Attaches j.names (j.newWorking env (env.uuid 0) scope node intent new truncate size)
      first o₁ := by
    refine prepareAttachment_spec hinv.index ?_ hprepare
    intro hun
    cases new with
    | true => cases hun
    | false =>
      refine ⟨node, rfl, ?_⟩
      have hany : (j.names.byRemote scope node.id).any NamespaceObject.unlinked = true := hun
      cases hfound : j.names.byRemote scope node.id with
      | none =>
        rw [hfound] at hany
        cases hany
      | some o =>
        show (j.names.byRemote scope node.id).isSome = true
        rw [hfound]
        rfl
  obtain ⟨hverified, hhead, _, _⟩ := hfirst.sound hinv hunused.objects hkind hremote
    (fun _ p hp => (Option.some_ne_none p hp.symm).elim)
  have hdirty : (j.newWorking env (env.uuid 0) scope node intent new truncate size).initialRemote =
      none → new = true := by
    intro hnone
    cases new with
    | true => rfl
    | false => cases hnone
  obtain ⟨place, hplace, rfl⟩ := hfirst.file
  unfold Namespace.attachWorking at hattach
  obtain ⟨⟨second, o₂⟩, hprepare₂, hattach⟩ := bind_eq_ok hattach
  obtain ⟨revision, _, hattach⟩ := bind_eq_ok hattach
  obtain ⟨saved, hsave, hattach⟩ := bind_eq_ok hattach
  cases hattach
  obtain ⟨hpolicy, hscope⟩ : Leads ok claimed gained [] j
      { j with names := j.names.ensureLegacyPolicy scope } ∧ _ := ensurePolicy_leads hinv scope
  obtain ⟨scopes, heq, _, _⟩ := ensureLegacyPolicy_spec j.names scope
  have hobjects : (j.names.ensureLegacyPolicy scope).objects.get (env.uuid 0) = none := by
    rw [heq]
    exact hunused.objects
  have hsecond := prepareAttachment_spec hpolicy.inv.index (by
    intro hun
    obtain ⟨r, hr, hsome⟩ := hfirst.found hun
    refine ⟨r, hr, ?_⟩
    show ((j.names.ensureLegacyPolicy scope).byRemote scope r.id).isSome = true
    rw [heq]
    exact hsome) hprepare₂
  refine hpolicy.trans (attach_leads hpolicy.inv hsecond hobjects hunused.workingFiles hscope
    (hplace.trans hkind) hverified ?_ ?_ ?_ hsave hslot)
  · intro hlinked
    exact hhead (hfirst.unlinked.trans hlinked)
  · intro item etag hreplace
    have hsame : intent = .replace item etag := hreplace
    rcases hintent with ⟨_, rfl⟩ | ⟨_, known, hknown, rfl⟩
    · cases hsame
    · cases hsame
      exact ⟨htags _ (by simp [nodeTags]), htags _ (by simp [nodeTags, hknown])⟩
  · intro hnone
    show (new || truncate) = true
    rw [hdirty (hfirst.sent hnone), Bool.true_or]

/-! ## After a crash -/

/-- One file of `recover_working`: a torn write left another number of bytes. -/
theorem recoverFile_leads (hinv : Inv ok [] j) {id : Uuid} {size : Nat}
    (h : j.recoverFile id size = .ok j') : Leads ok claimed gained [] j j' := by
  unfold UploadJournal.recoverFile at h
  obtain ⟨w, hw, h⟩ := bind_eq_ok h
  obtain ⟨row, hrow, rfl⟩ := workingFile_eq_ok hw
  split at h
  · cases h
    exact .refl hinv
  · obtain ⟨_, _, h⟩ := bind_eq_ok h
    exact resize_spec hinv hrow h

end Cirrove.Journal
