import Cirrove.Journal.Places

/-!
# An editor's replacement keeps the invariant

`replace_namespace_file` queues the upload of the source's bytes to the victim's item and the removal
of the source's old item, takes the victim's name away and gives it to the source. Until everything
is recorded the upload is underway.
-/

namespace Cirrove.Journal

open Cirrove.Library
open UploadJournal (ReplacementPlan)

variable {ok : String → Prop} {underway : List Uuid} {j j' : UploadJournal}
  {claimed : Uuid → Uuid → Prop} {gained : Uuid → Resource → Prop}

/-! ## The steps -/

/-- `replacements::save_working` writes the row of the file, if there is one. -/
theorem moveWorking_eq_ok {working : Option WorkingFile} {change : WorkingFile → WorkingFile}
    (h : j.moveWorking working change = .ok j') :
    (working = none ∧ j' = j) ∨
      ∃ w generation row, working = some w ∧ row.body = { change w with generation := generation } ∧
        j.names.workingSlot j.settings.lowercase row.body = .ok row.slot ∧
        j' = { j with workingFiles := j.workingFiles.set row.body.id row } := by
  unfold UploadJournal.moveWorking at h
  split at h
  · cases h
    exact .inl ⟨rfl, rfl⟩
  · next w =>
    obtain ⟨generation, _, h⟩ := bind_eq_ok h
    obtain ⟨slot, hslot, h⟩ := bind_eq_ok h
    obtain ⟨old, _, rfl⟩ := writeWorkingRow_eq_ok h
    exact .inr ⟨w, generation, ⟨old.identity, slot, _⟩, rfl, rfl, hslot, rfl⟩

/-- The file of an object that has a name is written with the object. -/
theorem fileMoved_of_move (hinv : Inv ok underway j) {row : ObjectRow} {o : NamespaceObject}
    {working : Option WorkingFile} {change : WorkingFile → WorkingFile} {j₁ : UploadJournal}
    (hrow : j.names.objects.get row.body.id = some row)
    (hworking : j.settledWorking row.body = .ok working)
    (hsame : o.workingFile = row.body.workingFile ∧ o.scope = row.body.scope ∧
      o.names = row.body.names)
    (hchange : ∀ w generation, w.node.kind = .file → w.unlinked = false →
      w.latest = row.body.latest → w.node = row.body.node →
      FileSound ok j.queue w.id w →
      FileSound ok j.queue w.id { change w with generation := generation } ∧
        (change w).scope = w.scope ∧ (change w).node = o.node ∧ (change w).unlinked = o.unlinked ∧
        (change w).latest = o.latest)
    (hmove : j.moveWorking working change = .ok j₁) :
    ∃ files, j₁ = { j with workingFiles := files } ∧ FileMoved ok j row.body o files := by
  rcases settledWorking_eq_ok hworking with ⟨hwithout, rfl⟩ |
    ⟨id, file, hid, hfile, rfl, hlinked, hlatest, hnode, _⟩
  · rcases moveWorking_eq_ok hmove with ⟨_, rfl⟩ | ⟨_, _, _, hsome, _⟩
    · exact ⟨_, rfl, .without (hsame.1.trans hwithout)⟩
    · cases hsome
  · rcases moveWorking_eq_ok hmove with ⟨hnone, _⟩ | ⟨w, generation, new, hw, hbody, hslot, rfl⟩
    · cases hnone
    · cases hw
      have hsound := hinv.files hfile
      obtain ⟨hnew, hscope, hnode', hunlinked, hlatest'⟩ := hchange file.body generation hsound.kind
        hlinked hlatest hnode (by rw [hsound.key]; exact hsound)
      rw [← hbody] at hnew
      have hkey : new.body.id = id := hnew.key.trans hsound.key
      rw [hsound.key] at hnew
      refine ⟨_, rfl, ?_⟩
      rw [hkey]
      refine .written hid (hsame.1.trans hid) hfile hnew ?_ ?_
      · rw [hbody]
        exact hlatest'
      · intro hmatches
        have hscope' : new.body.scope = o.scope := by
          rw [hbody, hsame.2.1, ← hmatches.scope]
          exact hscope
        have hnode'' : new.body.node = o.node := by
          rw [hbody]
          exact hnode'
        have hunlinked' : new.body.unlinked = o.unlinked := by
          rw [hbody]
          exact hunlinked
        refine ⟨hscope', hnode'', hunlinked', by rw [hbody]; exact hlatest', ?_⟩
        refine workingSlot_eq_ok hslot hscope'.symm hnode''.symm hunlinked'.symm ?_
        rw [hsame.2.1, hsame.2.2]
        exact hinv.index.names hrow

/-! ## The plan -/

/-- What `replace_namespace_file` has checked before it commits. -/
structure Planned (ok : String → Prop) (j : UploadJournal) (plan : ReplacementPlan)
    (source victim : ObjectRow) : Prop where
  sourceRow : j.names.objects.get source.body.id = some source ∧ plan.source = source.body
  victimRow : j.names.objects.get victim.body.id = some victim ∧ plan.victim = victim.body
  distinct : source.body.id ≠ victim.body.id
  linked : source.body.unlinked = false ∧ victim.body.unlinked = false
  own : source.body.followsRemote = false
  kinds : source.body.node.kind = .file ∧ victim.body.node.kind = .file
  sourceWorking : j.settledWorking source.body = .ok plan.sourceWorking
  victimWorking : j.settledWorking victim.body = .ok plan.victimWorking
  order : Orderly j plan.cleanupBase
  sourced : Sourced ok plan.cleanupRequest plan.cleanupBase
  removes : plan.cleanupRequest.intent.destination = none
  cleanup : Unused j plan.cleanup
  cleanupObject : Unused j plan.cleanupObject

/-- The order of a change is that of the queue with one upload more. -/
theorem Orderly.enters {base : Option WriteBase} (h : Orderly j base) {r : UploadRecord}
    {prerequisites : List Uuid} {j₁ : UploadJournal}
    (henters : Enters ok underway j j₁ (.upload r) prerequisites) : Orderly j₁ base := by
  refine ⟨h.unresolved, ?_⟩
  intro b hb p hp
  rw [henters.find] at hp
  split at hp
  · cases hp
    rfl
  · exact h.kind b hb p hp

/-- A settled working file does not depend on the queue or on other objects. -/
theorem settledWorking_congr {o : NamespaceObject} {j₁ : UploadJournal}
    (h : j₁.workingFiles = j.workingFiles) : j₁.settledWorking o = j.settledWorking o := by
  unfold UploadJournal.settledWorking UploadJournal.workingFile
  rw [h]

/-- The object of a file that other files were written beside. -/
theorem settledWorking_moved (hinv : Inv ok underway j) {row other : ObjectRow}
    {o : NamespaceObject} {files : Table Uuid WorkingRow} {j₁ : UploadJournal}
    (hrow : j.names.objects.get row.body.id = some row)
    (hother : j.names.objects.get other.body.id = some other)
    (hne : other.body.id ≠ row.body.id) (hfiles : FileMoved ok j row.body o files)
    (h : j₁.workingFiles = files) : j₁.settledWorking other.body = j.settledWorking other.body := by
  unfold UploadJournal.settledWorking UploadJournal.workingFile
  rw [h]
  split
  · rfl
  · next w hw =>
    cases hfiles with
    | without => rfl
    | @written x _ new hold _ _ _ _ _ =>
      have hx : w ≠ x := by
        rintro rfl
        exact hne (hinv.index.working hother hrow (by rw [hw]; rfl) (hw.trans hold.symm))
      rw [Table.get_set_of_ne _ _ hx]

/-- Everything a replacement needs is stored, and then the record of it. -/
theorem recordReplacement_leads (hinv : Inv ok [] j) {upload : UploadRecord}
    {record : ReplacementRecord} (hleads : Leads ok claimed gained [upload.id] j j')
    (hcleanupObject : Unused j record.cleanupObject)
    (hfresh : j'.fileReplacements = j.fileReplacements)
    (hid : record.id = upload.id) (hrescued : record.rescuedAs = none)
    (hupload : j'.queue.find upload.id = some (.upload upload))
    (hopen : upload.state = .pending ∨ upload.state = .preparing)
    (hbytes : upload.sha256.utf8ByteSize = 64 ∨ upload.workingFile = none)
    (hrunning : Running j' upload.id record)
    (hcleanup : ∃ row, j'.names.objects.get record.cleanupObject = some row ∧ row.body.Spare)
    (hawaits : (j'.queue.writePrerequisites.get (record.cleanup, upload.id)).isSome = true)
    (hlatest : ∀ id row, j'.names.objects.get id = some row → row.body.latest = some upload.id →
      id = record.source) :
    Leads ok claimed gained [] j
      { j' with fileReplacements := j'.fileReplacements.set upload.id record } := by
  have hincomplete : (Operation.upload upload).isComplete = false ∧
      (Operation.upload upload).inFlight = false := by
    show upload.state.isComplete = false ∧ upload.state.inFlight = false
    rcases hopen with hstate | hstate
    · rw [hstate]
      exact ⟨rfl, rfl⟩
    · rw [hstate]
      exact ⟨rfl, rfl⟩
  obtain ⟨row, hrow, hspare⟩ := hcleanup
  have hsound : ∀ underway, ReplacementSound underway j' upload.id record := by
    intro underway
    refine ⟨hid, ⟨upload, hupload⟩, fun _ _ => hrunning, ⟨row, hrow, fun _ _ _ => hspare⟩, ?_, ?_,
      fun _ _ => hawaits, ?_⟩
    · intro hsome
      rw [hrescued] at hsome
      cases hsome
    · intro _ op hop
      rw [hupload] at hop
      cases hop
      exact ⟨hincomplete.2, hincomplete.1⟩
    · intro _ op hop hcomplete
      rw [hupload] at hop
      cases hop
      exact absurd (hincomplete.1.symm.trans hcomplete) (by decide)
  -- The object of the cleanup is new, so no other replacement has it.
  have hown : ∀ other x, other ≠ upload.id → j'.fileReplacements.get other = some x →
      x.cleanupObject ≠ record.cleanupObject := by
    intro other x _ hx heq
    rw [hfresh] at hx
    obtain ⟨y, hy, _⟩ := (hinv.replacements hx).cleanup
    rw [heq] at hy
    exact absurd (hy.symm.trans hcleanupObject.objects) (Option.some_ne_none _)
  have hrecorded := hleads.inv.setReplacement (hsound _) hown
  have hfinished : Inv ok []
      { j' with fileReplacements := j'.fileReplacements.set upload.id record } := by
    refine hrecorded.finish ?_ ?_ ?_ ?_
    · intro id hmem x hx
      obtain rfl := List.mem_singleton.mp hmem
      replace hx : (j'.fileReplacements.set upload.id record).get upload.id = some x := hx
      rw [Table.get_set_self] at hx
      cases hx
      exact (hsound []).congr rfl rfl
    · intro p hp id other hother hp'
      obtain rfl := List.mem_singleton.mp hp
      rw [hlatest id other hother hp']
      exact hrunning.owner
    · intro id hmem r hr
      obtain rfl := List.mem_singleton.mp hmem
      rw [show j'.queue.find upload.id = some (.upload upload) from hupload] at hr
      cases hr
    · intro id hmem r hr hdigest
      obtain rfl := List.mem_singleton.mp hmem
      rw [show j'.queue.find upload.id = some (.upload upload) from hupload] at hr
      cases hr
      refine ⟨hbytes.resolve_left hdigest, ?_⟩
      show ((j'.fileReplacements.set upload.id record).get upload.id).isSome = true
      rw [Table.get_set_self]
      rfl
  exact ⟨⟨hfinished, hleads.evolves, hleads.settings,
    hleads.reshaped.trans (.of_same rfl rfl rfl)⟩, hleads.steady⟩

/-- `replacements::commit` stores the three objects and the record. -/
theorem commitReplacement_leads (hinv : Inv ok [] j) {plan : ReplacementPlan}
    {source victim : ObjectRow} (hplan : Planned ok j plan source victim) {upload : UploadRecord}
    {prerequisites : List Uuid} {j₁ : UploadJournal}
    (hupload : Unused j upload.id) (hcleanup : plan.cleanup ≠ upload.id)
    (henters : Enters ok [upload.id] j j₁ (.upload upload) prerequisites)
    (hopen : upload.state = .pending ∨ upload.state = .preparing)
    (hbytes : upload.sha256.utf8ByteSize = 64 ∨ upload.workingFile = none)
    (h : UploadJournal.commitReplacement plan j₁ upload = .ok j') :
    Leads ok claimed gained [] j j' := by
  unfold UploadJournal.commitReplacement at h
  obtain ⟨s, hs, h⟩ := bind_eq_ok h
  obtain ⟨v, hv, h⟩ := bind_eq_ok h
  obtain ⟨_, _, h⟩ := bind_eq_ok h
  obtain ⟨j₂, hchange, h⟩ := bind_eq_ok h
  obtain ⟨victimRevision, _, h⟩ := bind_eq_ok h
  obtain ⟨j₃, hmoveVictim, h⟩ := bind_eq_ok h
  obtain ⟨j₄, hsaveVictim, h⟩ := bind_eq_ok h
  obtain ⟨sourceRevision, _, h⟩ := bind_eq_ok h
  obtain ⟨j₅, hmoveSource, h⟩ := bind_eq_ok h
  obtain ⟨j₆, hsaveSource, h⟩ := bind_eq_ok h
  obtain ⟨j₇, hsaveCleanup, h⟩ := bind_eq_ok h
  cases h
  have hnames₁ : j₁.names = j.names := by rw [henters.rest]
  -- Both objects are those of the plan.
  obtain rfl : s = source.body := by
    obtain ⟨row, hrow, rfl⟩ := byId_eq_ok hs
    rw [hnames₁, hplan.sourceRow.2, hplan.sourceRow.1] at hrow
    cases hrow
    rfl
  obtain rfl : v = victim.body := by
    obtain ⟨row, hrow, rfl⟩ := byId_eq_ok hv
    rw [hnames₁, hplan.victimRow.2, hplan.victimRow.1] at hrow
    cases hrow
    rfl
  -- The removal of the source's old item waits for the upload.
  have hchanged := enqueueChange_spec henters.inv hchange
    (henters.absent hcleanup hplan.cleanup.absent) rfl rfl rfl (hplan.order.enters henters)
    hplan.sourced (.inl rfl) hplan.removes
  have hnames₂ : j₂.names = j.names := by rw [hchanged.rest, henters.rest]
  have hfiles₂ : j₂.workingFiles = j.workingFiles := by rw [hchanged.rest, henters.rest]
  have hvictim₂ : j₂.names.objects.get victim.body.id = some victim := by
    rw [hnames₂]
    exact hplan.victimRow.1
  have hsource₂ : j₂.names.objects.get source.body.id = some source := by
    rw [hnames₂]
    exact hplan.sourceRow.1
  have hvictimSound := hchanged.inv.objects hvictim₂
  have hsourceSound := hchanged.inv.objects hsource₂
  -- The victim loses its name.
  obtain ⟨files₃, rfl, hmoved₃⟩ := fileMoved_of_move
    (o := { victim.body with unlinked := true, revision := victimRevision }) hchanged.inv hvictim₂
    (by rw [settledWorking_congr hfiles₂]; exact hplan.victimWorking) ⟨rfl, rfl, rfl⟩
    (by
      intro w generation hkind _ hlatest hnode hsound
      exact ⟨⟨rfl, hkind, fun hfalse => absurd hfalse (by simp), hsound.remote, hsound.intent,
        hsound.sent⟩, rfl, hnode, rfl, hlatest⟩) hmoveVictim
  obtain ⟨hleads₄, hstored₄, heq₄⟩ : Leads ok claimed gained [upload.id] j₂ j₄ ∧
      Stored j₂.settings.lowercase j₂.names j₄.names
        { victim.body with unlinked := true, revision := victimRevision } ∧
      j₄ = { j₂ with names := j₄.names, workingFiles := files₃ } := by
    refine storeMoved_leads hsaveVictim hchanged.inv hvictim₂ hplan.linked.2 ?_ ?_ hmoved₃
    · exact ⟨rfl, fun hfile => hfile, rfl, fun hspare => hspare,
        fun hun => absurd (hplan.linked.2.symm.trans hun) (by decide)⟩
    · exact ⟨hvictimSound.remote, hvictimSound.working,
        fun hfolder => absurd (hplan.kinds.2.symm.trans hfolder) (by decide),
        fun hfalse => absurd hfalse (by simp), fun hfalse => absurd hfalse (by simp)⟩
  -- The source gets it.
  have hupload₂ : j₂.queue.find upload.id = some (.upload upload) := by
    rw [hchanged.find, if_neg (fun heq => hcleanup heq.symm)]
    exact henters.find_self
  have hqueue₄ : j₄.queue = j₂.queue := by rw [heq₄]
  have hupload₄ : j₄.queue.find upload.id = some (.upload upload) := by
    rw [hqueue₄]
    exact hupload₂
  have hsource₄ : j₄.names.objects.get source.body.id = some source := by
    rw [hstored₄.others _ hplan.distinct]
    exact hsource₂
  obtain ⟨files₅, rfl, hmoved₅⟩ := fileMoved_of_move
    (o := { source.body with
      node := { source.body.node with
        name := victim.body.node.name, parentId := victim.body.node.parentId }
      latest := some upload.id
      revision := sourceRevision }) hleads₄.inv hsource₄
    (by
      rw [settledWorking_moved hchanged.inv hvictim₂ hsource₂ hplan.distinct hmoved₃ (by rw [heq₄]),
        settledWorking_congr hfiles₂]
      exact hplan.sourceWorking) ⟨rfl, rfl, rfl⟩
    (by
      intro w generation _ hlinked _ _ hsound
      refine ⟨⟨rfl, hplan.kinds.1, ?_, hsound.remote, fun hnone => absurd hnone (by simp),
        fun _ => .inr rfl⟩, rfl, rfl, hlinked.trans hplan.linked.1.symm, rfl⟩
      intro _ p hp
      cases hp
      exact ⟨_, hupload₄, rfl⟩) hmoveSource
  obtain ⟨hleads₆, hstored₆, heq₆⟩ : Leads ok claimed gained [upload.id] j₄ j₆ ∧
      Stored j₄.settings.lowercase j₄.names j₆.names { source.body with
        node := { source.body.node with
          name := victim.body.node.name, parentId := victim.body.node.parentId }
        latest := some upload.id
        revision := sourceRevision } ∧
      j₆ = { j₄ with names := j₆.names, workingFiles := files₅ } := by
    refine storeMoved_leads hsaveSource hleads₄.inv hsource₄ hplan.linked.1 ?_ ?_ hmoved₅
    · exact ⟨rfl, fun hfile => hfile, rfl, fun hspare => hspare,
        fun hun => absurd (hplan.linked.1.symm.trans hun) (by decide)⟩
    · refine ⟨hsourceSound.remote, hsourceSound.working,
        fun hfolder => absurd (hplan.kinds.1.symm.trans hfolder) (by decide), ?_,
        fun _ hfolder => absurd (hplan.kinds.1.symm.trans hfolder) (by decide)⟩
      intro _ p hp
      cases hp
      exact ⟨_, hupload₄, rfl⟩
  -- The object of the cleanup is new.
  have hqueue₆ : j₆.queue = j₂.queue := by rw [heq₆, heq₄]
  have hnone₆ : ∀ row, j₆.names.objects.get plan.cleanupObject ≠ some row := by
    intro row hrow
    have hnone := hplan.cleanupObject.objects
    have hsourceNe : plan.cleanupObject ≠ source.body.id := by
      intro heq
      rw [heq] at hnone
      exact Option.some_ne_none _ (hplan.sourceRow.1.symm.trans hnone)
    have hvictimNe : plan.cleanupObject ≠ victim.body.id := by
      intro heq
      rw [heq] at hnone
      exact Option.some_ne_none _ (hplan.victimRow.1.symm.trans hnone)
    rw [hstored₆.others _ hsourceNe, hstored₄.others _ hvictimNe, hnames₂] at hrow
    exact Option.some_ne_none _ (hrow.symm.trans hnone)
  have hscope₆ : (j₆.names.scopes.get source.body.scope).isSome = true := by
    rw [hstored₆.scopes]
    exact hleads₄.inv.scope_known hsource₄
  rw [hplan.sourceRow.2] at hsaveCleanup
  obtain ⟨hleads₇, hstored₇, heq₇⟩ : Leads ok claimed gained [upload.id] j₆ j₇ ∧
      Stored j₆.settings.lowercase j₆.names j₇.names { source.body with
        id := plan.cleanupObject
        node := { source.body.node with id := localFile plan.cleanupObject }
        workingFile := none
        latest := some plan.cleanup
        revision := 0
        unlinked := true
        remoteOwned := false } ∧ j₇ = { j₆ with names := j₇.names } := by
    refine store_leads hsaveCleanup hleads₆.inv ?_ (fun n => .of_none rfl rfl)
    refine ⟨fun row hrow => absurd hrow (hnone₆ row), hsourceSound.remote, ?_, ?_, ?_, ?_, hscope₆,
      fun row hrow => absurd hrow (hnone₆ row), fun row hrow => absurd hrow (hnone₆ row), ?_⟩
    · intro hsome
      cases hsome
    · intro hun
      exact absurd (hplan.kinds.1.symm.trans hun.1) (by decide)
    · intro hfalse
      cases hfalse
    · intro hfalse
      cases hfalse
    · intro _ w hw
      cases hw
  have hqueue₇ : j₇.queue = j₂.queue := by rw [heq₇, hqueue₆]
  have hsourceNe : source.body.id ≠ plan.cleanupObject := by
    intro heq
    exact hnone₆ _ (by rw [← heq]; exact hstored₆.self)
  have hvictim₆ : j₆.names.objects.get victim.body.id = _ :=
    (hstored₆.others _ (fun heq => hplan.distinct heq.symm)).trans hstored₄.self
  have hvictimNe : victim.body.id ≠ plan.cleanupObject := by
    intro heq
    exact hnone₆ _ (by rw [← heq]; exact hvictim₆)
  -- No object was about the upload before.
  have hunrelated : ∀ id row, j.names.objects.get id = some row →
      row.body.latest ≠ some upload.id := by
    intro id row hrow hlatest
    rcases hinv.latest hrow hlatest with hmem | howner
    · cases hmem
    · exact Option.some_ne_none _ (howner.symm.trans hupload.operations)
  refine recordReplacement_leads hinv
    (henters.leads.trans (hchanged.leads.trans (hleads₄.trans (hleads₆.trans hleads₇))))
    hplan.cleanupObject ?_ rfl rfl ?_ hopen hbytes ⟨?_, ?_, ?_⟩ ?_ ?_ ?_
  · rw [heq₇, heq₆, heq₄, hchanged.rest, henters.rest]
  · rw [hqueue₇]
    exact hupload₂
  · exact hstored₇.operations _ _ (hstored₆.latest _ rfl)
  · exact ⟨_, (hstored₇.others _ hsourceNe).trans hstored₆.self, hplan.kinds.1, hplan.own⟩
  · refine ⟨_, (hstored₇.others _ hvictimNe).trans hvictim₆, rfl, ?_⟩
    rw [hqueue₇]
    exact hvictimSound.head hplan.linked.2
  · exact ⟨_, hstored₇.self, rfl, rfl⟩
  · obtain ⟨keys, destination, hadmitted⟩ := hchanged.admitted
    rw [hqueue₇, hadmitted.prerequisites]
    exact .inr ⟨rfl, List.mem_singleton.mpr rfl⟩
  · intro id row hrow hlatest
    by_cases hcleanupId : id = plan.cleanupObject
    · rw [hcleanupId, show j₇.names.objects.get plan.cleanupObject = _ from hstored₇.self] at hrow
      cases hrow
      exact absurd (Option.some.inj hlatest) hcleanup
    · rw [hstored₇.others id hcleanupId] at hrow
      by_cases hsourceId : id = source.body.id
      · exact hsourceId
      · rw [hstored₆.others id hsourceId] at hrow
        by_cases hvictimId : id = victim.body.id
        · rw [hvictimId, show j₄.names.objects.get victim.body.id = _ from hstored₄.self] at hrow
          cases hrow
          exact (hunrelated _ _ hplan.victimRow.1 hlatest).elim
        · rw [hstored₄.others id hvictimId, hnames₂] at hrow
          exact absurd hlatest (hunrelated id row hrow)

/-! ## The operation -/

/-- What a replacement of the victim's content is sent against. -/
theorem replacementIntent_spec (hinv : Inv ok underway j) {id : Uuid} {row : ObjectRow}
    {intent : UploadIntent} {base : Option WriteBase} (hrow : j.names.objects.get id = some row)
    (h : j.replacementIntent row.body = .ok (intent, base)) :
    Orderly j base ∧ (base = none → ∃ item etag, intent = .replace item etag ∧ ok item ∧ ok etag) := by
  unfold UploadJournal.replacementIntent at h
  split at h
  · next predecessor _ =>
    obtain ⟨⟨scope, planned⟩, hafter, h⟩ := bind_eq_ok h
    cases h
    obtain ⟨op, hop, hkind, _⟩ := uploadIntentAfter_kind hafter
    refine ⟨⟨?_, ?_⟩, fun hnone => absurd hnone (by simp)⟩
    · intro b hb
      cases hb
      rfl
    · intro b hb p hp
      cases hb
      rw [hop] at hp
      cases hp
      rw [hkind]
      rfl
  · split at h
    · cases h
    · next remote hremote =>
      split at h
      · cases h
      · next etag hetag =>
        cases h
        have htags := ((hinv.objects hrow).remote remote hremote).2.2.2
        exact ⟨.none j, fun _ => ⟨_, _, rfl, htags _ (by simp [nodeTags]),
          htags _ (by simp [nodeTags, hetag])⟩⟩

/-- `enqueue_preparing_replacement` queues an upload whose bytes are still to be fetched. -/
theorem enqueuePreparingReplacement_spec (hinv : Inv ok underway j) {env : Env} {id : Uuid}
    {scope : Scope} {intent : UploadIntent} {order : WriteOrder} {plan : ReplacementPlan}
    {record : UploadRecord}
    (h : j.enqueuePreparingReplacement env id scope intent order plan = .ok (record, j'))
    (habsent : j.queue.Absent id) (hunderway : id ∈ underway) (horder : Orderly j order.base)
    (hsource : order.base = none →
      ∃ item etag, intent = .replace item etag ∧ ok item ∧ ok etag) :
    ∃ j₁, record.id = id ∧ record.state = .preparing ∧ record.workingFile = none ∧
      Enters ok underway j j₁ (.upload record) order.prerequisites ∧
      UploadJournal.commitReplacement plan j₁ record = .ok j' := by
  unfold UploadJournal.enqueuePreparingReplacement at h
  obtain ⟨_, _, h⟩ := bind_eq_ok h
  obtain ⟨_, _, h⟩ := bind_eq_ok h
  obtain ⟨_, _, h⟩ := bind_eq_ok h
  replace h : (do
      j.queue.validateBarriers scope order.prerequisites
      let record := { UploadRecord.new env id j.queue.nextSequence scope intent order.base none
        plan.source.node.size "" with state := .preparing }
      check (plan.source.latest.isSome ||
        plan.source.remote.any (fun n : Node => n.contentRevision.isSome)) .intent
      let queue ← j.queue.admitOperation j.names (.upload record)
        (uploadResources j.settings.lowercase scope intent) none order.prerequisites
      let j ← UploadJournal.commitReplacement plan { j with queue := queue } record
      return (record, j)) = .ok (record, j') := by
    simp only at h
    split at h
    · obtain ⟨_, _, h⟩ := bind_eq_ok h
      exact h
    · exact h
  obtain ⟨_, _, h⟩ := bind_eq_ok h
  obtain ⟨_, _, h⟩ := bind_eq_ok h
  obtain ⟨q', hadmit, h⟩ := bind_eq_ok h
  obtain ⟨j₂, hcommit, h⟩ := bind_eq_ok h
  cases h
  refine ⟨_, rfl, rfl, rfl, .of_admission hinv ?_ (.of_upload habsent rfl (.inr rfl) rfl horder ?_
    (.inr ⟨rfl, hunderway⟩)), hcommit⟩
  · -- It replaces an item that is there, or will be, so it has no destination.
    rw [show (Operation.upload _).destination = none from ?_]
    · exact hadmit
    · simp only [Operation.destination, UploadRecord.new]
      cases hbase : order.base with
      | none =>
        obtain ⟨item, etag, rfl, _⟩ := hsource hbase
        rfl
      | some b => rfl
  · intro hnone item etag hreplace
    obtain ⟨item', etag', hintent, hok⟩ := hsource hnone
    have hsame : intent = .replace item etag := hreplace
    rw [hintent] at hsame
    cases hsame
    exact hok

/-- What `replace_namespace_file` has checked when it queues the upload. -/
theorem replaceNamespaceFile_leads (hinv : Inv ok [] j) {env : Env} {source : Uuid}
    {sourceRevision : Nat} {victim : Uuid} {victimRevision : Nat} {preserveReaders : Bool}
    {record : UploadRecord}
    (h : j.replaceNamespaceFile env source sourceRevision victim victimRevision preserveReaders =
      .ok (record, j'))
    (hdistinct : env.uuid 1 ≠ env.uuid 0) (hunused : ∀ n, Unused j (env.uuid n)) :
    Leads ok claimed gained [] j j' := by
  unfold UploadJournal.replaceNamespaceFile at h
  obtain ⟨s, hs, h⟩ := bind_eq_ok h
  obtain ⟨v, hv, h⟩ := bind_eq_ok h
  obtain ⟨srow, hsrow, rfl⟩ := byId_eq_ok hs
  obtain ⟨vrow, hvrow, rfl⟩ := byId_eq_ok hv
  obtain ⟨_, _, h⟩ := bind_eq_ok h
  obtain ⟨_, hrevisions, h⟩ := bind_eq_ok h
  obtain ⟨_, hlinked, h⟩ := bind_eq_ok h
  obtain ⟨_, hkinds, h⟩ := bind_eq_ok h
  obtain ⟨_, _, h⟩ := bind_eq_ok h
  obtain ⟨sourceWorking, hsourceWorking, h⟩ := bind_eq_ok h
  obtain ⟨victimWorking, hvictimWorking, h⟩ := bind_eq_ok h
  obtain ⟨⟨intent, base⟩, hintent, h⟩ := bind_eq_ok h
  obtain ⟨before, hbefore, h⟩ := bind_eq_ok h
  obtain ⟨cleanupBase, hcleanupBase, h⟩ := bind_eq_ok h
  simp only [check_eq_ok, List.all_cons, List.all_nil, Bool.and_eq_true, Bool.not_eq_true',
    decide_eq_true_eq, and_true] at hrevisions hlinked hkinds
  obtain ⟨horder, hsource⟩ := replacementIntent_spec hinv hvrow hintent
  have hskey := (hinv.objects hsrow).key
  have hvkey := (hinv.objects hvrow).key
  have hplanned : Planned ok j ⟨srow.body, vrow.body, sourceWorking, victimWorking,
      ⟨srow.body.scope, .removeFile before⟩, cleanupBase, preserveReaders, env.uuid 1, env.uuid 2⟩
      srow vrow := by
    refine ⟨⟨by rw [hskey]; exact hsrow, rfl⟩, ⟨by rw [hvkey]; exact hvrow, rfl⟩, hrevisions.1.1,
      ⟨hlinked.1.1.1, hlinked.2.1.1⟩, hlinked.1.1.2, ⟨hkinds.1.1, hkinds.2.1⟩, hsourceWorking,
      hvictimWorking, (followLatest_spec hcleanupBase).1,
      sourced_of_removal hinv hsrow hbefore hcleanupBase, rfl, hunused 1, hunused 2⟩
  -- The source's bytes are sealed now, or fetched later.
  cases sourceWorking with
  | some w =>
    obtain ⟨j₁, size, sha256, hsnapshot, hrecord, henters, hcommit⟩ :=
      enqueueGeneration_spec (hinv.begin [env.uuid 0]) h (hunused 0).absent horder (by
        intro hnone item etag hreplace
        obtain ⟨item', etag', hplain, hok⟩ := hsource hnone
        rw [hplain] at hreplace
        cases hreplace
        exact hok)
    have hid : record.id = env.uuid 0 := by rw [hrecord]; rfl
    rw [← hid] at henters
    exact commitReplacement_leads hinv hplanned (by rw [hid]; exact hunused 0)
      (by rw [hid]; exact hdistinct) henters (.inl (by rw [hrecord]; rfl))
      (.inl (by rw [hrecord]; exact env.snapshot_digest _ _ _ hsnapshot)) hcommit
  | none =>
    obtain ⟨j₁, hid, hstate, hworking, henters, hcommit⟩ :=
      enqueuePreparingReplacement_spec (hinv.begin [env.uuid 0]) h (hunused 0).absent
        (List.mem_singleton.mpr rfl) horder hsource
    rw [← hid] at henters
    exact commitReplacement_leads hinv hplanned (by rw [hid]; exact hunused 0)
      (by rw [hid]; exact hdistinct) henters (.inr hstate) (.inr hworking) hcommit

end Cirrove.Journal
