import Cirrove.Journal.Histories

/-!
# Owners of cloud items and of names

The index tables are determined by the objects, so no cloud item and no name has two owners.
`namespace_operations` also keeps the operations an object had before its last one: a receipt that
arrives late still finds its object. A replacement exchanges the owners of two cloud items in the
commit that records its receipt (`exchanges_of_acknowledge`), and its cleanup is handed out after that.
-/

namespace Cirrove.Journal

open Cirrove.Library

variable {ok : String → Prop} {w : World} {start j j' : UploadJournal}

/-! ## The exchange -/

/-- The cloud item of the victim and the one of the source change their owners. -/
structure Exchanges (j j' : UploadJournal) (record : ReplacementRecord) (item : String) : Prop where
  destination : ∃ scope, j.names.remote.get (scope, item) = some record.victim ∧
    j'.names.remote.get (scope, item) = some record.source
  source : ∃ scope cleanup old, j.names.remote.get (scope, old) = some record.source ∧
    j'.names.objects.get record.cleanupObject = some cleanup ∧
    j'.names.remote.get (cleanup.body.scope, old) = some record.cleanupObject

/-- The index after an object that owns a cloud item was stored. -/
theorem Stored.remote_self {lowercase : String → String} {n n' : Namespace} {o : NamespaceObject}
    (h : Stored lowercase n n' o) {r : Node} (howned : o.remoteOwned = true)
    (hr : o.remote = some r) : n'.remote.get (o.scope, r.id) = some o.id :=
  (h.remote _ _).mpr (.inr ⟨rfl, howned, r, hr, rfl⟩)

/-- Other objects keep what they own. -/
theorem Stored.remote_other {lowercase : String → String} {n n' : Namespace} {o : NamespaceObject}
    (h : Stored lowercase n n' o) {item : Scope × String} {id : Uuid} (hid : id ≠ o.id)
    (hget : n.remote.get item = some id) : n'.remote.get item = some id :=
  (h.remote _ _).mpr (.inl ⟨hid, hget⟩)

theorem Exchanged.exchanges {p : Uuid} {sequence : Nat} {remote : Node} {record : ReplacementRecord}
    (h : Exchanged j p sequence remote j') (hindex : j.names.Indexed j.settings.lowercase)
    (hrecord : j.fileReplacements.get p = some record) : Exchanges j j' record remote.id := by
  cases h with
  | @intro record' source victim cleanup oldSource _ _ _ _ _ _ hrecord' _ _ hsource hvictim hcleanup
      hold hsourceOwned hvictimOwned hunlinked hidentity hdistinct hscope _ hcleanupOwned _ hsaveVictim
      hsaveSource hsaveCleanup =>
    rw [hrecord] at hrecord'
    cases hrecord'
    obtain ⟨destination, hdestination, hid⟩ := hidentity
    obtain ⟨n₁, hstored₁, rfl⟩ := saveObject_eq_ok hsaveVictim
    obtain ⟨n₂, hstored₂, rfl⟩ := saveObject_eq_ok hsaveSource
    obtain ⟨n₃, hstored₃, rfl⟩ := saveObject_eq_ok hsaveCleanup
    have hsourceKey := hindex.key hsource
    have hcleanupKey := hindex.key hcleanup
    -- What owns a cloud item is not what owns none.
    have hne : record.source ≠ record.cleanupObject := by
      intro heq
      rw [heq, hcleanup] at hsource
      cases hsource
      rw [hsourceOwned] at hcleanupOwned
      cases hcleanupOwned
    have htakes : n₂.remote.get (source.body.scope, remote.id) = some record.source := by
      have hself := hstored₂.remote_self hsourceOwned rfl
      exact hself.trans (congrArg some hsourceKey)
    have hreceives : ∃ row, n₃.objects.get record.cleanupObject = some row ∧
        n₃.remote.get (row.body.scope, oldSource.id) = some record.cleanupObject := by
      rw [← hcleanupKey]
      exact ⟨_, hstored₃.self, hstored₃.remote_self rfl rfl⟩
    obtain ⟨row, hrow, howns⟩ := hreceives
    refine ⟨⟨source.body.scope, ?_, ?_⟩, ⟨source.body.scope, row, oldSource.id, ?_, hrow, howns⟩⟩
    · exact (hindex.remote _ _).mpr ⟨victim, destination, hvictim, hvictimOwned, hdestination,
        by rw [hscope, hid]⟩
    · refine hstored₃.remote_other ?_ htakes
      intro heq
      exact hne (heq.trans hcleanupKey)
    · exact (hindex.remote _ _).mpr ⟨source, oldSource, hsource, hsourceOwned, hold, rfl⟩

/-- A receipt for a replacement exchanges the owners when it is recorded. -/
theorem exchanges_of_acknowledge (hinv : Inv ok [] j) {id attempt : Uuid} {receipt : Node}
    {record : ReplacementRecord} (h : j.acknowledge id attempt receipt = .ok j')
    (hrecord : j.fileReplacements.get id = some record) (hunapplied : record.remoteApplied = false) :
    Exchanges j j' record receipt.id := by
  obtain ⟨r, name, hr, _, hsave⟩ := acknowledge_eq_ok h
  obtain ⟨_, rfl, _, _⟩ := activeAttempt_eq_ok hinv hr
  unfold UploadJournal.save at hsave
  obtain ⟨q₁, _, hsave⟩ := bind_eq_ok hsave
  obtain ⟨q₂, _, hsave⟩ := bind_eq_ok hsave
  simp only at hsave
  obtain ⟨⟨replaced, j₁⟩, hconfirm, hsave⟩ := bind_eq_ok hsave
  rcases confirmReplacement_cases hconfirm with ⟨_, _, hnone⟩ | ⟨_, _, other, hother, happlied⟩ |
    ⟨rfl, hexchanged⟩
  · rw [show j.fileReplacements.get r.id = none from hnone] at hrecord
    cases hrecord
  · rw [show j.fileReplacements.get r.id = some other from hother] at hrecord
    cases hrecord
    rw [hunapplied] at happlied
    cases happlied
  · cases hsave
    have hexchanges := hexchanged.exchanges hinv.index hrecord
    exact ⟨hexchanges.destination, hexchanges.source⟩

/-! ## Owners -/

/-- Every cloud item and every name has one owner. -/
structure Owned (w : World) : Prop where
  items : ∀ a b x y r s, w.journal.names.objects.get a = some x →
    w.journal.names.objects.get b = some y → x.body.remoteOwned = true →
    y.body.remoteOwned = true → x.body.remote = some r → y.body.remote = some s →
    x.body.scope = y.body.scope → r.id = s.id → a = b
  slots : ∀ a b x y slot, w.journal.names.objects.get a = some x →
    w.journal.names.objects.get b = some y → x.body.unlinked = false → y.body.unlinked = false →
    x.body.followsRemote = false → y.body.followsRemote = false →
    x.body.slot w.journal.settings.lowercase = some slot →
    y.body.slot w.journal.settings.lowercase = some slot → a = b
  /-- The tables of names and of cloud items say what the objects say. -/
  index : w.journal.names.Indexed w.journal.settings.lowercase
  latest : ∀ id row p, w.journal.names.objects.get id = some row → row.body.latest = some p →
    w.journal.names.operations.get p = some id
  exchange : ∀ env id attempt receipt record,
    Permitted (fun _ => True) w (.call env (.acknowledge id attempt receipt)) →
    (exec env (.acknowledge id attempt receipt) w.journal).result = .ok .done →
    w.journal.fileReplacements.get id = some record → record.remoteApplied = false →
    Exchanges w.journal (step w (.call env (.acknowledge id attempt receipt))).journal record
      receipt.id
  cleanup : ∀ env op x id record, Permitted (fun _ => True) w (.call env op) →
    handedOut (exec env op w.journal).result = some x →
    (step w (.call env op)).journal.fileReplacements.get id = some record →
    record.cleanup = x.id → record.remoteApplied = true ∨ record.rescuedAs.isSome = true

/-- The transaction of a call that has one. -/
theorem answer_commit {tx : UploadJournal → Except JournalError UploadJournal} {f : PUnit → Reply}
    {reply : Reply} (h : (answer f (Commits.commit tx) j).result = .ok reply) :
    tx j = .ok ((answer f (Commits.commit tx) j).final j) := by
  cases htx : tx j with
  | error e =>
    have hfail : Commits.commit tx j = ⟨.error e, []⟩ := by
      simp [Commits.commit, Commits.transaction, htx, Except.map]
    have hbind : answer f (Commits.commit tx) j = _ :=
      Commits.bind_of_error (congrArg Outcome.result hfail)
    rw [hbind] at h
    cases h
  | ok j' =>
    have hdone : Commits.commit tx j = ⟨.ok ⟨⟩, [j']⟩ := by
      simp [Commits.commit, Commits.transaction, htx, Except.map]
    have hbind : answer f (Commits.commit tx) j = _ :=
      Commits.bind_of_ok (congrArg Outcome.result hdone)
    rw [hbind, hdone]
    rfl

/-- What a cleanup waits for is over when it is handed out. -/
theorem cleanup_handedOut {env : Env} {op : Op} {x : Operation} {id : Uuid}
    {record : ReplacementRecord} (hpermitted : Permitted ok w (.call env op))
    (hinv : Inv ok [] w.journal) (hx : handedOut (exec env op w.journal).result = some x)
    (hrecord : (step w (.call env op)).journal.fileReplacements.get id = some record)
    (hcleanup : record.cleanup = x.id) :
    record.remoteApplied = true ∨ record.rescuedAs.isSome = true := by
  have hinv' := step_inv hpermitted hinv
  have hsound := hinv'.replacements hrecord
  cases hrescued : record.rescuedAs with
  | some copy => exact .inr rfl
  | none =>
    have hclaimable := (answered_of_call hpermitted hinv x hx).1.claimable
    have hawaits := hsound.awaits hrescued (by simp)
    rw [hcleanup] at hawaits
    have hcompleted := satisfied_iff.mp hclaimable.prerequisites id hawaits
    obtain ⟨upload, hupload, hcomplete⟩ := (Queue.completed_iff hinv'.tidy).mp hcompleted
    have hdone := hsound.done (by simp) upload hupload hcomplete
    rw [hrescued] at hdone
    exact hdone

/-- Every cloud item and every name has one owner after every run. -/
theorem owned_of_run {settings : Settings} {events : List Event}
    (h : Run step (Permitted (fun _ => True)) (World.create settings) events w) : Owned w := by
  have hinv := inv_of_run h
  have hindex := hinv.index
  refine ⟨?_, ?_, hindex, ?_, ?_, ?_⟩
  · intro a b x y r s hx hy hxo hyo hr hs hscope hid
    have hfirst := (hindex.remote _ a).mpr ⟨x, r, hx, hxo, hr, rfl⟩
    have hsecond := (hindex.remote _ b).mpr ⟨y, s, hy, hyo, hs, rfl⟩
    rw [hscope, hid, hsecond] at hfirst
    exact (Option.some.inj hfirst).symm
  · intro a b x y slot hx hy hxl hyl hxf hyf hxs hys
    have hfirst := (hindex.entries slot a).mpr ⟨x, hx, hxl, hxf, hxs⟩
    have hsecond := (hindex.entries slot b).mpr ⟨y, hy, hyl, hyf, hys⟩
    rw [hsecond] at hfirst
    exact (Option.some.inj hfirst).symm
  · intro id row p hrow hp
    exact (hinv.latest hrow hp).resolve_left (by simp)
  · intro env id attempt receipt record _ hresult hrecord hunapplied
    rw [step_call_journal]
    exact exchanges_of_acknowledge hinv (answer_commit hresult) hrecord hunapplied
  · intro env op x id record hpermitted hx hrecord hcleanup
    exact cleanup_handedOut hpermitted hinv hx hrecord hcleanup

/-- A cloud file is written over another one, and the receipt of the upload arrives. -/
def replacedFile : List Op :=
  [.publishWorking sampleDrive (sampleFile "temporary" "root" "notes.tmp") false false,
    .publishWorking sampleDrive (sampleFile "item" "root" "notes") false false,
    .replaceNamespaceFile ⟨1⟩ 1 ⟨11⟩ 1 false, .claimNext,
    .acknowledge ⟨21⟩ ⟨31⟩ { sampleFile "item" "root" "notes" with etag := some "v2" }]

/-- The source owns the item it was written over, its own item waits for the cleanup, and that is
    the next change to be handed out. -/
theorem owned_replacedFile :
    (scriptWorld .sample replacedFile).journal.names.remote.get (sampleDrive, "item") = some ⟨1⟩ ∧
      (scriptWorld .sample replacedFile).journal.names.remote.get (sampleDrive, "temporary") =
        some ⟨23⟩ ∧
      (handedOut (exec (.numbered 51) .claimMutation
        (scriptWorld .sample replacedFile).journal).result).map Operation.id = some ⟨22⟩ ∧
      Owned (scriptWorld .sample replacedFile) :=
  ⟨by decide +kernel, by decide +kernel, by decide +kernel,
    owned_of_run (run_of_script (by decide +kernel) (fun _ _ _ _ => trivial))⟩

/-- A cloud file is opened, and two versions of it are saved. -/
def twoVersions : List Op :=
  [.publishWorking sampleDrive (sampleFile "item" "root" "notes") false false,
    .writeWorking ⟨1⟩ (.ok 1), .sealWorking ⟨1⟩, .writeWorking ⟨1⟩ (.ok 1), .sealWorking ⟨1⟩]

/-- The first version is still an operation of the file. -/
theorem twoVersions_keeps_history :
    Run step (Permitted (fun _ => True)) (World.create .sample) (script 1 twoVersions)
        (scriptWorld .sample twoVersions) ∧
      ¬ ∀ p id, (scriptWorld .sample twoVersions).journal.names.operations.get p = some id →
        ∃ row, (scriptWorld .sample twoVersions).journal.names.objects.get id = some row ∧
          row.body.latest = some p := by
  refine ⟨run_of_script (by decide +kernel) (fun _ _ _ _ => trivial), ?_⟩
  intro h
  obtain ⟨row, hrow, hlatest⟩ := h ⟨21⟩ ⟨1⟩ (by decide +kernel)
  have hsecond : ((scriptWorld .sample twoVersions).journal.names.objects.get ⟨1⟩).map
      (fun row => row.body.latest) = some (some ⟨41⟩) := by decide +kernel
  rw [hrow] at hsecond
  have heq := Option.some.inj hsecond
  simp only [hlatest] at heq
  exact absurd heq (by decide)

end Cirrove.Journal
