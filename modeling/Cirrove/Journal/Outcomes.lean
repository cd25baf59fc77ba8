import Cirrove.Journal.Preservation
import Cirrove.Journal.Reshaping

/-!
# Storing an outcome

`save` and `save_mutation` store an operation again, and when it is done they confirm the local
names it belongs to. `Leads` is what every function of the journal is shown to do: from a sound
journal to a sound one, with a queue that has evolved.
-/

namespace Cirrove.Journal

open Cirrove.Library

variable {ok : String → Prop} {underway : List Uuid} {j j' : UploadJournal}
  {claimed : Uuid → Uuid → Prop} {gained : Uuid → Resource → Prop}

/-- The journal after a function that hands out `claimed` and gives operations the keys
    `gained`. -/
structure Reaches (ok : String → Prop) (claimed : Uuid → Uuid → Prop)
    (gained : Uuid → Resource → Prop) (underway : List Uuid) (j j' : UploadJournal) : Prop where
  inv : Inv ok underway j'
  evolves : j.queue.Evolves claimed gained j'.queue
  settings : j'.settings = j.settings
  reshaped : Reshaped j j'

/-- A function that binds nothing to a receipt. -/
structure Leads (ok : String → Prop) (claimed : Uuid → Uuid → Prop)
    (gained : Uuid → Resource → Prop) (underway : List Uuid) (j j' : UploadJournal) : Prop
    extends Reaches ok claimed gained underway j j' where
  steady : j.queue.Steady j'.queue

theorem Leads.refl (h : Inv ok underway j) : Leads ok claimed gained underway j j :=
  ⟨⟨h, .refl _, rfl, .refl _⟩, .refl _⟩

theorem Leads.trans {before after : List Uuid} {j₁ : UploadJournal}
    (h₁ : Leads ok claimed gained before j j₁) (h₂ : Leads ok claimed gained after j₁ j') :
    Leads ok claimed gained after j j' :=
  ⟨⟨h₂.inv, h₁.evolves.trans h₂.evolves, h₂.settings.trans h₁.settings,
    h₁.reshaped.trans h₂.reshaped⟩, h₁.steady.trans h₂.steady⟩

/-- A change of the other tables leaves the queue alone. -/
theorem Leads.of_inv (h : Inv ok underway j') (hqueue : j'.queue = j.queue)
    (hsettings : j'.settings = j.settings) (hreshaped : Reshaped j j') :
    Leads ok claimed gained underway j j' :=
  ⟨⟨h, hqueue ▸ .refl _, hsettings, hreshaped⟩, hqueue ▸ .refl _⟩

/-! ## Objects that are stored again -/

theorem byId_eq_ok {n : Namespace} {id : Uuid} {o : NamespaceObject} (h : n.byId id = .ok o) :
    ∃ row, n.objects.get id = some row ∧ row.body = o := by
  unfold Namespace.byId at h
  split at h
  · next row hrow =>
    cases h
    exact ⟨row, hrow, rfl⟩
  · cases h

/-- `new` is the object `old` with another place, version or history. -/
structure NamespaceObject.Like (old new : NamespaceObject) : Prop where
  scope : new.scope = old.scope
  kind : old.node.kind = .file → new.node.kind = .file
  follows : new.followsRemote = old.followsRemote
  spare : old.Spare → new.Spare
  unlinked : old.unlinked = true → new.unlinked = true ∧ new.latest = old.latest

/-- The part of `Storable` that is about the stored row. -/
theorem existing_of_like {o : NamespaceObject}
    (h : ∀ row, j.names.objects.get o.id = some row → row.body.Like o) :
    ∀ row, j.names.objects.get o.id = some row → o.scope = row.body.scope ∧
      (row.body.followsRemote = false → row.body.node.kind = .file → o.node.kind = .file ∧
        (o.followsRemote = false ∨ j.pendingOperation o.id = false)) := by
  intro row hrow
  have hlike := h row hrow
  exact ⟨hlike.scope, fun hfollows hkind =>
    ⟨hlike.kind hkind, .inl (hlike.follows.trans hfollows)⟩⟩

/-- An object whose history and place are in order, and that is not a folder without a cloud
    identity. -/
structure Fits (ok : String → Prop) (q : Queue) (o : NamespaceObject) : Prop where
  remote : ∀ r, o.remote = some r → r.kind = o.node.kind ∧
    (r.kind ≠ .shortcut → r.target = none) ∧ r.id ≠ "" ∧ ∀ tag ∈ nodeTags r, ok tag
  working : o.workingFile.isSome = true → o.node.kind = .file
  confirmed : o.node.kind = .folder → o.remote ≠ none
  head : o.unlinked = false → HeadSound q o.latest
  folder : o.unlinked = false → o.node.kind = .folder → ∀ p op, o.latest = some p →
    q.find p = some op → op.kind = some .folder ∧ op.scope = o.scope

/-- The scope of an object has a policy. -/
theorem Inv.scope_known (hinv : Inv ok underway j) {id : Uuid} {row : ObjectRow}
    (hrow : j.names.objects.get id = some row) :
    (j.names.scopes.get row.body.scope).isSome = true := by
  rw [hinv.index.names hrow]
  rfl

/-- Storing an object like one that was read keeps the invariant and the other objects. -/
theorem saveObject_like (hinv : Inv ok underway j) {o : NamespaceObject}
    (h : j.saveObject o = .ok j') (hfits : Fits ok j.queue o)
    (hscope : (j.names.scopes.get o.scope).isSome = true)
    (hlike : ∀ row, j.names.objects.get o.id = some row → row.body.Like o)
    (hfile : o.unlinked = true → ∀ w, o.workingFile = some w →
      ∃ file, j.workingFiles.get w = some file ∧ file.body.latest = o.latest) :
    Inv ok underway j' ∧ Stored j.settings.lowercase j.names j'.names o ∧
      j' = { j with names := j'.names } := by
  obtain ⟨n', hstored, rfl⟩ := saveObject_eq_ok h
  have hstorable : Storable ok underway j o :=
    ⟨existing_of_like hlike, hfits.remote, hfits.working,
      fun hun => absurd hun.2 (hfits.confirmed hun.1), hfits.head, hfits.folder, hscope,
      fun row hrow hspare => .inl ((hlike row hrow).spare hspare),
      fun row hrow hunlinked => .inl ((hlike row hrow).unlinked hunlinked), hfile⟩
  exact ⟨hinv.store hstorable hstored, hstored, rfl⟩

/-! ## Confirmation -/

/-- A node the provider has confirmed. -/
structure Confirmed (ok : String → Prop) (remote : Node) : Prop where
  id : remote.id ≠ ""
  tags : ∀ tag ∈ nodeTags remote, ok tag

/-- The object of a row that is stored again at once. -/
theorem like_of_row {n : Namespace} {id : Uuid} {row : ObjectRow} {o : NamespaceObject}
    (hrow : n.objects.get id = some row) (hlike : row.body.Like o) :
    ∀ row', n.objects.get id = some row' → row'.body.Like o := by
  intro row' hrow'
  rw [hrow] at hrow'
  cases hrow'
  exact hlike

/-- `namespace::confirm` keeps the invariant. -/
theorem confirmObject_inv (hinv : Inv ok underway j) {p : Uuid} {sequence : Nat} {remote : Node}
    (hremote : Confirmed ok remote) (h : j.confirmObject p sequence remote = .ok j') :
    Inv ok underway j' ∧ j' = { j with names := j'.names } ∧ Reshaped j j' := by
  unfold UploadJournal.confirmObject Namespace.confirm at h
  obtain ⟨n', hconfirm, h⟩ := bind_eq_ok h
  cases h
  split at hconfirm
  · cases hconfirm
    exact ⟨hinv, rfl, .refl _⟩
  · next id howner =>
    obtain ⟨o, ho, hconfirm⟩ := bind_eq_ok hconfirm
    obtain ⟨row, hrow, rfl⟩ := byId_eq_ok ho
    have hsound := hinv.objects hrow
    split at hconfirm
    · cases hconfirm
      exact ⟨hinv, rfl, .refl _⟩
    · obtain ⟨_, hcheck, hconfirm⟩ := bind_eq_ok hconfirm
      rw [check_eq_ok] at hcheck
      simp only [Bool.and_eq_true, decide_eq_true_eq, Option.isNone_iff_eq_none] at hcheck
      obtain ⟨revision, _, hconfirm⟩ := bind_eq_ok hconfirm
      have hkind : (if row.body.workingFile.isSome = true then row.body.node else
          { row.body.node with
            etag := remote.etag
            contentVersion := remote.contentVersion
            size := remote.size
            modifiedUnix := remote.modifiedUnix }).kind = row.body.node.kind := by
        split <;> rfl
      have hsave : j.saveObject { row.body with
          node := if row.body.workingFile.isSome = true then row.body.node else
            { row.body.node with
              etag := remote.etag
              contentVersion := remote.contentVersion
              size := remote.size
              modifiedUnix := remote.modifiedUnix }
          remote := some remote
          remoteSequence := sequence
          revision := revision } = .ok { j with names := n' } := by
        unfold UploadJournal.saveObject
        rw [hconfirm]
        rfl
      have hlike := like_of_row (o := { row.body with
          node := if row.body.workingFile.isSome = true then row.body.node else
            { row.body.node with
              etag := remote.etag
              contentVersion := remote.contentVersion
              size := remote.size
              modifiedUnix := remote.modifiedUnix }
          remote := some remote
          remoteSequence := sequence
          revision := revision }) (hsound.key.symm ▸ hrow)
        ⟨rfl, hkind.trans, rfl, fun hspare => hspare, fun hunlinked => ⟨hunlinked, rfl⟩⟩
      have hstored : Stored j.settings.lowercase j.names n' _ := save_stored hconfirm
      refine ⟨(saveObject_like hinv hsave ⟨?_, ?_, fun _ hnone => ?_, hsound.head, ?_⟩
        (hinv.scope_known hrow) hlike (fun hunlinked _ hw => hinv.detached hrow hunlinked hw)).1, rfl,
        .of_store rfl hstored (hinv.scope_known hrow) ?_⟩
      · intro r hr
        cases hr
        rw [hkind]
        exact ⟨hcheck.1.2, fun _ => hcheck.2, hremote.id, hremote.tags⟩
      · rw [hkind]
        exact hsound.working
      · cases hnone
      · rw [hkind]
        intro hlinked hfolder q op hq hop
        exact (hsound.folder hlinked hfolder q hq).2 op hop
      · -- The node of a file with bytes of its own is not touched.
        rcases Option.eq_none_or_eq_some row.body.workingFile with hworking | ⟨w, hworking⟩
        · exact .of_none hworking rfl
        · refine .same (hsound.key.symm ▸ hrow) ⟨rfl, rfl, rfl, ?_, rfl, rfl⟩ rfl
          simp [hworking]

/-- A replacement is applied: the source takes the victim's cloud identity, and the object of the
    cleanup the source's old one. -/
inductive Exchanged (j : UploadJournal) (p : Uuid) (sequence : Nat) (remote : Node) :
    UploadJournal → Prop where
  | intro {record : ReplacementRecord} {source victim cleanup : ObjectRow} {oldSource : Node}
      {victimRevision sourceRevision cleanupRevision : Nat} {j₁ j₂ j₃ : UploadJournal}
      (hrecord : j.fileReplacements.get p = some record) (happlied : record.remoteApplied = false)
      (hready : record.localReady = true)
      (hsource : j.names.objects.get record.source = some source)
      (hvictim : j.names.objects.get record.victim = some victim)
      (hcleanup : j.names.objects.get record.cleanupObject = some cleanup)
      (hold : source.body.remote = some oldSource) (hsourceOwned : source.body.remoteOwned = true)
      (hvictimOwned : victim.body.remoteOwned = true) (hunlinked : victim.body.unlinked = true)
      (hidentity : ∃ n, victim.body.remote = some n ∧ n.id = remote.id)
      (hdistinct : oldSource.id ≠ remote.id) (hscope : source.body.scope = victim.body.scope)
      (hnewer : source.body.remoteSequence < sequence)
      (hcleanupOwned : cleanup.body.remoteOwned = false)
      (hcleanupUnlinked : cleanup.body.unlinked = true)
      (hsaveVictim : j.saveObject { victim.body with
        remoteOwned := false, revision := victimRevision } = .ok j₁)
      (hsaveSource : j₁.saveObject { source.body with
        remote := some remote
        remoteSequence := sequence
        revision := sourceRevision } = .ok j₂)
      (hsaveCleanup : j₂.saveObject { cleanup.body with
        node := { oldSource with id := cleanup.body.node.id }
        remote := some oldSource
        remoteSequence := source.body.remoteSequence
        remoteOwned := true
        revision := cleanupRevision } = .ok j₃) :
      Exchanged j p sequence remote { j₃ with
        fileReplacements := j₃.fileReplacements.set p { record with remoteApplied := true } }

theorem confirmReplacement_cases {p : Uuid} {sequence : Nat} {remote : Node} {replaced : Bool}
    (h : j.confirmReplacement p sequence remote = .ok (replaced, j')) :
    (replaced = false ∧ j' = j ∧ j.fileReplacements.get p = none) ∨
      (replaced = true ∧ j' = j ∧
        ∃ record, j.fileReplacements.get p = some record ∧ record.remoteApplied = true) ∨
      (replaced = true ∧ Exchanged j p sequence remote j') := by
  unfold UploadJournal.confirmReplacement at h
  split at h
  · next hnone =>
    cases h
    exact .inl ⟨rfl, rfl, hnone⟩
  · next record hrecord =>
    split at h
    · next happlied =>
      cases h
      exact .inr (.inl ⟨rfl, rfl, record, hrecord, happlied⟩)
    · next happlied =>
      rw [Bool.not_eq_true] at happlied
      obtain ⟨_, hready, h⟩ := bind_eq_ok h
      rw [check_eq_ok] at hready
      obtain ⟨source, hs, h⟩ := bind_eq_ok h
      obtain ⟨victim, hv, h⟩ := bind_eq_ok h
      obtain ⟨cleanup, hc, h⟩ := bind_eq_ok h
      obtain ⟨sourceRow, hsourceRow, rfl⟩ := byId_eq_ok hs
      obtain ⟨victimRow, hvictimRow, rfl⟩ := byId_eq_ok hv
      obtain ⟨cleanupRow, hcleanupRow, rfl⟩ := byId_eq_ok hc
      cases hold : sourceRow.body.remote with
      | none =>
        simp only [hold] at h
        cases h
      | some oldSource =>
        simp only [hold] at h
        obtain ⟨_, hcheck, h⟩ := bind_eq_ok h
        rw [check_eq_ok] at hcheck
        simp only [Bool.and_eq_true, Bool.not_eq_true', decide_eq_true_eq,
          Option.any_eq_true_iff_get, decide_eq_true_eq] at hcheck
        obtain ⟨⟨⟨⟨⟨⟨⟨⟨hso, hvo⟩, hvu⟩, hvr⟩, hdistinct⟩, hscope⟩, hnewer⟩, hco⟩, hcu⟩ := hcheck
        obtain ⟨victimRevision, _, h⟩ := bind_eq_ok h
        obtain ⟨j₁, hsave₁, h⟩ := bind_eq_ok h
        obtain ⟨sourceRevision, _, h⟩ := bind_eq_ok h
        obtain ⟨j₂, hsave₂, h⟩ := bind_eq_ok h
        obtain ⟨cleanupRevision, _, h⟩ := bind_eq_ok h
        obtain ⟨j₃, hsave₃, h⟩ := bind_eq_ok h
        cases h
        obtain ⟨hsome, hget⟩ := hvr
        exact .inr (.inr ⟨rfl, .intro hrecord happlied hready hsourceRow hvictimRow hcleanupRow hold
          hso hvo hvu ⟨_, (Option.some_get hsome).symm, hget⟩ hdistinct hscope hnewer hco hcu hsave₁
          hsave₂ hsave₃⟩)

/-- A replacement that was applied is recorded so, and touches no operation. -/
theorem Exchanged.applied {p : Uuid} {sequence : Nat} {remote : Node}
    (h : Exchanged j p sequence remote j') :
    j'.queue = j.queue ∧
      (∀ record, j'.fileReplacements.get p = some record → record.remoteApplied = true) ∧
      j'.locallyReady p = true := by
  cases h with
  | intro _ _ hready _ _ _ _ _ _ _ _ _ _ _ _ _ hsave₁ hsave₂ hsave₃ =>
    obtain ⟨n₁, _, rfl⟩ := saveObject_eq_ok hsave₁
    obtain ⟨n₂, _, rfl⟩ := saveObject_eq_ok hsave₂
    obtain ⟨n₃, _, rfl⟩ := saveObject_eq_ok hsave₃
    refine ⟨rfl, ?_, ?_⟩
    · intro record hrecord
      simp only [Table.get_set_self] at hrecord
      cases hrecord
      rfl
    · simp only [UploadJournal.locallyReady, Table.get_set_self, Option.all_some]
      exact hready

/-- `replacements::confirm` keeps the invariant: the three objects that exchange their cloud
    identities are files, and no two of them are the same. -/
theorem Exchanged.keeps {p : Uuid} {sequence : Nat} {remote : Node}
    (h : Exchanged j p sequence remote j') (hinv : Inv ok [] j) (hremote : Confirmed ok remote)
    (hfile : remote.kind = .file) (htarget : remote.target = none)
    (hincomplete : ∀ op, j.queue.find p = some op → op.isComplete = false) :
    Inv ok [] j' ∧ j'.queue = j.queue ∧ j'.settings = j.settings ∧ Reshaped j j' := by
  cases h with
  | @intro record source victim cleanup oldSource _ _ _ j₁ j₂ j₃ hrecord happlied _ hsource hvictim
      hcleanup hold hsourceOwned hvictimOwned hunlinked hidentity hdistinct _ _ hcleanupOwned
      hcleanupUnlinked hsave₁ hsave₂ hsave₃ =>
    have hsourceSound := hinv.objects hsource
    have hvictimSound := hinv.objects hvictim
    have hcleanupSound := hinv.objects hcleanup
    have hreplacement := hinv.replacements hrecord
    have hsourceKind : source.body.node.kind = .file := by
      obtain ⟨row, hrow, hkind, _⟩ := (hreplacement.running List.not_mem_nil hincomplete).source
      rw [hsource] at hrow
      cases hrow
      exact hkind
    have hrunning : record.rescuedAs = none := by
      cases hrescued : record.rescuedAs with
      | none => rfl
      | some copy =>
        obtain ⟨r, hr⟩ := hreplacement.upload
        have hcomplete := hreplacement.rescuedDone (by rw [hrescued]; rfl) List.not_mem_nil _ hr
        rw [hincomplete _ hr] at hcomplete
        cases hcomplete
    have hspare : cleanup.body.Spare := by
      obtain ⟨row, hrow, hspare⟩ := hreplacement.cleanup
      rw [hcleanup] at hrow
      cases hrow
      exact hspare happlied hrunning List.not_mem_nil
    obtain ⟨n, hn, hid⟩ := hidentity
    have hsourceVictim : record.source ≠ record.victim := by
      intro heq
      rw [heq, hvictim] at hsource
      cases hsource
      rw [hn] at hold
      cases hold
      exact hdistinct hid
    have hcleanupSource : record.cleanupObject ≠ record.source := by
      intro heq
      rw [heq, hsource] at hcleanup
      cases hcleanup
      rw [hsourceOwned] at hcleanupOwned
      cases hcleanupOwned
    have hcleanupVictim : record.cleanupObject ≠ record.victim := by
      intro heq
      rw [heq, hvictim] at hcleanup
      cases hcleanup
      rw [hvictimOwned] at hcleanupOwned
      cases hcleanupOwned
    -- The victim gives its identity up.
    obtain ⟨hinv₁, hstored₁, heq₁⟩ := saveObject_like hinv hsave₁
      ⟨hvictimSound.remote, hvictimSound.working, fun _ => by rw [hn]; exact Option.some_ne_none _,
        fun hlinked => absurd (hunlinked.symm.trans hlinked) (by decide),
        fun hlinked => absurd (hunlinked.symm.trans hlinked) (by decide)⟩
      (hinv.scope_known hvictim)
      (like_of_row (hvictimSound.key.symm ▸ hvictim)
        ⟨rfl, id, rfl, fun hs => absurd (hvictimOwned.symm.trans hs.1) (by decide),
          fun hun => ⟨hun, rfl⟩⟩)
      (fun hun _ hw => hinv.detached hvictim hun hw)
    have hsource₁ : j₁.names.objects.get record.source = some source := by
      rw [hstored₁.others _ (by rw [hvictimSound.key]; exact hsourceVictim)]
      exact hsource
    have hcleanup₁ : j₁.names.objects.get record.cleanupObject = some cleanup := by
      rw [hstored₁.others _ (by rw [hvictimSound.key]; exact hcleanupVictim)]
      exact hcleanup
    have hqueue₁ : j₁.queue = j.queue := by rw [heq₁]
    -- The source takes it.
    obtain ⟨hinv₂, hstored₂, heq₂⟩ := saveObject_like hinv₁ hsave₂
      ⟨by
        intro r hr
        cases hr
        exact ⟨hfile.trans hsourceKind.symm, fun _ => htarget, hremote.id, hremote.tags⟩,
        fun _ => hsourceKind, fun _ => Option.some_ne_none _,
        fun hlinked => hqueue₁ ▸ hsourceSound.head hlinked,
        fun _ hfolder => absurd (hsourceKind.symm.trans hfolder) (by decide)⟩
      (hinv₁.scope_known hsource₁)
      (like_of_row (hsourceSound.key.symm ▸ hsource₁)
        ⟨rfl, id, rfl, fun hs => absurd (hsourceOwned.symm.trans hs.1) (by decide),
          fun hun => ⟨hun, rfl⟩⟩)
      (fun hun _ hw => hinv₁.detached hsource₁ hun hw)
    have hcleanup₂ : j₂.names.objects.get record.cleanupObject = some cleanup := by
      rw [hstored₂.others _ (by rw [hsourceSound.key]; exact hcleanupSource)]
      exact hcleanup₁
    -- The replacement is over before its cleanup gets the old identity.
    have hrecords₂ : j₂.fileReplacements = j.fileReplacements := by rw [heq₂, heq₁]
    have hinv₂' : Inv ok [] { j₂ with
        fileReplacements := j₂.fileReplacements.set p { record with remoteApplied := true } } := by
      have hsound := hinv₂.replacements (hrecords₂.symm ▸ hrecord)
      apply hinv₂.setReplacement
      · obtain ⟨row, hrow, _⟩ := hsound.cleanup
        refine ⟨hsound.key, hsound.upload, ?_,
          ⟨row, hrow, fun hfalse => (Bool.false_ne_true hfalse.symm).elim⟩, hsound.rescuedDone,
          hsound.unready, hsound.awaits, fun _ _ _ _ => .inl rfl⟩
        intro hunderway hopen
        obtain ⟨howner, hsource', hvictim'⟩ := hsound.running hunderway hopen
        exact ⟨howner, hsource', hvictim'⟩
      · intro other x hne hx heq
        have hrecord₂ : j₂.fileReplacements.get p = some record := hrecords₂.symm ▸ hrecord
        exact hne (hinv₂.cleanups hx hrecord₂ heq)
    have holdSource := hsourceSound.remote oldSource hold
    have holdKind : oldSource.kind = .file := holdSource.1.trans hsourceKind
    obtain ⟨n₃, hstored₃, rfl⟩ := saveObject_eq_ok hsave₃
    have hinv₃ := hinv₂'.store (o := { cleanup.body with
        node := { oldSource with id := cleanup.body.node.id }
        remote := some oldSource
        remoteSequence := source.body.remoteSequence
        remoteOwned := true
        revision := _ }) ⟨?_, ?_, ?_, ?_, ?_, ?_, ?_, ?_, ?_, ?_⟩ hstored₃
    · refine ⟨hinv₃, by rw [heq₂, heq₁], by rw [heq₂, heq₁], ?_⟩
      have hreshaped₁ : Reshaped j j₁ := .of_store (by rw [heq₁]) hstored₁ (hinv.scope_known hvictim)
        (.same (hvictimSound.key.symm ▸ hvictim) ⟨rfl, rfl, rfl, rfl, rfl, rfl⟩ (by rw [heq₁]))
      have hreshaped₂ : Reshaped j₁ j₂ := .of_store (by rw [heq₂]) hstored₂
        (hinv₁.scope_known hsource₁)
        (.same (hsourceSound.key.symm ▸ hsource₁) ⟨rfl, rfl, rfl, rfl, rfl, rfl⟩ (by rw [heq₂]))
      exact (hreshaped₁.trans hreshaped₂).trans
        (.of_store rfl hstored₃ (hinv₂.scope_known hcleanup₂) (.of_none hspare.2 rfl))
    · intro row hrow
      obtain rfl : cleanup = row := by
        have hget : j₂.names.objects.get cleanup.body.id = some row := hrow
        rw [hcleanupSound.key, hcleanup₂] at hget
        cases hget
        rfl
      refine ⟨rfl, fun hfollows _ => ⟨holdKind, .inl hfollows⟩⟩
    · intro r hr
      cases hr
      exact ⟨rfl, holdSource.2⟩
    · exact fun _ => holdKind
    · exact fun hun => absurd (holdKind.symm.trans hun.1) (by decide)
    · exact fun hlinked => absurd (hcleanupUnlinked.symm.trans hlinked) (by decide)
    · exact fun hlinked => absurd (hcleanupUnlinked.symm.trans hlinked) (by decide)
    · exact hinv₂.scope_known hcleanup₂
    · -- The only replacement with this cleanup is the one that is over.
      intro row _ _
      right
      intro other x hx hsame
      by_cases hother : other = p
      · subst hother
        simp only [Table.get_set_self] at hx
        cases hx
        exact .inl rfl
      · simp only [Table.get_set_of_ne _ _ hother] at hx
        have hrecord₂ : j₂.fileReplacements.get p = some record := hrecords₂.symm ▸ hrecord
        exact absurd (hinv₂.cleanups hx hrecord₂ (hsame.trans hcleanupSound.key)) hother
    · intro row hrow _
      obtain rfl : cleanup = row := by
        have hget : j₂.names.objects.get cleanup.body.id = some row := hrow
        rw [hcleanupSound.key, hcleanup₂] at hget
        cases hget
        rfl
      exact .inl ⟨hcleanupUnlinked, rfl⟩
    · intro _ w hw
      have hnone : cleanup.body.workingFile = none := hspare.2
      rw [hnone] at hw
      cases hw

/-! ## `save` and `save_mutation` -/

/-- Storing an object does not look at the queue. -/
theorem saveObject_setQueue {o : NamespaceObject} (h : j.saveObject o = .ok j') (q : Queue) :
    ({ j with queue := q } : UploadJournal).saveObject o = .ok { j' with queue := q } := by
  unfold UploadJournal.saveObject at h ⊢
  obtain ⟨n', hsave, h⟩ := bind_eq_ok h
  cases h
  simp only [hsave]
  rfl

theorem confirmObject_setQueue {p : Uuid} {sequence : Nat} {remote : Node}
    (h : j.confirmObject p sequence remote = .ok j') (q : Queue) :
    ({ j with queue := q } : UploadJournal).confirmObject p sequence remote =
      .ok { j' with queue := q } := by
  unfold UploadJournal.confirmObject at h ⊢
  obtain ⟨n', hconfirm, h⟩ := bind_eq_ok h
  cases h
  simp only [hconfirm]
  rfl

theorem Exchanged.setQueue {p : Uuid} {sequence : Nat} {remote : Node}
    (h : Exchanged j p sequence remote j') (q : Queue) :
    Exchanged { j with queue := q } p sequence remote { j' with queue := q } := by
  cases h with
  | intro hrecord happlied hready hsource hvictim hcleanup hold hsourceOwned hvictimOwned hunlinked
      hidentity hdistinct hscope hnewer hcleanupOwned hcleanupUnlinked hsave₁ hsave₂ hsave₃ =>
    exact .intro (j := { j with queue := q }) hrecord happlied hready hsource hvictim hcleanup hold hsourceOwned hvictimOwned
      hunlinked hidentity hdistinct hscope hnewer hcleanupOwned hcleanupUnlinked
      (saveObject_setQueue hsave₁ q) (saveObject_setQueue hsave₂ q) (saveObject_setQueue hsave₃ q)

/-- What a function must know to store an operation does not depend on the names. -/
theorem Revises.congr {old new : Operation} {keys : List Resource} {bound : Bool}
    (h : Revises ok j old new keys bound) (hqueue : j'.queue = j.queue)
    (hsettings : j'.settings = j.settings)
    (hready : j.locallyReady new.id = true → j'.locallyReady new.id = true) :
    Revises ok j' old new keys bound := by
  refine ⟨?_, h.incomplete, h.continues, h.attempt, h.wellFormed, ?_, ?_, ?_, ?_, h.parent, h.held,
    fun hboth => hready (h.ready hboth), h.begun⟩ <;> rw [hqueue]
  · exact h.stored
  · exact h.lineage
  · exact h.settled
  · exact h.failed
  · rw [hsettings]
    exact h.keys

/-- Storing an upload, or a change that does not fail, lets no held removal fail. -/
theorem Revised.steady {q q' : Queue} {new : Operation} {keys : List Resource} {bound : Bool}
    (h : q.Revised q' new keys bound)
    (hnew : ∀ r, new = .mutation r → r.localReady = false → r.state = .failed →
      ∃ old, q.find new.id = some (.mutation old) ∧ old.localReady = false ∧ old.state = .failed) :
    q.Steady q' := by
  intro id r hr hready hstate
  by_cases hid : id = new.id
  · subst hid
    rw [h.find_self] at hr
    cases hr
    exact hnew r rfl hready hstate
  · rw [h.find_of_ne hid] at hr
    exact ⟨r, hr, hready, hstate⟩

/-- `UploadJournal::save` stores the record and keeps the invariant. The names are confirmed without
    a look at the queue, so they can be confirmed before the record is stored. -/
theorem save_leads (hinv : Inv ok [] j) {old r : UploadRecord} (h : j.save r = .ok j')
    (hrevises : Revises ok j (.upload old) (.upload r) [] false) (hstate : r.state ≠ .resolved)
    (hflight : r.state.inFlight = true → (old.state.inFlight = true ∧ r.attempt = old.attempt) ∨
      ∃ token, claimed r.id token ∧ r.attempt = some token) :
    Leads ok claimed gained [] j j' ∧ j.queue.Revised j'.queue (.upload r) [] false := by
  unfold UploadJournal.save at h
  obtain ⟨q₁, hupdate, h⟩ := bind_eq_ok h
  obtain ⟨q₂, hcomplete, h⟩ := bind_eq_ok h
  have hrevised := Queue.revised_of_updateUpload hinv.tidy hrevises.stored
    hrevises.continues.sequence hstate hupdate hcomplete
  have hevolves : j.queue.Evolves claimed gained q₂ :=
    hrevised.evolves hrevises.stored hrevises.continues hflight hrevises.begun
      (fun k hk => absurd hk List.not_mem_nil)
  have hsteady : j.queue.Steady q₂ := Revised.steady hrevised (fun _ hnew => by cases hnew)
  split at h
  · next remote huploaded hremote =>
    obtain ⟨⟨replaced, j₃⟩, hreplacement, h⟩ := bind_eq_ok h
    obtain ⟨n, hn, hid, hfile, htarget, htags⟩ := hrevises.wellFormed.receipt huploaded
    rw [hremote] at hn
    cases hn
    have hconfirmed : Confirmed ok remote := ⟨hid, htags⟩
    have hincomplete : ∀ op, j.queue.find r.id = some op → op.isComplete = false := by
      intro op hop
      obtain rfl : .upload old = op := Option.some.inj (hrevises.stored.symm.trans hop)
      exact hrevises.incomplete
    -- The journal with the names of the end and the queue of the beginning.
    have hstore : ∀ jc : UploadJournal, Inv ok [] jc → jc.queue = j.queue →
        jc.settings = j.settings → Reshaped j jc →
        (∀ record, jc.fileReplacements.get r.id = some record →
          record.remoteApplied = true ∨ record.rescuedAs.isSome = true) →
        (j.locallyReady r.id = true → jc.locallyReady r.id = true) →
        j' = { jc with queue := q₂ } →
        Leads ok claimed gained [] j j' ∧ j.queue.Revised j'.queue (.upload r) [] false := by
      intro jc hinvc hqueue hsettings hreshaped hdone hready hj'
      subst hj'
      have hrevised' : jc.queue.Revised q₂ (.upload r) [] false := by rw [hqueue]; exact hrevised
      have hinv' := hinvc.revise (hrevises.congr hqueue hsettings hready) hrevised'
        (fun _ _ => hdone)
      exact ⟨⟨⟨hinv', hevolves, hsettings, hreshaped.trans (.of_same rfl rfl rfl)⟩, hsteady⟩,
        hrevised⟩
    have hobject : ∀ {j₃}, j₃ = { j with queue := q₂ } → j.fileReplacements.get r.id = none →
        j₃.confirmObject r.id r.sequence remote = .ok j' →
        Leads ok claimed gained [] j j' ∧ j.queue.Revised j'.queue (.upload r) [] false := by
      rintro _ rfl hnone h
      have hconfirm : j.confirmObject r.id r.sequence remote = .ok { j' with queue := j.queue } :=
        confirmObject_setQueue h j.queue
      obtain ⟨hinvc, heq, hreshaped⟩ := confirmObject_inv hinv hconfirmed hconfirm
      have hrest : j' = { j with names := j'.names, queue := q₂ } := by
        unfold UploadJournal.confirmObject at h
        obtain ⟨n', _, h⟩ := bind_eq_ok h
        cases h
        rfl
      refine hstore _ hinvc rfl (by rw [hrest]) hreshaped ?_ ?_ (by rw [hrest])
      · intro record hrecord
        rw [hrest] at hrecord
        have hget : j.fileReplacements.get r.id = some record := hrecord
        rw [hnone] at hget
        cases hget
      · rw [hrest]
        exact fun hready => hready
    rcases confirmReplacement_cases hreplacement with ⟨rfl, hj₃, hnone⟩ | ⟨rfl, hj₃, record, hrecord, happlied⟩ |
        ⟨rfl, hexchanged⟩
    · exact hobject hj₃ hnone h
    · cases h
      refine hstore j hinv rfl rfl (.refl _) ?_ (fun hready => hready) hj₃
      intro record' hrecord'
      have hget : j.fileReplacements.get r.id = some record := hrecord
      rw [hget] at hrecord'
      cases hrecord'
      exact .inl happlied
    · cases h
      have hexchange : Exchanged j r.id r.sequence remote { j' with queue := j.queue } :=
        hexchanged.setQueue j.queue
      obtain ⟨hinvc, _, hsettings, hreshaped⟩ := hexchange.keeps hinv hconfirmed hfile htarget
        hincomplete
      have happlied := hexchanged.applied
      have hqueue : j'.queue = q₂ := happlied.1
      refine hstore _ hinvc rfl hsettings hreshaped ?_ ?_ (by rw [← hqueue])
      · intro record hrecord
        exact .inl (happlied.2.1 record hrecord)
      · intro _
        exact happlied.2.2
  · next hnot =>
    cases h
    have hopen : (Operation.upload r).isComplete = false := by
      cases hcases : r.state with
      | uploaded =>
        obtain ⟨n, hn, _⟩ := hrevises.wellFormed.receipt hcases
        exact (hnot n hcases hn).elim
      | resolved => exact absurd hcases hstate
      | _ => simp [Operation.isComplete, UploadState.isComplete, hcases]
    have hinv₂ := hinv.revise hrevises hrevised
      (fun hcomplete => absurd (hopen.symm.trans hcomplete) (by decide))
    exact ⟨⟨⟨hinv₂, hevolves, rfl, .of_same rfl rfl rfl⟩, hsteady⟩, hrevised⟩

/-- `UploadJournal::save_mutation` stores the record and keeps the invariant. -/
theorem saveMutation_reaches (hinv : Inv ok [] j) {old r : MutationRecord}
    (h : j.saveMutation r = .ok j')
    (hrevises : Revises ok j (.mutation old) (.mutation r) [] false) (hstate : r.state ≠ .resolved)
    (hflight : r.state.inFlight = true → (old.state.inFlight = true ∧ r.attempt = old.attempt) ∨
      ∃ token, claimed r.id token ∧ r.attempt = some token) :
    Reaches ok claimed gained [] j j' ∧ j.queue.Revised j'.queue (.mutation r) [] false := by
  unfold UploadJournal.saveMutation at h
  obtain ⟨q₁, hupdate, h⟩ := bind_eq_ok h
  obtain ⟨q₂, hcomplete, h⟩ := bind_eq_ok h
  have hrevised := Queue.revised_of_updateMutation hinv.tidy hrevises.stored
    hrevises.continues.sequence hstate hupdate hcomplete
  -- A change is not the upload of a replacement.
  have hinv₂ := hinv.revise hrevises hrevised (by
    intro _ _ record hrecord
    obtain ⟨upload, hupload⟩ := (hinv.replacements hrecord).upload
    rw [hrevises.stored] at hupload
    cases hupload)
  have hevolves : j.queue.Evolves claimed gained q₂ :=
    hrevised.evolves hrevises.stored hrevises.continues hflight hrevises.begun
      (fun k hk => absurd hk List.not_mem_nil)
  have hreshaped : Reshaped j { j with queue := q₂ } := .of_same rfl rfl rfl
  split at h
  · next remote happlied hreceipt =>
    obtain ⟨receipt, hsome, haccepts, htags⟩ := hrevises.wellFormed.receipt happlied
    rw [hreceipt] at hsome
    cases hsome
    have hid : remote.id ≠ "" := by
      unfold MutationRequest.accepts at haccepts
      split at haccepts
      · simp_all
      · next before parent name _ hintent hnode =>
        cases hnode
        simp only [Bool.and_eq_true, decide_eq_true_eq] at haccepts
        rw [haccepts.1.1.1.1.1]
        exact (hrevises.wellFormed.before before (by rw [hintent]; rfl)).1
      all_goals simp_all
    obtain ⟨hinv', heq, hreshaped'⟩ := confirmObject_inv hinv₂ ⟨hid, htags remote rfl⟩ h
    have hqueue' : j'.queue = q₂ := by rw [heq]
    exact ⟨⟨hinv', hqueue' ▸ hevolves, by rw [heq], hreshaped.trans hreshaped'⟩,
      hqueue' ▸ hrevised⟩
  · cases h
    exact ⟨⟨hinv₂, hevolves, rfl, hreshaped⟩, hrevised⟩

theorem saveMutation_leads (hinv : Inv ok [] j) {old r : MutationRecord}
    (h : j.saveMutation r = .ok j')
    (hrevises : Revises ok j (.mutation old) (.mutation r) [] false) (hstate : r.state ≠ .resolved)
    (hflight : r.state.inFlight = true → (old.state.inFlight = true ∧ r.attempt = old.attempt) ∨
      ∃ token, claimed r.id token ∧ r.attempt = some token)
    (hsteady : r.localReady = false → r.state = .failed →
      old.localReady = false ∧ old.state = .failed) :
    Leads ok claimed gained [] j j' ∧ j.queue.Revised j'.queue (.mutation r) [] false := by
  obtain ⟨hreaches, hrevised⟩ := saveMutation_reaches hinv h hrevises hstate hflight
  refine ⟨⟨hreaches, Revised.steady hrevised ?_⟩, hrevised⟩
  intro r' hr' hready hfailed
  cases hr'
  exact ⟨old, hrevises.stored, hsteady hready hfailed⟩

/-! ## Records of the same job -/

/-- Two records of one upload that want the same. -/
structure UploadRecord.SameJob (old new : UploadRecord) : Prop where
  id : new.id = old.id
  sequence : new.sequence = old.sequence
  scope : new.scope = old.scope
  intent : new.intent = old.intent
  base : new.base = old.base
  sha256 : new.sha256 = old.sha256
  workingFile : new.workingFile = old.workingFile

structure MutationRecord.SameJob (old new : MutationRecord) : Prop where
  id : new.id = old.id
  sequence : new.sequence = old.sequence
  request : new.request = old.request
  base : new.base = old.base
  ready : old.localReady = true → new.localReady = true

/-- An upload whose state has changed. -/
theorem Revises.of_upload (hinv : Inv ok underway j) {old new : UploadRecord}
    (hfind : j.queue.find old.id = some (.upload old)) (hjob : old.SameJob new)
    (hincomplete : old.state.isComplete = false)
    (hattempt : new.attempt.isSome = true ↔ new.state.inFlight = true)
    (hreceipt : new.state = .uploaded → ∃ n, new.remote = some n ∧ n.id ≠ "" ∧ n.kind = .file ∧
      n.target = none ∧ ∀ tag ∈ nodeTags n, ok tag)
    (hdigest : old.sha256.utf8ByteSize = 64 ∨ (new.state = .failed ∧ baseBound old.base = false))
    (hready : new.state.inFlight = true ∨ new.state.isComplete = true →
      j.locallyReady old.id = true)
    (hsettled : (Operation.upload new).isComplete = false →
      (Operation.upload new).waiting = false →
      baseBound old.base = true ∧ j.queue.destinationReady old.id = true)
    (hfailed : new.state = .failed → baseBound old.base = true →
      j.queue.destinationReady old.id = true) :
    Revises ok j (.upload old) (.upload new) [] false where
  stored := (congrArg j.queue.find hjob.id).trans hfind
  incomplete := hincomplete
  continues := by
    refine ⟨hjob.id, rfl, hjob.scope, hjob.sequence, rfl, ?_, ?_, fun _ => hjob.base, fun h => h, rfl,
      ?_, ?_, ?_⟩
    · simp only [Operation.base, hjob.base]
    · simp only [Operation.destination, hjob.base, hjob.intent]
    · simp only [Operation.bytes, hjob.sha256, hjob.workingFile]
    · simp only [Operation.newName, hjob.intent, imp_self, implies_true]
    · intro hcomplete
      rw [Operation.isComplete, hincomplete] at hcomplete
      cases hcomplete
  attempt := hattempt
  wellFormed := by
    have hwell : old.WellFormed ok := hinv.queue.wellFormed hfind
    refine ⟨hreceipt, ?_, ?_⟩
    · rw [hjob.base, hjob.intent]
      exact hwell.source
    · rw [hjob.sha256, hjob.base]
      exact hdigest.imp_right .inr
  lineage := by
    intro b hb hresolved
    obtain ⟨_, p, hp, _, _, hfollows⟩ := hinv.queue.lineage hfind (b := b) (hjob.base.symm.trans hb)
    obtain ⟨hscope, n, hn, hcarries⟩ := hfollows hresolved
    refine ⟨p, hp, hscope.trans hjob.scope.symm, n, hn, ?_⟩
    simp only [Operation.carries, hjob.intent]
    exact hcarries
  settled := by
    intro hnot hwaiting
    obtain ⟨hbound, hready⟩ := hsettled hnot hwaiting
    exact ⟨by rw [Operation.base, hjob.base]; exact hbound, .inr ((congrArg j.queue.destinationReady hjob.id).trans hready)⟩
  failed := by
    intro hfailing hbound
    refine .inr ((congrArg j.queue.destinationReady hjob.id).trans
      (hfailed (by simpa [Operation.failed] using hfailing) ?_))
    rw [Operation.base, hjob.base] at hbound
    exact hbound
  keys := by
    intro k hk
    have hcovered := hinv.covered hfind k
    simp only [Operation.keys, hjob.scope, hjob.intent] at hk hcovered
    rcases hcovered hk with hheld | ⟨b, p, n, hb, hrest⟩
    · exact .inr (.inl ((congrArg j.queue.resources hjob.id).symm ▸ hheld))
    · refine .inr (.inr ⟨b, p, n, hjob.base.trans hb, ?_⟩)
      simpa only [Operation.sourceKeys, hjob.scope] using hrest
  parent := by
    intro parent hparent
    refine .inr ⟨rfl, ?_⟩
    simp only [Operation.destination, hjob.base, hjob.intent] at hparent ⊢
    exact hparent
  held := fun _ hnew => by cases hnew
  ready := by
    intro hboth
    exact (congrArg j.locallyReady hjob.id).trans (hready hboth)
  begun := fun h => (Bool.false_ne_true h).elim

/-- A namespace change whose state has changed. -/
theorem Revises.of_mutation (hinv : Inv ok underway j) {old new : MutationRecord}
    (hfind : j.queue.find old.id = some (.mutation old)) (hjob : old.SameJob new)
    (hincomplete : old.state.isComplete = false)
    (hlive : old.state ≠ .failed ∨ baseBound old.base = true)
    (hresolved : new.state = .resolved → (Operation.mutation old).kind = none)
    (hattempt : new.attempt.isSome = true ↔ new.state.inFlight = true)
    (hreceipt : new.state = .applied → old.state.inFlight = true ∧
      ∃ receipt, new.receipt = some receipt ∧ old.request.accepts receipt = true ∧
        ∀ n, receipt = .upsert n → ∀ tag ∈ nodeTags n, ok tag)
    (hsettled : (Operation.mutation new).isComplete = false →
      (Operation.mutation new).waiting = false →
      baseBound old.base = true ∧ j.queue.destinationReady old.id = true)
    (hfailed : new.state = .failed → baseBound old.base = true →
      j.queue.destinationReady old.id = true)
    (hheld : new.localReady = false →
      new.state = .pending ∨ (new.state = .failed ∧ baseBound old.base = false)) :
    Revises ok j (.mutation old) (.mutation new) [] false where
  stored := (congrArg j.queue.find hjob.id).trans hfind
  incomplete := hincomplete
  continues := by
    refine ⟨hjob.id, rfl, ?_, hjob.sequence, ?_, ?_, ?_, fun _ => hjob.base, hjob.ready, ?_, rfl,
      ?_, ?_⟩
    · simp only [Operation.scope, hjob.request]
    · simp only [Operation.kind, hjob.request]
    · simp only [Operation.base, hjob.base]
    · simp only [Operation.destination, hjob.request]
    · simp only [Operation.removesFile, hjob.request]
    · simp only [Operation.newName, hjob.request, imp_self, implies_true]
    · intro hcomplete
      rw [Operation.isComplete, hincomplete] at hcomplete
      cases hcomplete
  attempt := hattempt
  wellFormed := by
    have hwell : old.WellFormed ok := hinv.queue.wellFormed hfind
    refine ⟨?_, ?_, ?_, ?_, ?_⟩
    · intro b hb
      rw [hjob.request] at hb
      obtain ⟨hid, hparent⟩ := hwell.before b hb
      refine ⟨hid, .inl (hparent.resolve_right ?_)⟩
      rintro ⟨hstate, hunbound⟩
      rcases hlive with hlive | hlive
      · exact hlive hstate
      · rw [hunbound] at hlive
        cases hlive
    · intro hstate
      rw [← hresolved hstate]
      simp only [Operation.kind, hjob.request]
    · rw [hjob.request]
      exact fun happlied => (hreceipt happlied).2
    · rw [hjob.base, hjob.request]
      exact hwell.source
    · rw [hjob.base, hjob.request]
      exact hwell.base
  lineage := by
    intro b hb hbound
    obtain ⟨_, p, hp, _, _, hfollows⟩ := hinv.queue.lineage hfind (b := b) (hjob.base.symm.trans hb)
    obtain ⟨hscope, n, hn, hcarries⟩ := hfollows hbound
    refine ⟨p, hp, hscope.trans ?_, n, hn, ?_⟩
    · simp only [Operation.scope, hjob.request]
    · simp only [Operation.carries, hjob.request]
      exact hcarries
  settled := by
    intro hnot hwaiting
    obtain ⟨hbound, hready⟩ := hsettled hnot hwaiting
    exact ⟨by rw [Operation.base, hjob.base]; exact hbound, .inr ((congrArg j.queue.destinationReady hjob.id).trans hready)⟩
  failed := by
    intro hfailing hbound
    refine .inr ((congrArg j.queue.destinationReady hjob.id).trans
      (hfailed (by simpa [Operation.failed] using hfailing) ?_))
    rw [Operation.base, hjob.base] at hbound
    exact hbound
  keys := by
    intro k hk
    have hcovered := hinv.covered hfind k
    simp only [Operation.keys, hjob.request] at hk hcovered
    rcases hcovered hk with hheld | ⟨b, p, n, hb, hrest⟩
    · exact .inr (.inl ((congrArg j.queue.resources hjob.id).symm ▸ hheld))
    · refine .inr (.inr ⟨b, p, n, hjob.base.trans hb, ?_⟩)
      simpa only [Operation.sourceKeys, hjob.request] using hrest
  parent := by
    intro parent hparent
    refine .inr ⟨rfl, ?_⟩
    simp only [Operation.destination, hjob.request] at hparent ⊢
    exact hparent
  held := by
    intro r hr
    cases hr
    rw [hjob.base]
    exact hheld
  ready := by
    intro _
    -- A change is not the upload of a replacement.
    unfold UploadJournal.locallyReady
    cases hrecord : j.fileReplacements.get (Operation.mutation new).id with
    | none => rfl
    | some record =>
      obtain ⟨upload, hupload⟩ := (hinv.replacements hrecord).upload
      have hstored : j.queue.find (Operation.mutation new).id = some (.mutation old) :=
        (congrArg j.queue.find hjob.id).trans hfind
      rw [hstored] at hupload
      cases hupload
  begun := by
    intro hbegun
    rcases Bool.or_eq_true_iff.mp hbegun with hflight | happlied
    · exact .inr hflight
    · left
      have hheld : old.state.inFlight = true := (hreceipt (of_decide_eq_true happlied)).1
      exact Operation.begun_of_inFlight rfl hheld

end Cirrove.Journal
