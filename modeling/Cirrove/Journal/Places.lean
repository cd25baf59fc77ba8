import Cirrove.Journal.Files

/-!
# Operations on paths keep the invariant

Adopting a file of the cloud, creating, moving and removing files and folders, and handing a file
back to the cloud. Each stores one object, most of them together with the operation they queue.
-/

namespace Cirrove.Journal

open Cirrove.Library

variable {ok : String → Prop} {underway : List Uuid} {j j' : UploadJournal}
  {claimed : Uuid → Uuid → Prop} {gained : Uuid → Resource → Prop}

/-- An object is stored, and its working file stays as it is or is given up. -/
theorem store_leads {o : NamespaceObject} (h : j.saveObject o = .ok j') (hinv : Inv ok underway j)
    (hstorable : Storable ok underway j o) (hfile : ∀ n, FileKept j { j with names := n } o) :
    Leads ok claimed gained underway j j' ∧ Stored j.settings.lowercase j.names j'.names o ∧
      j' = { j with names := j'.names } := by
  obtain ⟨n, hstored, rfl⟩ := saveObject_eq_ok h
  exact ⟨.of_inv (hinv.store hstorable hstored) rfl rfl (.of_store rfl hstored hstorable.scope (hfile n)),
    hstored, rfl⟩

/-- An object like one that was read is stored. -/
theorem like_leads {o : NamespaceObject} (h : j.saveObject o = .ok j') (hinv : Inv ok underway j)
    {row : ObjectRow} (hrow : j.names.objects.get o.id = some row) (hlike : row.body.Like o)
    (hfits : Fits ok j.queue o)
    (hfile : o.unlinked = true → ∀ w, o.workingFile = some w →
      ∃ file, j.workingFiles.get w = some file ∧ file.body.latest = o.latest)
    (hkept : ∀ n, FileKept j { j with names := n } o) :
    Leads ok claimed gained underway j j' ∧ Stored j.settings.lowercase j.names j'.names o ∧
      j' = { j with names := j'.names } := by
  have hscope : (j.names.scopes.get o.scope).isSome = true := by
    rw [hlike.scope]
    exact hinv.scope_known hrow
  obtain ⟨hinv', hstored, heq⟩ :=
    saveObject_like hinv h hfits hscope (like_of_row hrow hlike) hfile
  refine ⟨.of_inv hinv' ?_ ?_ ?_, hstored, heq⟩
  · rw [heq]
  · rw [heq]
  · rw [heq]
    exact .of_store rfl hstored hscope (hkept _)

/-- The working files when the object `o` is stored in the place of `old`: its file is written too,
    if it has one. -/
inductive FileMoved (ok : String → Prop) (j : UploadJournal) (old o : NamespaceObject) :
    Table Uuid WorkingRow → Prop where
  | without (hnone : o.workingFile = none) : FileMoved ok j old o j.workingFiles
  | written {w : Uuid} {file row : WorkingRow} (hold : old.workingFile = some w)
      (hnew : o.workingFile = some w) (hfile : j.workingFiles.get w = some file)
      (hsound : FileSound ok j.queue w row.body) (hlatest : row.body.latest = o.latest)
      (hmatches : Matches j.settings.lowercase old file → Matches j.settings.lowercase o row) :
      FileMoved ok j old o (j.workingFiles.set w row)

/-- An object that has a name is stored together with its working file. -/
theorem storeMoved_leads {files : Table Uuid WorkingRow} {o : NamespaceObject} {row : ObjectRow}
    (h : ({ j with workingFiles := files } : UploadJournal).saveObject o = .ok j')
    (hinv : Inv ok underway j) (hrow : j.names.objects.get o.id = some row)
    (hlinked : row.body.unlinked = false) (hlike : row.body.Like o) (hfits : Fits ok j.queue o)
    (hfiles : FileMoved ok j row.body o files) :
    Leads ok claimed gained underway j j' ∧ Stored j.settings.lowercase j.names j'.names o ∧
      j' = { j with names := j'.names, workingFiles := files } := by
  have hscope : (j.names.scopes.get o.scope).isSome = true := by
    rw [hlike.scope]
    exact hinv.scope_known hrow
  obtain ⟨hinv₁, hfile, hkept⟩ : Inv ok underway { j with workingFiles := files } ∧
      (∀ w, o.workingFile = some w → ∃ file, files.get w = some file ∧ file.body.latest = o.latest) ∧
      ∀ n, FileKept j { j with names := n, workingFiles := files } o := by
    cases hfiles with
    | without hnone =>
      refine ⟨hinv, ?_, fun n => .of_none hnone rfl⟩
      intro w hw
      rw [hnone] at hw
      cases hw
    | @written w file new hold hnew hfile hsound hlatest hmatches =>
      refine ⟨hinv.setFile new hsound ?_, ?_, ?_⟩
      · -- The file has no other object.
        intro x other hother hun hw
        obtain rfl := hinv.index.working hother hrow (by rw [hw]; rfl) (hw.trans hold.symm)
        rw [hrow] at hother
        cases hother
        exact absurd (hlinked.symm.trans hun) (by decide)
      · intro x hx
        rw [hnew] at hx
        cases hx
        exact ⟨new, Table.get_set_self _ _ _, hlatest⟩
      · intro n
        exact .kept hfile hrow hold hnew (Table.get_set_self _ _ _) hmatches
          (fun x hx => Table.get_set_of_ne _ _ hx)
  obtain ⟨hinv', hstored, heq⟩ :=
    saveObject_like hinv₁ h hfits hscope (like_of_row hrow hlike) (fun _ => hfile)
  refine ⟨.of_inv hinv' ?_ ?_ ?_, hstored, heq⟩
  · rw [heq]
  · rw [heq]
  · rw [heq]
    exact .of_store rfl hstored hscope (hkept _)

theorem configureNamespace_leads (hinv : Inv ok [] j) {scope : Scope} {names : NamespaceNames}
    (h : j.configureNamespace scope names = .ok j') : Leads ok claimed gained [] j j' := by
  unfold UploadJournal.configureNamespace at h
  obtain ⟨_, _, h⟩ := bind_eq_ok h
  obtain ⟨_, _, h⟩ := bind_eq_ok h
  split at h
  · cases h
    exact .refl hinv
  · next hnone =>
    cases h
    have hkept : ∀ x known, j.names.scopes.get x = some known →
        (j.names.scopes.set scope names).get x = some known := by
      intro x known hx
      rw [Table.get_set_of_ne]
      · exact hx
      · rintro rfl
        rw [hx] at hnone
        exact hnone rfl
    exact .of_inv (hinv.setScopes hkept) rfl rfl
      (Relation.ReflTransGen.single (.configure rfl rfl hkept rfl))

/-! ## Adopting a file of the cloud -/

/-- What the checks of `observe_namespace_file` say about the node. -/
theorem observed_spec {scope : Scope} {node : Node} {intent : MutationIntent}
    (hintent : intent = .removeFile node ∨ intent = .removeFolder node)
    (h : (MutationRequest.mk scope intent).validate = true) :
    node.id ≠ "" ∧ node.target = none := by
  have hbefore : intent.before = some node := by
    rcases hintent with rfl | rfl
    · rfl
    · rfl
  unfold MutationRequest.validate at h
  simp only [Bool.and_eq_true, hbefore, Option.all_some] at h
  have hvalid := h.1.2
  unfold validBefore at hvalid
  simp only [Bool.and_eq_true, Option.isNone_iff_eq_none] at hvalid
  exact ⟨validText_ne hvalid.1.1.1.1.1, hvalid.1.2⟩

/-- The object of a cloud item that is listed. -/
theorem adoptItem_leads (hinv : Inv ok [] j) {env : Env} {scope : Scope} {node : Node}
    {o : NamespaceObject} (h : j.adoptItem env scope node = .ok (o, j'))
    (hunused : Unused j (env.uuid 0)) (hid : node.id ≠ "") (htarget : node.target = none)
    (htags : ∀ tag ∈ nodeTags node, ok tag) : Leads ok claimed gained [] j j' := by
  unfold UploadJournal.adoptItem at h
  split at h
  · next old hold =>
    obtain ⟨_, hlinked, h⟩ := bind_eq_ok h
    split at h
    · cases h
      exact .refl hinv
    · next hfollows =>
      obtain ⟨_, hcheck, h⟩ := bind_eq_ok h
      obtain ⟨revision, _, h⟩ := bind_eq_ok h
      obtain ⟨j₁, hsave, h⟩ := bind_eq_ok h
      cases h
      simp only [check_eq_ok, Bool.and_eq_true, Option.isNone_iff_eq_none, Bool.not_eq_true',
        Bool.not_eq_false] at hlinked hcheck hfollows
      obtain ⟨x, row, hindexed, hrow, rfl⟩ := byRemote_eq_some hold
      obtain ⟨row', _, hrow', howned, _, _⟩ := (hinv.index.remote _ _).mp hindexed
      rw [hrow] at hrow'
      cases hrow'
      have hself : ∀ other, j.names.objects.get row.body.id = some other → other = row := by
        intro other hother
        rw [hinv.index.key hrow, hrow] at hother
        exact (Option.some.inj hother).symm
      refine (store_leads hsave hinv ?_ (fun n => .of_none hcheck.1.1 rfl)).1
      refine ⟨?_, ?_, ?_, ?_, ?_, ?_, hinv.scope_known hrow, ?_, ?_, ?_⟩
      · intro other hother
        obtain rfl := hself other hother
        exact ⟨rfl, fun hnot => absurd (hfollows.symm.trans hnot) (by decide)⟩
      · intro r hr
        cases hr
        exact ⟨rfl, fun _ => htarget, hid, htags⟩
      · intro hsome
        rw [show row.body.workingFile = none from hcheck.1.1] at hsome
        cases hsome
      · intro hun
        cases hun.2
      · intro _ p hp
        rw [show row.body.latest = none from hcheck.1.2] at hp
        cases hp
      · intro _ _ p op hp
        rw [show row.body.latest = none from hcheck.1.2] at hp
        cases hp
      · intro other hother hspare
        obtain rfl := hself other hother
        exact absurd (howned.symm.trans hspare.1) (by decide)
      · intro other hother hun
        obtain rfl := hself other hother
        exact absurd (hlinked.symm.trans hun) (by decide)
      · intro hun
        exact absurd (hlinked.symm.trans hun) (by decide)
  · obtain ⟨_, _, h⟩ := bind_eq_ok h
    obtain ⟨names, _, h⟩ := bind_eq_ok h
    obtain ⟨j₁, hsave, h⟩ := bind_eq_ok h
    cases h
    obtain ⟨hpolicy, hscope⟩ : Leads ok claimed gained [] j
        { j with names := j.names.ensureLegacyPolicy scope } ∧ _ := ensurePolicy_leads hinv scope
    obtain ⟨scopes, heq, _, _⟩ := ensureLegacyPolicy_spec j.names scope
    have hnone : ∀ row, (j.names.ensureLegacyPolicy scope).objects.get (env.uuid 0) ≠ some row := by
      intro row hrow
      rw [heq] at hrow
      exact Option.some_ne_none _ (hrow.symm.trans hunused.objects)
    refine hpolicy.trans (store_leads hsave hpolicy.inv ?_ (fun n => .of_none rfl rfl)).1
    refine ⟨fun row hrow => absurd hrow (hnone row), ?_, ?_, ?_, ?_, ?_, hscope,
      fun row hrow => absurd hrow (hnone row), fun row hrow => absurd hrow (hnone row), ?_⟩
    · intro r hr
      cases hr
      exact ⟨rfl, fun _ => htarget, hid, htags⟩
    · intro hsome
      cases hsome
    · intro hun
      cases hun.2
    · intro _ p hp
      cases hp
    · intro _ _ p op hp
      cases hp
    · intro hun
      cases hun

theorem observeNamespaceFile_leads (hinv : Inv ok [] j) {env : Env} {scope : Scope} {node : Node}
    {o : NamespaceObject} (h : j.observeNamespaceFile env scope node = .ok (o, j'))
    (hunused : Unused j (env.uuid 0)) (htags : ∀ tag ∈ nodeTags node, ok tag) :
    Leads ok claimed gained [] j j' := by
  unfold UploadJournal.observeNamespaceFile at h
  obtain ⟨_, _, h⟩ := bind_eq_ok h
  obtain ⟨intent, hintent, hvalid, h⟩ : ∃ intent, (intent = MutationIntent.removeFile node ∨
      intent = .removeFolder node) ∧ (MutationRequest.mk scope intent).validate = true ∧
      j.adoptItem env scope node = .ok (o, j') := by
    cases hkind : node.kind with
    | file =>
      rw [hkind] at h
      obtain ⟨_, hpure, h⟩ := bind_eq_ok h
      cases hpure
      obtain ⟨_, hvalid, h⟩ := bind_eq_ok h
      exact ⟨_, .inl rfl, check_eq_ok.mp hvalid, h⟩
    | folder =>
      rw [hkind] at h
      obtain ⟨_, hpure, h⟩ := bind_eq_ok h
      cases hpure
      obtain ⟨_, hvalid, h⟩ := bind_eq_ok h
      exact ⟨_, .inr rfl, check_eq_ok.mp hvalid, h⟩
    | shortcut =>
      rw [hkind] at h
      cases h
  obtain ⟨hid, htarget⟩ := observed_spec hintent hvalid
  exact adoptItem_leads hinv h hunused hid htarget htags

/-! ## Recording the way to a change -/

/-- A node of a path has an identity, and only a link leads somewhere else. -/
theorem validAncestor_spec {node : Node} (h : UploadJournal.validAncestor node = true) :
    node.id ≠ "" ∧ (node.kind ≠ .shortcut → node.target = none) := by
  unfold UploadJournal.validAncestor at h
  simp only [Bool.and_eq_true] at h
  obtain ⟨⟨⟨hid, _⟩, _⟩, htarget⟩ := h
  refine ⟨validText_ne hid, ?_⟩
  intro hkind
  split at htarget
  · next hnone => exact hnone
  · next hshortcut _ => exact absurd hshortcut hkind
  · cases htarget

/-- The cloud's node of a path is the traversed one under the identity its object has there. -/
theorem remoteAncestor_spec {n : Namespace} {scope : Scope} {old : Option NamespaceObject}
    {node remote : Node} (h : UploadJournal.remoteAncestor n scope old node = .ok remote) :
    remote.kind = node.kind ∧ remote.target = node.target ∧ remote.etag = node.etag ∧
      (old = none → remote.id = node.id) ∧
      ∀ o, old = some o → ∃ r, o.remote = some r ∧ remote.id = r.id := by
  unfold UploadJournal.remoteAncestor at h
  obtain ⟨id, hid, h⟩ := bind_eq_ok h
  obtain ⟨parentId, _, h⟩ := bind_eq_ok h
  cases h
  refine ⟨rfl, rfl, rfl, ?_, ?_⟩
  · rintro rfl
    cases hid
    rfl
  · rintro o rfl
    unfold UploadJournal.remoteId at hid
    cases hremote : o.remote with
    | none =>
      simp only [hremote] at hid
      cases hid
    | some r =>
      simp only [hremote] at hid
      cases hid
      exact ⟨r, rfl, rfl⟩

/-- An object that is stored takes no other object's local name. -/
theorem Stored.byLocal {lowercase : String → String} {n n' : Namespace} {o : NamespaceObject}
    (h : Stored lowercase n n' o) {scope : Scope} {item : String}
    (hsome : (n.byLocal scope item).isSome = true) : (n'.byLocal scope item).isSome = true := by
  obtain ⟨x, hx⟩ := Option.isSome_iff_exists.mp hsome
  obtain ⟨id, row, hrow, hidentity, _⟩ := byLocal_eq_some hx
  obtain ⟨row', hrow', hsame⟩ : ∃ row', n'.objects.get id = some row' ∧
      row'.identity = row.identity := by
    by_cases hid : id = o.id
    · subst hid
      exact ⟨_, h.self, by simp [hrow]⟩
    · exact ⟨row, (h.others id hid).trans hrow, rfl⟩
  rw [Option.isSome_iff_ne_none]
  exact byLocal_ne_none hrow' (hsame.trans hidentity)

section Capture

variable {env : Env} {retained : RetainedAncestors} {scope : Scope} {node : Node}

/-- The object of a traversed node that was known. -/
theorem captureAgain_leads (hinv : Inv ok [] j) {id : Uuid} {row : ObjectRow}
    (hrow : j.names.objects.get id = some row)
    (h : j.captureAgain retained scope node row.body = .ok j')
    (htarget : node.kind ≠ .shortcut → node.target = none)
    (hetag : ∀ tag ∈ node.etag.toList, ok tag) :
    Leads ok claimed gained [] j j' ∧ (j' = j ∨ ∃ o, o.id = id ∧
      Stored j.settings.lowercase j.names j'.names o) := by
  unfold UploadJournal.captureAgain at h
  obtain ⟨_, hcheck, h⟩ := bind_eq_ok h
  simp only [check_eq_ok, Bool.and_eq_true, Bool.not_eq_true', decide_eq_true_eq] at hcheck
  obtain ⟨hlinked, hkind⟩ := hcheck
  split at h
  · cases h
    exact ⟨.refl hinv, .inl rfl⟩
  · next hfollowing =>
    simp only [Bool.or_eq_true, Bool.not_eq_true', not_or, Bool.not_eq_false] at hfollowing
    obtain ⟨remote, hremote, h⟩ := bind_eq_ok h
    split at h
    · obtain ⟨_, _, h⟩ := bind_eq_ok h
      cases h
      exact ⟨.refl hinv, .inl rfl⟩
    · obtain ⟨revision, _, h⟩ := bind_eq_ok h
      obtain ⟨_, _, hsave⟩ := bind_eq_ok h
      obtain ⟨_, hworking, hlatest, _⟩ := hinv.index.follows hrow hfollowing.1
      have hsound := hinv.objects hrow
      -- The object keeps its identity in the cloud.
      obtain ⟨hrkind, hrtarget, hretag, _, hrid⟩ := remoteAncestor_spec hremote
      obtain ⟨r, hr, hsame⟩ := hrid _ rfl
      obtain ⟨_, _, hrnamed, hrtags⟩ := hsound.remote r hr
      have hself : ∀ other, j.names.objects.get row.body.id = some other → other = row := by
        intro other hother
        rw [hsound.key, hrow] at hother
        exact (Option.some.inj hother).symm
      obtain ⟨n, hstored, heq⟩ := saveObject_eq_ok hsave
      have hown : ∃ o, o.id = id ∧ Stored j.settings.lowercase j.names j'.names o := by
        rw [heq]
        refine ⟨_, ?_, hstored⟩
        exact hsound.key
      refine ⟨(store_leads hsave hinv ?_ (fun n => .of_none hworking rfl)).1, .inr hown⟩
      refine ⟨?_, ?_, ?_, ?_, ?_, ?_, hinv.scope_known hrow, ?_, ?_, ?_⟩
      · intro other hother
        obtain rfl := hself other hother
        exact ⟨rfl, fun hnot => absurd (hfollowing.1.symm.trans hnot) (by decide)⟩
      · intro x hx
        cases hx
        refine ⟨hrkind, fun hfolder => hrtarget.trans (htarget (hrkind ▸ hfolder)),
          hsame ▸ hrnamed, ?_⟩
        intro tag htag
        rcases List.mem_cons.mp htag with rfl | htag
        · rw [hsame]
          exact hrtags _ List.mem_cons_self
        · rw [hretag] at htag
          exact hetag tag htag
      · intro hsome
        rw [show row.body.workingFile = none from hworking] at hsome
        cases hsome
      · intro hun
        cases hun.2
      · intro _ p hp
        rw [show row.body.latest = none from hlatest] at hp
        cases hp
      · intro _ _ p op hp
        rw [show row.body.latest = none from hlatest] at hp
        cases hp
      · intro other hother hspare
        obtain rfl := hself other hother
        exact .inl hspare
      · intro other hother hun
        obtain rfl := hself other hother
        exact absurd (hlinked.symm.trans hun) (by decide)
      · intro hun
        exact absurd (hlinked.symm.trans hun) (by decide)

/-- The object of a traversed node that is new. -/
theorem captureFirst_leads (hinv : Inv ok [] j) {id : Uuid}
    (h : j.captureFirst id retained scope node = .ok j')
    (hscope : (j.names.scopes.get scope).isSome = true) (hfree : j.names.objects.get id = none)
    (hnamed : node.id ≠ "") (htarget : node.kind ≠ .shortcut → node.target = none)
    (htags : ∀ tag ∈ nodeTags node, ok tag) :
    Leads ok claimed gained [] j j' ∧ ∃ o, o.id = id ∧
      Stored j.settings.lowercase j.names j'.names o := by
  unfold UploadJournal.captureFirst at h
  obtain ⟨remote, hremote, h⟩ := bind_eq_ok h
  obtain ⟨_, _, h⟩ := bind_eq_ok h
  obtain ⟨names, _, h⟩ := bind_eq_ok h
  obtain ⟨_, _, hsave⟩ := bind_eq_ok h
  obtain ⟨hrkind, hrtarget, hretag, hrid, _⟩ := remoteAncestor_spec hremote
  have hnone : ∀ row, j.names.objects.get id ≠ some row := by
    intro row hrow
    exact Option.some_ne_none _ (hrow.symm.trans hfree)
  obtain ⟨n, hstored, heq⟩ := saveObject_eq_ok hsave
  have hown : ∃ o, o.id = id ∧ Stored j.settings.lowercase j.names j'.names o := by
    rw [heq]
    refine ⟨_, ?_, hstored⟩
    rfl
  refine ⟨(store_leads hsave hinv ?_ (fun n => .of_none rfl rfl)).1, hown⟩
  refine ⟨fun row hrow => absurd hrow (hnone row), ?_, ?_, ?_, ?_, ?_, hscope,
    fun row hrow => absurd hrow (hnone row), fun row hrow => absurd hrow (hnone row), ?_⟩
  · intro x hx
    cases hx
    refine ⟨hrkind, fun hfolder => hrtarget.trans (htarget (hrkind ▸ hfolder)), ?_, ?_⟩
    · rw [hrid rfl]
      exact hnamed
    · unfold nodeTags
      rw [hrid rfl, hretag]
      exact htags
  · intro hsome
    cases hsome
  · intro hun
    cases hun.2
  · intro _ p hp
    cases hp
  · intro _ _ p op hp
    cases hp
  · intro hun
    cases hun

variable {drawn : Nat}

/-- What stays true while a path is recorded: no object has an identity that is still to be drawn,
    and what has a local name keeps it. -/
structure Captures (env : Env) (drawn : Nat) (j j' : UploadJournal) : Prop where
  free : ∀ n, drawn ≤ n → j'.names.objects.get (env.uuid n) = none
  named : ∀ scope item, (j.names.byLocal scope item).isSome = true →
    (j'.names.byLocal scope item).isSome = true

/-- What the caller knows of a traversed node. -/
structure Traversed (ok : String → Prop) (j : UploadJournal) (scope : Scope) (node : Node) :
    Prop where
  etag : ∀ tag ∈ node.etag.toList, ok tag
  id : (j.names.byLocal scope node.id).isSome = true ∨ ok node.id

/-- One entry of a path is recorded. -/
theorem captureAncestor_leads (hinv : Inv ok [] j) {drawn' : Nat}
    (h : j.captureAncestor env retained drawn scope node = .ok (drawn', j'))
    (hinjective : Function.Injective env.uuid)
    (hfree : ∀ n, drawn ≤ n → j.names.objects.get (env.uuid n) = none)
    (htraversed : Traversed ok j scope node) :
    Leads ok claimed gained [] j j' ∧ Captures env drawn' j j' := by
  unfold UploadJournal.captureAncestor at h
  obtain ⟨_, _, h⟩ := bind_eq_ok h
  obtain ⟨_, hvalid, h⟩ := bind_eq_ok h
  rw [check_eq_ok, Bool.and_eq_true] at hvalid
  obtain ⟨hnamed, htarget⟩ := validAncestor_spec hvalid.2
  obtain ⟨hpolicy, hscope⟩ : Leads ok claimed gained [] j
      { j with names := j.names.ensureLegacyPolicy scope } ∧ _ := ensurePolicy_leads hinv scope
  obtain ⟨scopes, heq, _, _⟩ := ensureLegacyPolicy_spec j.names scope
  have hobjects : (j.names.ensureLegacyPolicy scope).objects = j.names.objects := by rw [heq]
  have hlocal : ∀ {x item}, (j.names.byLocal x item).isSome = true →
      ((j.names.ensureLegacyPolicy scope).byLocal x item).isSome = true := by
    intro x item hsome
    rw [heq]
    exact hsome
  split at h
  · next old hold =>
    obtain ⟨j₁, hagain, h⟩ := bind_eq_ok h
    cases h
    obtain ⟨id, row, hrow, _, rfl⟩ := byLocal_eq_some hold
    obtain ⟨hleads, hstored⟩ :=
      captureAgain_leads hpolicy.inv (hobjects ▸ hrow) hagain htarget htraversed.etag
    refine ⟨hpolicy.trans hleads, ?_⟩
    rcases hstored with rfl | ⟨o, rfl, hstored⟩
    · exact ⟨fun n hn => hobjects ▸ hfree n hn, fun _ _ => hlocal⟩
    · refine ⟨?_, fun _ _ hsome => hstored.byLocal (hlocal hsome)⟩
      intro n hn
      have hne : env.uuid n ≠ o.id := by
        intro hid
        rw [← hid, hfree n hn] at hrow
        cases hrow
      rw [hstored.others _ hne]
      exact hobjects ▸ hfree n hn
  · next hold =>
    obtain ⟨j₁, hfirst, h⟩ := bind_eq_ok h
    cases h
    have htags : ∀ tag ∈ nodeTags node, ok tag := by
      intro tag htag
      rcases List.mem_cons.mp htag with rfl | htag
      · rcases htraversed.id with hsome | hid
        · rw [hold] at hsome
          cases hsome
        · exact hid
      · exact htraversed.etag tag htag
    obtain ⟨hleads, o, hid, hstored⟩ := captureFirst_leads hpolicy.inv hfirst hscope
      (hobjects ▸ hfree drawn le_rfl) hnamed htarget htags
    refine ⟨hpolicy.trans hleads, ?_, fun _ _ hsome => hstored.byLocal (hlocal hsome)⟩
    intro n hn
    have hne : env.uuid n ≠ o.id := by
      intro heq
      have := hinjective (heq.trans hid)
      omega
    rw [hstored.others _ hne]
    exact hobjects ▸ hfree n (Nat.le_of_succ_le hn)

/-- `captureEach` keeps the invariant; the induction is on the entries. -/
theorem captureEach_leads (hinv : Inv ok [] j) {entries : List (Scope × Node)}
    (h : UploadJournal.captureEach env retained drawn entries j = .ok j')
    (hinjective : Function.Injective env.uuid)
    (hfree : ∀ n, drawn ≤ n → j.names.objects.get (env.uuid n) = none)
    (htraversed : ∀ scope node, (scope, node) ∈ entries → Traversed ok j scope node) :
    Leads ok claimed gained [] j j' := by
  induction entries generalizing drawn j with
  | nil =>
    cases h
    exact .refl hinv
  | cons entry rest ih =>
    obtain ⟨⟨drawn₁, j₁⟩, hone, hrest⟩ := bind_eq_ok h
    obtain ⟨hleads, hcaptures⟩ := captureAncestor_leads hinv hone hinjective hfree
      (htraversed entry.1 entry.2 List.mem_cons_self)
    refine hleads.trans (ih hleads.inv hrest hcaptures.free ?_)
    intro scope node hmem
    have hentry := htraversed scope node (List.mem_cons_of_mem _ hmem)
    exact ⟨hentry.etag, hentry.id.imp_left (hcaptures.named scope node.id)⟩

theorem captureNamespaceAncestors_leads (hinv : Inv ok [] j) {entries : List (Scope × Node)}
    (h : j.captureNamespaceAncestors env entries = .ok j')
    (hinjective : Function.Injective env.uuid) (hunused : ∀ n, Unused j (env.uuid n))
    (htraversed : ∀ scope node, (scope, node) ∈ entries → Traversed ok j scope node) :
    Leads ok claimed gained [] j j' := by
  unfold UploadJournal.captureNamespaceAncestors at h
  obtain ⟨_, _, h⟩ := bind_eq_ok h
  exact captureEach_leads hinv h hinjective (fun n _ => (hunused n).objects) htraversed

end Capture

/-! ## Folders -/

/-- `create_namespace_directory` stores a folder that waits for its creation. -/
theorem createNamespaceDirectory_leads (hinv : Inv ok [] j) {env : Env} {scope : Scope}
    {parent name : String} {record : MutationRecord}
    (h : j.createNamespaceDirectory env scope parent name = .ok (record, j'))
    (hobject : Unused j (env.uuid 0)) (hmutation : Unused j (env.uuid 1))
    (hparent : parent ≠ localDirectory (env.uuid 0)) : Leads ok claimed gained [] j j' := by
  unfold UploadJournal.createNamespaceDirectory at h
  obtain ⟨_, _, h⟩ := bind_eq_ok h
  obtain ⟨_, _, h⟩ := bind_eq_ok h
  obtain ⟨_, _, h⟩ := bind_eq_ok h
  obtain ⟨names, _, h⟩ := bind_eq_ok h
  obtain ⟨j₁, hrecord, henters, hcommit⟩ := enqueueMutationTransaction_spec hinv h hmutation.absent
    (.none j) ⟨fun b hb => (Option.some_ne_none _ hb.symm).elim,
      fun _ b hb => (Option.some_ne_none _ hb.symm).elim, fun hsome => absurd hsome (by decide)⟩
  unfold UploadJournal.commitCreation at hcommit
  rw [show record.request.intent = .createFolder parent name by rw [hrecord]; rfl] at hcommit
  obtain ⟨_, _, hsave⟩ := bind_eq_ok hcommit
  obtain ⟨hpolicy, hscope⟩ : Leads ok claimed gained [] j₁
      { j₁ with names := j₁.names.ensureLegacyPolicy scope } ∧ _ :=
    ensurePolicy_leads henters.inv scope
  obtain ⟨scopes, heq, _, _⟩ := ensureLegacyPolicy_spec j₁.names scope
  have hnone : ∀ row, (j₁.names.ensureLegacyPolicy scope).objects.get (env.uuid 0) ≠ some row := by
    intro row hrow
    rw [heq, henters.rest] at hrow
    exact Option.some_ne_none _ (hrow.symm.trans hobject.objects)
  have hcreated := henters.find_self
  refine henters.leads.trans (hpolicy.trans
    (store_leads hsave hpolicy.inv ?_ (fun n => .of_none rfl rfl)).1)
  refine ⟨fun row hrow => absurd hrow (hnone row), ?_, ?_, ?_, ?_, ?_, hscope,
    fun row hrow => absurd hrow (hnone row), fun row hrow => absurd hrow (hnone row), ?_⟩
  · intro r hr
    cases hr
  · intro hsome
    cases hsome
  · -- Nothing is addressed to a folder that did not exist.
    intro _
    refine ⟨?_, rfl, rfl, ?_⟩
    · rw [heq, henters.rest]
      exact hobject.objects
    · intro id op hop
      have hop' : j₁.queue.find id = some op := hop
      rw [henters.find] at hop'
      split at hop'
      · cases hop'
        rw [hrecord]
        intro hdestination
        exact hparent (Option.some.inj hdestination)
      · exact hobject.folders id op hop'
  · intro _ p hp
    cases hp
    exact ⟨_, hcreated, by rw [hrecord]; rfl⟩
  · intro _ _ p op hp hop
    cases hp
    have hop' : j₁.queue.find record.id = some op := hop
    rw [show j₁.queue.find record.id = some (.mutation record) from hcreated] at hop'
    cases hop'
    rw [hrecord]
    exact ⟨rfl, rfl⟩
  · intro hun
    cases hun

/-- What a removal is about has an identity from outside when nothing is queued before it. -/
theorem removalSource_spec (hinv : Inv ok underway j) {id : Uuid} {row : ObjectRow} {before : Node}
    (hrow : j.names.objects.get id = some row)
    (h : UploadJournal.removalSource row.body = .ok before) (hlatest : row.body.latest = none) :
    row.body.remote = some before ∧ ∀ tag ∈ nodeTags before, ok tag := by
  unfold UploadJournal.removalSource at h
  rw [hlatest] at h
  simp only [Option.isSome_none, Bool.false_eq_true, if_false] at h
  split at h
  · next remote hremote =>
    cases h
    exact ⟨hremote, ((hinv.objects hrow).remote _ hremote).2.2.2⟩
  · cases h

theorem removeNamespaceDirectory_leads (hinv : Inv ok [] j) {env : Env} {id : Uuid} {revision : Nat}
    {record : MutationRecord} (h : j.removeNamespaceDirectory env id revision = .ok (record, j'))
    (hunused : Unused j (env.uuid 0)) : Leads ok claimed gained [] j j' := by
  unfold UploadJournal.removeNamespaceDirectory at h
  obtain ⟨o, ho, h⟩ := bind_eq_ok h
  obtain ⟨row, hrow, rfl⟩ := byId_eq_ok ho
  obtain ⟨_, _, h⟩ := bind_eq_ok h
  obtain ⟨_, hlinked, h⟩ := bind_eq_ok h
  obtain ⟨_, hkind, h⟩ := bind_eq_ok h
  obtain ⟨_, _, h⟩ := bind_eq_ok h
  obtain ⟨before, hbefore, h⟩ := bind_eq_ok h
  obtain ⟨base, hbase, h⟩ := bind_eq_ok h
  obtain ⟨next, _, h⟩ := bind_eq_ok h
  obtain ⟨j₁, hchange, h⟩ := bind_eq_ok h
  obtain ⟨j₂, hsave, h⟩ := bind_eq_ok h
  cases h
  simp only [check_eq_ok, Bool.and_eq_true, Bool.not_eq_true', decide_eq_true_eq,
    Option.isNone_iff_eq_none] at hlinked hkind
  obtain ⟨horder, hpredecessor, hpreview, hnamed, _, _⟩ := followLatest_spec hbase
  -- A folder whose creation is queued cannot be removed.
  have hlatest : row.body.latest = none := by
    rw [← hpredecessor]
    cases base with
    | none => rfl
    | some b => cases hpreview rfl
  obtain ⟨hremote, htags⟩ := removalSource_spec hinv hrow hbefore hlatest
  have henters := enqueueChange_spec hinv hchange hunused.absent rfl rfl rfl horder
    ⟨hnamed, fun _ b hb => by cases hb; exact htags, hpreview⟩ (.inl rfl) rfl
  have hsound := hinv.objects hrow
  have hrow₁ : j₁.names.objects.get row.body.id = some row := by
    rw [henters.rest, hsound.key]
    exact hrow
  refine henters.leads.trans (like_leads hsave henters.inv hrow₁ ?_ ?_ ?_ ?_).1
  · exact ⟨rfl, fun hfile => hfile, rfl, fun hspare => hspare,
      fun hun => absurd (hlinked.1.1.symm.trans hun) (by decide)⟩
  · refine ⟨hsound.remote, hsound.working,
      fun _ hnone => Option.some_ne_none _ (hremote.symm.trans hnone), ?_, ?_⟩
    · intro hfalse
      cases hfalse
    · intro hfalse
      cases hfalse
  · intro _ w hw
    rw [show row.body.workingFile = none from hkind.2] at hw
    cases hw
  · intro n
    exact .of_none hkind.2 rfl

/-! ## Moving -/

/-- The relocation of an object that was read in the same state. -/
theorem relocateObject_leads (hinv : Inv ok [] j) {env : Env} {row : ObjectRow}
    {parent name : String} {record : MutationRecord}
    (hrow : j.names.objects.get row.body.id = some row)
    (hlinked : row.body.unlinked = false)
    (h : j.relocateObject env row.body parent name = .ok (record, j'))
    (hunused : Unused j (env.uuid 1)) : Leads ok claimed gained [] j j' := by
  unfold UploadJournal.relocateObject at h
  split at h
  · next remote hremote =>
    obtain ⟨base, hbase, h⟩ := bind_eq_ok h
    obtain ⟨revision, _, h⟩ := bind_eq_ok h
    obtain ⟨horder, _, hpreview, hnamed, _, _⟩ := followLatest_spec hbase
    have hsound := hinv.objects hrow
    obtain ⟨hkind, htarget, hid, htags⟩ := hsound.remote remote hremote
    obtain ⟨j₁, hrecord, henters, hcommit⟩ := enqueueMutationTransaction_spec hinv h hunused.absent
      horder ⟨hnamed, fun _ b hb => by cases hb; exact htags, hpreview⟩
    unfold UploadJournal.commitRelocation at hcommit
    have hrow₁ : j₁.names.objects.get row.body.id = some row := by
      rw [henters.rest]
      exact hrow
    obtain ⟨old, hold, hcommit⟩ := bind_eq_ok hcommit
    obtain ⟨other, hother, rfl⟩ := byId_eq_ok hold
    rw [show j₁.names.objects.get row.body.id = some row from hrow₁] at hother
    cases hother
    obtain ⟨_, hcheck, hcommit⟩ := bind_eq_ok hcommit
    rw [show record.request.intent = .relocate remote parent name by rw [hrecord]; rfl] at hcommit
    obtain ⟨_, _, hsave⟩ := bind_eq_ok hcommit
    simp only [check_eq_ok, Bool.and_eq_true, Option.isNone_iff_eq_none] at hcheck
    have hworking : row.body.workingFile = none := hcheck.1.1.1.1.1.1
    refine henters.leads.trans (like_leads hsave henters.inv hrow₁ ?_ ?_ ?_ ?_).1
    · exact ⟨rfl, fun hfile => hfile, rfl, fun hspare => hspare,
        fun hun => absurd (hlinked.symm.trans hun) (by decide)⟩
    · refine ⟨hsound.remote, hsound.working,
        fun _ hnone => Option.some_ne_none _ (hremote.symm.trans hnone), ?_, ?_⟩
      · intro _ p hp
        cases hp
        exact ⟨_, henters.find_self, by rw [hrecord]; rfl⟩
      · intro _ hfolder p op hp hop
        cases hp
        rw [show j₁.queue.find record.id = some (.mutation record) from henters.find_self] at hop
        cases hop
        rw [hrecord]
        exact ⟨congrArg some (hkind.trans hfolder), rfl⟩
    · intro hun
      exact absurd (hlinked.symm.trans hun) (by decide)
    · intro n
      exact .of_none hworking rfl
  · cases h

theorem relocateNamespaceItem_path {start : UploadJournal} {env : Env} {op : Op}
    (hstart : Inv ok [] start) (hdistinct : env.uuid 1 ≠ env.uuid 0)
    (hfirst : Unused start (env.uuid 0)) (hsecond : Unused start (env.uuid 1)) (id : Uuid)
    (revision : Nat) (parent name : String) :
    Commits.Triple (fun j => j = start)
      (UploadJournal.relocateNamespaceItem env id revision parent name)
      (Path ok start env op) (fun _ => Path ok start env op) := by
  unfold UploadJournal.relocateNamespaceItem
  refine Commits.triple_bind (Q := fun o j => j = start ∧ o.unlinked = false ∧
    ∃ row, j.names.objects.get row.body.id = some row ∧ row.body = o) ?_ ?_
  · apply Commits.triple_read
    rintro j rfl o h
    obtain ⟨o', ho, h⟩ := bind_eq_ok h
    obtain ⟨_, hcheck, h⟩ := bind_eq_ok h
    cases h
    obtain ⟨row, hrow, rfl⟩ := byId_eq_ok ho
    simp only [check_eq_ok, Bool.and_eq_true, Bool.not_eq_true'] at hcheck
    exact ⟨rfl, hcheck.2, row, by rw [(hstart.objects hrow).key]; exact hrow, rfl⟩
  · intro o
    -- An object without bytes of its own is moved in one transaction.
    have hmove : Commits.Triple (fun j => j = start ∧ o.unlinked = false ∧
          ∃ row, j.names.objects.get row.body.id = some row ∧ row.body = o)
        (Commits.transaction (fun j => j.relocateObject env o parent name)) (Path ok start env op)
        (fun _ => Path ok start env op) := by
      apply Commits.triple_transaction
      rintro j ⟨rfl, hlinked, row, hrow, rfl⟩ record j' h
      have hpath : Path ok j env op j' :=
        Path.quiet .refl hstart (relocateObject_leads hstart hrow hlinked h hsecond)
      exact ⟨hpath, hpath⟩
    split
    · refine Commits.triple_consequence
        (relocateWorking_path hstart hdistinct hfirst.absent hsecond.absent _ parent name) ?_
        (fun _ h => h) (fun _ _ h => h)
      exact fun j hj => hj.1
    · exact hmove
    · exact Commits.triple_fail _
    · refine Commits.triple_bind (Commits.triple_read (fun j hj _ _ => hj)) (fun _ => hmove)
    · exact Commits.triple_fail _

/-! ## Handing a file back to the cloud -/

theorem namespaceIsClean_eq_ok {o : NamespaceObject} (h : j.namespaceIsClean o = .ok true) :
    o.unlinked = false ∧ j.pendingOperation o.id = false := by
  unfold UploadJournal.namespaceIsClean at h
  split at h
  · cases h
  · next hguard =>
    simp only [Bool.or_eq_true, not_or, Bool.not_eq_true] at hguard
    obtain ⟨settled, h⟩ : ∃ settled : Bool, (if !settled || j.pendingOperation o.id then
        (pure false : Except JournalError Bool) else j.latestConfirmed o) = .ok true := by
      cases hworking : o.workingFile with
      | none =>
        rw [hworking] at h
        exact ⟨_, h⟩
      | some id =>
        rw [hworking] at h
        obtain ⟨w, _, h⟩ := bind_eq_ok h
        exact ⟨_, h⟩
    split at h
    · cases h
    · next hpending =>
      simp only [Bool.or_eq_true, not_or, Bool.not_eq_true] at hpending
      exact ⟨hguard.1.2, hpending.2⟩

/-- What `NamespaceObject::followed` makes of an object. -/
theorem followed_spec {o o' : NamespaceObject} {remote : Node} (h : o.followed remote = .ok o') :
    ∃ revision, o' = { o with
        node := { remote with id := o.node.id }
        remote := some remote
        workingFile := none
        latest := none
        followsRemote := true
        revision := revision } ∧
      o.remoteOwned = true ∧ remote.kind = o.node.kind ∧ remote.target = none ∧ remote.id ≠ "" := by
  unfold NamespaceObject.followed at h
  obtain ⟨_, hcheck, h⟩ := bind_eq_ok h
  split at h
  · next parent _ =>
    obtain ⟨_, hvalid, h⟩ := bind_eq_ok h
    obtain ⟨revision, _, h⟩ := bind_eq_ok h
    cases h
    simp only [check_eq_ok, Bool.and_eq_true, decide_eq_true_eq, Option.isNone_iff_eq_none]
      at hcheck hvalid
    exact ⟨revision, rfl, hcheck.1.1.1.1.2, hcheck.1.1.2, hcheck.2, named_of_validate hvalid _ rfl⟩
  · cases h

/-- `UploadJournal::handoff_namespace` gives up the bytes of a file and follows the cloud. -/
theorem handoffNamespace_leads (hinv : Inv ok [] j) {id : Uuid} {revision : Nat} {remote : Node}
    (h : j.handoffNamespace id revision remote = .ok j')
    (htags : ∀ tag ∈ nodeTags remote, ok tag) : Leads ok claimed gained [] j j' := by
  unfold UploadJournal.handoffNamespace at h
  obtain ⟨o, ho, h⟩ := bind_eq_ok h
  obtain ⟨row, hrow, rfl⟩ := byId_eq_ok ho
  obtain ⟨clean, hclean, h⟩ := bind_eq_ok h
  obtain ⟨_, hcheck, h⟩ := bind_eq_ok h
  obtain ⟨followed, hfollowed, h⟩ := bind_eq_ok h
  simp only [check_eq_ok, Bool.and_eq_true, decide_eq_true_eq] at hcheck
  rw [hcheck.2] at hclean
  obtain ⟨hlinked, hpending⟩ := namespaceIsClean_eq_ok hclean
  obtain ⟨next, rfl, howned, hkind, htarget, hid⟩ := followed_spec hfollowed
  have hkey := (hinv.objects hrow).key
  -- The bytes are given up first.
  obtain ⟨files, hfiles, hinv₁, hsave⟩ : ∃ files : Table Uuid WorkingRow,
      (∀ w, files.get w = j.workingFiles.get w ∨ row.body.workingFile = some w) ∧
      Inv ok [] { j with workingFiles := files } ∧
      ({ j with workingFiles := files } : UploadJournal).saveObject { row.body with
        node := j.names.localizeParent row.body.scope { remote with id := row.body.node.id }
        remote := some remote
        workingFile := none
        latest := none
        followsRemote := true
        revision := next } = .ok j' := by
    cases hworking : row.body.workingFile with
    | none =>
      rw [hworking] at h
      exact ⟨j.workingFiles, fun w => .inl rfl, hinv, h⟩
    | some working =>
      rw [hworking] at h
      obtain ⟨_, _, h⟩ := bind_eq_ok h
      refine ⟨j.workingFiles.erase working, ?_, hinv.eraseFile ?_, h⟩
      · intro w
        rw [Table.get_erase]
        split
        · next heq => exact .inr (by rw [heq])
        · exact .inl rfl
      · intro x other hother hun hw
        obtain rfl := hinv.index.working hother hrow (by rw [hw]; rfl) (hw.trans hworking.symm)
        rw [hrow] at hother
        cases hother
        exact absurd (hlinked.symm.trans hun) (by decide)
  have hself : ∀ other, j.names.objects.get row.body.id = some other → other = row := by
    intro other hother
    rw [hkey, hrow] at hother
    exact (Option.some.inj hother).symm
  have hscope := hinv.scope_known hrow
  obtain ⟨n, hstored, rfl⟩ := saveObject_eq_ok hsave
  refine .of_inv (hinv₁.store ?_ hstored) rfl rfl (.of_store rfl hstored hscope (.without rfl ?_))
  · refine ⟨?_, ?_, ?_, ?_, ?_, ?_, hscope, ?_, ?_, ?_⟩
    · intro other hother
      obtain rfl := hself other hother
      exact ⟨rfl, fun _ hfile => ⟨hkind.trans hfile, .inr hpending⟩⟩
    · intro r hr
      cases hr
      exact ⟨rfl, fun _ => htarget, hid, htags⟩
    · intro hsome
      cases hsome
    · intro hun
      cases hun.2
    · intro _ p hp
      cases hp
    · intro _ _ p op hp
      cases hp
    · intro other hother hspare
      obtain rfl := hself other hother
      exact absurd (howned.symm.trans hspare.1) (by decide)
    · intro other hother hun
      obtain rfl := hself other hother
      exact absurd (hlinked.symm.trans hun) (by decide)
    · intro hun
      exact absurd (hlinked.symm.trans hun) (by decide)
  · intro w
    rcases hfiles w with hsame | hw
    · exact .inl hsame
    · exact .inr ⟨row, by rw [hkey]; exact hrow, hw⟩

/-! ## Removing a file -/

/-- The working file of an object that nothing has changed since. -/
theorem settledWorking_eq_ok {o : NamespaceObject} {working : Option WorkingFile}
    (h : j.settledWorking o = .ok working) :
    (o.workingFile = none ∧ working = none) ∨
      ∃ id row, o.workingFile = some id ∧ j.workingFiles.get id = some row ∧
        working = some row.body ∧ row.body.unlinked = false ∧ row.body.latest = o.latest ∧
        row.body.node = o.node ∧ row.body.dirty = false := by
  unfold UploadJournal.settledWorking at h
  split at h
  · next hnone =>
    cases h
    exact .inl ⟨hnone, rfl⟩
  · next id hid =>
    obtain ⟨w, hw, h⟩ := bind_eq_ok h
    obtain ⟨row, hrow, rfl⟩ := workingFile_eq_ok hw
    obtain ⟨_, hcheck, h⟩ := bind_eq_ok h
    cases h
    simp only [check_eq_ok, Bool.and_eq_true, Bool.not_eq_true', decide_eq_true_eq] at hcheck
    exact .inr ⟨id, row, hid, hrow, rfl, hcheck.1.1.2, hcheck.1.2, hcheck.2, hcheck.1.1.1⟩

/-- The row of a working file is written in another slot. -/
theorem writeWorkingRow_eq_ok {slot : Option Slot} {w : WorkingFile} {absent : JournalError}
    (h : j.writeWorkingRow slot w absent = .ok j') :
    ∃ row, j.workingFiles.get w.id = some row ∧
      j' = { j with workingFiles := j.workingFiles.set w.id ⟨row.identity, slot, w⟩ } := by
  unfold UploadJournal.writeWorkingRow at h
  split at h
  · cases h
  · next row hrow =>
    obtain ⟨_, _, h⟩ := bind_eq_ok h
    cases h
    exact ⟨row, hrow, rfl⟩

/-- What follows the last operation of an object, or is about its cloud item. -/
theorem sourced_of_removal (hinv : Inv ok underway j) {id : Uuid} {row : ObjectRow} {before : Node}
    {base : Option WriteBase} (hrow : j.names.objects.get id = some row)
    (hbefore : UploadJournal.removalSource row.body = .ok before)
    (hbase : j.followLatest row.body.latest ⟨row.body.scope, .removeFile before⟩ = .ok base) :
    Sourced ok ⟨row.body.scope, .removeFile before⟩ base := by
  obtain ⟨_, hpredecessor, hpreview, hnamed, _, _⟩ := followLatest_spec hbase
  refine ⟨hnamed, ?_, hpreview⟩
  intro hnone b hb
  cases hb
  have hlatest : row.body.latest = none := by
    rw [← hpredecessor, hnone]
    rfl
  exact (removalSource_spec hinv hrow hbefore hlatest).2

theorem unlinkNamespaceFile_leads (hinv : Inv ok [] j) {env : Env} {id : Uuid} {revision : Nat}
    {preserveReaders : Bool} {record : MutationRecord}
    (h : j.unlinkNamespaceFile env id revision preserveReaders = .ok (record, j'))
    (hunused : Unused j (env.uuid 0)) : Leads ok claimed gained [] j j' := by
  unfold UploadJournal.unlinkNamespaceFile at h
  obtain ⟨o, ho, h⟩ := bind_eq_ok h
  obtain ⟨row, hrow, rfl⟩ := byId_eq_ok ho
  obtain ⟨_, _, h⟩ := bind_eq_ok h
  obtain ⟨_, hlinked, h⟩ := bind_eq_ok h
  obtain ⟨_, hkind, h⟩ := bind_eq_ok h
  obtain ⟨working, hworking, h⟩ := bind_eq_ok h
  obtain ⟨before, hbefore, h⟩ := bind_eq_ok h
  obtain ⟨base, hbase, h⟩ := bind_eq_ok h
  obtain ⟨next, _, h⟩ := bind_eq_ok h
  obtain ⟨unlinked, hunlinked, h⟩ := bind_eq_ok h
  obtain ⟨j₁, hchange, h⟩ := bind_eq_ok h
  simp only [check_eq_ok, Bool.and_eq_true, Bool.not_eq_true', decide_eq_true_eq] at hlinked hkind
  obtain ⟨horder, _, _, _, _, _⟩ := followLatest_spec hbase
  have henters := enqueueChange_spec (hinv.begin [env.uuid 0]) hchange hunused.absent rfl rfl rfl
    horder (sourced_of_removal hinv hrow hbefore hbase) (.inr (List.mem_singleton.mpr rfl)) rfl
  have hsound := hinv.objects hrow
  have hrow₁ : j₁.names.objects.get row.body.id = some row := by
    rw [henters.rest, hsound.key]
    exact hrow
  -- The file goes with its object, or there is none.
  obtain ⟨files, hfiles, hsave⟩ : ∃ files, FileMoved ok j₁ row.body { row.body with
        unlinked := true, latest := some (env.uuid 0), revision := next } files ∧
      ({ j₁ with workingFiles := files } : UploadJournal).saveObject { row.body with
        unlinked := true, latest := some (env.uuid 0), revision := next } = .ok j' := by
    rcases settledWorking_eq_ok hworking with ⟨hnone, rfl⟩ | ⟨w, file, hw, hfile, rfl, _, _, _, _⟩
    · cases hunlinked
      obtain ⟨_, hpure, h⟩ := bind_eq_ok h
      cases hpure
      obtain ⟨j₂, hsave, h⟩ := bind_eq_ok h
      cases h
      exact ⟨_, .without hnone, hsave⟩
    · have hfileSound := hinv.files hfile
      obtain ⟨generation, hmoved⟩ : ∃ generation, unlinked = some { file.body with
          unlinked := true, latest := some (env.uuid 0), generation := generation } := by
        cases hgeneration : increment file.body.generation with
        | error e =>
          rw [Option.mapM_some, hgeneration] at hunlinked
          cases hunlinked
        | ok generation =>
          rw [Option.mapM_some, hgeneration] at hunlinked
          cases hunlinked
          exact ⟨generation, rfl⟩
      subst hmoved
      obtain ⟨j₂, hwrite, h⟩ := bind_eq_ok h
      obtain ⟨j₃, hsave, h⟩ := bind_eq_ok h
      cases h
      obtain ⟨old, hold, rfl⟩ := writeWorkingRow_eq_ok hwrite
      have hold' : j.workingFiles.get file.body.id = some old := by
        rw [henters.rest] at hold
        exact hold
      rw [hfileSound.key, hfile] at hold'
      cases hold'
      refine ⟨_, ?_, hsave⟩
      rw [show file.body.id = w from hfileSound.key]
      have hfile₁ : j₁.workingFiles.get w = some file := by
        rw [henters.rest]
        exact hfile
      refine .written hw hw hfile₁ ⟨hfileSound.key, hfileSound.kind, ?_, hfileSound.remote, ?_, ?_⟩
        rfl ?_
      · intro hfalse
        cases hfalse
      · intro hnone
        cases hnone
      · intro _
        exact .inr rfl
      · intro hmatches
        exact ⟨hmatches.scope, hmatches.node, rfl, rfl, rfl⟩
  obtain ⟨hleads, hstored, heq⟩ : Leads ok claimed gained [env.uuid 0] j₁ j' ∧
      Stored j₁.settings.lowercase j₁.names j'.names { row.body with
        unlinked := true, latest := some (env.uuid 0), revision := next } ∧
      j' = { j₁ with names := j'.names, workingFiles := files } := by
    refine storeMoved_leads hsave henters.inv hrow₁ hlinked.1.1 ?_ ?_ hfiles
    · exact ⟨rfl, fun hfile => hfile, rfl, fun hspare => hspare,
        fun hun => absurd (hlinked.1.1.symm.trans hun) (by decide)⟩
    · refine ⟨hsound.remote, hsound.working,
        fun hfolder => absurd (hkind.1.symm.trans hfolder) (by decide), ?_, ?_⟩
      · intro hfalse
        cases hfalse
      · intro hfalse
        cases hfalse
  have hqueue : j'.queue = j₁.queue := by rw [heq]
  -- The removal is the last operation of its object, and of no other.
  have hinv' : Inv ok [] j' := by
    refine hleads.inv.finish ?_ ?_ ?_ ?_
    · intro x hx record hrecord
      rw [List.mem_singleton.mp hx, heq, henters.rest] at hrecord
      exact absurd (hrecord.symm.trans hunused.fileReplacements) (Option.some_ne_none _)
    · intro p hp x other hother hlatest
      obtain rfl := List.mem_singleton.mp hp
      by_cases hx : x = row.body.id
      · rw [hx]
        exact hstored.latest _ rfl
      · rw [hstored.others x hx, henters.rest] at hother
        rcases hinv.latest hother hlatest with hmem | howner
        · cases hmem
        · exact absurd (howner.symm.trans hunused.operations) (Option.some_ne_none _)
    · intro p hp r hr _
      obtain rfl := List.mem_singleton.mp hp
      rw [hqueue, show j₁.queue.find (env.uuid 0) = _ from henters.find_self] at hr
      cases hr
      exact ⟨rfl, .inl rfl, row.body.id, _, hstored.latest _ rfl, hstored.self, rfl, rfl⟩
    · intro p hp r hr
      obtain rfl := List.mem_singleton.mp hp
      rw [hqueue, show j₁.queue.find (env.uuid 0) = _ from henters.find_self] at hr
      cases hr
  have hboth : Leads ok claimed gained [env.uuid 0] j j' := henters.leads.trans hleads
  exact ⟨⟨hinv', hboth.evolves, hboth.settings, hboth.reshaped⟩, hboth.steady⟩

end Cirrove.Journal
