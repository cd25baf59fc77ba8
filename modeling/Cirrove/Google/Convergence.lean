import Cirrove.Google.Sync
import Mathlib.Data.String.Basic

/-!
# The first synchronisation converges

The fold of all changes is a replica of the drive in the sense of `Replica`: during the
listing it is `Scanned` from the start token, during the catch-up it is `CaughtUp` with the
token of the cursor. A page that completes a round was read at the end of the log, so the
replica then is what the drive held at that page.

## Sections

- the presented files while the drive changes
- the updates of a listing page and of a record
- the invariant of a synchronisation
- convergence, and the cursors
-/

namespace Cirrove.Google

open Cirrove.Library Cirrove.Library.Replica

variable {service : Service} {g : GoogleDrive} {scope : Scope}

/-! ## The drive while it changes -/

theorem Service.Holds.change {r : Remote} (h : service.Holds r) {c : RemoteChange}
    (hc : service.Possible c) : service.Holds (r.change c) := by
  cases c with
  | write f =>
    refine ⟨?_, ?_⟩
    · intro id x hget
      simp only [Remote.change, Table.get_set] at hget
      split at hget
      · next hid =>
        cases hget
        exact hid.symm
      · exact h.keyed id x hget
    · intro id x hdrive hget
      simp only [Remote.change, Table.get_set] at hget
      split at hget
      · next hid =>
        cases hget
        subst hid
        exact hc hdrive
      · exact h.drives id x hdrive hget
  | remove gone =>
    refine ⟨?_, ?_⟩
    · intro id x hget
      simp only [Remote.change, Table.get_erase] at hget
      split at hget
      · cases hget
      · exact h.keyed id x hget
    · intro id x hdrive hget
      simp only [Remote.change, Table.get_erase] at hget
      split at hget
      · cases hget
      · exact h.drives id x hdrive hget

theorem Service.Holds.changeAll {r : Remote} (h : service.Holds r) {cs : List RemoteChange}
    (hcs : ∀ c ∈ cs, service.Possible c) : service.Holds (r.changeAll cs) := by
  unfold Remote.changeAll
  induction cs generalizing r with
  | nil => exact h
  | cons c cs ih =>
    exact ih (h.change (hcs c List.mem_cons_self)) (fun x hx => hcs x (List.mem_cons_of_mem _ hx))

/-- A change is logged, so only logged items are presented differently. -/
theorem moved_change (r : Remote) (c : RemoteChange) :
    Moved (g.presents scope r) r.log (g.presents scope (r.change c)) (r.change c).log := by
  cases c with
  | write f =>
    refine ⟨⟨[f.id], rfl⟩, ?_⟩
    intro id hid
    have hne : id ≠ f.id := by simpa [Remote.change] using hid
    unfold GoogleDrive.presents Remote.change
    rw [Table.get_set_of_ne _ _ hne]
  | remove gone =>
    refine ⟨⟨[gone], rfl⟩, ?_⟩
    intro id hid
    have hne : id ≠ gone := by simpa [Remote.change] using hid
    unfold GoogleDrive.presents Remote.change
    rw [Table.get_erase, if_neg hne]

theorem moved_changeAll (r : Remote) (cs : List RemoteChange) :
    Moved (g.presents scope r) r.log (g.presents scope (r.changeAll cs)) (r.changeAll cs).log := by
  unfold Remote.changeAll
  induction cs generalizing r with
  | nil => exact Moved.refl _ _
  | cons c cs ih => exact (moved_change r c).trans (ih (r.change c))

/-! ## Updates -/

/-- A change as an update of the replica. -/
def update (c : Change) : Update String (Except ProviderError Node) := (c.id, c.body.map .ok)

theorem presents_of_file (scope : Scope) {r : Remote} {f : File} {n : Node} (hfile : r.files.get f.id = some f)
    (htrashed : f.trashed = false) (haccepted : g.acceptsFile f = true)
    (hnode : f.node g.rfc3339 scope.collection = .ok n) :
    (update (.upsert n)).1 = f.id ∧ (update (.upsert n)).2 = g.presents scope r f.id := by
  refine ⟨File.node_id hnode, ?_⟩
  simp [update, Change.body, GoogleDrive.presents, hfile, htrashed, haccepted, hnode]

theorem presents_eq_none {r : Remote} {f : File} (hfile : r.files.get f.id = some f)
    (h : f.trashed = true ∨ g.acceptsFile f = false) : g.presents scope r f.id = none := by
  unfold GoogleDrive.presents
  rw [hfile]
  rcases h with h | h <;> simp [h]

/-- A file that converts was not trashed. -/
theorem node_not_trashed {f : File} {n : Node} {collection : String}
    (h : f.node g.rfc3339 collection = .ok n) : f.trashed = false := by
  unfold File.node File.checked at h
  obtain ⟨version, hversion, _⟩ := bind_eq_ok h
  obtain ⟨_, _, hversion⟩ := bind_eq_ok hversion
  cases htrashed : f.trashed with
  | false => rfl
  | true =>
    rw [if_pos htrashed] at hversion
    cases hversion

theorem listed_spec {r : Remote} {files : List File} {changes : List Change}
    (hcurrent : ∀ f ∈ files, r.files.get f.id = some f) (h : g.listed scope files = .ok changes) :
    (∀ u ∈ changes.map update, u.2 = g.presents scope r u.1) ∧
      ∀ f ∈ files, f.id ∈ (changes.map update).map Prod.fst ∨ g.presents scope r f.id = none := by
  unfold GoogleDrive.listed at h
  refine ⟨?_, ?_⟩
  · intro u hu
    obtain ⟨c, hc, rfl⟩ := List.mem_map.mp hu
    obtain ⟨f, hf, hnode⟩ := mem_of_mapM_eq_ok h hc
    obtain ⟨hf, haccepted⟩ := List.mem_filter.mp hf
    obtain ⟨n, hn, heq⟩ := bind_eq_ok hnode
    cases heq
    simp only [Bool.and_eq_true, Bool.not_eq_true'] at haccepted
    obtain ⟨hid, hvalue⟩ := presents_of_file scope (hcurrent f hf) haccepted.1
      haccepted.2 hn
    rw [hid]
    exact hvalue
  · intro f hf
    by_cases haccepted : f.trashed = false ∧ g.acceptsFile f = true
    · have hmem : f ∈ files.filter fun f => !f.trashed && g.acceptsFile f :=
        List.mem_filter.mpr ⟨hf, by simp [haccepted]⟩
      obtain ⟨c, hc, hnode⟩ := exists_of_mapM_eq_ok h hmem
      obtain ⟨n, hn, heq⟩ := bind_eq_ok hnode
      cases heq
      refine .inl (List.mem_map.mpr ⟨_, List.mem_map.mpr ⟨_, hc, rfl⟩, ?_⟩)
      exact File.node_id hn
    · refine .inr (presents_eq_none (hcurrent f hf) ?_)
      rw [not_and_or, Bool.not_eq_false, Bool.not_eq_true] at haccepted
      exact haccepted

/-- The root of a shared drive is read as it is. -/
theorem sharedRoot_spec {replies : Replies} {r : Remote} {c : Change}
    (hfinds : ∀ id, Service.Finds r (replies.file id))
    (h : g.sharedRoot replies scope = .ok c) :
    (update c).1 = g.collection ∧ (update c).2 = g.presents scope r g.collection := by
  unfold GoogleDrive.sharedRoot at h
  obtain ⟨root, hroot, h⟩ := bind_eq_ok h
  split at h
  · cases h
  obtain ⟨n, hn, h⟩ := bind_eq_ok h
  cases h
  unfold GoogleDrive.file at hroot
  obtain ⟨_, _, hroot⟩ := bind_eq_ok hroot
  obtain ⟨f, hf, hroot⟩ := bind_eq_ok hroot
  split at hroot
  · cases hroot
  next hid =>
  split at hroot
  · cases hroot
  next haccepted =>
  cases hroot
  have hid : root.id = g.collection := by
    by_contra hne
    exact hid ⟨g.collection_real, hne⟩
  have hfile := hfinds _ root hf
  obtain ⟨hfst, hsnd⟩ := presents_of_file scope hfile (node_not_trashed hn)
    (by simpa using haccepted) hn
  rw [hid] at hfst hsnd
  exact ⟨hfst, hsnd⟩

/-- A shared drive is nothing in a My Drive feed. -/
def Foreign (service : Service) (g : GoogleDrive) (id : String) : Prop :=
  g.sharedDrive = false ∧ service.drives id

theorem presents_foreign {r : Remote} (hholds : service.Holds r) {id : String}
    (h : Foreign service g id) : g.presents scope r id = none := by
  unfold GoogleDrive.presents
  cases hget : r.files.get id with
  | none => rfl
  | some f =>
    have hdrive := hholds.drives id f h.2 hget
    simp [GoogleDrive.acceptsFile, h.1, hdrive]

/-- What one record of the change log contributes: updates that are right when the page is
    read, or when the root is; and one for its item, unless that is foreign. -/
theorem recordChange_spec {replies : Replies} {r₁ r₂ : Remote} {c : FileChange}
    {changes : List Change} (haccurate : service.Accurate r₁ c)
    (hfinds : ∀ id, Service.Finds r₂ (replies.file id))
    (h : g.recordChange replies scope c = .ok changes) :
    (∀ u ∈ changes.map update, u.2 = g.presents scope r₁ u.1 ∨
      (g.sharedDrive = true ∧ u.1 = g.collection ∧ u.2 = g.presents scope r₂ u.1)) ∧
    ∀ id, c.subject = some id →
      id ∈ (changes.map update).map Prod.fst ∨ Foreign service g id := by
  -- A deletion is right when the item is gone.
  have hdelete : ∀ id, c.subject = some id → c.removed = true →
      (update (.delete id)).2 = g.presents scope r₁ id := by
    intro id hsubject hremoved
    simp [update, Change.body, GoogleDrive.presents, haccurate.removed id hsubject hremoved]
  unfold GoogleDrive.recordChange at h
  split at h
  · next htype =>
    have hsubject : c.subject = c.driveId := if_pos htype
    unfold GoogleDrive.driveChange at h
    split at h
    · cases h
    next driveId hid =>
    replace h := (bind_eq_ok h).choose_spec.2
    split at h
    · cases h
    split at h
    · next hshared =>
      cases h
      refine ⟨by simp, ?_⟩
      intro id hs
      rw [hsubject, hid] at hs
      cases hs
      exact .inr ⟨by simpa using hshared, haccurate.drive driveId htype hid⟩
    next hshared =>
    split at h
    · cases h
    next hcollection =>
    obtain rfl : driveId = g.collection := not_not.mp hcollection
    split at h
    · next hremoved =>
      cases h
      refine ⟨?_, ?_⟩
      · intro u hu
        obtain rfl : u = update (.delete g.collection) := by simpa using hu
        exact .inl (hdelete _ (hsubject.trans hid) hremoved)
      · intro id hs
        rw [hsubject, hid] at hs
        cases hs
        exact .inl (by simp [update, Change.id])
    · obtain ⟨root, hroot, h⟩ := bind_eq_ok h
      cases h
      obtain ⟨hfst, hsnd⟩ := sharedRoot_spec hfinds hroot
      refine ⟨?_, ?_⟩
      · intro u hu
        obtain rfl : u = update root := by simpa using hu
        exact .inr ⟨by simpa using hshared, hfst, by rw [hfst]; exact hsnd⟩
      · intro id hs
        rw [hsubject, hid] at hs
        cases hs
        exact .inl (by simp [hfst])
  next htype =>
  have hsubject : c.subject = c.fileId := if_neg htype
  split at h
  · unfold GoogleDrive.fileChange at h
    split at h
    · cases h
    next fileId hid =>
    replace h := (bind_eq_ok h).choose_spec.2
    split at h
    · next hremoved =>
      cases h
      refine ⟨?_, ?_⟩
      · intro u hu
        obtain rfl : u = update (.delete fileId) := by simpa using hu
        exact .inl (hdelete _ (hsubject.trans hid) hremoved)
      · intro id hs
        rw [hsubject, hid] at hs
        cases hs
        exact .inl (by simp [update, Change.id])
    next hremoved =>
    split at h
    · cases h
    next f hfile =>
    split at h
    · cases h
    next hsame =>
    obtain rfl : f.id = fileId := not_not.mp hsame
    have hcurrent := haccurate.current htype f.id f hid (by simpa using hremoved) hfile rfl
    split at h
    · next hgone =>
      cases h
      refine ⟨?_, ?_⟩
      · intro u hu
        obtain rfl : u = update (.delete f.id) := by simpa using hu
        exact .inl (presents_eq_none hcurrent (by simpa using hgone)).symm
      · intro id hs
        rw [hsubject, hid] at hs
        cases hs
        exact .inl (by simp [update, Change.id])
    next hkept =>
    obtain ⟨n, hn, h⟩ := bind_eq_ok h
    cases h
    rw [not_or, Bool.not_eq_true, Bool.not_eq_true, Bool.not_eq_false'] at hkept
    obtain ⟨hfst, hsnd⟩ := presents_of_file scope hcurrent hkept.1 hkept.2 hn
    refine ⟨?_, ?_⟩
    · intro u hu
      obtain rfl : u = update (.upsert n) := by simpa using hu
      exact .inl (by rw [hfst]; exact hsnd)
    · intro id hs
      rw [hsubject, hid] at hs
      cases hs
      exact .inl (by simp [hfst])
  · cases h

/-! ## The invariant -/

/-- The replica a synchronisation has built. -/
def Sync.replica (s : Sync) : String → Option (Except ProviderError Node) :=
  fold (fun _ => none) (s.changes.map update)

theorem Sync.replica_eq (s : Sync) (id : String) : s.replica id = (s.folded id).map .ok := by
  unfold Sync.replica Sync.folded
  rw [← fold_map, List.map_map]
  rfl

/-- What a phase says about the replica. -/
def Stands (service : Service) (g : GoogleDrive) (scope : Scope) (r : Remote)
    (m : String → Option (Except ProviderError Node)) : Phase → Prop
  | .listing start token =>
    service.position start ≤ r.log.length ∧
    service.position start ≤ (service.scan token).since ∧
    Scanned (g.presents scope r) r.log (service.position start)
      (fun id => id ∈ (service.scan token).shown ∨ (g.sharedDrive = true ∧ id = g.collection)) m
  | .changes token =>
    service.position token ≤ r.log.length ∧
    CaughtUp (g.presents scope r) r.log (service.position token) m

theorem Stands.moved {r r' : Remote} {m : String → Option (Except ProviderError Node)}
    {phase : Phase} (h : Stands service g scope r m phase)
    (hmoved : Moved (g.presents scope r) r.log (g.presents scope r') r'.log) :
    Stands service g scope r' m phase := by
  cases phase with
  | listing start token =>
    exact ⟨h.1.trans hmoved.length_le, h.2.1, h.2.2.moved h.1 hmoved⟩
  | changes token => exact ⟨h.1.trans hmoved.length_le, h.2.moved h.1 hmoved⟩

section Call

variable {s : Sync} {c : Call} {page : ChangePage}
  {m : String → Option (Except ProviderError Node)}

theorem moved_page (g : GoogleDrive) (scope : Scope) (s : Sync) (c : Call) :
    Moved (g.presents scope s.remote) s.remote.log (g.presents scope (s.pageTime c))
      (s.pageTime c).log := moved_changeAll _ _

theorem moved_root (g : GoogleDrive) (scope : Scope) (s : Sync) (c : Call) :
    Moved (g.presents scope (s.pageTime c)) (s.pageTime c).log (g.presents scope (s.rootTime c))
      (s.rootTime c).log := moved_changeAll _ _

/-- An update that was right at the page is right later where nothing changed. -/
theorem right_later {p : Nat} (hp : p ≤ (s.pageTime c).log.length)
    {u : Update String (Except ProviderError Node)}
    (hright : u.2 = g.presents scope (s.pageTime c) u.1 ∨
      (g.sharedDrive = true ∧ u.1 = g.collection ∧ u.2 = g.presents scope (s.rootTime c) u.1))
    (hu : u.1 ∉ (s.rootTime c).log.drop p) : u.2 = g.presents scope (s.rootTime c) u.1 := by
  rcases hright with hright | ⟨_, _, hright⟩
  · rw [((moved_root g scope s c).unchanged hp hu).2]
    exact hright
  · exact hright

/-- The updates of a listing page. -/
theorem baseline_right (hanswered : s.Answered service g c) {start : String}
    {token : Option String} (h : g.baseline c.replies scope start token = .ok page) :
    ∀ u ∈ page.changes.map update, u.2 = g.presents scope (s.pageTime c) u.1 ∨
      (g.sharedDrive = true ∧ u.1 = g.collection ∧ u.2 = g.presents scope (s.rootTime c) u.1) := by
  obtain ⟨listing, changes, root, hlist, hlisted, hpage, hroot, _⟩ :=
    GoogleDrive.baseline_eq_ok h
  intro u hu
  rw [hpage, List.map_append, List.mem_append] at hu
  rcases hu with hu | hu
  · exact .inl ((listed_spec ((hanswered.list token).current _ hlist) hlisted).1 u hu)
  · rcases hroot with ⟨rfl, _⟩ | ⟨x, rfl, hx, hshared⟩
    · cases hu
    · obtain rfl : u = update x := by simpa using hu
      obtain ⟨hfst, hsnd⟩ := sharedRoot_spec hanswered.file hx
      exact .inr ⟨hshared, hfst, by rw [hfst]; exact hsnd⟩

/-- A listing page continues the listing or ends it. -/
theorem baseline_stands (hanswered : s.Answered service g c) {start : String}
    {token : Option String} (h : g.baseline c.replies scope start token = .ok page)
    (hp : service.position start ≤ s.remote.log.length)
    (hsince : service.position start ≤ (service.scanOf (s.pageTime c) token).since)
    (hscanned : Scanned (g.presents scope s.remote) s.remote.log (service.position start)
      (fun id => id ∈ (service.scanOf (s.pageTime c) token).shown ∨
        (token ≠ none ∧ g.sharedDrive = true ∧ id = g.collection)) m) :
    ∃ phase, page.checkpoint = .continue (encode scope phase) ∧
      Stands service g scope (s.rootTime c) (fold m (page.changes.map update)) phase := by
  have hright := baseline_right hanswered h
  obtain ⟨listing, changes, root, hlist, hlisted, hpage, hroot, hcheckpoint⟩ :=
    GoogleDrive.baseline_eq_ok h
  have hlists := hanswered.list token
  obtain ⟨_, hcovers⟩ := listed_spec (hlists.current _ hlist) hlisted
  have hp₁ : service.position start ≤ (s.pageTime c).log.length :=
    hp.trans (moved_page g scope s c).length_le
  have hmoved := (moved_page g scope s c).trans (moved_root g scope s c)
  -- Everything shown so far, seen from the end of the call.
  have hshown : Scanned (g.presents scope (s.rootTime c)) (s.rootTime c).log
      (service.position start)
      (fun id => (id ∈ (service.scanOf (s.pageTime c) token).shown ∨
        id ∈ listing.files.map File.id) ∨ (g.sharedDrive = true ∧ id = g.collection))
      (fold m (page.changes.map update)) := by
    apply (hscanned.moved hp hmoved).page
    · intro u hu hunchanged
      exact right_later hp₁ (hright u hu) hunchanged
    · intro k hk hs
      rw [hpage, List.map_append, List.map_append, List.mem_append]
      rcases hs with (hs | hs) | ⟨hshared, rfl⟩
      · exact .inl (.inl hs)
      · obtain ⟨f, hf, rfl⟩ := List.mem_map.mp hs
        rcases hcovers f hf with hmem | hnone
        · exact .inr (.inl (.inl hmem))
        · exact .inr (.inr (((moved_root g scope s c).unchanged hp₁ hk).2.trans hnone))
      · by_cases htoken : token = none
        · rcases hroot with ⟨_, hlistedRoot⟩ | ⟨x, rfl, hx, _⟩
          · obtain ⟨x, hx, hid⟩ := hlistedRoot hshared htoken
            refine .inr (.inl (.inl (List.mem_map.mpr ⟨_, List.mem_map.mpr ⟨x, hx, rfl⟩, hid⟩)))
          · obtain ⟨hfst, _⟩ := sharedRoot_spec hanswered.file hx
            exact .inr (.inl (.inr (by simp [hfst])))
        · exact .inl (.inr ⟨htoken, hshared, rfl⟩)
  have hend := hp.trans hmoved.length_le
  cases hnext : listing.nextPageToken with
  | some next =>
    rw [hnext] at hcheckpoint
    refine ⟨_, hcheckpoint, hend, hsince.trans (hlists.since _ _ hlist hnext), ?_⟩
    apply hshown.mono
    rintro k (hk | hk)
    · exact .inl (hlists.shown _ _ hlist hnext k hk)
    · exact .inr hk
  | none =>
    rw [hnext] at hcheckpoint
    refine ⟨_, hcheckpoint, hend, ?_⟩
    apply hshown.caughtUp
    intro k hk hsome
    obtain ⟨hk₁, hsame⟩ := (moved_root g scope s c).unchanged hp₁ hk
    rw [hsame] at hsome
    by_cases hcollection : g.sharedDrive = true ∧ k = g.collection
    · exact .inr hcollection
    · -- A presented file that did not change since the listing began was shown.
      cases hfile : (s.pageTime c).files.get k with
      | none => simp [GoogleDrive.presents, hfile] at hsome
      | some f =>
        have haccepted : f.trashed = false ∧ g.acceptsFile f = true := by
          by_contra hnot
          rw [not_and_or, Bool.not_eq_false, Bool.not_eq_true] at hnot
          rcases hnot with hnot | hnot <;> simp [GoogleDrive.presents, hfile, hnot] at hsome
        have hunchanged : k ∉ (s.pageTime c).log.drop
            (service.scanOf (s.pageTime c) token).since := by
          obtain ⟨d, hd⟩ := Nat.exists_eq_add_of_le hsince
          rw [hd, ← List.drop_drop]
          intro hmem
          exact hk₁ (List.mem_of_mem_drop hmem)
        exact .inl (hlists.all _ hlist hnext k f hfile haccepted.1 haccepted.2 hcollection
          hunchanged)

/-- The updates of a page of the change log, and what they cover. -/
theorem incremental_spec (hanswered : s.Answered service g c) {token : String}
    (h : g.incremental c.replies scope token = .ok page) :
    ∃ response, c.replies.changes token = .ok response ∧
      (∀ u ∈ page.changes.map update, u.2 = g.presents scope (s.pageTime c) u.1 ∨
        (g.sharedDrive = true ∧ u.1 = g.collection ∧
          u.2 = g.presents scope (s.rootTime c) u.1)) ∧
      (∀ x ∈ response.changes, ∀ id, x.subject = some id →
        id ∈ (page.changes.map update).map Prod.fst ∨ Foreign service g id) ∧
      ((∃ next, response.nextPageToken = some next ∧
          page.checkpoint = .continue (encode scope (.changes next))) ∨
        ∃ next, response.newStartPageToken = some next ∧
          page.checkpoint = .complete (encode scope (.changes next))) := by
  obtain ⟨response, lists, hresponse, hlists, hpage, hcheckpoint⟩ :=
    GoogleDrive.incremental_eq_ok h
  obtain ⟨upTo, _, _, haccurate, _⟩ := hanswered.changes token response hresponse
  refine ⟨response, hresponse, ?_, ?_, hcheckpoint⟩
  · intro u hu
    obtain ⟨x, hx, rfl⟩ := List.mem_map.mp hu
    rw [hpage] at hx
    obtain ⟨changes, hchanges, hx⟩ := List.mem_flatten.mp hx
    obtain ⟨record, hrecord, heq⟩ := mem_of_mapM_eq_ok hlists hchanges
    exact (recordChange_spec (haccurate record hrecord) hanswered.file heq).1 _
      (List.mem_map.mpr ⟨x, hx, rfl⟩)
  · intro record hrecord id hid
    obtain ⟨changes, hchanges, heq⟩ := exists_of_mapM_eq_ok hlists hrecord
    rcases (recordChange_spec (haccurate record hrecord) hanswered.file heq).2 id hid with
      hmem | hforeign
    · refine .inl ?_
      rw [List.map_map, List.mem_map] at hmem ⊢
      obtain ⟨x, hx, hfst⟩ := hmem
      exact ⟨x, hpage ▸ List.mem_flatten.mpr ⟨changes, hchanges, hx⟩, hfst⟩
    · exact .inr hforeign

/-- A page of the change log moves the replica along. -/
theorem incremental_stands (hanswered : s.Answered service g c)
    (hholds : service.Holds (s.rootTime c)) {token : String}
    (hstands : Stands service g scope s.remote m (.changes token))
    (hforeign : ∀ id, Foreign service g id → m id = none)
    (h : g.incremental c.replies scope token = .ok page) :
    ∃ phase, page.checkpoint.cursor = encode scope phase ∧
      Stands service g scope (s.rootTime c) (fold m (page.changes.map update)) phase := by
  obtain ⟨response, hresponse, hright, hcovers, hcheckpoint⟩ := incremental_spec hanswered h
  obtain ⟨upTo, hfrom, hto, _, hstretch, hnext, hstart⟩ := hanswered.changes token _ hresponse
  have hmoved := (moved_page g scope s c).trans (moved_root g scope s c)
  have hcaught : CaughtUp (g.presents scope (s.rootTime c)) (s.rootTime c).log upTo
      (fold m (page.changes.map update)) := by
    apply (hstands.2.moved hstands.1 hmoved).advance _ _ hfrom
    · intro u hu hunchanged
      exact right_later hto (hright u hu) hunchanged
    · intro k hk
      rw [(moved_root g scope s c).stretch hfrom hto] at hk
      obtain ⟨record, hrecord, hsubject⟩ := hstretch k hk
      rcases hcovers record hrecord k hsubject with hmem | hother
      · exact .inl hmem
      · exact .inr ((hforeign k hother).trans (presents_foreign hholds hother).symm)
  have hlength := hto.trans (moved_root g scope s c).length_le
  rcases hcheckpoint with ⟨next, htoken, hcheckpoint⟩ | ⟨next, htoken, hcheckpoint⟩
  · rw [hcheckpoint]
    exact ⟨_, rfl, (hnext next htoken).trans hlength, hcaught.mono (hnext next htoken)⟩
  · rw [hcheckpoint]
    obtain ⟨_, hposition⟩ := hstart next htoken
    exact ⟨_, rfl, hposition.trans hlength, hcaught.mono hposition⟩

/-- A page that completes a round leaves every item as it was when the page was read; the
    root of a shared drive is read by a request of its own. -/
theorem incremental_exact (hanswered : s.Answered service g c)
    (hholds : service.Holds (s.pageTime c)) {token : String}
    (hstands : Stands service g scope s.remote m (.changes token))
    (hforeign : ∀ id, Foreign service g id → m id = none)
    (h : g.incremental c.replies scope token = .ok page)
    (hcomplete : page.checkpoint.isComplete = true) (id : String) :
    fold m (page.changes.map update) id = g.presents scope (s.pageTime c) id ∨
      (g.sharedDrive = true ∧ id = g.collection ∧
        fold m (page.changes.map update) id = g.presents scope (s.rootTime c) id) := by
  obtain ⟨response, hresponse, hright, hcovers, hcheckpoint⟩ := incremental_spec hanswered h
  obtain ⟨upTo, hfrom, hto, _, hstretch, _, hstart⟩ := hanswered.changes token _ hresponse
  have hend : upTo = (s.pageTime c).log.length := by
    rcases hcheckpoint with ⟨next, _, heq⟩ | ⟨next, htoken, _⟩
    · rw [heq] at hcomplete
      cases hcomplete
    · exact (hstart next htoken).1
  rcases fold_cases m (page.changes.map update) id with ⟨hmem, heq⟩ | ⟨u, hu, rfl, heq⟩
  · left
    rw [heq]
    by_cases hk : id ∈ (s.pageTime c).log.drop (service.position token)
    · -- The page covers the rest of the log, so the item could only be left out as foreign.
      have hall : id ∈ ((s.pageTime c).log.drop (service.position token)).take
          (upTo - service.position token) := by
        rw [hend, List.take_of_length_le (by rw [List.length_drop])]
        exact hk
      obtain ⟨record, hrecord, hsubject⟩ := hstretch id hall
      rcases hcovers record hrecord id hsubject with hin | hother
      · exact absurd hin hmem
      · exact (hforeign id hother).trans (presents_foreign hholds hother).symm
    · exact hstands.2.moved hstands.1 (moved_page g scope s c) id hk
  · rw [heq]
    exact hright u hu

end Call

/-- What holds of a synchronisation after any events. -/
structure Sync.Inv (service : Service) (g : GoogleDrive) (scope : Scope) (s : Sync) : Prop where
  holds : service.Holds s.remote
  foreign : ∀ id, Foreign service g id → s.replica id = none
  fresh : s.cursor = none → s.changes = []
  stands : ∀ c, s.cursor = some c → ∃ phase, c = encode scope phase ∧
    Stands service g scope s.remote s.replica phase

namespace Sync.Inv

variable {s : Sync}

theorem start {r : Remote} (h : service.Holds r) : (Sync.start r).Inv service g scope where
  holds := h
  foreign := fun _ _ => rfl
  fresh := fun _ => rfl
  stands := by
    intro c hc
    cases hc

/-- Remote changes alone keep the invariant. -/
theorem moved (h : s.Inv service g scope) (cs : List RemoteChange)
    (hcs : ∀ c ∈ cs, service.Possible c) :
    Sync.Inv service g scope { s with remote := s.remote.changeAll cs } where
  holds := h.holds.changeAll hcs
  foreign := h.foreign
  fresh := h.fresh
  stands := by
    intro c hc
    obtain ⟨phase, rfl, hstands⟩ := h.stands c hc
    exact ⟨phase, rfl, hstands.moved (moved_changeAll _ _)⟩

/-- The phase a resumed cursor stands for is the one it was written for. -/
theorem phase_of_read (h : s.Inv service g scope) {c : Cursor} {phase : Phase}
    (hc : s.cursor = some c) (hread : g.reader.fromStr c.value = some ⟨scope, phase⟩) :
    Stands service g scope s.remote s.replica phase := by
  obtain ⟨phase', rfl, hstands⟩ := h.stands c hc
  have hreads := g.reader.reads ⟨scope, phase'⟩
  rw [show (encode scope phase').value = (FeedCursor.mk scope phase').encoded from rfl,
    hreads] at hread
  cases hread
  exact hstands

theorem pageTime (h : s.Inv service g scope) {c : Call} (hanswered : s.Answered service g c) :
    service.Holds (s.pageTime c) :=
  h.holds.changeAll fun x hx => hanswered.possible x (List.mem_append_left _ hx)

theorem rootTime (h : s.Inv service g scope) {c : Call} (hanswered : s.Answered service g c) :
    service.Holds (s.rootTime c) :=
  (h.pageTime hanswered).changeAll fun x hx => hanswered.possible x (List.mem_append_right _ hx)

/-- What a returned page leaves, whichever request it came from. -/
theorem page (h : s.Inv service g scope) {c : Call} (hanswered : s.Answered service g c)
    {page : ChangePage} (hpage : g.changes c.cancelled c.replies scope s.cursor = .ok page) :
    (∀ u ∈ page.changes.map update, u.2 = g.presents scope (s.pageTime c) u.1 ∨
      (g.sharedDrive = true ∧ u.1 = g.collection ∧
        u.2 = g.presents scope (s.rootTime c) u.1)) ∧
    (∃ phase, page.checkpoint.cursor = encode scope phase ∧
      Stands service g scope (s.rootTime c) (fold s.replica (page.changes.map update)) phase) ∧
    (page.checkpoint.isComplete = true → ∀ id,
      fold s.replica (page.changes.map update) id = g.presents scope (s.pageTime c) id ∨
        (g.sharedDrive = true ∧ id = g.collection ∧
          fold s.replica (page.changes.map update) id = g.presents scope (s.rootTime c) id)) := by
  rcases GoogleDrive.changes_eq_ok hpage with ⟨hcursor, start, hstart, hbaseline⟩ |
    ⟨cursor, start, token, hcursor, hread, hbaseline⟩ | ⟨cursor, token, hcursor, hread, hnext⟩
  · -- The first page: nothing was folded yet and the listing begins now.
    have hempty : s.replica = fun _ => none := by
      unfold Sync.replica
      rw [h.fresh hcursor]
      rfl
    have hp := hanswered.start start hstart
    obtain ⟨phase, hcheckpoint, hstands⟩ := baseline_stands hanswered hbaseline hp
      (hp.trans (moved_page g scope s c).length_le)
      ((hempty ▸ Scanned.empty _ _ _).mono (by
        rintro k (hk | hk)
        · cases hk
        · exact hk.1 rfl))
    refine ⟨baseline_right hanswered hbaseline, ⟨phase, by rw [hcheckpoint]; rfl, hstands⟩, ?_⟩
    intro hcomplete
    rw [hcheckpoint] at hcomplete
    cases hcomplete
  · obtain ⟨hp, hsince, hscanned⟩ := h.phase_of_read hcursor hread
    obtain ⟨phase, hcheckpoint, hstands⟩ := baseline_stands hanswered hbaseline hp hsince
      (hscanned.mono (by
        rintro k (hk | ⟨_, hk⟩)
        · exact .inl hk
        · exact .inr hk))
    refine ⟨baseline_right hanswered hbaseline, ⟨phase, by rw [hcheckpoint]; rfl, hstands⟩, ?_⟩
    intro hcomplete
    rw [hcheckpoint] at hcomplete
    cases hcomplete
  · have hstands := h.phase_of_read hcursor hread
    obtain ⟨_, _, hright, _, _⟩ := incremental_spec hanswered hnext
    exact ⟨hright, incremental_stands hanswered (h.rootTime hanswered) hstands h.foreign hnext,
      incremental_exact hanswered (h.pageTime hanswered) hstands h.foreign hnext⟩

theorem call (h : s.Inv service g scope) {c : Call} (hanswered : s.Answered service g c) :
    (s.call g scope c).Inv service g scope := by
  -- Whatever is not saved, only the drive has moved.
  have hmoved : Sync.Inv service g scope { s with remote := s.rootTime c } := by
    have hfirst := h.moved c.before fun x hx =>
      hanswered.possible x (List.mem_append_left _ hx)
    exact hfirst.moved c.after fun x hx => hanswered.possible x (List.mem_append_right _ hx)
  unfold Sync.call
  split
  · next page hpage =>
    split
    · obtain ⟨hright, ⟨phase, hcursor, hstands⟩, _⟩ := h.page hanswered hpage
      have hreplica : Sync.replica ⟨s.rootTime c, some page.checkpoint.cursor,
          s.changes ++ page.changes⟩ = fold s.replica (page.changes.map update) := by
        unfold Sync.replica
        rw [List.map_append, fold_append]
      refine ⟨h.rootTime hanswered, ?_, ?_, ?_⟩
      · intro id hid
        rw [hreplica]
        rcases fold_cases s.replica (page.changes.map update) id with
          ⟨_, heq⟩ | ⟨u, hu, rfl, heq⟩
        · rw [heq]
          exact h.foreign id hid
        · rw [heq]
          rcases hright u hu with hvalue | ⟨_, _, hvalue⟩
          · rw [hvalue]
            exact presents_foreign (h.pageTime hanswered) hid
          · rw [hvalue]
            exact presents_foreign (h.rootTime hanswered) hid
      · intro hnone
        cases hnone
      · intro cursor hc
        cases hc
        exact ⟨phase, hcursor, hreplica ▸ hstands⟩
    · exact hmoved
  · exact hmoved

/-- Every event keeps the invariant. -/
theorem step (h : s.Inv service g scope) {e : Event} (hallowed : s.Allowed service g e) :
    (s.step g scope e).Inv service g scope := by
  cases e with
  | remote c =>
    refine h.moved [c] ?_
    intro x hx
    obtain rfl : x = c := by simpa using hx
    exact hallowed
  | call c => exact h.call hallowed

end Sync.Inv

/-- The invariant holds after every run. -/
theorem sync_inv {r : Remote} (hholds : service.Holds r) {events : List Event} {s : Sync}
    (hrun : Run (Sync.step g scope) (Sync.Allowed service g) (Sync.start r) events s) :
    s.Inv service g scope :=
  hrun.invariant (Sync.Inv service g scope) (Sync.Inv.start hholds)
    fun _ _ hinv hallowed => hinv.step hallowed

/-! ## Cursors -/

/-- The text of the cursor for a phase is within the limit that `changes` puts on cursors. -/
def Fits (scope : Scope) (phase : Phase) : Prop :=
  (encode scope phase).value.utf8ByteSize ≤ 4 * maxTokenBytes

/-- A written cursor is resumed exactly when its text is within the limit. -/
theorem resume_encode (hscope : g.checkScope scope = .ok ()) (phase : Phase) :
    g.resume scope (some (encode scope phase)) = .ok (some phase) ↔ Fits scope phase := by
  unfold GoogleDrive.resume Fits
  rw [hscope]
  have hreads : g.reader.fromStr (encode scope phase).value = some ⟨scope, phase⟩ :=
    g.reader.reads ⟨scope, phase⟩
  by_cases hfits : (encode scope phase).value.utf8ByteSize ≤ 4 * maxTokenBytes
  · simp [bind, Except.bind, hreads, hfits, Nat.not_lt.mpr hfits]
  · simp [bind, Except.bind, hfits, Nat.lt_of_not_le hfits]

/-- A cursor is refused for every other scope, by every provider. -/
theorem resume_other (g' : GoogleDrive) {scope' : Scope} (hother : scope' ≠ scope)
    (phase : Phase) : ∃ e, g'.resume scope' (some (encode scope phase)) = .error e := by
  cases hresume : g'.resume scope' (some (encode scope phase)) with
  | error e => exact ⟨e, rfl⟩
  | ok p =>
    obtain ⟨p', rfl, hread⟩ := GoogleDrive.resume_eq_ok hresume
    have hreads : g'.reader.fromStr (encode scope phase).value = some ⟨scope, phase⟩ :=
      g'.reader.reads ⟨scope, phase⟩
    rw [hreads] at hread
    cases hread
    exact absurd rfl hother

theorem checkScope_of_changes {cancelled : Bool} {replies : Replies} {cursor : Option Cursor}
    {page : ChangePage} (h : g.changes cancelled replies scope cursor = .ok page) :
    g.checkScope scope = .ok () := by
  unfold GoogleDrive.changes GoogleDrive.resume at h
  obtain ⟨_, hresume, _⟩ := bind_eq_ok h
  obtain ⟨_, hscope, _⟩ := bind_eq_ok hresume
  exact hscope

/-! ## Convergence -/

/-- In every run, a page that completes a round leaves the folded changes equal to the files
    the drive presents at that page; and the cursor a page ends with is resumed for its scope
    exactly when its text is within the limit, and never for another. -/
theorem first_sync_converges {r : Remote} (hholds : service.Holds r) {events : List Event}
    {s : Sync} (hrun : Run (Sync.step g scope) (Sync.Allowed service g) (Sync.start r) events s)
    {c : Call} (hanswered : s.Allowed service g (.call c)) (hsaved : c.saved = true)
    {page : ChangePage} (hpage : g.changes c.cancelled c.replies scope s.cursor = .ok page) :
    (page.checkpoint.isComplete = true → ∀ id,
      ((s.step g scope (.call c)).folded id).map .ok = g.presents scope (s.pageTime c) id ∨
        (g.sharedDrive = true ∧ id = g.collection ∧
          ((s.step g scope (.call c)).folded id).map .ok =
            g.presents scope (s.rootTime c) id)) ∧
    (∃ phase, page.checkpoint.cursor = encode scope phase ∧
      (g.resume scope (some page.checkpoint.cursor) = .ok (some phase) ↔ Fits scope phase)) ∧
    ∀ (g' : GoogleDrive) (scope' : Scope), scope' ≠ scope →
      ∃ e, g'.resume scope' (some page.checkpoint.cursor) = .error e := by
  have hinv := sync_inv hholds hrun
  obtain ⟨_, ⟨phase, hcursor, _⟩, hexact⟩ := hinv.page hanswered hpage
  refine ⟨?_, ⟨phase, hcursor, ?_⟩, ?_⟩
  · intro hcomplete id
    have hfolded : ((s.step g scope (.call c)).folded id).map .ok =
        fold s.replica (page.changes.map update) id := by
      rw [← Sync.replica_eq]
      unfold Sync.step Sync.call
      simp only [hpage, hsaved, if_true]
      unfold Sync.replica
      rw [List.map_append, fold_append]
    rw [hfolded]
    exact hexact hcomplete id
  · rw [hcursor]
    exact resume_encode (checkScope_of_changes hpage) phase
  · intro g' scope' hother
    rw [hcursor]
    exact resume_other g' hother phase

/-! ## Fixed inputs -/

/-- A My Drive collection. -/
def myDrive : GoogleDrive where
  account := "me"
  collection := "drive"
  sharedDrive := false
  rfc3339 := fun _ => none
  reader := .canonical
  account_named := by decide
  collection_valid := by decide +kernel
  collection_real := by decide

def myScope : Scope := ⟨"me", "googledrive", "drive"⟩

/-- A text file. -/
def noteFile : File where
  id := "f"
  name := "note.txt"
  mimeType := "text/plain"
  parents := ["drive"]
  size := some "3"
  version := some "7"
  headRevisionId := some "r1"
  modifiedTime := none
  trashed := false
  driveId := none
  shortcutDetails := none

/-- Tokens of a log with one entry. -/
def oneEntry : Service where
  position := fun token => if token = "1" then 0 else 1
  scan := fun _ => ⟨0, []⟩
  drives := fun _ => False

/-- An empty drive. -/
def emptyRemote : Remote := ⟨.empty, []⟩

/-- The file is created after the start token was taken and before the listing. -/
def firstCall : Call where
  cancelled := false
  replies := ⟨.ok "1", fun _ => .ok ⟨[noteFile], none, false⟩, fun _ => .error .notFound,
    fun _ => .error .unavailable⟩
  before := [.write noteFile]
  after := []
  saved := true

/-- The log has a record of the file. -/
def secondCall : Call where
  cancelled := false
  replies := ⟨.error .unavailable, fun _ => .error .unavailable, fun _ => .error .notFound,
    fun _ => .ok ⟨[⟨some "file", none, some "f", false, some noteFile⟩], none, some "2"⟩⟩
  before := []
  after := []
  saved := true

theorem firstCall_answered :
    (Sync.start emptyRemote).Answered oneEntry myDrive firstCall where
  possible := by
    intro x hx
    obtain rfl : x = .write noteFile := by simpa [firstCall] using hx
    intro h
    cases h
  start := by
    intro start h
    cases h
    exact Nat.zero_le _
  list := by
    intro token
    refine ⟨?_, ?_, ?_, ?_⟩
    · intro page h f hf
      cases h
      obtain rfl : f = noteFile := by simpa using hf
      decide +kernel
    · intro page next h hnext
      cases h
      cases hnext
    · intro page next h hnext
      cases h
      cases hnext
    · intro page h _ id f hget _ _ _ _
      cases h
      right
      have hid : id = "f" := by
        by_contra hne
        have hnone : ((Sync.start emptyRemote).pageTime firstCall).files.get id = none :=
          Table.get_set_of_ne _ _ hne
        rw [hnone] at hget
        cases hget
      simp [hid, noteFile]
  file := by
    intro id f h
    cases h
  changes := by
    intro token page h
    cases h

theorem secondCall_answered :
    ((Sync.start emptyRemote).step myDrive myScope (.call firstCall)).Answered oneEntry myDrive
      secondCall where
  possible := by simp [secondCall]
  start := by
    intro start h
    cases h
  list := by
    intro token
    refine ⟨?_, ?_, ?_, ?_⟩
    · intro page h
      cases h
    · intro page next h
      cases h
    · intro page next h
      cases h
    · intro page h
      cases h
  file := by
    intro id f h
    cases h
  changes := by
    intro token page h
    cases h
    refine ⟨1, ?_, by decide +kernel, ?_, ?_, ?_, ?_⟩
    · unfold oneEntry
      dsimp only
      split <;> omega
    · intro c hc
      obtain rfl : c = ⟨some "file", none, some "f", false, some noteFile⟩ := by simpa using hc
      refine ⟨?_, ?_, ?_⟩
      · intro id _ h
        cases h
      · intro id h
        simp at h
      · intro _ id f hid _ hfile _
        cases hid
        cases hfile
        decide +kernel
    · intro id hid
      have hlog : ((((Sync.start emptyRemote).step myDrive myScope (.call firstCall)).pageTime
          secondCall).log) = ["f"] := by decide +kernel
      rw [hlog] at hid
      have hmem := List.mem_of_mem_drop (List.mem_of_mem_take hid)
      obtain rfl : id = "f" := by simpa using hmem
      exact ⟨_, List.mem_cons_self, rfl⟩
    · intro next h
      cases h
    · intro next h
      cases h
      exact ⟨by decide +kernel, by decide +kernel⟩

/-- One round over a drive in which a file is created while it is listed. -/
theorem first_sync_converges_note :
    ∃ page, myDrive.changes secondCall.cancelled secondCall.replies myScope
        ((Sync.start emptyRemote).step myDrive myScope (.call firstCall)).cursor = .ok page ∧
      ((page.checkpoint.isComplete = true → ∀ id,
        ((((Sync.start emptyRemote).step myDrive myScope (.call firstCall)).step myDrive myScope
          (.call secondCall)).folded id).map .ok =
          myDrive.presents myScope
            (((Sync.start emptyRemote).step myDrive myScope (.call firstCall)).pageTime
              secondCall) id ∨
        (myDrive.sharedDrive = true ∧ id = myDrive.collection ∧
          ((((Sync.start emptyRemote).step myDrive myScope (.call firstCall)).step myDrive myScope
            (.call secondCall)).folded id).map .ok =
            myDrive.presents myScope
              (((Sync.start emptyRemote).step myDrive myScope (.call firstCall)).rootTime
                secondCall) id)) ∧
      (∃ phase, page.checkpoint.cursor = encode myScope phase ∧
        (myDrive.resume myScope (some page.checkpoint.cursor) = .ok (some phase) ↔
          Fits myScope phase)) ∧
      ∀ (g' : GoogleDrive) (scope' : Scope), scope' ≠ myScope →
        ∃ e, g'.resume scope' (some page.checkpoint.cursor) = .error e) := by
  have hholds : oneEntry.Holds emptyRemote :=
    { keyed := fun _ _ h => by cases h
      drives := fun _ _ h => by cases h }
  have hrun : Run (Sync.step myDrive myScope) (Sync.Allowed oneEntry myDrive)
      (Sync.start emptyRemote) ([] ++ [.call firstCall])
      ((Sync.start emptyRemote).step myDrive myScope (.call firstCall)) :=
    Run.next Run.start firstCall_answered
  obtain ⟨page, hpage⟩ : ∃ page, myDrive.changes secondCall.cancelled secondCall.replies myScope
      ((Sync.start emptyRemote).step myDrive myScope (.call firstCall)).cursor = .ok page :=
    ⟨_, rfl⟩
  exact ⟨page, hpage, first_sync_converges hholds hrun secondCall_answered rfl hpage⟩

/-- A token of quotation marks, as long as `valid_token` permits. -/
def quoteToken : String := String.ofList (List.replicate maxTokenBytes '"')

theorem utf8Len_replicate (n : Nat) (c : Char) :
    String.utf8Len (List.replicate n c) = n * c.utf8Size := by
  induction n with
  | zero => simp
  | succ n ih =>
    rw [List.replicate_succ, String.utf8Len_cons, ih, Nat.succ_mul]

theorem validToken_quoteToken : validToken quoteToken = .ok () := by
  have hsize : quoteToken.utf8ByteSize = maxTokenBytes := by
    unfold quoteToken
    rw [String.utf8ByteSize_ofList, utf8Len_replicate]
    exact Nat.mul_one _
  have hnonempty : quoteToken ≠ "" := by
    intro h
    rw [h] at hsize
    cases hsize
  unfold validToken
  rw [if_neg]
  simp [hsize, hnonempty]

theorem length_le_utf8Len (cs : List Char) : cs.length ≤ String.utf8Len cs := by
  induction cs with
  | nil => exact Nat.le_refl _
  | cons c cs ih =>
    rw [List.length_cons, String.utf8Len_cons]
    exact Nat.add_le_add ih c.utf8Size_pos

/-- Two such tokens are written as more text than a cursor may have. -/
theorem quoteToken_too_long :
    4 * maxTokenBytes < (encode myScope (.listing quoteToken quoteToken)).value.utf8ByteSize := by
  have hescaped : (Json.quoted quoteToken.toList).length = 2 * maxTokenBytes + 2 := by
    have hflat : ∀ n, ((List.replicate n '"').flatMap Json.escapeChar).length = 2 * n := by
      intro n
      induction n with
      | zero => rfl
      | succ n ih =>
        rw [List.replicate_succ, List.flatMap_cons, List.length_append, ih]
        show 2 + 2 * n = _
        omega
    unfold quoteToken Json.quoted Json.quotedTail
    rw [String.toList_ofList, List.length_cons, List.length_append, hflat]
    rfl
  have hlength : 2 * (2 * maxTokenBytes + 2) ≤
      (encode myScope (.listing quoteToken quoteToken)).value.toList.length := by
    unfold encode FeedCursor.encoded Phase.encoded
    simp only [String.toList_ofList, List.length_append, hescaped]
    omega
  have hbytes := length_le_utf8Len (encode myScope (.listing quoteToken quoteToken)).value.toList
  rw [← String.utf8ByteSize_ofList, String.ofList_toList] at hbytes
  omega

/-- Drive hands out the same token for the log and for the next page. -/
def tokenCall (token : String) : Call where
  cancelled := false
  replies := ⟨.ok token, fun _ => .ok ⟨[], some token, false⟩, fun _ => .error .notFound,
    fun _ => .error .unavailable⟩
  before := []
  after := []
  saved := true

/-- Every token stands for the beginning. -/
def atStart : Service where
  position := fun _ => 0
  scan := fun _ => ⟨0, []⟩
  drives := fun _ => False

theorem tokenCall_answered (token : String) :
    (Sync.start emptyRemote).Answered atStart myDrive (tokenCall token) where
  possible := by simp [tokenCall]
  start := by
    intro start _
    exact Nat.zero_le _
  list := by
    intro before
    refine ⟨?_, ?_, ?_, ?_⟩
    · intro page h f hf
      cases h
      cases hf
    · intro page next _ _
      cases before with
      | none => exact Nat.le_refl _
      | some before => exact Nat.le_refl _
    · intro page next _ _ id hid
      cases hid
    · intro page h hnext
      cases h
      cases hnext
  file := by
    intro id f h
    cases h
  changes := by
    intro before page h
    cases h

theorem tokenCall_page {token : String} (hvalid : validToken token = .ok ()) :
    myDrive.changes (tokenCall token).cancelled (tokenCall token).replies myScope none =
      .ok ⟨[], .continue (encode myScope (.listing token token))⟩ := by
  have hscope : myDrive.checkScope myScope = .ok () := by decide +kernel
  unfold GoogleDrive.changes GoogleDrive.resume GoogleDrive.baseline GoogleDrive.listFiles
    tokenCall
  simp only [hscope, hvalid, bind, Except.bind]
  rfl

theorem resume_too_long {cursor : Cursor} (hscope : g.checkScope scope = .ok ())
    (h : 4 * maxTokenBytes < cursor.value.utf8ByteSize) :
    g.resume scope (some cursor) = .error (.protocol "Google cursor exceeds limit") := by
  unfold GoogleDrive.resume
  simp only [hscope, bind, Except.bind, if_pos h]

/-- The first page of a round can end with a cursor that the next call refuses. -/
theorem emitted_cursor_refused :
    (Sync.start emptyRemote).Allowed atStart myDrive (.call (tokenCall quoteToken)) ∧
      ∃ page, myDrive.changes (tokenCall quoteToken).cancelled (tokenCall quoteToken).replies
          myScope (Sync.start emptyRemote).cursor = .ok page ∧
        page.checkpoint.cursor = encode myScope (.listing quoteToken quoteToken) ∧
        myDrive.resume myScope (some page.checkpoint.cursor) =
          .error (.protocol "Google cursor exceeds limit") := by
  refine ⟨tokenCall_answered quoteToken, _, tokenCall_page validToken_quoteToken, rfl, ?_⟩
  exact resume_too_long (by decide +kernel) quoteToken_too_long

end Cirrove.Google
