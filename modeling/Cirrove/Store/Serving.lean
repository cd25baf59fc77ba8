import Cirrove.Store.Lookup

/-!
# A published listing is what is served

A complete listing that is published, at once or staged, answers every read that follows:
the directory shows its members in their order, every member is found by its identity, what
the directory showed and the listing leaves out is gone, and nothing else moves.

No revision plays a part in the answer. An observation of the directory that is newer than
the ticket is either a member, and replaced, or left out, and hidden: an item with a
positive observation has no negative one, so it is visible where the observation says.
-/

namespace Cirrove.Store

open Cirrove.Library

variable {s s' : Store} {scope : Scope} {parent : String} {nodes : List Node}

/-- What the reads answer after a listing has been published. -/
structure Serves (s s' : Store) (scope : Scope) (parent : String) (nodes : List Node) : Prop where
  children : s'.childrenOn scope parent = some (nodes.insertionSort byNameId)
  listed : ∀ n ∈ nodes, s'.nodeOn scope n.id = some n
  unlisted : ∀ id m, s.nodeOn scope id = some m → m.parentId = some parent →
    id ∉ nodes.map Node.id → s'.nodeOn scope id = none
  elsewhere : ∀ id m, s.nodeOn scope id = some m → m.parentId ≠ some parent →
    id ∉ nodes.map Node.id → s'.nodeOn scope id = some m
  nodes : s'.nodes = s.nodes
  cursor : ∀ sc, s'.cursor sc = s.cursor sc

/-- A listing that hides everything it leaves out and that is visible in the directory. -/
structure Listing (e : Effect) (s : Store) (parent : String) : Prop where
  listing : ∃ bound, e.listing = some (parent, bound)
  distinct : (e.written.map Node.id).Nodup
  hidden : ∀ id, id ∈ e.hidden ↔ id ∉ e.written.map Node.id ∧ Names s e.scope parent id ∧
    s.hiddenBy e.scope parent id = true

/-- What is visible in a directory is named by one of the two tables. -/
theorem names_of_nodeOn {id : String} {m : Node} (hvisible : s.nodeOn scope id = some m)
    (hparent : m.parentId = some parent) : Names s scope parent id := by
  unfold Store.nodeOn at hvisible
  split at hvisible
  · cases hvisible
  · cases hobserved : s.observed.get (scope, id) with
    | none =>
      rw [hobserved] at hvisible
      exact .inr ⟨m, by simpa using hvisible, hparent⟩
    | some row =>
      rw [hobserved] at hvisible
      have hbody : row.body = m := by simpa using hvisible
      exact .inl ⟨row, hobserved, hbody ▸ hparent⟩

/-- Visible in the directory, and so hidden by a listing that leaves it out. -/
theorem hiddenBy_of_nodeOn {id : String} {m : Node} (hvisible : s.nodeOn scope id = some m) :
    s.hiddenBy scope parent id = true ↔ m.parentId = some parent := by
  simp [hiddenBy, hvisible]

namespace Effect.Applied

variable {e : Effect}

/-- The members of the listing are the observed items that name the directory. -/
theorem observed_in (happlied : e.Applied s s') (hlisting : Listing e s parent) (hsound : Sound s)
    {id : String} {row : Observed} (hget : s'.observed.get (e.scope, id) = some row)
    (hparent : row.body.parentId = some parent) : row.sourceRevision = e.source := by
  rcases happlied.observed_cases hget with ⟨_, n, _, _, rfl⟩ | ⟨huntouched, hold⟩
  · rfl
  · -- The row was there before. It names the directory, so the listing has hidden it.
    exfalso
    have hvisible := nodeOn_of_observed (hsound.exclusive _ _ hold) hold
    apply huntouched
    refine ⟨rfl, ?_⟩
    by_cases hmember : id ∈ e.written.map Node.id
    · exact .inl hmember
    · apply Or.inr
      apply (hlisting.hidden id).mpr
      exact ⟨hmember, .inl ⟨row, hold, hparent⟩, (hiddenBy_of_nodeOn hvisible).mpr hparent⟩

/-- The rows of the directory after the listing. -/
theorem mem_snapshotRows_iff (happlied : e.Applied s s') (hlisting : Listing e s parent)
    (hsound : Sound s) {n : Node} :
    n ∈ s'.snapshotRows e.scope parent e.source ↔ n ∈ e.written := by
  obtain ⟨bound, hbound⟩ := hlisting.listing
  obtain ⟨_, hentries, hnone, _⟩ := happlied.snapshot parent bound hbound
  rw [mem_snapshotRows]
  constructor
  · rintro (⟨id, hentry, _⟩ | ⟨id, row, hget, rfl, hparent, hnewer, _⟩)
    · -- An entry of the new snapshot.
      by_cases hmember : id ∈ e.written.map Node.id
      · obtain ⟨m, hm, rfl⟩ := List.mem_map.mp hmember
        rw [hentries m hm] at hentry
        exact Option.some.inj hentry ▸ hm
      · rw [hnone id hmember] at hentry
        cases hentry
    · -- A newer observation: there is none, as the listing has written every one.
      rw [happlied.observed_in hlisting hsound hget hparent] at hnewer
      exact absurd hnewer (lt_irrefl _)
  · intro hn
    obtain ⟨hobserved, habsent⟩ := happlied.written n hn
    apply Or.inl
    refine ⟨n.id, hentries n hn, ?_, ?_⟩
    · simp [observedAfter, hobserved]
    · simp [absentAfter, habsent]

/-- The directory shows the listing, in order. -/
theorem childrenOn_listing (happlied : e.Applied s s') (hlisting : Listing e s parent)
    (hsound : Sound s) :
    s'.childrenOn e.scope parent = some (e.written.insertionSort byNameId) := by
  obtain ⟨bound, hbound⟩ := hlisting.listing
  have hsource := readSource_of_directory (happlied.snapshot parent bound hbound).1
  unfold childrenOn
  rw [hsource]
  show some ((s'.snapshotRows e.scope parent e.source).insertionSort byNameId) = _
  have hrows := List.perm_insertionSort byNameId (s'.snapshotRows e.scope parent e.source)
  have hwritten := List.perm_insertionSort byNameId e.written
  have : Std.Total byNameId := ⟨byNameId_total⟩
  have : IsTrans Node byNameId := ⟨fun _ _ _ => byNameId_trans⟩
  congr 1
  apply eq_of_sorted_members
  · exact (hrows.map Node.id).nodup_iff.mpr (snapshotRows_nodup (happlied.keyed hsound.keyed) _)
  · exact (hwritten.map Node.id).nodup_iff.mpr hlisting.distinct
  · exact List.pairwise_insertionSort byNameId _
  · exact List.pairwise_insertionSort byNameId _
  · intro n
    rw [hrows.mem_iff, hwritten.mem_iff]
    exact happlied.mem_snapshotRows_iff hlisting hsound

/-- A listing serves its members and hides what it leaves out. -/
theorem serves (happlied : e.Applied s s') (hlisting : Listing e s parent) (hsound : Sound s) :
    Serves s s' e.scope parent e.written where
  children := happlied.childrenOn_listing hlisting hsound
  listed := by
    intro n hn
    obtain ⟨hobserved, habsent⟩ := happlied.written n hn
    exact nodeOn_of_observed habsent hobserved
  unlisted := by
    intro id m hvisible hparent hmissing
    have hhidden : id ∈ e.hidden := (hlisting.hidden id).mpr
      ⟨hmissing, names_of_nodeOn hvisible hparent, (hiddenBy_of_nodeOn hvisible).mpr hparent⟩
    exact nodeOn_of_absent (happlied.hidden id hhidden).2
  elsewhere := by
    intro id m hvisible hparent hmissing
    have huntouched : ¬ e.Touches e.scope id := by
      rintro ⟨_, hwritten | hhidden⟩
      · exact hmissing hwritten
      · obtain ⟨_, _, hhides⟩ := (hlisting.hidden id).mp hhidden
        exact hparent ((hiddenBy_of_nodeOn hvisible).mp hhides)
    obtain ⟨hobserved, habsent⟩ := happlied.kept e.scope id huntouched
    rw [nodeOn_congr hobserved habsent (by rw [happlied.nodes]), hvisible]
  nodes := happlied.nodes
  cursor := by
    intro sc
    simp only [Store.cursor, happlied.feeds]

end Effect.Applied

/-! ## The two publications -/

theorem directoryEffect_listing (hkeys : WellKeyed s) (hdistinct : (nodes.map Node.id).Nodup)
    (source : Nat) : Listing (s.directoryEffect scope parent nodes source) s parent where
  listing := ⟨none, rfl⟩
  distinct := hdistinct
  hidden := by
    intro id
    show id ∈ List.filter _ _ ↔ _
    rw [List.mem_filter, mem_removedNodes_iff hkeys, and_assoc]
    rfl

theorem stagedEffect_listing (d : DirectoryPublication) :
    Listing (s.stagedEffect d) s d.parent where
  listing := ⟨d.source, rfl⟩
  distinct := d.incoming.distinct
  hidden := by
    intro id
    show id ∈ List.filter _ _ ↔ _
    rw [List.mem_filter, mem_removedIds_iff, and_assoc]
    rfl

/-- `publish_directory`, when it has published. -/
theorem publishDirectory_applied {t : ObservationTicket} (htarget : t.target = .directory parent)
    (hkeys : WellKeyed s) {value : List Node} {changed : Bool}
    (h : s.publishDirectory t nodes = .ok (.published value changed, s')) :
    (nodes.map Node.id).Nodup ∧
      (s.directoryEffect t.scope parent nodes t.revision).Applied s s' := by
  unfold publishDirectory at h
  rw [htarget] at h
  obtain ⟨isCurrent, _, h⟩ := bind_eq_ok h
  cases isCurrent with
  | false => cases h
  | true =>
    obtain ⟨⟨written, s₁⟩, hwrite, h⟩ := bind_eq_ok h
    cases h
    refine ⟨?_, (writeDirectory_applied hkeys hwrite).2.2⟩
    unfold writeDirectory at hwrite
    obtain ⟨s₂, _, hwrite⟩ := bind_eq_ok hwrite
    obtain ⟨s₃, hsnapshot, _⟩ := bind_eq_ok hwrite
    exact (writeSnapshot_eq_ok hsnapshot).1

/-- `DirectoryPublication::publish`, when it has published. -/
theorem publishStaged_applied {d : DirectoryPublication} {cancelled changed : Bool}
    (h : s.publishStaged d cancelled = .ok (.published changed, s')) :
    (s.stagedEffect d).Applied s s' := by
  unfold publishStaged at h
  split_ifs at h
  · cases h
  · obtain ⟨isCurrent, _, h⟩ := bind_eq_ok h
    split_ifs at h
    · cases h
    · dsimp only at h
      split at h
      · cases h
      obtain ⟨⟨r, s₁⟩, hadvance, h⟩ := bind_eq_ok h
      cases h
      obtain ⟨rfl, rfl⟩ := advance_eq_ok hadvance
      exact stagedEffect_applied s d

namespace DirectoryPublication

theorem insert_nodes {parent : String} {i i' : Incoming parent} {n : Node}
    {hchild : n.parentId = some parent ∧ n.id ≠ ""} (h : i.insert n hchild = .ok i') :
    i'.nodes = i.nodes ++ [n] := by
  unfold Incoming.insert at h
  split at h
  · cases h
  · cases h
    rfl

theorem stageNode_nodes {parent : String} {staged staged' : Incoming parent × Nat} {n : Node}
    (h : stageNode staged n = .ok staged') : staged'.1.nodes = staged.1.nodes ++ [n] := by
  unfold stageNode at h
  split at h
  · dsimp only at h
    split at h
    · cases h
    split at h
    · cases h
    obtain ⟨i, hinsert, h⟩ := bind_eq_ok h
    have hstaged : (i, staged.2 + n.encoded.utf8ByteSize) = staged' := Except.ok.inj h
    rw [← hstaged]
    exact insert_nodes hinsert
  · cases h

theorem stageNodes_nodes {parent : String} {rows : List Node} {staged staged' : Incoming parent × Nat}
    (h : rows.foldlM stageNode staged = .ok staged') :
    staged'.1.nodes = staged.1.nodes ++ rows := by
  induction rows generalizing staged with
  | nil =>
    cases h
    simp
  | cons n rows ih =>
    rw [List.foldlM_cons] at h
    obtain ⟨middle, hnode, h⟩ := bind_eq_ok h
    rw [ih h, stageNode_nodes hnode, List.append_assoc]
    rfl

theorem page_nodes {d d' : DirectoryPublication} {cancelled : Bool} {p : DirectoryPage}
    (h : d.page cancelled p = .ok d') :
    d'.ticket = d.ticket ∧ d'.incoming.nodes = d.incoming.nodes ++ p.nodes := by
  unfold page at h
  split at h
  · cases h
  split at h
  · cases h
  obtain ⟨⟨i, bytes⟩, hrows, h⟩ := bind_eq_ok h
  -- Whatever the cursor of the page, the rows are those the loop has staged.
  have hfinish : ∀ result : List String × Nat,
      (if d.inputBytes + result.2 > maxInputBytes then Except.error StoreError.directoryLimit
        else Except.ok { d with
          incoming := i, cursors := result.1, inputBytes := d.inputBytes + result.2,
          pages := d.pages + 1, complete := p.next.isNone }) = Except.ok d' →
      d'.ticket = d.ticket ∧ d'.incoming.nodes = d.incoming.nodes ++ p.nodes := by
    intro result hresult
    split at hresult
    · cases hresult
    · cases hresult
      exact ⟨rfl, stageNodes_nodes hrows⟩
  dsimp only at h
  split at h
  · exact hfinish _ h
  · split at h
    · cases h
    · split at h
      · cases h
      · exact hfinish _ h

/-- What a listing in pages has staged is the rows of its pages. -/
theorem stage_nodes {pages : List DirectoryPage} {d d' : DirectoryPublication}
    (h : d.stage pages = .ok d') :
    d'.ticket = d.ticket ∧
      d'.incoming.nodes = d.incoming.nodes ++ pages.flatMap DirectoryPage.nodes := by
  induction pages generalizing d with
  | nil =>
    cases h
    simp
  | cons p pages ih =>
    unfold stage at h
    rw [List.foldlM_cons] at h
    obtain ⟨middle, hpage, h⟩ := bind_eq_ok h
    obtain ⟨hticket, hnodes⟩ := page_nodes hpage
    obtain ⟨hticket', hnodes'⟩ := ih h
    refine ⟨hticket'.trans hticket, ?_⟩
    rw [hnodes', hnodes, List.append_assoc, List.flatMap_cons]

end DirectoryPublication

/-- In every reachable state a listing that is published, at once or in pages with or
    without a bound source, is exactly what the reads then answer. -/
theorem published_listing_served {w : World} (hw : Reachable w) {t : ObservationTicket}
    {parent : String} (htarget : t.target = .directory parent) :
    (∀ nodes value changed s',
      w.store.publishDirectory t nodes = .ok (.published value changed, s') →
      Serves w.store s' t.scope parent nodes) ∧
    ∀ (d d' : DirectoryPublication) pages source cancelled changed s', d.ticket = t →
      d.incoming.nodes = [] → d.stage pages = .ok d' →
      w.store.publishStaged { d' with source := source } cancelled =
        .ok (.published changed, s') →
      Serves w.store s' t.scope parent (pages.flatMap DirectoryPage.nodes) := by
  have hsound := hw.inv.sound
  constructor
  · intro nodes value changed s' h
    obtain ⟨hdistinct, happlied⟩ := publishDirectory_applied htarget hsound.keyed h
    exact happlied.serves (directoryEffect_listing hsound.keyed hdistinct t.revision) hsound
  · intro d d' pages source cancelled changed s' ht hopened hstage h
    subst ht
    obtain ⟨hticket, hnodes⟩ := DirectoryPublication.stage_nodes hstage
    have happlied := publishStaged_applied h
    have hserves := happlied.serves (stagedEffect_listing _) hsound
    have hparent : d'.parent = parent := by
      have htarget' := d'.target
      rw [hticket, htarget] at htarget'
      exact (Target.directory.inj htarget').symm
    rw [hopened, List.nil_append] at hnodes
    rw [← hparent, ← hnodes, ← hticket]
    exact hserves

/-- A listing that shows one file, and a later read of the same directory. -/
def listedTwice : List Op :=
  [.observeDirectory drive "top" [fileAt "x" "top"], .directoryObservation drive "top"]

/-- The later listing shows two other files, the first of them out of order. -/
theorem published_listing_served_twice :
    ∃ s', (listedTwice.foldl World.step (World.create "db")).store.publishDirectory
        ⟨drive, .directory "top", "db", 3⟩ [fileAt "b" "top", fileAt "a" "top"] =
          .ok (.published [fileAt "b" "top", fileAt "a" "top"] true, s') ∧
      Serves (listedTwice.foldl World.step (World.create "db")).store s' drive "top"
        [fileAt "b" "top", fileAt "a" "top"] := by
  have hreachable : Reachable (listedTwice.foldl World.step (World.create "db")) := by
    refine ⟨"db", listedTwice, Run.extend .start ?_⟩
    refine ⟨.of_ticketless rfl ?_, .of_ticketless rfl trivial, trivial⟩
    intro n hn
    rw [List.mem_singleton.mp hn]
    rfl
  have hserved := (published_listing_served hreachable
    (t := ⟨drive, .directory "top", "db", 3⟩) rfl).1 [fileAt "b" "top", fileAt "a" "top"]
  exact ⟨_, rfl, hserved _ _ _ rfl⟩

end Cirrove.Store
