import Cirrove.Store.Rounds

/-!
# What one operation can do

`exec_outcome` is the inversion lemma of the store. An operation that commits has answered
without changing anything, handed out a ticket, published a reply, recorded metadata that
was at hand, begun a round, or taken in a page. Invariants are proved by cases on
`Outcome`.
-/

namespace Cirrove.Store

open Cirrove.Library

/-- The ways a committed operation can end. -/
inductive Outcome (s : Store) : Op → Reply → Store → Prop where
  /-- The reply was superseded, or the relocation had nothing to do. -/
  | answered {op : Op} {reply : Reply} (hpublished : reply.isPublished = false)
      (hticket : ∀ t, reply ≠ .ticket t) : Outcome s op reply s
  | granted {op : Op} {scope : Scope} {target : Target} (hop : op.ticket = none) :
      Outcome s op (.ticket ⟨scope, target, s.identity, s.revision + 1⟩)
        { s with revision := s.revision + 1 }
  | read {t : ObservationTicket} {node : Node} {changed : Bool} {s' : Store}
      (htarget : t.target = .node node.id) (haccepted : Accepted s t [node])
      (happlied : (s.nodesEffect t.scope [node] [] t.revision).Applied s s') :
      Outcome s (.publishNode t node) (.node (.published node changed)) s'
  | notFound {t : ObservationTicket} {id : String} {changed : Bool} {s' : Store}
      (htarget : t.target = .node id) (haccepted : Accepted s t (s.nodeOn t.scope id).toList)
      (happlied : (s.absenceEffect t.scope id t.revision).Applied s s') :
      Outcome s (.publishAbsence t) (.absence (.published changed)) s'
  | listed {op : Op} {reply : Reply} {t : ObservationTicket} {parent : String}
      {bound : Option Node} {e : Effect} {s' : Store}
      (hop : op.ticket = some t) (hnodes : op.nodes = e.written)
      (hreports : op.reports = e.written.map Node.id)
      (hreply : ∀ t, reply ≠ .ticket t) (htarget : t.target = .directory parent)
      (haccepted : Accepted s t e.written) (hscope : e.scope = t.scope)
      (hsource : e.source = t.revision) (hlisting : e.listing = some (parent, bound))
      (hmembers : op.listing = some (e.scope, parent, e.written))
      (happlied : e.Applied s s') (hcovered : e.Covered s) : Outcome s op reply s'
  /-- Metadata at hand, and relocations, get a source revision of their own. -/
  | observed {op : Op} {reply : Reply} {e : Effect} {s' : Store} (hop : op.ticket = none)
      (hpublished : reply.isPublished = false) (hticket : ∀ t, reply ≠ .ticket t)
      (hfresh : s.revision < e.source) (hclock : e.source ≤ s'.revision)
      (hmembers : ∀ parent bound, e.listing = some (parent, bound) →
        op.listing = some (e.scope, parent, e.written))
      (happlied : e.Applied s s') (hcovered : e.Covered s) : Outcome s op reply s'
  | began {op : Op} {cursor : Option Cursor} {s' : Store} (hop : op.isFeed = true)
      (hbegan : Began s s') : Outcome s op (.cursor cursor) s'
  | paged {scope : Scope} {expected : Option Cursor} {page : ChangePage} {feed : Feed}
      (hfeed : feed.cursor = s.cursor scope) : Outcome s (.stage scope expected page) .done
        ((s.stageChanges scope page.changes).setFeed scope feed)
  | committed {scope : Scope} {expected : Option Cursor} {page : ChangePage} {feed : Feed}
      {s' : Store} (hcomplete : page.checkpoint.isComplete = true)
      (hfeed : s.feeds.get scope = some feed) (hpending : feed.pending = true)
      (hcommitted : Committed (s.stageChanges scope page.changes) scope feed.reset
        page.checkpoint.cursor s') : Outcome s (.stage scope expected page) .done s'

/-- Every committed operation has one of these outcomes. -/
theorem exec_outcome {s s' : Store} {op : Op} {reply : Reply} (hkeys : WellKeyed s)
    (hwellFormed : op.wellFormed) (h : s.exec op = .ok (reply, s')) : Outcome s op reply s' := by
  cases op with
  | nodeObservation scope item =>
    obtain ⟨⟨t, s₁⟩, hgrant, h⟩ := bind_eq_ok h
    cases h
    obtain ⟨⟨r, s₂⟩, hadvance, hgrant⟩ := bind_eq_ok hgrant
    obtain ⟨rfl, rfl⟩ := advance_eq_ok hadvance
    cases hgrant
    exact .granted rfl
  | directoryObservation scope parent =>
    obtain ⟨⟨t, s₁⟩, hgrant, h⟩ := bind_eq_ok h
    cases h
    obtain ⟨⟨r, s₂⟩, hadvance, hgrant⟩ := bind_eq_ok hgrant
    obtain ⟨rfl, rfl⟩ := advance_eq_ok hadvance
    cases hgrant
    exact .granted rfl
  | publishNode t node =>
    obtain ⟨⟨result, s₁⟩, hpublish, h⟩ := bind_eq_ok h
    cases h
    rcases publishNode_spec hpublish with ⟨view, rfl, rfl⟩ | ⟨changed, rfl, htarget, hcur, happ⟩
    · exact .answered rfl (by simp)
    · exact .read htarget hcur happ
  | publishAbsence t =>
    obtain ⟨⟨result, s₁⟩, hpublish, h⟩ := bind_eq_ok h
    cases h
    rcases publishAbsence_spec hpublish with
      ⟨view, rfl, rfl⟩ | ⟨id, changed, rfl, htarget, hcur, happ⟩
    · exact .answered rfl (by simp)
    · exact .notFound htarget hcur happ
  | publishDirectory t nodes =>
    obtain ⟨⟨result, s₁⟩, hpublish, h⟩ := bind_eq_ok h
    cases h
    rcases publishDirectory_spec hkeys hwellFormed hpublish with
      ⟨view, rfl, rfl⟩ | ⟨parent, changed, rfl, htarget, hcur, e, hscope, hsource, rfl, hlist, happ⟩
    · exact .answered rfl (by simp)
    · exact .listed rfl rfl rfl (by simp) htarget hcur hscope hsource hlist
        (by simp [Op.listing, htarget, hscope]) happ.1 happ.2
  | publishStaged listing cancelled =>
    obtain ⟨⟨result, s₁⟩, hpublish, h⟩ := bind_eq_ok h
    cases h
    rcases publishStaged_spec hpublish with
      ⟨hresult, rfl⟩ | ⟨changed, rfl, hcur, e, hscope, hsource, hwritten, hlist, happ, hcov⟩
    · refine .answered ?_ (by simp)
      cases result with
      | published changed => exact absurd rfl (hresult changed)
      | sourceChanged => rfl
      | superseded known => rfl
    · refine .listed rfl hwritten.symm ?_ (by simp) listing.target (hwritten ▸ hcur) hscope
        hsource hlist (by simp [Op.listing, hscope, hwritten]) happ hcov
      rw [hwritten]
      rfl
  | observeNode scope node =>
    obtain ⟨s₁, hobserve, h⟩ := bind_eq_ok h
    cases h
    obtain ⟨source, hfresh, hclock, happ⟩ := observeNode_spec hobserve
    exact .observed rfl rfl (by simp) hfresh hclock (fun _ _ hlisting => by cases hlisting) happ
      (nodesEffect_covered _ _ _ _ _)
  | observeDirectory scope parent nodes =>
    obtain ⟨⟨changed, s₁⟩, hobserve, h⟩ := bind_eq_ok h
    cases h
    obtain ⟨e, hscope, hwritten, hlist, hfresh, hclock, happ, hcov⟩ :=
      observeDirectory_spec hkeys hwellFormed hobserve
    refine .observed rfl rfl (by simp) hfresh hclock ?_ happ hcov
    intro p bound hlisting
    rw [hlist] at hlisting
    cases hlisting
    simp [Op.listing, hscope, hwritten]
  | begin scope reset =>
    obtain ⟨⟨c, s₁⟩, hbegin, h⟩ := bind_eq_ok h
    cases h
    exact .began rfl (begin_began hbegin)
  | beginSnapshot scope =>
    obtain ⟨⟨c, s₁⟩, hbegin, h⟩ := bind_eq_ok h
    cases h
    exact .began rfl (beginSnapshot_began hbegin)
  | stage scope expected page =>
    obtain ⟨s₁, hstage, h⟩ := bind_eq_ok h
    cases h
    obtain ⟨feed, hfeed, hpending, _, hpage⟩ := stage_spec hstage
    rcases hpage with ⟨_, rfl⟩ | ⟨hcomplete, hcommitted⟩
    · exact .paged (by simp [Store.cursor, hfeed])
    · exact .committed hcomplete hfeed hpending hcommitted
  | publishOrdinaryHandoffBackup scope original currentNode backup =>
    obtain ⟨⟨settled, s₁⟩, hpublish, h⟩ := bind_eq_ok h
    cases h
    rcases publishOrdinaryHandoffBackup_spec hpublish with
      rfl | ⟨source, hfresh, hclock, happ⟩
    · exact .answered rfl (by simp)
    · exact .observed rfl rfl (by simp) hfresh hclock (fun _ _ hlisting => by cases hlisting)
        happ (nodesEffect_covered _ _ _ _ _)
  | publishNativeHandoff scope original currentNode backup =>
    obtain ⟨⟨settled, s₁⟩, hpublish, h⟩ := bind_eq_ok h
    cases h
    rcases publishNativeHandoff_spec hpublish with
      rfl | ⟨published, source, hfresh, hclock, happ⟩
    · exact .answered rfl (by simp)
    · exact .observed rfl rfl (by simp) hfresh hclock (fun _ _ hlisting => by cases hlisting)
        happ (nodesEffect_covered _ _ _ _ _)

/-! ## Three kinds of steps -/

/-- The step left everything the views read as it was. -/
structure SameRows (s s' : Store) : Prop where
  observed : s'.observed = s.observed
  observedAbsent : s'.observedAbsent = s.observedAbsent
  nodes : s'.nodes = s.nodes
  directories : s'.directories = s.directories
  directoryEntries : s'.directoryEntries = s.directoryEntries
  directorySources : s'.directorySources = s.directorySources
  cursor : ∀ scope, s'.cursor scope = s.cursor scope

/-- A step changes nothing visible, publishes an effect, or commits a round. -/
inductive StepKind (s : Store) (allowed : Effect → Prop) : Op → Store → Prop where
  | quiet {op : Op} {s' : Store} (hsame : SameRows s s') : StepKind s allowed op s'
  | published {op : Op} {s' : Store} {e : Effect} (happlied : e.Applied s s')
      (hcovered : e.Covered s) (hallowed : allowed e) : StepKind s allowed op s'
  | committed {scope : Scope} {expected : Option Cursor} {page : ChangePage} {feed : Feed}
      {s' : Store} (hcomplete : page.checkpoint.isComplete = true)
      (hfeed : s.feeds.get scope = some feed) (hpending : feed.pending = true)
      (hcommitted : Committed (s.stageChanges scope page.changes) scope feed.reset
        page.checkpoint.cursor s') : StepKind s allowed (.stage scope expected page) s'

/-- A step is of one of the three kinds; `allowed` has to be shown of the effects it may
    have. -/
theorem Outcome.kind {s s' : Store} {op : Op} {reply : Reply} {allowed : Effect → Prop}
    (h : Outcome s op reply s')
    (hread : ∀ t node, op = .publishNode t node → t.target = .node node.id →
      Accepted s t [node] → allowed (s.nodesEffect t.scope [node] [] t.revision))
    (hnotFound : ∀ t id, op = .publishAbsence t → t.target = .node id →
      Accepted s t (s.nodeOn t.scope id).toList → allowed (s.absenceEffect t.scope id t.revision))
    (hlisted : ∀ t parent bound (e : Effect), op.ticket = some t → op.nodes = e.written →
      op.reports = e.written.map Node.id → t.target = .directory parent →
      Accepted s t e.written → e.scope = t.scope → e.source = t.revision →
      e.listing = some (parent, bound) → op.listing = some (e.scope, parent, e.written) →
      e.Covered s → allowed e)
    (hobserved : ∀ e : Effect, s.revision < e.source →
      (∀ parent bound, e.listing = some (parent, bound) →
        op.listing = some (e.scope, parent, e.written)) → allowed e) :
    StepKind s allowed op s' := by
  cases h with
  | answered => exact .quiet ⟨rfl, rfl, rfl, rfl, rfl, rfl, fun _ => rfl⟩
  | granted => exact .quiet ⟨rfl, rfl, rfl, rfl, rfl, rfl, fun _ => rfl⟩
  | @read t node _ _ htarget haccepted happlied =>
    exact .published happlied (nodesEffect_covered _ _ _ _ _)
      (hread t node rfl htarget haccepted)
  | @notFound t id _ _ htarget haccepted happlied =>
    exact .published happlied (absenceEffect_covered _ _ _ _)
      (hnotFound t id rfl htarget haccepted)
  | @listed _ _ t parent bound e _ hop hnodes hreports _ htarget haccepted hscope hsource
      hlisting hmembers happlied hcovered =>
    exact .published happlied hcovered
      (hlisted t parent bound e hop hnodes hreports htarget haccepted hscope hsource hlisting
        hmembers hcovered)
  | @observed _ _ e _ _ _ _ hfresh _ hmembers happlied hcovered =>
    exact .published happlied hcovered (hobserved e hfresh hmembers)
  | began _ hbegan =>
    have hcursor := hbegan.cursor
    obtain ⟨clock, staged, feeds, rounds, rfl⟩ := hbegan.frame
    exact .quiet ⟨rfl, rfl, rfl, rfl, rfl, rfl, hcursor⟩
  | @paged scope expected page feed hfeed =>
    obtain ⟨staged, hframe⟩ := stageChanges_frame s scope page.changes
    rw [hframe]
    exact .quiet ⟨rfl, rfl, rfl, rfl, rfl, rfl, cursor_setFeed _ hfeed⟩
  | committed hcomplete hfeed hpending hcommitted => exact .committed hcomplete hfeed hpending hcommitted

end Cirrove.Store
