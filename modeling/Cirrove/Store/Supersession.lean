import Cirrove.Store.Invariant

/-!
# Older tickets and newer observations

A reply may be published long after its ticket was taken. `current` turns it away when a
mark newer than the ticket stands on its target, on an item it reports or, for a single
item, on the parent it reports. An observation that is as new as the ticket has left such
a mark on its own parent (`FencedAt`), which is enough as long as the late reply names the
same parent.

## Main results

- `timely_step_keepsOrder`: in runs whose replies are `Timely`, source revisions never
  decrease and a reply older than a published one is superseded
- `late_reply_elsewhere_is_published`: a late reply that places an item elsewhere than the
  unchanged listing that confirmed it last is published
-/

namespace Cirrove.Store

open Cirrove.Library

variable {s s' : Store} {t : ObservationTicket} {op : Op} {reply : Reply}

/-! ## What a reply says -/

/-- The late reply places an item elsewhere than an observation as new as its ticket did,
    and no newer mark stands on the item or on the directory the reply places it in. -/
def Relocates (s : Store) (t : ObservationTicket) (n : Node) : Prop :=
  ∃ row, s.observed.get (t.scope, n.id) = some row ∧ t.revision ≤ row.sourceRevision ∧
    row.body.parentId ≠ n.parentId ∧ ¬ Since s t.scope t.revision .item n.id ∧
    ∀ parent, n.parentId = some parent → ¬ Since s t.scope t.revision .directory parent

/-- The late listing leaves out an item that the committed index still keeps in the
    directory and that was found missing at or after the ticket, and no newer mark stands
    on the directory. -/
def Overlooks (s : Store) (t : ObservationTicket) (parent : String) (ids : List String) : Prop :=
  ∃ id m r, id ∉ ids ∧ s.nodes.get (t.scope, id) = some m ∧ m.parentId = some parent ∧
    s.observedAbsent.get (t.scope, id) = some r ∧ t.revision ≤ r ∧
    ¬ Since s t.scope t.revision .directory parent

/-- The reply neither relocates nor overlooks an item observed at or after its ticket. -/
def Timely (w : World) (op : Op) : Prop :=
  ∀ t, op.ticket = some t → (∀ n ∈ op.nodes, ¬ Relocates w.store t n) ∧
    ∀ parent, t.target = .directory parent → ¬ Overlooks w.store t parent op.reports

/-- The reply reaches the supersession check: its ticket is for this kind of reply, and a
    staged listing is complete, not cancelled and still of the same source. -/
def Op.Deliverable (s : Store) : Op → Prop
  | .publishNode t node => t.target = .node node.id
  | .publishAbsence t => ∃ id, t.target = .node id
  | .publishDirectory t _ => ∃ parent, t.target = .directory parent
  | .publishStaged d cancelled => cancelled = false ∧ d.complete = true ∧
      d.source.any (fun source =>
        !(s.nodeOn d.ticket.scope d.parent).any (sameSource source)) = false
  | _ => False

/-- One step keeps the order of observations. -/
structure KeepsOrder (w : World) (op : Op) : Prop where
  /-- A source revision never decreases, and is dropped only by the terminal page of a round
      that started no earlier. -/
  monotone : ∀ scope id r, w.store.sourceRevision scope id = some r →
    (∃ r', (w.step op).store.sourceRevision scope id = some r' ∧ r ≤ r') ∨
    ((w.step op).store.sourceRevision scope id = none ∧
      ∃ expected page started, op = .stage scope expected page ∧
        page.checkpoint.isComplete = true ∧ w.store.rounds.get scope = some started ∧
        r ≤ started)
  /-- After a reply for `b` reported an item, an older reply that reports it is superseded. -/
  superseded : ∀ a b id, w.Granted a → w.Granted b → a.scope = b.scope →
    a.revision < b.revision → w.Reported b id → op.ticket = some a → id ∈ op.reports →
    op.Deliverable w.store →
    ∃ reply, w.store.exec op = .ok (reply, w.store) ∧ reply.isSuperseded = true

/-! ## A reply that is let through is newer -/

theorem Quiet.not_changedAfter {kind : MetadataChangeKind} {id : String} (h : Quiet s t kind id) :
    ¬ s.changedAfter t.scope kind id t.revision = true := by
  rw [h]
  exact Bool.false_ne_true

/-- Neither the key nor the scope carries a mark newer than an accepted ticket. -/
theorem Accepted.not_since {nodes : List Node} (h : Accepted s t nodes)
    {kind : MetadataChangeKind} {id : String} (hquiet : Quiet s t kind id) :
    ¬ Since s t.scope t.revision kind id := by
  intro hsince
  rcases hsince with hown | hscope
  · exact hquiet.not_changedAfter hown
  · exact h.scope.not_changedAfter hscope

theorem sourceRevision_cases {scope : Scope} {id : String} {r : Nat}
    (h : s.sourceRevision scope id = some r) :
    (∃ row, s.observed.get (scope, id) = some row ∧ row.sourceRevision = r) ∨
      (s.observed.get (scope, id) = none ∧ s.observedAbsent.get (scope, id) = some r) := by
  unfold sourceRevision at h
  cases hobserved : s.observed.get (scope, id) with
  | none =>
    rw [hobserved] at h
    exact .inr ⟨rfl, h⟩
  | some row =>
    rw [hobserved] at h
    cases h
    exact .inl ⟨row, rfl, rfl⟩

/-- An absence as new as the ticket would have marked the item. -/
theorem Accepted.absent_lt {nodes : List Node} (h : Accepted s t nodes)
    (hfenced : FencedAt s t.scope t.revision) {id : String} (hquiet : Quiet s t .item id)
    {r : Nat} (hget : s.observedAbsent.get (t.scope, id) = some r) : r < t.revision := by
  by_contra hle
  exact h.not_since hquiet (hfenced.absent id r hget (not_lt.mp hle))

/-- An observation as new as the ticket would have marked the item's parent, so it is older
    if that parent carries no newer mark. -/
theorem Accepted.present_lt {nodes : List Node} (h : Accepted s t nodes)
    (hfenced : FencedAt s t.scope t.revision) {id : String} (hquiet : Quiet s t .item id)
    {row : Observed} (hget : s.observed.get (t.scope, id) = some row)
    (hparent : ∀ parent, row.body.parentId = some parent → Quiet s t .directory parent) :
    row.sourceRevision < t.revision := by
  by_contra hle
  have hle := not_lt.mp hle
  cases hbody : row.body.parentId with
  | none => exact h.not_since hquiet (hfenced.rootless id row hget hle hbody)
  | some parent =>
    exact h.not_since (hparent parent hbody) (hfenced.present id row hget hle parent hbody)

/-- A reported item was observed before the ticket was taken. -/
theorem Accepted.reported_lt {nodes : List Node} (h : Accepted s t nodes)
    (hfenced : FencedAt s t.scope t.revision) {n : Node} (hn : n ∈ nodes)
    (hparent : ∀ parent, n.parentId = some parent → Quiet s t .directory parent)
    (htimely : ¬ Relocates s t n) {r : Nat}
    (hsource : s.sourceRevision t.scope n.id = some r) : r < t.revision := by
  have hitem := h.items n hn
  rcases sourceRevision_cases hsource with ⟨row, hget, rfl⟩ | ⟨_, hget⟩
  · by_cases hsame : row.body.parentId = n.parentId
    · exact h.present_lt hfenced hitem hget (fun parent hp => hparent parent (hsame ▸ hp))
    · by_contra hle
      exact htimely ⟨row, hget, not_lt.mp hle, hsame, h.not_since hitem,
        fun parent hp => h.not_since (hparent parent hp)⟩
  · exact h.absent_lt hfenced hitem hget

/-- An item that was not found was observed before the ticket was taken. -/
theorem Accepted.missing_lt {id : String} (hsound : Sound s)
    (h : Accepted s t (s.nodeOn t.scope id).toList) (htarget : t.target = .node id)
    (hfenced : FencedAt s t.scope t.revision) {r : Nat}
    (hsource : s.sourceRevision t.scope id = some r) : r < t.revision := by
  have hitem := h.target_node id htarget
  rcases sourceRevision_cases hsource with ⟨row, hget, rfl⟩ | ⟨_, hget⟩
  · have hvisible := nodeOn_of_observed (hsound.exclusive _ _ hget) hget
    apply h.present_lt hfenced hitem hget
    intro parent hparent
    exact h.parent id htarget row.body (by simp [hvisible]) parent hparent
  · exact h.absent_lt hfenced hitem hget

/-- An item that a listing hides was observed before the ticket was taken. -/
theorem Accepted.hidden_lt {e : Effect} {parent : String} {bound : Option Node}
    (hsound : Sound s) (h : Accepted s t e.written) (htarget : t.target = .directory parent)
    (hscope : e.scope = t.scope) (hlisting : e.listing = some (parent, bound))
    (hcovered : e.Covered s) (hfenced : FencedAt s t.scope t.revision)
    (htimely : ¬ Overlooks s t parent (e.written.map Node.id)) {id : String}
    (hid : id ∈ e.hidden) {r : Nat} (hsource : s.sourceRevision t.scope id = some r) :
    r < t.revision := by
  have hquiet := h.target_directory parent htarget
  obtain ⟨hunlisted, hhidden, hnames⟩ := hcovered.hidden_listed parent bound hlisting id hid
  rw [hscope] at hhidden hnames
  rcases sourceRevision_cases hsource with ⟨row, hget, rfl⟩ | ⟨hnone, hget⟩
  · -- A visible item is hidden only if it is still in this directory.
    have hvisible := nodeOn_of_observed (hsound.exclusive _ _ hget) hget
    have hparent : row.body.parentId = some parent := by
      simpa [hiddenBy, hvisible] using hhidden
    by_contra hle
    exact h.not_since hquiet (hfenced.present id row hget (not_lt.mp hle) parent hparent)
  · rcases hnames with ⟨row, hrow, _⟩ | ⟨m, hm, hparent⟩
    · rw [hnone] at hrow
      cases hrow
    · by_contra hle
      exact htimely ⟨id, m, r, hunlisted, hm, hparent, hget, not_lt.mp hle, h.not_since hquiet⟩

/-! ## One step -/

/-- The publication is newer than every observation it replaces. -/
def Effect.Overtakes (e : Effect) (s : Store) : Prop :=
  ∀ id, e.Touches e.scope id → ∀ r, s.sourceRevision e.scope id = some r → r < e.source

theorem overtakes_read {node : Node} (haccepted : Accepted s t [node])
    (htarget : t.target = .node node.id) (hfenced : FencedAt s t.scope t.revision)
    (htimely : ¬ Relocates s t node) :
    (s.nodesEffect t.scope [node] [] t.revision).Overtakes s := by
  intro id htouch r hsource
  have hid : id = node.id := by simpa [Effect.Touches, nodesEffect] using htouch
  subst hid
  exact haccepted.reported_lt hfenced (by simp)
    (fun parent hparent => haccepted.parent _ htarget node rfl parent hparent) htimely hsource

theorem overtakes_notFound {id : String} (hsound : Sound s)
    (haccepted : Accepted s t (s.nodeOn t.scope id).toList) (htarget : t.target = .node id)
    (hfenced : FencedAt s t.scope t.revision) :
    (s.absenceEffect t.scope id t.revision).Overtakes s := by
  intro x htouch r hsource
  have hx : x = id := by simpa [Effect.Touches, absenceEffect] using htouch
  subst hx
  exact haccepted.missing_lt hsound htarget hfenced hsource

theorem overtakes_listed {e : Effect} {parent : String} {bound : Option Node}
    (hsound : Sound s) (haccepted : Accepted s t e.written)
    (htarget : t.target = .directory parent) (hscope : e.scope = t.scope)
    (hsource : e.source = t.revision) (hlisting : e.listing = some (parent, bound))
    (hcovered : e.Covered s) (hfenced : FencedAt s t.scope t.revision)
    (hrelocates : ∀ n ∈ e.written, ¬ Relocates s t n)
    (hoverlooks : ¬ Overlooks s t parent (e.written.map Node.id)) : e.Overtakes s := by
  intro id htouch r hr
  rw [hscope] at hr
  rw [hsource]
  rcases htouch.2 with hwritten | hhidden
  · obtain ⟨n, hn, rfl⟩ := List.mem_map.mp hwritten
    refine haccepted.reported_lt hfenced hn ?_ (hrelocates n hn) hr
    intro p hp
    rw [hcovered.listed_parent parent bound hlisting n hn] at hp
    cases hp
    exact haccepted.target_directory parent htarget
  · exact haccepted.hidden_lt hsound htarget hscope hlisting hcovered hfenced hoverlooks hhidden hr

theorem overtakes_observed {e : Effect} (hsound : Sound s) (hfresh : s.revision < e.source) :
    e.Overtakes s := by
  intro id _ r hr
  rcases sourceRevision_cases hr with ⟨row, hget, rfl⟩ | ⟨_, hget⟩
  · exact lt_of_le_of_lt (hsound.observed_le _ _ hget) hfresh
  · exact lt_of_le_of_lt (hsound.absent_le _ _ hget) hfresh

/-- The source revision of an item after a publication. -/
theorem Effect.Applied.sourceRevision {e : Effect} (h : e.Applied s s') (scope : Scope)
    (id : String) :
    (e.Touches scope id ∧ s'.sourceRevision scope id = some e.source) ∨
      (¬ e.Touches scope id ∧ s'.sourceRevision scope id = s.sourceRevision scope id) := by
  by_cases htouch : e.Touches scope id
  · refine .inl ⟨htouch, ?_⟩
    obtain ⟨rfl, hwritten | hhidden⟩ := htouch
    · obtain ⟨n, hn, rfl⟩ := List.mem_map.mp hwritten
      simp [Store.sourceRevision, (h.written n hn).1]
    · simp [Store.sourceRevision, (h.hidden id hhidden).1, (h.hidden id hhidden).2]
  · refine .inr ⟨htouch, ?_⟩
    simp only [Store.sourceRevision, (h.kept scope id htouch).1, (h.kept scope id htouch).2]

/-- How a step treats the source revision of one item. -/
inductive SourceStep (s : Store) (op : Op) (s' : Store) (scope : Scope) (id : String) : Prop where
  | same (h : s'.sourceRevision scope id = s.sourceRevision scope id)
  | raised (r' : Nat) (h : s'.sourceRevision scope id = some r')
      (hlt : ∀ r, s.sourceRevision scope id = some r → r < r')
  /-- A round that started no earlier replaces the observation and marks the item. -/
  | dropped (expected : Option Cursor) (page : ChangePage) (started r : Nat)
      (hop : op = .stage scope expected page) (hcomplete : page.checkpoint.isComplete = true)
      (hround : s.rounds.get scope = some started) (hr : s.sourceRevision scope id = some r)
      (hle : r ≤ started) (h : s'.sourceRevision scope id = none)
      (hmark : NewMark s s' ⟨scope, .item, id⟩ ∨ NewMark s s' ⟨scope, .scope, ""⟩)

theorem Effect.Applied.sourceStep {e : Effect} (h : e.Applied s s') (hover : e.Overtakes s)
    (scope : Scope) (id : String) : SourceStep s op s' scope id := by
  rcases h.sourceRevision scope id with ⟨htouch, hnew⟩ | ⟨_, hsame⟩
  · refine .raised e.source hnew ?_
    intro r hr
    obtain rfl := htouch.1
    exact hover id htouch r hr
  · exact .same hsame

/-- What was learned no later than the start of the round is before the round. -/
theorem beforeRound_iff {u : Store} {scope : Scope} {r : Nat} :
    u.beforeRound scope r = true ↔ ∃ started, u.rounds.get scope = some started ∧ r ≤ started := by
  unfold beforeRound
  cases u.rounds.get scope with
  | none => simp
  | some started => simp

theorem Committed.newMark {u : Store} {scope : Scope} {reset : Bool} {cursor : Cursor}
    (h : Committed u scope reset cursor s') {id : String}
    (hid : reset = true ∨ id ∈ u.stagedIds scope) :
    NewMark u s' ⟨scope, .item, id⟩ ∨ NewMark u s' ⟨scope, .scope, ""⟩ := by
  cases reset with
  | true =>
    obtain ⟨r, hgt, hle, hmark, _⟩ := h.marks.baseline rfl
    exact .inr ⟨r, hmark, hgt, hle⟩
  | false =>
    have hdelta := h.marks.delta rfl ⟨scope, .item, id⟩ rfl
    have hstaged : id ∈ u.stagedIds scope := by simpa using hid
    rw [if_pos (.inl ⟨rfl, hstaged⟩)] at hdelta
    exact .inl hdelta

/-- A row that passes a filter is kept, or was there and is not. -/
theorem filtered_cases {α : Type} {old new : Option α} {P : α → Prop}
    (h : ∀ x, new = some x ↔ old = some x ∧ ¬ P x) :
    new = old ∨ ∃ x, old = some x ∧ P x ∧ new = none := by
  have hnone : (∀ x, ¬ (old = some x ∧ ¬ P x)) → new = none := by
    intro hall
    cases hnew : new with
    | none => rfl
    | some x => exact absurd ((h x).mp hnew) (hall x)
  cases hold : old with
  | none => exact .inl (hnone (by simp [hold]))
  | some x =>
    by_cases hx : P x
    · refine .inr ⟨x, rfl, hx, hnone ?_⟩
      intro y hy
      rw [hold] at hy
      cases hy.1
      exact hy.2 hx
    · exact .inl ((h x).mpr ⟨hold, hx⟩)

/-- The terminal page keeps the source revision of an item, or drops an observation that
    was before the round. -/
theorem Committed.sourceRevision {u : Store} {scope' : Scope} {reset : Bool} {cursor : Cursor}
    (h : Committed u scope' reset cursor s') (hu : Sound u) (scope : Scope) (id : String) :
    s'.sourceRevision scope id = u.sourceRevision scope id ∨
      ∃ r, u.sourceRevision scope id = some r ∧ s'.sourceRevision scope id = none ∧
        Replaced u scope' reset (u.stagedIds scope') scope id r := by
  unfold Store.sourceRevision
  rcases filtered_cases (h.observed scope id) with hobserved | ⟨row, hrow, hreplaced, hnone⟩
  · rcases filtered_cases (h.absent scope id) with habsent | ⟨r, hr, hreplaced, hnone⟩
    · exact .inl (by rw [hobserved, habsent])
    · -- An item observed absent has no positive observation.
      have hold : u.observed.get (scope, id) = none := by
        cases hget : u.observed.get (scope, id) with
        | none => rfl
        | some row =>
          have hexclusive := hu.exclusive _ _ hget
          rw [hr] at hexclusive
          cases hexclusive
      rw [hobserved, hold, hr, hnone]
      exact .inr ⟨r, rfl, rfl, hreplaced⟩
  · have hexclusive := hu.exclusive _ _ hrow
    have habsent : s'.observedAbsent.get (scope, id) = none := by
      rcases filtered_cases (h.absent scope id) with hsame | ⟨_, _, _, habsent⟩
      · exact hsame.trans hexclusive
      · exact habsent
    rw [hrow, hnone, habsent]
    exact .inr ⟨row.sourceRevision, rfl, rfl, hreplaced⟩

/-- A timely reply only replaces observations older than its ticket. -/
theorem Outcome.overtakes {w : World} (houtcome : Outcome w.store op reply s') (hinv : Inv w)
    (hpermitted : Permitted w op) (htimely : Timely w op) :
    StepKind w.store (·.Overtakes w.store) op s' := by
  have hfenced : ∀ t nodes, op.ticket = some t → Accepted w.store t nodes →
      FencedAt w.store t.scope t.revision := fun t nodes hop haccepted =>
    hinv.fenced t (hpermitted.granted hop haccepted.database.symm)
  apply houtcome.kind
  · intro t node hop htarget haccepted
    subst hop
    exact overtakes_read haccepted htarget (hfenced t _ rfl haccepted)
      ((htimely t rfl).1 node (by simp [Op.nodes]))
  · intro t id hop htarget haccepted
    subst hop
    exact overtakes_notFound hinv.sound haccepted htarget (hfenced t _ rfl haccepted)
  · intro t parent bound e hop hnodes hreports htarget haccepted hscope hsource hlisting _ hcovered
    have hrelocates := (htimely t hop).1
    have hoverlooks := (htimely t hop).2 parent htarget
    rw [hnodes] at hrelocates
    rw [hreports] at hoverlooks
    exact overtakes_listed hinv.sound haccepted htarget hscope hsource hlisting hcovered
      (hfenced t _ hop haccepted) hrelocates hoverlooks
  · intro e hfresh _
    exact overtakes_observed hinv.sound hfresh

/-- Every step of a timely run keeps, raises or legitimately drops a source revision. -/
theorem Outcome.sourceStep {w : World} (houtcome : Outcome w.store op reply s') (hinv : Inv w)
    (hpermitted : Permitted w op) (htimely : Timely w op) (scope : Scope) (id : String) :
    SourceStep w.store op s' scope id := by
  cases houtcome.overtakes hinv hpermitted htimely with
  | quiet hsame =>
    refine .same ?_
    simp only [Store.sourceRevision, hsame.observed, hsame.observedAbsent]
  | published happlied _ hovertakes => exact happlied.sourceStep hovertakes scope id
  | @committed sc expected page feed _ hcomplete hfeed _ hcommitted =>
    have hsource := hcommitted.sourceRevision (hinv.sound.stageChanges sc page.changes) scope id
    obtain ⟨staged, hframe⟩ := stageChanges_frame w.store sc page.changes
    rw [hframe] at hcommitted hsource
    rcases hsource with hsame | ⟨r, hr, hnone, rfl, hbefore, hid⟩
    · exact .same hsame
    · obtain ⟨started, hround, hle⟩ := beforeRound_iff.mp hbefore
      exact .dropped expected page started r rfl hcomplete hround hr hle hnone
        (hcommitted.newMark hid)

/-! ## Replies that reach the check -/

theorem current_ok (h : t.database = s.identity) (nodes : List Node) :
    ∃ b, s.current t nodes = .ok b := by
  unfold current
  rw [if_neg (not_not.mpr h.symm)]
  exact ⟨_, rfl⟩

/-- A reply that reaches the check is superseded, or everything it reports was last
    observed before its ticket and carries no newer mark. -/
theorem superseded_or_fresh (hsound : Sound s) (hfenced : FencedAt s t.scope t.revision)
    (hwellFormed : op.wellFormed) (hrelocates : ∀ n ∈ op.nodes, ¬ Relocates s t n)
    (hop : op.ticket = some t) (hdatabase : t.database = s.identity)
    (hdeliverable : op.Deliverable s) :
    (∃ reply, s.exec op = .ok (reply, s) ∧ reply.isSuperseded = true) ∨
      ∀ id ∈ op.reports, ¬ Since s t.scope t.revision .item id ∧
        ∀ r, s.sourceRevision t.scope id = some r → r < t.revision := by
  cases op with
  | publishNode t' node =>
    cases hop
    have htarget : t.target = .node node.id := hdeliverable
    obtain ⟨isCurrent, hcurrent⟩ := current_ok hdatabase [node]
    cases isCurrent with
    | false =>
      refine .inl ⟨.node (.superseded (s.nodeOn t.scope node.id)), ?_, rfl⟩
      simp [exec, publishNode, htarget, hcurrent]
      rfl
    | true =>
      have haccepted := current_accepted hcurrent
      refine .inr ?_
      intro id hid
      obtain rfl : id = node.id := by simpa [Op.reports] using hid
      refine ⟨haccepted.not_since (haccepted.items node (by simp)), ?_⟩
      intro r hr
      exact haccepted.reported_lt hfenced (by simp)
        (fun parent hparent => haccepted.parent _ htarget node rfl parent hparent)
        (hrelocates node (by simp [Op.nodes])) hr
  | publishAbsence t' =>
    cases hop
    obtain ⟨id, htarget⟩ : ∃ id, t.target = .node id := hdeliverable
    obtain ⟨isCurrent, hcurrent⟩ := current_ok hdatabase (s.nodeOn t.scope id).toList
    cases isCurrent with
    | false =>
      refine .inl ⟨.absence (.superseded (s.nodeOn t.scope id)), ?_, rfl⟩
      simp [exec, publishAbsence, htarget, hcurrent]
      rfl
    | true =>
      have haccepted := current_accepted hcurrent
      refine .inr ?_
      intro x hx
      obtain rfl : x = id := by simpa [Op.reports, htarget] using hx
      refine ⟨haccepted.not_since (haccepted.target_node x htarget), ?_⟩
      intro r hr
      exact haccepted.missing_lt hsound htarget hfenced hr
  | publishDirectory t' nodes =>
    cases hop
    obtain ⟨parent, htarget⟩ : ∃ parent, t.target = .directory parent := hdeliverable
    obtain ⟨isCurrent, hcurrent⟩ := current_ok hdatabase nodes
    cases isCurrent with
    | false =>
      refine .inl ⟨.directory (.superseded (s.childrenOn t.scope parent)), ?_, rfl⟩
      simp [exec, publishDirectory, htarget, hcurrent]
      rfl
    | true =>
      have haccepted := current_accepted hcurrent
      refine .inr ?_
      intro id hid
      obtain ⟨n, hn, rfl⟩ := List.mem_map.mp hid
      refine ⟨haccepted.not_since (haccepted.items n hn), ?_⟩
      intro r hr
      refine haccepted.reported_lt hfenced hn ?_ (hrelocates n hn) hr
      intro p hp
      rw [hwellFormed parent htarget n hn] at hp
      cases hp
      exact haccepted.target_directory parent htarget
  | publishStaged d cancelled =>
    cases hop
    obtain ⟨rfl, hcomplete, hsource⟩ := hdeliverable
    obtain ⟨isCurrent, hcurrent⟩ := current_ok hdatabase []
    by_cases hpassed : isCurrent = true ∧
        d.incoming.nodes.any (fun n => s.changedAfter d.ticket.scope .item n.id
          d.ticket.revision) = false
    · obtain ⟨rfl, hnewer⟩ := hpassed
      have haccepted : Accepted s d.ticket d.incoming.nodes := { current_accepted hcurrent with
        items := fun n hn => by simpa [Quiet] using List.any_eq_false.mp hnewer n hn
        parent := fun id hid => by rw [d.target] at hid; cases hid }
      refine .inr ?_
      intro id hid
      obtain ⟨n, hn, rfl⟩ := List.mem_map.mp hid
      refine ⟨haccepted.not_since (haccepted.items n hn), ?_⟩
      intro r hr
      refine haccepted.reported_lt hfenced hn ?_ (hrelocates n hn) hr
      intro p hp
      rw [(d.incoming.children n hn).1] at hp
      cases hp
      exact haccepted.target_directory d.parent d.target
    · refine .inl ⟨.staged (.superseded (s.readSource d.ticket.scope d.parent false).isSome),
        ?_, rfl⟩
      have hsuperseded : (!isCurrent || d.incoming.nodes.any (fun n =>
          s.changedAfter d.ticket.scope .item n.id d.ticket.revision)) = true := by
        cases isCurrent with
        | false => rfl
        | true => simpa using hpassed
      have hpublish : s.publishStaged d false = .ok
          (.superseded (s.readSource d.ticket.scope d.parent false).isSome, s) := by
        unfold publishStaged
        rw [if_neg Bool.false_ne_true, if_neg (by simp [hcomplete]), if_neg (by simp [hsource]),
          hcurrent]
        exact if_pos hsuperseded
      simp only [exec, hpublish]
      rfl
  | _ => cases hop

/-! ## Runs -/

/-- What a published reply leaves behind: an observation at least as new as its ticket, or
    a mark newer than it. -/
def Remembered (w : World) : Prop :=
  ∀ b id, w.Reported b id → b.revision ≤ w.store.revision ∧
    ((∃ r, w.store.sourceRevision b.scope id = some r ∧ b.revision ≤ r) ∨
      Since w.store b.scope b.revision .item id)

/-- Publishing a reply records what it reports at the revision of its ticket. -/
theorem Outcome.reported {b : ObservationTicket} {id : String}
    (houtcome : Outcome s op reply s') (hop : op.ticket = some b) (hid : id ∈ op.reports)
    (hpublished : reply.isPublished = true) :
    s'.sourceRevision b.scope id = some b.revision ∧ b.database = s.identity := by
  cases houtcome with
  | answered hnot => rw [hnot] at hpublished; cases hpublished
  | granted => cases hpublished
  | @read t node _ _ _ haccepted happlied =>
    cases hop
    obtain rfl : id = node.id := by simpa [Op.reports] using hid
    refine ⟨?_, haccepted.database.symm⟩
    rcases happlied.sourceRevision b.scope node.id with ⟨_, hnew⟩ | ⟨huntouched, _⟩
    · exact hnew
    · exact absurd ⟨rfl, .inl (by simp [nodesEffect])⟩ huntouched
  | @notFound t x _ _ htarget haccepted happlied =>
    cases hop
    obtain rfl : id = x := by simpa [Op.reports, htarget] using hid
    refine ⟨?_, haccepted.database.symm⟩
    rcases happlied.sourceRevision b.scope id with ⟨_, hnew⟩ | ⟨huntouched, _⟩
    · exact hnew
    · exact absurd ⟨rfl, .inr (by simp [absenceEffect])⟩ huntouched
  | @listed _ _ t _ _ e _ hticket _ hreports _ _ haccepted hscope hsource _ _ happlied _ =>
    rw [hop] at hticket
    cases hticket
    rw [hreports] at hid
    refine ⟨?_, haccepted.database.symm⟩
    rcases happlied.sourceRevision b.scope id with ⟨_, hnew⟩ | ⟨huntouched, _⟩
    · rw [hnew, hsource]
    · exact absurd ⟨hscope.symm, .inl hid⟩ huntouched
  | observed hnone => rw [hop] at hnone; cases hnone
  | began => cases hpublished
  | paged => cases hpublished
  | committed => cases hpublished

theorem Remembered.step {w : World} (h : Remembered w) (hinv : Inv w)
    (hpermitted : Permitted w op) (htimely : Timely w op) : Remembered (w.step op) := by
  rcases w.step_cases op with hsame | ⟨reply, s', hexec, hstep⟩
  · rw [hsame]
    exact h
  · rw [hstep]
    have houtcome := hinv.outcome hpermitted hexec
    have hadvances := houtcome.advances
    intro b id hreported
    obtain ⟨op', reply', hmem, hop', hid, hpublished⟩ := hreported
    rcases List.mem_append.mp hmem with hold | hnew
    · obtain ⟨hle, hbefore⟩ := h b id ⟨op', reply', hold, hop', hid, hpublished⟩
      refine ⟨le_trans hle hadvances.clock, ?_⟩
      rcases hbefore with ⟨r, hr, hbr⟩ | hsince
      · cases houtcome.sourceStep hinv hpermitted htimely b.scope id with
        | same hsame => exact .inl ⟨r, hsame.trans hr, hbr⟩
        | raised r' hr' hlt => exact .inl ⟨r', hr', le_trans hbr (hlt r hr).le⟩
        | dropped _ _ _ _ _ _ _ _ _ _ hmark =>
          rcases hmark with hitem | hscope
          · exact .inr (.inl (hitem.changedAfter hle))
          · exact .inr (.inr (hscope.changedAfter hle))
      · exact .inr (hsince.mono hadvances hle)
    · cases List.mem_singleton.mp hnew
      obtain ⟨hsource, hdatabase⟩ := houtcome.reported hop' hid hpublished
      have hle := hinv.ticket_le b (hpermitted.granted hop' hdatabase)
      exact ⟨le_trans hle hadvances.clock, .inl ⟨b.revision, hsource, le_rfl⟩⟩

/-- The runs in which every reply is timely. -/
def TimelyRun (identity : String) (ops : List Op) (w : World) : Prop :=
  Run World.step (fun w op => Permitted w op ∧ Timely w op) (World.create identity) ops w

theorem TimelyRun.inv {identity : String} {ops : List Op} {w : World}
    (h : TimelyRun identity ops w) : Inv w ∧ Remembered w := by
  refine h.invariant (fun w => Inv w ∧ Remembered w) ⟨Inv.create identity, ?_⟩ ?_
  · intro b id hreported
    obtain ⟨op, reply, hmem, _⟩ := hreported
    cases hmem
  · intro w op hw hallowed
    exact ⟨hw.1.step hallowed.1, hw.2.step hw.1 hallowed.1 hallowed.2⟩

/-- In a run whose replies are timely, older tickets never overwrite newer observations. -/
theorem timely_step_keepsOrder {identity : String} {ops : List Op} {w : World}
    (hrun : TimelyRun identity ops w) {op : Op} (hpermitted : Permitted w op)
    (htimely : Timely w op) : KeepsOrder w op := by
  obtain ⟨hinv, hremembered⟩ := hrun.inv
  refine ⟨?_, ?_⟩
  · intro scope id r hr
    rcases w.step_cases op with hsame | ⟨reply, s', hexec, hstep⟩
    · rw [hsame]
      exact .inl ⟨r, hr, le_rfl⟩
    · rw [hstep]
      have houtcome := hinv.outcome hpermitted hexec
      cases houtcome.sourceStep hinv hpermitted htimely scope id with
      | same hsame => exact .inl ⟨r, hsame.trans hr, le_rfl⟩
      | raised r' hr' hlt => exact .inl ⟨r', hr', (hlt r hr).le⟩
      | dropped expected page started r₀ hop hcomplete hround hr₀ hle hnone _ =>
        rw [hr] at hr₀
        cases hr₀
        exact .inr ⟨hnone, expected, page, started, hop, hcomplete, hround, hle⟩
  · intro a b id hgranted _ hscope hlt hreported hop hid hdeliverable
    rcases superseded_or_fresh hinv.sound (hinv.fenced a hgranted) hpermitted.2
        (htimely a hop).1 hop (hinv.ticket_database a hgranted) hdeliverable with
      hsuperseded | hfresh
    · exact hsuperseded
    · -- What the newer reply left behind contradicts the check.
      exfalso
      obtain ⟨hquiet, hsource⟩ := hfresh id hid
      rw [hscope] at hquiet hsource
      obtain ⟨_, ⟨r, hr, hle⟩ | hsince⟩ := hremembered b id hreported
      · have hra := hsource r hr
        omega
      · apply hquiet
        rcases hsince with hitem | hscopeMark
        · obtain ⟨r, hget, hgt⟩ := changedAfter_iff.mp hitem
          exact .inl (changedAfter_iff.mpr ⟨r, hget, lt_trans hlt hgt⟩)
        · obtain ⟨r, hget, hgt⟩ := changedAfter_iff.mp hscopeMark
          exact .inr (changedAfter_iff.mpr ⟨r, hget, lt_trans hlt hgt⟩)

/-! ### A timely run, and a late reply that is published -/

/-- Two tickets for one item; the newer reply is published first. -/
def twoReads : List Op :=
  [.nodeObservation drive "x", .nodeObservation drive "x",
    .publishNode ⟨drive, .node "x", "db", 2⟩ (fileAt "x" "p")]

theorem twoReads_keepsOrder :
    TimelyRun "db" twoReads (twoReads.foldl World.step (World.create "db")) ∧
    KeepsOrder (twoReads.foldl World.step (World.create "db"))
      (.publishNode ⟨drive, .node "x", "db", 1⟩ (fileAt "x" "q")) := by
  have hrun : TimelyRun "db" twoReads (twoReads.foldl World.step (World.create "db")) := by
    apply Run.extend .start
    refine ⟨⟨.of_ticketless rfl trivial, ?_⟩, ⟨.of_ticketless rfl trivial, ?_⟩,
      ⟨.of_granted rfl ⟨_, List.mem_cons_of_mem _ List.mem_cons_self⟩ trivial, ?_⟩, trivial⟩
    · intro t ht
      cases ht
    · intro t ht
      cases ht
    · intro t ht
      cases ht
      refine ⟨?_, ?_⟩
      · intro n hn hrelocates
        obtain ⟨row, hget, _⟩ := hrelocates
        obtain rfl := List.mem_singleton.mp hn
        cases hget
      · intro parent htarget
        cases htarget
  refine ⟨hrun, timely_step_keepsOrder hrun ?_ ?_⟩
  · exact .of_granted rfl ⟨_, List.mem_cons_self⟩ trivial
  · intro t ht
    cases ht
    refine ⟨?_, ?_⟩
    · intro n hn hrelocates
      obtain ⟨row, _, _, _, hitem, _⟩ := hrelocates
      obtain rfl := List.mem_singleton.mp hn
      exact hitem (.inl rfl)
    · intro parent htarget
      cases htarget

/-- A listing shows an item, a ticket is taken for the item, and a later listing confirms
    the item unchanged. -/
def confirmedListing : List Op :=
  [.observeDirectory drive "p" [fileAt "x" "p"], .nodeObservation drive "x",
    .directoryObservation drive "p",
    .publishDirectory ⟨drive, .directory "p", "db", 4⟩ [fileAt "x" "p"]]

/-- The reply for the older ticket: meanwhile the item was seen elsewhere. -/
def lateRead : Op := .publishNode ⟨drive, .node "x", "db", 3⟩ (fileAt "x" "q")

/-- The unchanged listing marks its directory only, so the older reply that places the item
    in another directory is published and takes the source revision back. -/
theorem late_reply_elsewhere_is_published :
    ¬ ∀ identity ops w, Run World.step Permitted (World.create identity) ops w →
      ∀ op, Permitted w op → KeepsOrder w op := by
  intro hclaim
  have hchildren : ∀ n ∈ [fileAt "x" "p"], n.parentId = some "p" := by
    intro n hn
    rw [List.mem_singleton.mp hn]
    rfl
  have hrun : Run World.step Permitted (World.create "db") confirmedListing
      (confirmedListing.foldl World.step (World.create "db")) := by
    apply Run.extend .start
    refine ⟨.of_ticketless rfl hchildren, .of_ticketless rfl trivial, .of_ticketless rfl trivial,
      .of_granted rfl ⟨_, List.mem_cons_of_mem _ (List.mem_cons_of_mem _ List.mem_cons_self)⟩ ?_,
      trivial⟩
    intro parent htarget
    cases htarget
    exact hchildren
  have hlate : Permitted (confirmedListing.foldl World.step (World.create "db")) lateRead :=
    .of_granted rfl ⟨_, List.mem_cons_of_mem _ List.mem_cons_self⟩ trivial
  have hafter : ((confirmedListing.foldl World.step (World.create "db")).step
      lateRead).store.sourceRevision drive "x" = some 3 := rfl
  have hstep := (hclaim "db" confirmedListing _ hrun lateRead hlate).monotone drive "x" 4 rfl
  rw [hafter] at hstep
  rcases hstep with ⟨r', hr', hle⟩ | ⟨hnone, _⟩
  · cases hr'
    omega
  · cases hnone

end Cirrove.Store
