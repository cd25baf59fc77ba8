import Cirrove.Store.Invariant
import Mathlib.Logic.Function.Basic

/-!
# Resumable rounds are one fold

What a feed is for: `FeedView` is a collection with a completed cursor and at most one
round in progress, which has simply received a list of changes. Committing the round
applies that list, in order, to the collection or to nothing.

The store keeps the round in a table keyed by item, shared by rounds that were resumed,
reset or started over. `feed_refines` says that this is the same: in every reachable state
each scope is described by the view that the committed operations of the log add up to.
-/

namespace Cirrove.Store

open Cirrove.Library

/-! ## What a feed is for -/

/-- Apply one change to a collection. -/
def applyChange (nodes : String → Option Node) (change : Change) : String → Option Node :=
  Function.update nodes change.id change.body

/-- A round in progress. -/
structure Round where
  /-- Does it build a new baseline? -/
  fresh : Bool
  /-- All changes received so far, in order. -/
  received : List Change
  /-- The saved continuation. -/
  next : Option Cursor

/-- One scope as its users see it. -/
structure FeedView where
  nodes : String → Option Node
  cursor : Option Cursor
  round : Option Round

namespace FeedView

/-- A scope nobody has asked for. -/
def empty : FeedView := ⟨fun _ => none, none, none⟩

/-- Resume the round in progress or start one; a reset throws the round away. -/
def begin (f : FeedView) (reset : Bool) : FeedView :=
  if reset then { f with round := some ⟨true, [], none⟩ }
  else match f.round with
    | some _ => f
    | none => { f with round := some ⟨f.cursor.isNone, [], f.cursor⟩ }

/-- Resume the round in progress or start a new baseline. -/
def beginSnapshot (f : FeedView) : FeedView :=
  match f.round with
  | some _ => f
  | none => { f with round := some ⟨true, [], none⟩ }

/-- May a page that continues `expected` be taken in? -/
def accepts (f : FeedView) (expected : Option Cursor) : Bool :=
  f.round.any (fun round => round.next = expected)

/-- Take in a page; the terminal one applies everything received. -/
def stage (f : FeedView) (page : ChangePage) : FeedView :=
  match f.round with
  | none => f
  | some round =>
    if page.checkpoint.isComplete then
      { nodes := (round.received ++ page.changes).foldl applyChange
          (if round.fresh then fun _ => none else f.nodes)
        cursor := some page.checkpoint.cursor
        round := none }
    else
      { f with round := some { round with
          received := round.received ++ page.changes
          next := some page.checkpoint.cursor } }

/-- What a committed operation does to one scope. -/
def after (scope : Scope) (f : FeedView) : Op → FeedView
  | .begin sc reset => if sc = scope then f.begin reset else f
  | .beginSnapshot sc => if sc = scope then f.beginSnapshot else f
  | .stage sc _ page => if sc = scope then f.stage page else f
  | _ => f

/-- The committed operations of a log, one after the other. -/
def ofLog (scope : Scope) (log : List (Op × Reply)) : FeedView :=
  log.foldl (fun f entry => f.after scope entry.1) empty

end FeedView

/-! ## The staging table holds the last change of each item -/

/-- What is staged for each item after a list of changes. -/
def stagedAfter (staged : String → Option (Option Node)) (changes : List Change) :
    String → Option (Option Node) :=
  changes.foldl (fun m c => Function.update m c.id (some c.body)) staged

theorem stagedAfter_append (staged : String → Option (Option Node)) (a b : List Change) :
    stagedAfter staged (a ++ b) = stagedAfter (stagedAfter staged a) b :=
  List.foldl_append

/-- Replaying the staged rows is applying all changes in order. -/
theorem foldl_applyChange (base : String → Option Node) (changes : List Change) (id : String) :
    changes.foldl applyChange base id =
      (stagedAfter (fun _ => none) changes id).getD (base id) := by
  -- Both folds are read off their last change of the item.
  have hgeneral : ∀ (nodes : String → Option Node) (staged : String → Option (Option Node)),
      (∀ x, nodes x = (staged x).getD (base x)) →
      changes.foldl applyChange nodes id = (stagedAfter staged changes id).getD (base id) := by
    induction changes with
    | nil =>
      intro nodes staged h
      exact h id
    | cons change changes ih =>
      intro nodes staged h
      apply ih
      intro x
      unfold applyChange
      by_cases hx : x = change.id
      · subst hx
        simp
      · simp [Function.update_of_ne hx, h x]
  exact hgeneral base (fun _ => none) (fun x => rfl)

theorem stageChanges_staged (s : Store) (scope : Scope) (changes : List Change) (sc : Scope)
    (id : String) :
    (s.stageChanges scope changes).staged.get (sc, id) =
      if sc = scope then stagedAfter (fun x => s.staged.get (scope, x)) changes id
      else s.staged.get (sc, id) := by
  induction changes generalizing s with
  | nil =>
    by_cases hsc : sc = scope
    · subst hsc
      rw [if_pos rfl]
      rfl
    · rw [if_neg hsc]
      rfl
  | cons change changes ih =>
    have hstep := ih (s.stageChange scope change)
    by_cases hsc : sc = scope
    · subst hsc
      rw [if_pos rfl] at hstep ⊢
      refine hstep.trans ?_
      -- Staging one change updates the row of its item.
      have hrow : (fun x => (s.stageChange sc change).staged.get (sc, x)) =
          Function.update (fun x => s.staged.get (sc, x)) change.id (some change.body) := by
        funext x
        by_cases hx : x = change.id
        · subst hx
          simp [stageChange]
        · have hne : (sc, x) ≠ (sc, change.id) := fun heq => hx (Prod.mk.inj heq).2
          simp [stageChange, Table.get_set, Function.update_of_ne hx, hne]
      rw [hrow]
      rfl
    · rw [if_neg hsc] at hstep ⊢
      refine hstep.trans ?_
      have hne : (sc, id) ≠ (scope, change.id) := fun heq => hsc (Prod.mk.inj heq).1
      simp [stageChange, Table.get_set, hne]

/-! ## The store implements the view -/

/-- The rows of a scope are described by a view. -/
structure Abstracts (s : Store) (scope : Scope) (f : FeedView) : Prop where
  nodes : ∀ id, s.nodes.get (scope, id) = f.nodes id
  cursor : (s.feedRow scope).cursor = f.cursor
  idle : f.round = none → (s.feedRow scope).pending = false ∧
    ∀ id, s.staged.get (scope, id) = none
  active : ∀ round, f.round = some round → (s.feedRow scope).pending = true ∧
    (s.feedRow scope).reset = round.fresh ∧ (s.feedRow scope).nextCursor = round.next ∧
    ∀ id, s.staged.get (scope, id) = stagedAfter (fun _ => none) round.received id

variable {s s' : Store} {scope : Scope} {f : FeedView}

/-- The view depends on the rows of its scope only. -/
theorem Abstracts.congr (h : Abstracts s scope f)
    (hnodes : ∀ id, s'.nodes.get (scope, id) = s.nodes.get (scope, id))
    (hstaged : ∀ id, s'.staged.get (scope, id) = s.staged.get (scope, id))
    (hfeed : s'.feedRow scope = s.feedRow scope) : Abstracts s' scope f where
  nodes := by
    intro id
    rw [hnodes]
    exact h.nodes id
  cursor := by
    rw [hfeed]
    exact h.cursor
  idle := by
    intro hround
    obtain ⟨hpending, hnone⟩ := h.idle hround
    rw [hfeed]
    exact ⟨hpending, fun id => (hstaged id).trans (hnone id)⟩
  active := by
    intro round hround
    obtain ⟨hpending, hreset, hnext, hrows⟩ := h.active round hround
    rw [hfeed]
    exact ⟨hpending, hreset, hnext, fun id => (hstaged id).trans (hrows id)⟩

theorem feedRow_setFeed (s : Store) (scope sc : Scope) (feed : Feed) :
    (s.setFeed scope feed).feedRow sc = if sc = scope then feed else s.feedRow sc := by
  unfold feedRow setFeed
  by_cases hsc : sc = scope
  · subst hsc
    simp
  · simp [Table.get_set, hsc]

theorem Abstracts.pending_iff (h : Abstracts s scope f) :
    (s.feedRow scope).pending = f.round.isSome := by
  cases hround : f.round with
  | none => exact (h.idle hround).1
  | some round => exact (h.active round hround).1

/-! ### Beginning a round -/

/-- The store after a new round was started for a scope. -/
def started (s : Store) (scope : Scope) : Store :=
  { s with revision := s.revision + 1, rounds := s.rounds.set scope (s.revision + 1) }

theorem begin_eq_ok {reset : Bool} {c : Option Cursor} (h : s.begin scope reset = .ok (c, s')) :
    (reset = true ∧ c = none ∧ s' = ((s.started scope).clearStaged scope).setFeed scope
      { s.feedRow scope with pending := true, nextCursor := none, reset := true }) ∨
    (reset = false ∧ (s.feedRow scope).pending = true ∧ c = (s.feedRow scope).nextCursor ∧
      s' = s.setFeed scope (s.feedRow scope)) ∨
    (reset = false ∧ (s.feedRow scope).pending = false ∧ c = (s.feedRow scope).cursor ∧
      s' = (s.started scope).setFeed scope { s.feedRow scope with
        pending := true, nextCursor := (s.feedRow scope).cursor
        reset := (s.feedRow scope).cursor.isNone }) := by
  unfold begin at h
  dsimp only at h
  split at h
  · next hreset =>
    obtain ⟨s₁, hstart, h⟩ := bind_eq_ok h
    cases h
    exact .inl ⟨hreset, rfl, by rw [startRound_eq_ok hstart]; rfl⟩
  · next hreset =>
    have hreset : reset = false := by simpa using hreset
    split at h
    · next hpending =>
      cases h
      exact .inr (.inl ⟨hreset, hpending, rfl, rfl⟩)
    · next hpending =>
      obtain ⟨s₁, hstart, h⟩ := bind_eq_ok h
      cases h
      exact .inr (.inr ⟨hreset, by simpa using hpending, rfl,
        by rw [startRound_eq_ok hstart]; rfl⟩)

theorem beginSnapshot_eq_ok {c : Option Cursor} (h : s.beginSnapshot scope = .ok (c, s')) :
    ((s.feedRow scope).pending = true ∧ c = (s.feedRow scope).nextCursor ∧
      s' = s.setFeed scope (s.feedRow scope)) ∨
    ((s.feedRow scope).pending = false ∧ c = none ∧
      s' = ((s.started scope).clearStaged scope).setFeed scope
        { s.feedRow scope with pending := true, nextCursor := none, reset := true }) := by
  unfold beginSnapshot at h
  dsimp only at h
  split at h
  · next hpending =>
    cases h
    exact .inl ⟨hpending, rfl, rfl⟩
  · next hpending =>
    obtain ⟨s₁, hstart, h⟩ := bind_eq_ok h
    cases h
    exact .inr ⟨by simpa using hpending, rfl, by rw [startRound_eq_ok hstart]; rfl⟩

theorem clearStaged_own (s : Store) (scope : Scope) (id : String) :
    (s.clearStaged scope).staged.get (scope, id) = none :=
  Table.get_deleteWhere_of_deleted _ (fun _ _ => by simp)

theorem clearStaged_other (s : Store) {scope sc : Scope} (hsc : sc ≠ scope) (id : String) :
    (s.clearStaged scope).staged.get (sc, id) = s.staged.get (sc, id) :=
  Table.get_deleteWhere_of_kept _ (fun _ _ => by simpa using hsc)

/-- A new baseline: nothing is staged and the round has received nothing. -/
theorem Abstracts.baseline (h : Abstracts s scope f) :
    Abstracts (((s.started scope).clearStaged scope).setFeed scope
      { s.feedRow scope with pending := true, nextCursor := none, reset := true }) scope
      { f with round := some ⟨true, [], none⟩ } where
  nodes := h.nodes
  cursor := by
    rw [feedRow_setFeed, if_pos rfl]
    exact h.cursor
  idle := by
    intro hround
    cases hround
  active := by
    intro round hround
    cases hround
    rw [feedRow_setFeed, if_pos rfl]
    exact ⟨rfl, rfl, rfl, fun id => clearStaged_own _ scope id⟩

/-- Resuming changes nothing. -/
theorem Abstracts.resume (h : Abstracts s scope f) :
    Abstracts (s.setFeed scope (s.feedRow scope)) scope f := by
  refine h.congr (fun _ => rfl) (fun _ => rfl) ?_
  rw [feedRow_setFeed, if_pos rfl]

/-- A round from the completed cursor, with nothing staged. -/
theorem Abstracts.incremental (h : Abstracts s scope f) (hround : f.round = none) :
    Abstracts ((s.started scope).setFeed scope { s.feedRow scope with
        pending := true, nextCursor := (s.feedRow scope).cursor
        reset := (s.feedRow scope).cursor.isNone }) scope
      { f with round := some ⟨f.cursor.isNone, [], f.cursor⟩ } where
  nodes := h.nodes
  cursor := by
    rw [feedRow_setFeed, if_pos rfl]
    exact h.cursor
  idle := by
    intro hnone
    cases hnone
  active := by
    intro round hnew
    cases hnew
    rw [feedRow_setFeed, if_pos rfl, h.cursor]
    exact ⟨rfl, rfl, rfl, (h.idle hround).2⟩

theorem Abstracts.begin (h : Abstracts s scope f) {reset : Bool} {c : Option Cursor}
    (hbegin : s.begin scope reset = .ok (c, s')) : Abstracts s' scope (f.begin reset) := by
  unfold FeedView.begin
  rcases begin_eq_ok hbegin with ⟨rfl, _, rfl⟩ | ⟨rfl, hpending, _, rfl⟩ | ⟨rfl, hpending, _, rfl⟩
  · rw [if_pos rfl]
    exact h.baseline
  · rw [if_neg Bool.false_ne_true]
    rw [h.pending_iff, Option.isSome_iff_exists] at hpending
    obtain ⟨round, hround⟩ := hpending
    rw [hround]
    exact h.resume
  · rw [if_neg Bool.false_ne_true]
    rw [h.pending_iff, Option.isSome_eq_false_iff, Option.isNone_iff_eq_none] at hpending
    rw [hpending]
    exact h.incremental hpending

theorem Abstracts.beginSnapshot (h : Abstracts s scope f) {c : Option Cursor}
    (hbegin : s.beginSnapshot scope = .ok (c, s')) : Abstracts s' scope f.beginSnapshot := by
  unfold FeedView.beginSnapshot
  rcases beginSnapshot_eq_ok hbegin with ⟨hpending, _, rfl⟩ | ⟨hpending, _, rfl⟩
  · rw [h.pending_iff, Option.isSome_iff_exists] at hpending
    obtain ⟨round, hround⟩ := hpending
    rw [hround]
    exact h.resume
  · rw [h.pending_iff, Option.isSome_eq_false_iff, Option.isNone_iff_eq_none] at hpending
    rw [hpending]
    exact h.baseline

/-! ### Taking in a page -/

theorem feedRow_of_get {feed : Feed} (h : s.feeds.get scope = some feed) :
    s.feedRow scope = feed := by
  simp [feedRow, h]

/-- The staged rows after a page are those of everything received. -/
theorem Abstracts.staged (h : Abstracts s scope f) {round : Round} (hround : f.round = some round)
    (changes : List Change) (id : String) :
    (s.stageChanges scope changes).staged.get (scope, id) =
      stagedAfter (fun _ => none) (round.received ++ changes) id := by
  have hrows : (fun x => s.staged.get (scope, x)) =
      stagedAfter (fun _ => none) round.received := by
    funext x
    exact (h.active round hround).2.2.2 x
  rw [stageChanges_staged, if_pos rfl, hrows, stagedAfter_append]

theorem Abstracts.stage (h : Abstracts s scope f) {expected : Option Cursor} {page : ChangePage}
    (hstage : s.stage scope expected page = .ok s') : Abstracts s' scope (f.stage page) := by
  obtain ⟨feed, hfeed, hpending, _, hpage⟩ := stage_spec hstage
  have hrow := feedRow_of_get hfeed
  rw [← hrow, h.pending_iff, Option.isSome_iff_exists] at hpending
  obtain ⟨round, hround⟩ := hpending
  obtain ⟨_, hreset, _, _⟩ := h.active round hround
  obtain ⟨staged, hframe⟩ := stageChanges_frame s scope page.changes
  have hstaged := h.staged hround page.changes
  unfold FeedView.stage
  rw [hround]
  rcases hpage with ⟨hcomplete, rfl⟩ | ⟨hcomplete, hcommitted⟩
  · -- The page is only added to the round.
    simp only [hcomplete, Bool.false_eq_true, if_false]
    refine ⟨?_, ?_, ?_, ?_⟩
    · intro id
      rw [hframe]
      exact h.nodes id
    · rw [feedRow_setFeed, if_pos rfl]
      rw [← hrow]
      exact h.cursor
    · intro hnone
      cases hnone
    · intro round' hround'
      cases hround'
      rw [feedRow_setFeed, if_pos rfl]
      refine ⟨?_, ?_, rfl, hstaged⟩
      · rw [← hrow, h.pending_iff, hround]
        rfl
      · rw [← hrow]
        exact hreset
  · -- The terminal page replays the staged rows.
    simp only [hcomplete, if_true]
    refine ⟨?_, ?_, ?_, ?_⟩
    · intro id
      show s'.nodes.get (scope, id) = (round.received ++ page.changes).foldl applyChange
        (if round.fresh then fun _ => none else f.nodes) id
      rw [foldl_applyChange, ← hstaged id]
      rw [hrow] at hreset
      cases hrows : (s.stageChanges scope page.changes).staged.get (scope, id) with
      | some body => exact hcommitted.nodes_staged id body hrows
      | none =>
        rw [hcommitted.nodes_kept id hrows, hreset, hframe]
        cases round.fresh with
        | true => rfl
        | false => exact h.nodes id
    · rw [feedRow_of_get hcommitted.feeds_own]
    · intro _
      rw [feedRow_of_get hcommitted.feeds_own]
      exact ⟨rfl, hcommitted.staged_own⟩
    · intro round' hround'
      cases hround'

/-! ### Rows of other scopes -/

theorem Abstracts.of_begin_elsewhere {sc : Scope} (hsc : scope ≠ sc) (h : Abstracts s scope f)
    {reset : Bool} {c : Option Cursor} (hbegin : s.begin sc reset = .ok (c, s')) :
    Abstracts s' scope f := by
  rcases begin_eq_ok hbegin with ⟨_, _, rfl⟩ | ⟨_, _, _, rfl⟩ | ⟨_, _, _, rfl⟩
  · exact h.congr (fun _ => rfl) (clearStaged_other _ hsc)
      ((feedRow_setFeed _ _ _ _).trans (if_neg hsc))
  · exact h.congr (fun _ => rfl) (fun _ => rfl) ((feedRow_setFeed _ _ _ _).trans (if_neg hsc))
  · exact h.congr (fun _ => rfl) (fun _ => rfl) ((feedRow_setFeed _ _ _ _).trans (if_neg hsc))

theorem Abstracts.of_beginSnapshot_elsewhere {sc : Scope} (hsc : scope ≠ sc)
    (h : Abstracts s scope f) {c : Option Cursor} (hbegin : s.beginSnapshot sc = .ok (c, s')) :
    Abstracts s' scope f := by
  rcases beginSnapshot_eq_ok hbegin with ⟨_, _, rfl⟩ | ⟨_, _, rfl⟩
  · exact h.congr (fun _ => rfl) (fun _ => rfl) ((feedRow_setFeed _ _ _ _).trans (if_neg hsc))
  · exact h.congr (fun _ => rfl) (clearStaged_other _ hsc)
      ((feedRow_setFeed _ _ _ _).trans (if_neg hsc))

theorem Abstracts.of_stage_elsewhere {sc : Scope} (hsc : scope ≠ sc) (h : Abstracts s scope f)
    {expected : Option Cursor} {page : ChangePage}
    (hstage : s.stage sc expected page = .ok s') : Abstracts s' scope f := by
  obtain ⟨feed, _, _, _, hpage⟩ := stage_spec hstage
  have hstaged : ∀ id, (s.stageChanges sc page.changes).staged.get (scope, id) =
      s.staged.get (scope, id) := fun id =>
    (stageChanges_staged s sc page.changes scope id).trans (if_neg hsc)
  obtain ⟨staged, hframe⟩ := stageChanges_frame s sc page.changes
  rcases hpage with ⟨_, rfl⟩ | ⟨_, hcommitted⟩
  · refine h.congr ?_ hstaged ?_
    · intro id
      rw [hframe]
      rfl
    · rw [feedRow_setFeed, if_neg hsc, hframe]
      rfl
  · refine h.congr ?_ ?_ ?_
    · intro id
      rw [hcommitted.nodes_other scope id hsc, hframe]
    · intro id
      rw [hcommitted.staged_other scope id hsc, hstaged id]
    · unfold feedRow
      rw [hcommitted.feeds_other scope hsc, hframe]

/-- Only feed operations write the index, the staging table or the feeds. -/
theorem Outcome.feed_frame {op : Op} {reply : Reply} (h : Outcome s op reply s')
    (hop : op.isFeed = false) :
    s'.nodes = s.nodes ∧ s'.staged = s.staged ∧ s'.feeds = s.feeds := by
  cases h with
  | answered => exact ⟨rfl, rfl, rfl⟩
  | granted => exact ⟨rfl, rfl, rfl⟩
  | read _ _ happlied => exact ⟨happlied.nodes, happlied.staged, happlied.feeds⟩
  | notFound _ _ happlied => exact ⟨happlied.nodes, happlied.staged, happlied.feeds⟩
  | listed _ _ _ _ _ _ _ _ _ _ happlied _ => exact ⟨happlied.nodes, happlied.staged, happlied.feeds⟩
  | observed _ _ _ _ _ _ happlied _ => exact ⟨happlied.nodes, happlied.staged, happlied.feeds⟩
  | began hfeed _ =>
    rw [hop] at hfeed
    cases hfeed
  | paged => cases hop
  | committed => cases hop

/-- Every committed operation does to a scope what `FeedView.after` says. -/
theorem Abstracts.exec {op : Op} {reply : Reply} (h : Abstracts s scope f) (hkeys : WellKeyed s)
    (hwellFormed : op.wellFormed) (hexec : s.exec op = .ok (reply, s')) :
    Abstracts s' scope (f.after scope op) := by
  have houtcome := exec_outcome hkeys hwellFormed hexec
  cases op with
  | begin sc reset =>
    obtain ⟨⟨c, s₁⟩, hbegin, hreply⟩ := bind_eq_ok hexec
    cases hreply
    by_cases hsc : sc = scope
    · subst hsc
      rw [FeedView.after, if_pos rfl]
      exact h.begin hbegin
    · rw [FeedView.after, if_neg hsc]
      exact h.of_begin_elsewhere (Ne.symm hsc) hbegin
  | beginSnapshot sc =>
    obtain ⟨⟨c, s₁⟩, hbegin, hreply⟩ := bind_eq_ok hexec
    cases hreply
    by_cases hsc : sc = scope
    · subst hsc
      rw [FeedView.after, if_pos rfl]
      exact h.beginSnapshot hbegin
    · rw [FeedView.after, if_neg hsc]
      exact h.of_beginSnapshot_elsewhere (Ne.symm hsc) hbegin
  | stage sc expected page =>
    obtain ⟨s₁, hstage, hreply⟩ := bind_eq_ok hexec
    cases hreply
    by_cases hsc : sc = scope
    · subst hsc
      rw [FeedView.after, if_pos rfl]
      exact h.stage hstage
    · rw [FeedView.after, if_neg hsc]
      exact h.of_stage_elsewhere (Ne.symm hsc) hstage
  | _ =>
    obtain ⟨hnodes, hstaged, hfeeds⟩ := houtcome.feed_frame rfl
    refine h.congr ?_ ?_ ?_
    · intro id
      rw [hnodes]
    · intro id
      rw [hstaged]
    · unfold feedRow
      rw [hfeeds]

/-! ## Main theorem -/

/-- A page that the view does not accept is refused. -/
theorem Abstracts.refuses (h : Abstracts s scope f) {expected : Option Cursor}
    (haccepts : f.accepts expected = false) (page : ChangePage) :
    ∃ e, s.stage scope expected page = .error e := by
  unfold Store.stage
  cases hfeed : s.feeds.get scope with
  | none => exact ⟨_, rfl⟩
  | some feed =>
    have hrow := feedRow_of_get hfeed
    cases hround : f.round with
    | none =>
      have hidle := (h.idle hround).1
      rw [hrow] at hidle
      exact ⟨.noRefresh, by simp [hidle]⟩
    | some round =>
      obtain ⟨hpending, _, hnext, _⟩ := h.active round hround
      have hother : feed.nextCursor ≠ expected := by
        rw [← hrow, hnext]
        simpa [FeedView.accepts, hround] using haccepts
      rw [hrow] at hpending
      exact ⟨.outOfOrder, by simp [hpending, hother]⟩

/-- A page that the view accepts is taken in, if the clock can still move for it. -/
theorem Abstracts.takes (h : Abstracts s scope f) {expected : Option Cursor}
    (haccepts : f.accepts expected = true) (page : ChangePage)
    (hclock : page.checkpoint.isComplete = true → s.revision + 1 ≤ maxRevision) :
    ∃ s', s.stage scope expected page = .ok s' := by
  cases hround : f.round with
  | none => simp [FeedView.accepts, hround] at haccepts
  | some round =>
    obtain ⟨hpending, _, hnext, _⟩ := h.active round hround
    have hexpected : round.next = expected := by simpa [FeedView.accepts, hround] using haccepts
    cases hfeed : s.feeds.get scope with
    | none =>
      simp [feedRow, hfeed, Feed.fresh] at hpending
    | some feed =>
      rw [feedRow_of_get hfeed] at hpending hnext
      obtain ⟨staged, hframe⟩ := stageChanges_frame s scope page.changes
      have hadvance : page.checkpoint.isComplete = true → ∃ u,
          (s.stageChanges scope page.changes).publishDelta scope feed.reset = .ok u := by
        intro hcomplete
        unfold publishDelta advance
        rw [hframe]
        split
        · exact ⟨_, rfl⟩
        · rw [if_pos (hclock hcomplete)]
          cases feed.reset with
          | true => exact ⟨_, rfl⟩
          | false => exact ⟨_, rfl⟩
      unfold Store.stage
      rw [hfeed]
      simp only [hpending, hnext, hexpected, Bool.not_true, Bool.false_eq_true, if_false, ne_eq,
        not_true_eq_false]
      cases hcomplete : page.checkpoint.isComplete with
      | false => exact ⟨_, if_neg Bool.false_ne_true⟩
      | true =>
        obtain ⟨u, hu⟩ := hadvance hcomplete
        rw [hu, if_pos rfl]
        exact ⟨_, rfl⟩

theorem Abstracts.create (identity : String) (scope : Scope) :
    Abstracts (Store.create identity) scope FeedView.empty where
  nodes := fun _ => rfl
  cursor := rfl
  idle := fun _ => ⟨rfl, fun _ => rfl⟩
  active := by
    intro round hround
    cases hround

theorem ofLog_append (scope : Scope) (log : List (Op × Reply)) (op : Op) (reply : Reply) :
    FeedView.ofLog scope (log ++ [(op, reply)]) = (FeedView.ofLog scope log).after scope op := by
  simp [FeedView.ofLog, List.foldl_append]

theorem Reachable.abstracts {w : World} (hreachable : Reachable w) (scope : Scope) :
    Abstracts w.store scope (FeedView.ofLog scope w.log) := by
  obtain ⟨identity, ops, hrun⟩ := hreachable
  have hboth := hrun.invariant
    (fun w => Inv w ∧ Abstracts w.store scope (FeedView.ofLog scope w.log))
    ⟨Inv.create identity, Abstracts.create identity scope⟩ (by
      intro w op hw hpermitted
      refine ⟨hw.1.step hpermitted, ?_⟩
      rcases w.step_cases op with hsame | ⟨reply, s', hexec, hstep⟩
      · rw [hsame]
        exact hw.2
      · rw [hstep, ofLog_append]
        exact hw.2.exec hw.1.sound.keyed hpermitted.2 hexec)
  exact hboth.2

/-- Resumable rounds equal one fold: every scope of every reachable state is what its log
    adds up to, a page that does not continue the round is refused and changes nothing, one
    that does is taken in, and resuming answers with the saved continuation. -/
theorem feed_refines {w : World} (hreachable : Reachable w) (scope : Scope) :
    Abstracts w.store scope (FeedView.ofLog scope w.log) ∧
    (∀ expected page, (FeedView.ofLog scope w.log).accepts expected = false →
      (∃ e, w.store.exec (.stage scope expected page) = .error e) ∧
        w.step (.stage scope expected page) = w) ∧
    (∀ expected page, (FeedView.ofLog scope w.log).accepts expected = true →
      (page.checkpoint.isComplete = true → w.store.revision + 1 ≤ maxRevision) →
      ∃ s', w.store.exec (.stage scope expected page) = .ok (.done, s')) ∧
    (∀ round, (FeedView.ofLog scope w.log).round = some round →
      (∃ s', w.store.exec (.begin scope false) = .ok (.cursor round.next, s')) ∧
      ∃ s', w.store.exec (.beginSnapshot scope) = .ok (.cursor round.next, s')) := by
  have h := hreachable.abstracts scope
  refine ⟨h, ?_, ?_, ?_⟩
  · intro expected page haccepts
    obtain ⟨e, he⟩ := h.refuses haccepts page
    have hexec : w.store.exec (.stage scope expected page) = .error e := by
      simp only [Store.exec, he]
      rfl
    refine ⟨⟨e, hexec⟩, ?_⟩
    unfold World.step
    rw [hexec]
  · intro expected page haccepts hclock
    obtain ⟨s', hs'⟩ := h.takes haccepts page hclock
    refine ⟨s', ?_⟩
    simp only [Store.exec, hs']
    rfl
  · intro round hround
    obtain ⟨hpending, _, hnext, _⟩ := h.active round hround
    refine ⟨⟨w.store.setFeed scope (w.store.feedRow scope), ?_⟩,
      ⟨w.store.setFeed scope (w.store.feedRow scope), ?_⟩⟩
    · simp only [Store.exec, Store.begin, hpending, hnext]
      rfl
    · simp only [Store.exec, Store.beginSnapshot, hpending, hnext]
      rfl

/-- A round in two pages, resumed in between. -/
def resumedRound : List Op :=
  [.begin drive false,
    .stage drive none ⟨[.upsert (fileAt "x" "p"), .upsert (fileAt "y" "p")], .continue ⟨"1"⟩⟩,
    .beginSnapshot drive, .stage drive (some ⟨"1"⟩) (pageTo [.delete "x"] "2")]

theorem resumedRound_refines :
    Abstracts (resumedRound.foldl World.step (World.create "db")).store drive
      ⟨[.upsert (fileAt "x" "p"), .upsert (fileAt "y" "p"), .delete "x"].foldl applyChange
        (fun _ => none), some ⟨"2"⟩, none⟩ := by
  have hreachable : Reachable (resumedRound.foldl World.step (World.create "db")) := by
    refine ⟨"db", resumedRound, Run.extend .start ?_⟩
    exact ⟨.of_ticketless rfl trivial, .of_ticketless rfl trivial, .of_ticketless rfl trivial,
      .of_ticketless rfl trivial, trivial⟩
  exact (feed_refines hreachable drive).1

end Cirrove.Store
