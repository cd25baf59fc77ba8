import Cirrove.Store.Changes
import Cirrove.Store.Invariant

/-!
# Following the marks

A reader starts at a position and follows the pages while writers commit. `Watch` is the
store together with the reader, and with what is needed to say that nothing is lost: the
marks written since the reader started, and the keys it was given with the clock of the
page they came from.

A mark that was not given yet is still `Ahead` of the reader: its row, or the row of its
scope that replaced it, will be selected by a later page of this round or by a later
round. This is the invariant of the two kinds of events.

## Main results

- `watch_loses_nothing`: when a round completes, every mark it had to cover was given, or
  has meanwhile moved above the revision the round covers
- `moved_mark_is_not_given`: a mark that moves while a round is under way is not given in
  that round
-/

namespace Cirrove.Store

open Cirrove.Library

variable {s s' : Store} {p : MetadataPosition} {page : MetadataChanges} {upper : Nat}

/-! ## One page -/

theorem Mark.order_injective : Function.Injective Mark.order := by
  intro a b h
  obtain ⟨⟨scopeA, kindA, idA⟩, revisionA⟩ := a
  obtain ⟨⟨scopeB, kindB, idB⟩, revisionB⟩ := b
  simp only [Mark.order, EmbeddingLike.apply_eq_iff_eq, Prod.mk.injEq] at h
  obtain ⟨rfl, hscope, hkind, rfl⟩ := h
  obtain rfl := Scope.encoded_injective hscope
  have hkind : kindA = kindB := by
    cases kindA <;> cases kindB <;> first | rfl | cases hkind
  rw [hkind]

theorem mem_markRows {m : Mark} : m ∈ s.markRows p upper ↔
    s.versions.get m.key = some m.revision ∧ p.selects upper m = true := by
  unfold markRows
  rw [List.mem_insertionSort, List.mem_filter, List.mem_map]
  refine and_congr_left fun _ => ⟨?_, ?_⟩
  · intro h
    obtain ⟨⟨k, r⟩, hmem, rfl⟩ := h
    exact (Table.mem_rows _ _ _).mp hmem
  · intro h
    exact ⟨(m.key, m.revision), (Table.mem_rows _ _ _).mpr h, rfl⟩

instance : Std.Total Mark.le := ⟨fun a b => le_total a.order b.order⟩

instance : IsTrans Mark Mark.le := ⟨fun _ _ _ hab hbc => le_trans hab hbc⟩

/-- The rows of a query are in strict order. -/
theorem markRows_pairwise (s : Store) (p : MetadataPosition) (upper : Nat) :
    (s.markRows p upper).Pairwise (fun a b => a.order < b.order) := by
  have hsorted : (s.markRows p upper).Pairwise Mark.le := List.pairwise_insertionSort _ _
  have hnodup : (s.markRows p upper).Nodup := by
    refine (List.perm_insertionSort _ _).nodup_iff.mpr (List.Nodup.filter _ ?_)
    have hkeys := Table.rows_keys_nodup s.versions
    refine (List.Nodup.of_map Prod.fst hkeys).map ?_
    intro a b h
    simp only [Mark.mk.injEq] at h
    exact Prod.ext h.1 h.2
  refine (hsorted.and hnodup).imp ?_
  intro a b h
  exact lt_of_le_of_ne h.1 (fun heq => h.2 (Mark.order_injective heq))

/-- The loop takes rows from the front; it stops early with something taken, or at the end
    of a query shorter than its limit. -/
theorem readRows_spec {rows taken result : List Mark} {bytes : Nat} {complete : Bool}
    (h : readRows rows taken bytes = .ok (result, complete))
    (hlimit : taken.length < pageEntries) :
    ∃ more rest, result = taken ++ more ∧ rows = more ++ rest ∧ result.length ≤ pageEntries ∧
      (complete = true → rest = [] ∧ result.length < pageEntries) ∧
      (complete = false → result ≠ []) := by
  induction rows generalizing taken bytes with
  | nil =>
    cases h
    exact ⟨[], [], by simp, rfl, hlimit.le, fun _ => ⟨rfl, hlimit⟩, fun h => by cases h⟩
  | cons row rows ih =>
    unfold readRows at h
    split at h
    · cases h
    split at h
    · next hfull =>
      cases h
      exact ⟨[], row :: rows, by simp, rfl, hlimit.le,
        fun h => absurd h Bool.false_ne_true, fun _ => hfull.1⟩
    split at h
    · next hlast =>
      cases h
      exact ⟨[row], rows, rfl, rfl, hlast.le, fun h => absurd h Bool.false_ne_true, fun _ => by simp⟩
    · next hlast =>
      have hmore : (taken ++ [row]).length < pageEntries := by
        rw [List.length_append, List.length_singleton] at hlast ⊢
        omega
      obtain ⟨more, rest, rfl, rfl, hle, hcomplete, hincomplete⟩ := ih h hmore
      exact ⟨row :: more, rest, by simp, rfl, hle, hcomplete, hincomplete⟩

/-- A page is a front part of the query. It is empty only at the end of the round. -/
theorem metadataChanges_spec (h : s.metadataChanges p = .ok page) :
    s.identity = p.database ∧ p.through ≤ s.revision ∧
    ∃ taken rest, s.markRows p (p.upper.getD s.revision) = taken ++ rest ∧
      page.changes = taken.map Mark.key ∧ taken.length ≤ pageEntries ∧
      ((page.complete = true ∧ rest = [] ∧
          page.next = ⟨p.database, p.upper.getD s.revision, none, none⟩) ∨
        (page.complete = false ∧ ∃ last, taken.getLast? = some last ∧
          page.next = ⟨p.database, p.through, some (p.upper.getD s.revision), some last⟩)) := by
  unfold metadataChanges at h
  split at h
  · cases h
  · next hvalid =>
    simp only [not_or, not_not, not_lt] at hvalid
    obtain ⟨⟨taken, complete⟩, hread, h⟩ := bind_eq_ok h
    cases h
    obtain ⟨more, rest, hresult, hrows, hle, hcomplete, hincomplete⟩ :=
      readRows_spec hread (by decide)
    rw [List.nil_append] at hresult
    subst hresult
    refine ⟨hvalid.1, hvalid.2, taken,
      rest ++ (s.markRows p (p.upper.getD s.revision)).drop pageEntries, ?_, rfl, hle, ?_⟩
    · rw [← List.append_assoc, ← hrows, List.take_append_drop]
    · cases complete with
      | true =>
        obtain ⟨hrest, hshort⟩ := hcomplete rfl
        -- The limit was not reached, so it cut nothing off.
        refine .inl ⟨rfl, ?_, rfl⟩
        rw [hrest, List.nil_append, List.drop_eq_nil_iff]
        have hlength := congrArg List.length hrows
        rw [hrest, List.append_nil, List.length_take] at hlength
        omega
      | false =>
        refine .inr ⟨rfl, taken.getLast (hincomplete rfl), ?_, ?_⟩
        · exact List.getLast?_eq_some_getLast (hincomplete rfl)
        · simp [List.getLast?_eq_some_getLast (hincomplete rfl)]

/-! ## The reader and the writers -/

/-- Has the reader still to come to this mark, in this round or a later one? -/
def Ahead (p : MetadataPosition) (m : Mark) : Prop :=
  match p.after with
  | some after => after.order < m.order
  | none => p.through < m.revision

theorem selects_iff {m : Mark} :
    p.selects upper m = true ↔ Ahead p m ∧ m.revision ≤ upper := by
  unfold MetadataPosition.selects Ahead
  cases p.after with
  | none => simp
  | some after => simp

/-- A later revision comes later in the order. -/
theorem order_lt_of_revision_lt {a b : Mark} (h : a.revision < b.revision) :
    a.order < b.order :=
  Prod.Lex.toLex_lt_toLex.mpr (.inl h)

theorem revision_le_of_order_lt {a b : Mark} (h : a.order < b.order) :
    a.revision ≤ b.revision := by
  rcases Prod.Lex.toLex_lt_toLex.mp h with hlt | ⟨heq, _⟩
  · exact hlt.le
  · exact heq.le

/-- The store and its reader. -/
structure Watch where
  world : World
  position : MetadataPosition
  /-- Every mark written since the reader started. -/
  written : List Mark
  /-- Every key the reader was given, with the clock of its page. -/
  given : List (MarkKey × Nat)
  /-- The keys given in the round under way. -/
  round : List MarkKey

inductive WatchEvent where
  | write (op : Op)
  | read

/-- The marks a transaction has written. -/
def newMarks (s s' : Store) : List Mark :=
  (s'.versions.rows.map fun row => ⟨row.1, row.2⟩).filter (fun m => s.revision < m.revision)

namespace Watch

/-- A reader that starts now. -/
def start (w : World) : Watch := ⟨w, w.store.metadataPosition, [], [], []⟩

def step (x : Watch) : WatchEvent → Watch
  | .write op => { x with
      world := x.world.step op
      written := x.written ++ newMarks x.world.store (x.world.step op).store }
  | .read =>
    match x.world.store.metadataChanges x.position with
    | .error _ => x
    | .ok page => { x with
        position := page.next
        given := x.given ++ page.changes.map (·, x.world.store.revision)
        round := if page.complete then [] else x.round ++ page.changes }

/-- Writers are the callers of the store; the reader may read at any time. -/
def Allowed (x : Watch) : WatchEvent → Prop
  | .write op => Permitted x.world op
  | .read => True

end Watch

/-- The mark that stands for a whole scope. -/
def scopeKey (scope : Scope) : MarkKey := ⟨scope, .scope, ""⟩

/-- A key stands for itself and, if it is the key of the scope, for all of its scope. -/
def StandsFor (k k' : MarkKey) : Prop := k = k' ∨ k = scopeKey k'.scope

/-- The reader was given the key, or its scope, by a page read after the mark was written. -/
def Given (given : List (MarkKey × Nat)) (m : Mark) : Prop :=
  ∃ k c, (k, c) ∈ given ∧ StandsFor k m.key ∧ m.revision ≤ c

/-- The row of the key, or of its scope, stands at a revision the reader still comes to. -/
def Pending (s : Store) (p : MetadataPosition) (m : Mark) : Prop :=
  ∃ m' : Mark, s.versions.get m'.key = some m'.revision ∧ StandsFor m'.key m.key ∧
    m.revision ≤ m'.revision ∧ Ahead p m'

/-- A position is between rounds, or inside one at a row of it. -/
structure Placed (s : Store) (p : MetadataPosition) : Prop where
  database : p.database = s.identity
  through_le : p.through ≤ s.revision
  upper_le : ∀ u, p.upper = some u → u ≤ s.revision
  after_le : ∀ a, p.after = some a → ∃ u, p.upper = some u ∧ a.revision ≤ u

theorem Placed.between {database : String} {through : Nat} (hdatabase : database = s.identity)
    (hthrough : through ≤ s.revision) : Placed s ⟨database, through, none, none⟩ where
  database := hdatabase
  through_le := hthrough
  upper_le := by
    intro u hu
    cases hu
  after_le := by
    intro a ha
    cases ha

/-- Nothing given in this round can be given in it again. -/
def Behind (s : Store) (p : MetadataPosition) (round : List MarkKey) : Prop :=
  ∀ k ∈ round, ∃ u a, p.upper = some u ∧ p.after = some a ∧
    ∀ r, s.versions.get k = some r → u < r ∨ Mark.order ⟨k, r⟩ ≤ a.order

/-- The invariant of the reader. -/
structure WatchInv (x : Watch) : Prop where
  inv : Inv x.world
  placed : Placed x.world.store x.position
  kept : ∀ m ∈ x.written, Given x.given m ∨ Pending x.world.store x.position m
  round : x.round.Nodup
  behind : Behind x.world.store x.position x.round

theorem mem_newMarks {m : Mark} : m ∈ newMarks s s' ↔
    s'.versions.get m.key = some m.revision ∧ s.revision < m.revision := by
  unfold newMarks
  rw [List.mem_filter, List.mem_map]
  refine and_congr ⟨?_, ?_⟩ (by simp)
  · intro h
    obtain ⟨⟨k, r⟩, hmem, rfl⟩ := h
    exact (Table.mem_rows _ _ _).mp hmem
  · intro h
    exact ⟨(m.key, m.revision), (Table.mem_rows _ _ _).mpr h, rfl⟩

/-! ### Writers -/

/-- A mark written now is ahead of every reader. -/
theorem Placed.ahead_of_new (h : Placed s p) {m : Mark} (hnew : s.revision < m.revision) :
    Ahead p m := by
  unfold Ahead
  cases hafter : p.after with
  | none => exact lt_of_le_of_lt h.through_le hnew
  | some a =>
    obtain ⟨u, hu, hle⟩ := h.after_le a hafter
    exact order_lt_of_revision_lt (lt_of_le_of_lt (le_trans hle (h.upper_le u hu)) hnew)

theorem Placed.advance (h : Placed s p) (hadvances : Advances s s') : Placed s' p where
  database := h.database.trans hadvances.identity.symm
  through_le := le_trans h.through_le hadvances.clock
  upper_le := fun u hu => le_trans (h.upper_le u hu) hadvances.clock
  after_le := h.after_le

theorem Pending.advance {m : Mark} (h : Pending s p m) (hplaced : Placed s p)
    (hle : ∀ k r, s.versions.get k = some r → r ≤ s.revision) (hadvances : Advances s s') :
    Pending s' p m := by
  obtain ⟨m', hget, hstands, hrevision, hahead⟩ := h
  have hbound := hle _ _ hget
  rcases hadvances.marks m'.key with hkept | ⟨r, hr, hgt, _⟩ | ⟨_, r, hr, hgt, _⟩
  · exact ⟨m', hkept.trans hget, hstands, hrevision, hahead⟩
  · exact ⟨⟨m'.key, r⟩, hr, hstands, (by show m.revision ≤ r; omega), hplaced.ahead_of_new hgt⟩
  · -- The row is gone; the row of its scope has replaced it.
    refine ⟨⟨scopeKey m'.key.scope, r⟩, hr, .inr ?_, (by show m.revision ≤ r; omega),
      hplaced.ahead_of_new hgt⟩
    rcases hstands with heq | heq
    · rw [heq]
    · rw [heq]
      rfl

theorem Behind.advance {round : List MarkKey} (h : Behind s p round) (hplaced : Placed s p)
    (hadvances : Advances s s') : Behind s' p round := by
  intro k hk
  obtain ⟨u, a, hu, ha, hrow⟩ := h k hk
  refine ⟨u, a, hu, ha, ?_⟩
  intro r hr
  rcases hadvances.marks k with hkept | ⟨r', hr', hgt, _⟩ | ⟨hnone, _⟩
  · exact hrow r (hkept.symm.trans hr)
  · rw [hr] at hr'
    cases hr'
    exact .inl (lt_of_le_of_lt (hplaced.upper_le u hu) hgt)
  · rw [hr] at hnone
    cases hnone

theorem WatchInv.write {x : Watch} (h : WatchInv x) {op : Op} (hpermitted : Permitted x.world op) :
    WatchInv (x.step (.write op)) := by
  have hinv := h.inv.step hpermitted
  have hadvances : Advances x.world.store (x.world.step op).store := by
    rcases x.world.step_cases op with hsame | ⟨reply, s', hexec, hstep⟩
    · rw [hsame]
      exact ⟨rfl, le_rfl, fun _ => .inl rfl⟩
    · rw [hstep]
      exact (h.inv.outcome hpermitted hexec).advances
  refine ⟨hinv, h.placed.advance hadvances, ?_, h.round, h.behind.advance h.placed hadvances⟩
  intro m hm
  rcases List.mem_append.mp hm with hold | hnew
  · rcases h.kept m hold with hgiven | hpending
    · exact .inl hgiven
    · exact .inr (hpending.advance h.placed h.inv.sound.versions_le hadvances)
  · obtain ⟨hget, hgt⟩ := mem_newMarks.mp hnew
    exact .inr ⟨m, hget, .inl rfl, le_rfl, h.placed.ahead_of_new hgt⟩

/-! ### The reader -/

/-- The rows of a page, as the rows of the query they come from. -/
structure PageRows (s : Store) (p : MetadataPosition) (taken rest : List Mark) : Prop where
  row : ∀ m ∈ taken, s.versions.get m.key = some m.revision ∧ Ahead p m ∧
    m.revision ≤ p.upper.getD s.revision
  selected : ∀ m, s.versions.get m.key = some m.revision → Ahead p m →
    m.revision ≤ p.upper.getD s.revision → m ∈ taken ∨ m ∈ rest
  order : ∀ a ∈ taken, ∀ b ∈ rest, a.order < b.order
  distinct : taken.Pairwise (fun a b => a.order < b.order)

theorem PageRows.of_append {taken rest : List Mark}
    (h : s.markRows p (p.upper.getD s.revision) = taken ++ rest) : PageRows s p taken rest := by
  have hpairwise := markRows_pairwise s p (p.upper.getD s.revision)
  rw [h, List.pairwise_append] at hpairwise
  refine ⟨?_, ?_, fun a ha b hb => hpairwise.2.2 a ha b hb, hpairwise.1⟩
  · intro m hm
    have hmem : m ∈ s.markRows p (p.upper.getD s.revision) := h ▸ List.mem_append_left _ hm
    obtain ⟨hget, hselects⟩ := mem_markRows.mp hmem
    exact ⟨hget, selects_iff.mp hselects⟩
  · intro m hget hahead hle
    have hmem := mem_markRows.mpr ⟨hget, selects_iff.mpr ⟨hahead, hle⟩⟩
    rw [h] at hmem
    exact List.mem_append.mp hmem

/-- Every row taken comes no later than the last one. -/
theorem PageRows.order_le_last {taken rest : List Mark} (h : PageRows s p taken rest) {last : Mark}
    (hlast : taken.getLast? = some last) {m : Mark} (hm : m ∈ taken) : m.order ≤ last.order := by
  obtain ⟨front, rfl⟩ := List.getLast?_eq_some_iff.mp hlast
  rcases List.mem_append.mp hm with hfront | hend
  · exact ((List.pairwise_append.mp h.distinct).2.2 m hfront last (by simp)).le
  · rw [List.mem_singleton.mp hend]

theorem mem_of_getLast? {taken : List Mark} {last : Mark} (h : taken.getLast? = some last) :
    last ∈ taken := by
  obtain ⟨front, rfl⟩ := List.getLast?_eq_some_iff.mp h
  simp

/-- The keys of a page are distinct: a key has one row. -/
theorem PageRows.keys_nodup {taken rest : List Mark} (h : PageRows s p taken rest) :
    (taken.map Mark.key).Nodup := by
  rw [List.Nodup, List.pairwise_map]
  refine List.Pairwise.imp_of_mem ?_ h.distinct
  intro a b ha hb hlt heq
  have hrevision : a.revision = b.revision := by
    have hget := (h.row a ha).1
    rw [heq, (h.row b hb).1] at hget
    exact (Option.some.inj hget).symm
  have hsame : a = b := by
    cases a
    cases b
    simp only [Mark.mk.injEq]
    exact ⟨heq, hrevision⟩
  rw [hsame] at hlt
  exact lt_irrefl _ hlt

/-- A mark the reader had to come to is given by the page, or is still ahead of it. -/
theorem Pending.read {m : Mark} (h : Pending s p m)
    (hpage : s.metadataChanges p = .ok page)
    (hle : ∀ k r, s.versions.get k = some r → r ≤ s.revision) :
    Given (page.changes.map (·, s.revision)) m ∨ Pending s page.next m := by
  obtain ⟨m', hget, hstands, hrevision, hahead⟩ := h
  obtain ⟨_, _, taken, rest, hrows, hchanges, _, hend⟩ := metadataChanges_spec hpage
  have hpageRows := PageRows.of_append hrows
  by_cases hupper : m'.revision ≤ p.upper.getD s.revision
  · rcases hpageRows.selected m' hget hahead hupper with htaken | hrest
    · -- The page holds it.
      refine .inl ⟨m'.key, s.revision, ?_, hstands, le_trans hrevision (hle _ _ hget)⟩
      rw [hchanges, List.map_map]
      exact List.mem_map.mpr ⟨m', htaken, rfl⟩
    · rcases hend with ⟨_, rfl, _⟩ | ⟨_, last, hlast, hnext⟩
      · cases hrest
      · refine .inr ⟨m', hget, hstands, hrevision, ?_⟩
        rw [hnext]
        exact hpageRows.order last (mem_of_getLast? hlast) m' hrest
  · -- It stands above this round.
    refine .inr ⟨m', hget, hstands, hrevision, ?_⟩
    rcases hend with ⟨_, _, hnext⟩ | ⟨_, last, hlast, hnext⟩
    · rw [hnext]
      exact not_le.mp hupper
    · rw [hnext]
      have hlastLe := (hpageRows.row last (mem_of_getLast? hlast)).2.2
      exact order_lt_of_revision_lt (lt_of_le_of_lt hlastLe (not_le.mp hupper))

theorem Placed.upper_getD_le (h : Placed s p) : p.upper.getD s.revision ≤ s.revision := by
  cases hu : p.upper with
  | none => exact le_rfl
  | some u => exact h.upper_le u hu

theorem Placed.read (h : Placed s p) (hpage : s.metadataChanges p = .ok page) :
    Placed s page.next := by
  obtain ⟨_, _, taken, rest, hrows, _, _, hend⟩ := metadataChanges_spec hpage
  have hupper := h.upper_getD_le
  rcases hend with ⟨_, _, hnext⟩ | ⟨_, last, hlast, hnext⟩
  · rw [hnext]
    exact .between h.database hupper
  · rw [hnext]
    refine ⟨h.database, h.through_le, ?_, ?_⟩
    · intro u hu
      cases hu
      exact hupper
    · intro a ha
      cases ha
      exact ⟨_, rfl, ((PageRows.of_append hrows).row last (mem_of_getLast? hlast)).2.2⟩

/-- A page of a round gives nothing the round has given. -/
theorem Behind.page_nodup {round : List MarkKey} (h : Behind s p round) (hround : round.Nodup)
    (hpage : s.metadataChanges p = .ok page) : (round ++ page.changes).Nodup := by
  obtain ⟨_, _, taken, rest, hrows, hchanges, _, _⟩ := metadataChanges_spec hpage
  have hpageRows := PageRows.of_append hrows
  rw [hchanges, List.nodup_append]
  refine ⟨hround, hpageRows.keys_nodup, ?_⟩
  intro k hk k' hk' heq
  subst heq
  obtain ⟨m, hm, rfl⟩ := List.mem_map.mp hk'
  obtain ⟨u, a, hu, ha, hrow⟩ := h m.key hk
  obtain ⟨hget, hahead, hle⟩ := hpageRows.row m hm
  rw [hu] at hle
  unfold Ahead at hahead
  rw [ha] at hahead
  rcases hrow m.revision hget with hlate | hearly
  · exact absurd hle (not_le.mpr hlate)
  · exact absurd hahead (not_lt.mpr hearly)

/-- After an incomplete page, what the round has given is behind the position. -/
theorem Behind.read {round : List MarkKey} (h : Behind s p round)
    (hpage : s.metadataChanges p = .ok page) (hincomplete : page.complete = false) :
    Behind s page.next (round ++ page.changes) := by
  obtain ⟨_, _, taken, rest, hrows, hchanges, _, hend⟩ := metadataChanges_spec hpage
  have hpageRows := PageRows.of_append hrows
  rcases hend with ⟨hcomplete, _, _⟩ | ⟨_, last, hlast, hnext⟩
  · rw [hincomplete] at hcomplete
    cases hcomplete
  · have hlastRow := hpageRows.row last (mem_of_getLast? hlast)
    rw [hnext]
    intro k hk
    refine ⟨_, last, rfl, rfl, ?_⟩
    intro r hr
    rcases List.mem_append.mp hk with hold | hnew
    · obtain ⟨u, a, hu, ha, hrow⟩ := h k hold
      have hahead := hlastRow.2.1
      unfold Ahead at hahead
      rw [ha] at hahead
      rw [hu]
      rcases hrow r hr with hlate | hearly
      · exact .inl hlate
      · exact .inr (le_trans hearly hahead.le)
    · rw [hchanges] at hnew
      obtain ⟨m, hm, rfl⟩ := List.mem_map.mp hnew
      have hget := (hpageRows.row m hm).1
      rw [hr] at hget
      cases hget
      exact .inr (hpageRows.order_le_last hlast hm)

theorem WatchInv.read {x : Watch} (h : WatchInv x) : WatchInv (x.step .read) := by
  unfold Watch.step
  cases hpage : x.world.store.metadataChanges x.position with
  | error e => exact h
  | ok page =>
    have hnodup := h.behind.page_nodup h.round hpage
    refine ⟨h.inv, h.placed.read hpage, ?_, ?_, ?_⟩
    · intro m hm
      rcases h.kept m hm with ⟨k, c, hmem, hrest⟩ | hpending
      · exact .inl ⟨k, c, List.mem_append_left _ hmem, hrest⟩
      · rcases hpending.read hpage h.inv.sound.versions_le with ⟨k, c, hmem, hrest⟩ | hstill
        · exact .inl ⟨k, c, List.mem_append_right _ hmem, hrest⟩
        · exact .inr hstill
    · show (if page.complete then [] else x.round ++ page.changes).Nodup
      split
      · exact List.nodup_nil
      · exact hnodup
    · show Behind x.world.store page.next (if page.complete then [] else x.round ++ page.changes)
      cases hcomplete : page.complete with
      | true =>
        intro k hk
        cases hk
      | false => exact h.behind.read hpage hcomplete

theorem WatchInv.start {w : World} (h : Inv w) : WatchInv (Watch.start w) where
  inv := h
  placed := .between rfl le_rfl
  kept := by
    intro m hm
    cases hm
  round := List.nodup_nil
  behind := by
    intro k hk
    cases hk

/-! ## A round over a fixed table -/

/-- Follow a round to its last page; `none` if `fuel` pages were not enough. -/
def readRound : Nat → Store → MetadataPosition → Option (Except StoreError MetadataChanges)
  | 0, _, _ => none
  | fuel + 1, s, p =>
    match s.metadataChanges p with
    | .error e => some (.error e)
    | .ok page => if page.complete then some (.ok page) else readRound fuel s page.next

/-- An incomplete page leaves fewer rows for the rest of the round. -/
theorem markRows_length_lt (hpage : s.metadataChanges p = .ok page)
    (hincomplete : page.complete = false) :
    (s.markRows page.next (page.next.upper.getD s.revision)).length <
      (s.markRows p (p.upper.getD s.revision)).length := by
  obtain ⟨_, _, taken, rest, hrows, _, _, hend⟩ := metadataChanges_spec hpage
  have hpageRows := PageRows.of_append hrows
  rcases hend with ⟨hcomplete, _, _⟩ | ⟨_, last, hlast, hnext⟩
  · rw [hincomplete] at hcomplete
    cases hcomplete
  · have hlastRow := hpageRows.row last (mem_of_getLast? hlast)
    have hsubset : s.markRows page.next (page.next.upper.getD s.revision) ⊆ rest := by
      intro m hm
      obtain ⟨hget, hselects⟩ := mem_markRows.mp hm
      obtain ⟨hahead, hle⟩ := selects_iff.mp hselects
      rw [hnext] at hahead hle
      have hlt : last.order < m.order := hahead
      have hbefore : Ahead p m := by
        have hlastAhead := hlastRow.2.1
        unfold Ahead at hlastAhead ⊢
        cases hafter : p.after with
        | none =>
          rw [hafter] at hlastAhead
          exact lt_of_lt_of_le hlastAhead (revision_le_of_order_lt hlt)
        | some a =>
          rw [hafter] at hlastAhead
          exact lt_trans hlastAhead hlt
      rcases hpageRows.selected m hget hbefore hle with htaken | hrest
      · exact absurd (hpageRows.order_le_last hlast htaken) (not_le.mpr hlt)
      · exact hrest
    have hnodup : (s.markRows page.next (page.next.upper.getD s.revision)).Nodup :=
      (markRows_pairwise _ _ _).imp (fun h heq => absurd (heq ▸ h) (lt_irrefl _))
    have hle := List.Nodup.length_le_of_subset hnodup hsubset
    have htaken : 0 < taken.length := List.length_pos_of_mem (mem_of_getLast? hlast)
    rw [hrows, List.length_append]
    omega

/-- Following a round over a fixed table comes to a complete page or to an error. -/
theorem readRound_ends (s : Store) (p : MetadataPosition) :
    ∃ fuel, (readRound fuel s p).isSome := by
  have hgeneral : ∀ n p, (s.markRows p (p.upper.getD s.revision)).length < n →
      (readRound n s p).isSome := by
    intro n
    induction n with
    | zero =>
      intro p hlt
      omega
    | succ n ih =>
      intro p hlt
      unfold readRound
      cases hpage : s.metadataChanges p with
      | error e => rfl
      | ok page =>
        cases hcomplete : page.complete with
        | true => simp [hcomplete]
        | false =>
          have hfewer := markRows_length_lt hpage hcomplete
          simp only [hcomplete, Bool.false_eq_true, if_false]
          exact ih page.next (by omega)
  exact ⟨_, hgeneral _ p (Nat.lt_succ_self _)⟩

/-! ## Main theorem -/

/-- The key, or its scope, now stands above `revision`. -/
def MovedAbove (s : Store) (m : Mark) (revision : Nat) : Prop :=
  ∃ k r, StandsFor k m.key ∧ s.versions.get k = some r ∧ revision < r

/-- However pages and writers are interleaved: when a round completes, every mark it had to
    cover was given or has moved above the revision the round covers; no key is given twice
    in a round; a page holds at most 256 marks; an incomplete page gives something; and a
    round over a fixed table ends. -/
theorem watch_loses_nothing {w : World} (hreachable : Reachable w) {events : List WatchEvent}
    {x : Watch} (hrun : Run Watch.step Watch.Allowed (Watch.start w) events x)
    {page : MetadataChanges} (hpage : x.world.store.metadataChanges x.position = .ok page) :
    (page.complete = true → ∀ m ∈ x.written, m.revision ≤ page.next.through →
      Given (x.given ++ page.changes.map (·, x.world.store.revision)) m ∨
        MovedAbove x.world.store m page.next.through) ∧
    (x.round ++ page.changes).Nodup ∧
    page.changes.length ≤ 256 ∧
    (page.complete = false → page.changes ≠ []) ∧
    ∃ fuel, (readRound fuel x.world.store x.position).isSome := by
  have hinv : WatchInv x := hrun.invariant WatchInv (.start hreachable.inv) (by
    intro x event hx hallowed
    cases event with
    | write op => exact hx.write hallowed
    | read => exact hx.read)
  obtain ⟨_, _, taken, rest, hrows, hchanges, hlength, hend⟩ := metadataChanges_spec hpage
  refine ⟨?_, hinv.behind.page_nodup hinv.round hpage, ?_, ?_, readRound_ends _ _⟩
  · intro hcomplete m hm _
    rcases hend with ⟨_, _, hnext⟩ | ⟨hincomplete, _⟩
    · rcases hinv.kept m hm with ⟨k, c, hmem, hrest⟩ | hpending
      · exact .inl ⟨k, c, List.mem_append_left _ hmem, hrest⟩
      · rcases hpending.read hpage hinv.inv.sound.versions_le with
          ⟨k, c, hmem, hrest⟩ | ⟨m', hget, hstands, _, hahead⟩
        · exact .inl ⟨k, c, List.mem_append_right _ hmem, hrest⟩
        · refine .inr ⟨m'.key, m'.revision, hstands, hget, ?_⟩
          rw [hnext] at hahead ⊢
          exact hahead
    · rw [hcomplete] at hincomplete
      cases hincomplete
  · rw [hchanges, List.length_map]
    exact hlength
  · intro hincomplete hnil
    rcases hend with ⟨hcomplete, _⟩ | ⟨_, last, hlast, _⟩
    · rw [hincomplete] at hcomplete
      cases hcomplete
    · rw [hchanges, List.map_eq_nil_iff] at hnil
      rw [hnil] at hlast
      cases hlast

/-! ### A mark that is given -/

/-- A file at the top, for runs on fixed inputs. -/
def topFile (id : String) : Node := { fileAt id "" with parentId := none }

theorem topFile_parentId (id : String) : (topFile id).parentId = none := rfl

/-- The key of an item of the fixed collection. -/
def itemKey (id : String) : MarkKey := ⟨drive, .item, id⟩

/-- A reader after which one item was recorded. -/
def watchedItem : Watch :=
  (Watch.start (World.create "db")).step (.write (.observeNode drive (topFile "a")))

theorem watchedItem_loses_nothing :
    watchedItem.world.store.metadataChanges watchedItem.position =
      .ok ⟨[itemKey "a"], ⟨"db", 2, none, none⟩, true⟩ ∧
    ∀ m ∈ watchedItem.written, m.revision ≤ 2 →
      Given (watchedItem.given ++ [itemKey "a"].map (·, watchedItem.world.store.revision)) m ∨
        MovedAbove watchedItem.world.store m 2 := by
  have hpage : watchedItem.world.store.metadataChanges watchedItem.position =
      .ok ⟨[itemKey "a"], ⟨"db", 2, none, none⟩, true⟩ := by decide
  have hallowed : (Watch.start (World.create "db")).Allowed
      (.write (.observeNode drive (topFile "a"))) := Permitted.of_ticketless rfl trivial
  exact ⟨hpage, (watch_loses_nothing ⟨"db", [], .start⟩ (.next .start hallowed) hpage).1 rfl⟩

/-! ### A mark that moves during a round -/

/-- What recording metadata of a top-level item does to the clock and the marks, if the
    item was unknown or known at the top. -/
theorem observeNode_topFile (s : Store) (id : String) (hclock : s.revision + 2 ≤ maxRevision)
    (hknown : ∀ m, s.nodeOn drive id = some m → m.parentId = none) :
    ∃ s', s.observeNode drive (topFile id) = .ok s' ∧ s'.identity = s.identity ∧
      s'.revision = s.revision + 2 ∧
      s'.versions = s.versions.set (itemKey id) (s.revision + 1) ∧
      s'.nodeOn drive id = some (topFile id) ∧
      ∀ x, x ≠ id → s'.nodeOn drive x = s.nodeOn drive x := by
  have hparents : s.changedParents drive [topFile id] none = [] := by
    have hvisible : (s.nodeOn drive (topFile id).id).bind Node.parentId = none := by
      cases hnode : s.nodeOn drive (topFile id).id with
      | none => rfl
      | some m => exact hknown m hnode
    simp only [changedParents, touchedParents, List.flatMap_cons, List.flatMap_nil, hvisible]
    rfl
  have hmarks : s.changedItems drive [topFile id] [] none =
      .ok (s.marking drive [id] []) := by
    have hadvance : s.advance = .ok (s.revision + 1, { s with revision := s.revision + 1 }) := by
      unfold advance
      rw [if_pos (by omega)]
    unfold changedItems
    rw [hadvance]
    show Except.ok (marking s drive [id] (s.changedParents drive [topFile id] none)) = _
    rw [hparents]
  have hadvance : (s.marking drive [id] []).advance = .ok (s.revision + 2,
      { s.marking drive [id] [] with revision := s.revision + 2 }) := by
    unfold advance
    exact if_pos hclock
  refine ⟨({ s.marking drive [id] [] with revision := s.revision + 2 }).writeNode drive
    (topFile id) (s.revision + 2), ?_, rfl, rfl, rfl, ?_, ?_⟩
  · unfold observeNode
    rw [hmarks]
    show ((s.marking drive [id] []).advance >>= _) = _
    rw [hadvance]
    rfl
  · simp [nodeOn, writeNode, topFile, fileAt, Table.get_erase]
  · intro x hx
    have hne : (drive, x) ≠ (drive, (topFile id).id) := fun heq => hx (Prod.mk.inj heq).2
    exact nodeOn_congr (Table.get_set_of_ne _ _ hne) ((Table.get_erase _ _ _).trans (if_neg hne))
      rfl

/-- A run goes on with a write. -/
theorem Watch.run_observeNode {start x : Watch} {events : List WatchEvent} {id : String}
    (hrun : Run Watch.step Watch.Allowed start events x)
    (h : x.world.store.observeNode drive (topFile id) = .ok s') :
    ∃ events log, Run Watch.step Watch.Allowed start events
      { x with world := ⟨s', log⟩, written := x.written ++ newMarks x.world.store s' } := by
  have hexec : x.world.store.exec (.observeNode drive (topFile id)) = .ok (.done, s') := by
    show (x.world.store.observeNode drive (topFile id) >>= _) = _
    rw [h]
    rfl
  have hstep : x.world.step (.observeNode drive (topFile id)) =
      ⟨s', x.world.log ++ [(.observeNode drive (topFile id), .done)]⟩ := by
    unfold World.step
    rw [hexec]
  have hallowed : x.Allowed (.write (.observeNode drive (topFile id))) :=
    Permitted.of_ticketless rfl trivial
  have hnext := hrun.next hallowed
  rw [Watch.step, hstep] at hnext
  exact ⟨_, _, hnext⟩

/-- A run goes on with a page. -/
theorem Watch.run_read {start x : Watch} {events : List WatchEvent}
    (hrun : Run Watch.step Watch.Allowed start events x)
    (hpage : x.world.store.metadataChanges x.position = .ok page) :
    Run Watch.step Watch.Allowed start (events ++ [.read]) { x with
      position := page.next
      given := x.given ++ page.changes.map (·, x.world.store.revision)
      round := if page.complete then [] else x.round ++ page.changes } := by
  have hallowed : x.Allowed .read := trivial
  have hnext := hrun.next hallowed
  rw [Watch.step] at hnext
  simp only [hpage] at hnext
  exact hnext

/-- The rows of a query, by their members. -/
theorem markRows_eq {rows : List Mark} (horder : rows.Pairwise (fun a b => a.order < b.order))
    (hmem : ∀ m, m ∈ rows ↔ s.versions.get m.key = some m.revision ∧ Ahead p m ∧
      m.revision ≤ upper) : s.markRows p upper = rows := by
  have hirrefl : Std.Irrefl (fun a b : Mark => a.order < b.order) := ⟨fun a => lt_irrefl _⟩
  refine (markRows_pairwise s p upper).eq_of_mem_iff horder ?_
  intro m
  rw [mem_markRows, selects_iff, hmem]

/-- An identity that fills more than a page. -/
def longId : String := String.ofList (List.replicate 70000 'b')

theorem longId_size : longId.utf8ByteSize = 70000 := by
  have hsize : ∀ n, (String.ofList (List.replicate n 'b')).utf8ByteSize = n := by
    intro n
    induction n with
    | zero => rfl
    | succ n ih =>
      rw [List.replicate_succ', String.ofList_append, String.utf8ByteSize_append, ih]
      rfl
  exact hsize 70000

theorem longId_ne : longId ≠ "a" := by
  intro h
  have hsize := longId_size
  rw [h] at hsize
  exact absurd hsize (by decide)

/-- The marks are those of the two items, at 1 and at `r`. -/
def TwoMarks (s : Store) (r : Nat) : Prop :=
  ∀ k, s.versions.get k =
    if k = itemKey longId then some r else if k = itemKey "a" then some 1 else none

theorem TwoMarks.get_iff {r : Nat} (h : TwoMarks s r) {m : Mark} :
    s.versions.get m.key = some m.revision ↔
      m = ⟨itemKey "a", 1⟩ ∨ m = ⟨itemKey longId, r⟩ := by
  obtain ⟨key, revision⟩ := m
  have hne : itemKey "a" ≠ itemKey longId := fun heq => longId_ne (MarkKey.mk.inj heq).2.2.symm
  simp only [h key, Mark.mk.injEq]
  by_cases hlong : key = itemKey longId
  · simp [hlong, hne.symm, eq_comm]
  · by_cases ha : key = itemKey "a"
    · simp [ha, hne, eq_comm]
    · simp [hlong, ha]

/-- The page budget ends the first page before the second mark. -/
theorem readRows_long {long : String} (hsize : long.utf8ByteSize = 70000) :
    readRows [⟨itemKey "a", 1⟩, ⟨itemKey long, 3⟩] [] 0 =
      .ok ([⟨itemKey "a", 1⟩], false) := by
  have ha : (Mark.mk (itemKey "a") 1).size = 65 := by decide
  have hlong : (Mark.mk (itemKey long) 3).size = 64 + long.utf8ByteSize := by
    have hscope : drive.encoded.utf8ByteSize = 64 := by decide
    simp only [Mark.size, itemKey, hscope]
  simp [readRows, ha, hlong, hsize, maxMarkBytes, pageBytes, pageEntries]

/-- With both marks behind the clock, the first page gives the first of them. -/
theorem TwoMarks.firstPage (h : TwoMarks s 3) (hidentity : s.identity = "db")
    (hclock : s.revision = 4) :
    s.metadataChanges ⟨"db", 0, none, none⟩ =
      .ok ⟨[itemKey "a"], ⟨"db", 0, some 4, some ⟨itemKey "a", 1⟩⟩, false⟩ := by
  have hrows : s.markRows ⟨"db", 0, none, none⟩ 4 = [⟨itemKey "a", 1⟩, ⟨itemKey longId, 3⟩] := by
    apply markRows_eq
    · have hlt : (Mark.mk (itemKey "a") 1).order < (Mark.mk (itemKey longId) 3).order :=
        order_lt_of_revision_lt (by decide)
      simpa using hlt
    · intro m
      rw [h.get_iff]
      constructor
      · intro hm
        simp only [List.mem_cons, List.not_mem_nil, or_false] at hm
        rcases hm with rfl | rfl
        · exact ⟨.inl rfl, Nat.zero_lt_one, by decide⟩
        · exact ⟨.inr rfl, Nat.zero_lt_succ 2, by decide⟩
      · intro hm
        simp only [List.mem_cons, List.not_mem_nil, or_false]
        exact hm.1
  unfold metadataChanges
  rw [if_neg (by simp [hidentity])]
  simp only [Option.getD_none, hclock, hrows]
  show (readRows [⟨itemKey "a", 1⟩, ⟨itemKey longId, 3⟩] [] 0 >>= _) = _
  rw [readRows_long longId_size]
  rfl

/-- Once the second mark has moved, the round ends without it. -/
theorem TwoMarks.lastPage (h : TwoMarks s 5) (hidentity : s.identity = "db") :
    s.metadataChanges ⟨"db", 0, some 4, some ⟨itemKey "a", 1⟩⟩ =
      .ok ⟨[], ⟨"db", 4, none, none⟩, true⟩ := by
  have hrows : s.markRows ⟨"db", 0, some 4, some ⟨itemKey "a", 1⟩⟩ 4 = [] := by
    apply markRows_eq List.Pairwise.nil
    intro m
    rw [h.get_iff]
    constructor
    · intro hm
      cases hm
    · intro hm
      obtain ⟨rfl | rfl, hahead, hle⟩ := hm
      · exact absurd hahead (lt_irrefl _)
      · exact absurd hle (by decide)
  unfold metadataChanges
  rw [if_neg (by simp [hidentity])]
  simp only [Option.getD_some, hrows]
  rfl

/-- Two items are recorded, a page is read, and the second item is recorded again. -/
theorem movedMark_run : ∃ events x,
    Run Watch.step Watch.Allowed (Watch.start (World.create "db")) events x ∧
    TwoMarks x.world.store 5 ∧ x.world.store.identity = "db" ∧
    x.position = ⟨"db", 0, some 4, some ⟨itemKey "a", 1⟩⟩ ∧ x.given = [(itemKey "a", 4)] ∧
    ⟨itemKey longId, 3⟩ ∈ x.written := by
  obtain ⟨s₁, h₁, hidentity₁, hclock₁, hversions₁, _, hothers₁⟩ :=
    observeNode_topFile (Store.create "db") "a" (by decide) (fun m hm => by cases hm)
  have hlong₁ : s₁.nodeOn drive longId = none := hothers₁ longId longId_ne
  obtain ⟨s₂, h₂, hidentity₂, hclock₂, hversions₂, hlong₂, _⟩ :=
    observeNode_topFile s₁ longId (by rw [hclock₁]; decide) (fun m hm => by
      rw [hlong₁] at hm
      cases hm)
  obtain ⟨s₃, h₃, hidentity₃, _, hversions₃, _, _⟩ :=
    observeNode_topFile s₂ longId (by rw [hclock₂, hclock₁]; decide) (fun m hm => by
      rw [hlong₂] at hm
      rw [← Option.some.inj hm, topFile_parentId])
  have hstart : Run Watch.step Watch.Allowed (Watch.start (World.create "db")) []
      (Watch.start (World.create "db")) := .start
  obtain ⟨events₁, log₁, hrun₁⟩ := Watch.run_observeNode hstart h₁
  obtain ⟨events₂, log₂, hrun₂⟩ := Watch.run_observeNode hrun₁ h₂
  have hclock : s₂.revision = 4 := by
    rw [hclock₂, hclock₁]
    rfl
  have hmarks₂ : TwoMarks s₂ 3 := by
    intro k
    rw [hversions₂, hversions₁, hclock₁, Table.get_set, Table.get_set]
    rfl
  have hmarks₃ : TwoMarks s₃ 5 := by
    intro k
    rw [hversions₃, hclock, Table.get_set, hmarks₂ k]
    by_cases hk : k = itemKey longId
    · rw [if_pos hk, if_pos hk]
    · rw [if_neg hk, if_neg hk, if_neg hk]
  have hpage : s₂.metadataChanges (Watch.start (World.create "db")).position = .ok _ :=
    hmarks₂.firstPage (hidentity₂.trans hidentity₁) hclock
  have hrun₃ := Watch.run_read hrun₂ hpage
  obtain ⟨events₄, log₄, hrun₄⟩ := Watch.run_observeNode hrun₃ h₃
  refine ⟨events₄, _, hrun₄, hmarks₃, ?_, rfl, ?_, ?_⟩
  · exact hidentity₃.trans (hidentity₂.trans hidentity₁)
  · show [] ++ [(itemKey "a", s₂.revision)] = _
    rw [hclock, List.nil_append]
  · refine List.mem_append_left _ (List.mem_append_right _ (mem_newMarks.mpr ⟨?_, ?_⟩))
    · exact hmarks₂.get_iff.mpr (.inr rfl)
    · show s₁.revision < 3
      rw [hclock₁]
      decide

/-- A mark that moves while a round is under way is not given in that round. -/
theorem moved_mark_is_not_given : ¬ ∀ (w : World), Reachable w → ∀ (events : List WatchEvent)
    (x : Watch), Run Watch.step Watch.Allowed (Watch.start w) events x →
    ∀ page, x.world.store.metadataChanges x.position = .ok page → page.complete = true →
    ∀ m ∈ x.written, m.revision ≤ page.next.through →
      Given (x.given ++ page.changes.map (·, x.world.store.revision)) m := by
  intro hclaim
  obtain ⟨events, x, hrun, hmarks, hidentity, hposition, hgiven, hwritten⟩ := movedMark_run
  have hpage := hmarks.lastPage hidentity
  rw [← hposition] at hpage
  obtain ⟨k, c, hmem, hstands, _⟩ :=
    hclaim _ ⟨"db", [], .start⟩ events x hrun _ hpage rfl _ hwritten (by decide)
  simp only [hgiven, List.map_nil, List.append_nil, List.mem_singleton, Prod.mk.injEq] at hmem
  obtain ⟨rfl, rfl⟩ := hmem
  rcases hstands with hkey | hscope
  · exact longId_ne (MarkKey.mk.inj hkey).2.2.symm
  · exact absurd (MarkKey.mk.inj hscope).2.1 (by decide)

end Cirrove.Store
