import Cirrove.Views.Collector

/-!
# Views are retired when nothing can name them

Resolving a view, the kernel's references and the clones outside, over any run of the mount. Each
event keeps the invariant (`Inv.step`), removes only what is `Retirable` (`Inv.phases_retires`) and
keeps the parent chains (`Inv.chained_step`).
-/

namespace Cirrove.Views

open Cirrove.Library

variable {v v' : NamespaceViews} {m : Memory} {w : World}

/-! ## Resolving a view -/

/-- The index after the view of an inode was stored under a generation. -/
def Placed (v v' : NamespaceViews) (view : View) (generation : Nat) : Prop :=
  ∀ k, (v'.entries.get k).map (fun e => (e.view, e.generation)) =
    if k = view.inode then some (view, generation)
    else (v.entries.get k).map (fun e => (e.view, e.generation))

/-- What `insert` does when it succeeds. -/
structure Inserted (v v' : NamespaceViews) (m : Memory) (input view : View) (generation : Nat) :
    Prop where
  placed : Placed v v' view generation
  inode : view.inode = input.inode
  nonroot : view.inode ≠ 1
  parent : ∃ p, v.entries.get view.parent = some p ∧ p.view.kind = .folder ∧
    view.parentResidency = some p.view.residency
  walk : v.walk view.inode v.len view.parent = .ok ()
  kind : view.kind = input.kind
  listed : Listed v m → Listed v' m
  entry : (∃ e, v.entries.get view.inode = some e ∧ view.residency = e.view.residency ∧
      generation = e.generation ∧ v'.generation = v.generation ∧ v'.resolved = v.resolved) ∨
    (v.entries.get view.inode = none ∧ view.residency = input.residency ∧
      generation = v.generation + 1 ∧ v'.generation = v.generation + 1 ∧
      v'.resolved = if 0 < v.ceiling then v.resolved ++ [(view.inode, generation)] else v.resolved)
  ceiling : v'.ceiling = v.ceiling

theorem parentLease_eq_ok {inode parent : Nat} {lease : Token}
    (h : v.parentLease inode parent = .ok lease) :
    inode ≠ 1 ∧ (∃ p, v.entries.get parent = some p ∧ p.view.kind = .folder ∧
      lease = p.view.residency) ∧ v.walk inode v.len parent = .ok () := by
  unfold NamespaceViews.parentLease at h
  split at h
  · cases h
  · next hreserved =>
    split at h
    · cases h
    · next p hp =>
      split at h
      · cases h
      · next hkind =>
        obtain ⟨_, hwalk, h⟩ := bind_eq_ok h
        cases h
        rw [not_not] at hkind
        exact ⟨by omega, ⟨p, hp, hkind, rfl⟩, hwalk⟩

/-- Storing a view and offering it to the queue. -/
theorem listed_of_set {view : View} {inode generation : Nat} {queued : Bool} (hl : Listed v m)
    (hv' : v'.entries = v.entries.set inode ⟨view, generation, queued⟩)
    (hcandidates : v'.candidates = v.candidates)
    (hqueued : queued = true → (inode, generation) ∈ v.candidates) :
    Listed (v'.queue m inode) m := by
  apply Listed.queue
  · intro k e he hflag
    rw [hv', Table.get_set] at he
    rw [hcandidates]
    split at he
    · next hk =>
      cases he
      rw [hk]
      exact hqueued hflag
    · exact hl.queued he hflag
  · intro k e hk hne he
    rw [hv', Table.get_set_of_ne _ _ hne] at he
    exact hl.idle hk he

theorem placed_of_set {view : View} {inode generation : Nat} {queued : Bool}
    (hinode : view.inode = inode)
    (hv' : v'.entries = v.entries.set inode ⟨view, generation, queued⟩) :
    Placed v (v'.queue m inode) view generation := by
  intro k
  rw [NamespaceViews.sameShape_queue v' m inode k, hv', Table.get_set, hinode]
  split <;> rfl

theorem insert_spec {input view : View} (h : v.insert m input = .ok (view, v')) :
    ∃ generation, Inserted v v' m input view generation := by
  unfold NamespaceViews.insert at h
  obtain ⟨lease, hlease, h⟩ := bind_eq_ok h
  obtain ⟨hnonroot, ⟨p, hp, hkind, rfl⟩, hwalk⟩ := parentLease_eq_ok hlease
  have hrest := fun u : NamespaceViews => NamespaceViews.queue_rest u m input.inode
  cases hentry : v.entries.get input.inode with
  | some e =>
    simp only [hentry] at h
    cases h
    exact ⟨e.generation, placed_of_set rfl rfl, rfl, hnonroot, ⟨p, hp, hkind, rfl⟩, hwalk, rfl,
      fun hl => listed_of_set hl rfl rfl (fun hflag => hl.queued hentry hflag),
      .inl ⟨e, hentry, rfl, rfl, (hrest _).1, (hrest _).2.2⟩, (hrest _).2.1⟩
  | none =>
    simp only [hentry] at h
    split at h
    · cases h
    · cases h
      exact ⟨v.generation + 1, placed_of_set rfl rfl, rfl, hnonroot, ⟨p, hp, hkind, rfl⟩, hwalk, rfl,
        fun hl => listed_of_set hl rfl rfl (fun hflag => absurd hflag Bool.false_ne_true),
        .inr ⟨hentry, rfl, rfl, (hrest _).1, (hrest _).2.2⟩, (hrest _).2.1⟩

/-- The entries of an index in which a view was placed. -/
theorem Placed.get {view : View} {generation : Nat} (h : Placed v v' view generation) {k : Nat}
    {e : Entry} (he : v'.entries.get k = some e) :
    (k = view.inode ∧ e.view = view ∧ e.generation = generation) ∨
      (k ≠ view.inode ∧ ∃ e₀, v.entries.get k = some e₀ ∧ e₀.view = e.view ∧
        e₀.generation = e.generation) := by
  have hk := h k
  rw [he, Option.map_some] at hk
  split at hk
  · next hinode =>
    cases hk
    exact .inl ⟨hinode, rfl, rfl⟩
  · next hinode =>
    obtain ⟨e₀, he₀, heq⟩ := Option.map_eq_some_iff.mp hk.symm
    rw [Prod.mk.injEq] at heq
    exact .inr ⟨hinode, e₀, he₀, heq⟩

theorem Placed.self {view : View} {generation : Nat} (h : Placed v v' view generation) :
    ∃ e, v'.entries.get view.inode = some e ∧ e.view = view ∧ e.generation = generation := by
  have hk := h view.inode
  rw [if_pos rfl] at hk
  obtain ⟨e, he, heq⟩ := Option.map_eq_some_iff.mp hk
  rw [Prod.mk.injEq] at heq
  exact ⟨e, he, heq⟩

theorem Placed.other {view : View} {generation : Nat} (h : Placed v v' view generation) {k : Nat}
    (hk : k ≠ view.inode) {e : Entry} (he : v.entries.get k = some e) :
    ∃ e', v'.entries.get k = some e' ∧ e'.view = e.view ∧ e'.generation = e.generation := by
  have hsame := h k
  rw [if_neg hk, he, Option.map_some] at hsame
  obtain ⟨e', he', heq⟩ := Option.map_eq_some_iff.mp hsame
  rw [Prod.mk.injEq] at heq
  exact ⟨e', he', heq⟩

/-- The walk begins at another inode. -/
theorem walk_ne {i n a : Nat} (h : v.walk i n a = .ok ()) : a ≠ i := by
  cases n with
  | zero => cases h
  | succ n =>
    unfold NamespaceViews.walk at h
    split at h
    · cases h
    · next hne => exact hne

/-- The memory after an insertion: a token may be new, and the caller gets a clone. -/
def Memory.handOut (m : Memory) (view : View) : Memory :=
  { m with allocated := m.allocated + 1, clones := view :: m.clones }

/-- Where the token of an inserted view comes from. -/
theorem Inserted.token {input view : View} {generation : Nat}
    (h : Inserted v v' m input view generation)
    (hinput : v.entries.get input.inode = none → input.residency.value = m.allocated) :
    (∃ e, v.entries.get view.inode = some e ∧ view.residency = e.view.residency) ∨
      (v.entries.get view.inode = none ∧ view.residency.value = m.allocated) := by
  rcases h.entry with ⟨e, he, htoken, _⟩ | ⟨hnone, htoken, _⟩
  · exact .inl ⟨e, he, htoken⟩
  · exact .inr ⟨hnone, by rw [htoken]; exact hinput (h.inode ▸ hnone)⟩

/-- Resolving a view keeps the entries and the tokens in order. -/
theorem Sound.insert (hs : Sound v m) {input view : View} {generation : Nat}
    (h : Inserted v v' m input view generation)
    (hinput : v.entries.get input.inode = none → input.residency.value = m.allocated) :
    Sound v' (m.handOut view) := by
  have htoken := h.token hinput
  have hparent : view.parent ≠ view.inode := walk_ne h.walk
  have hgenerations : generation ≤ v'.generation ∧ v.generation ≤ v'.generation := by
    rcases h.entry with ⟨e, he, _, hg, hsame, _⟩ | ⟨_, _, hg, hnext, _⟩
    · rw [hsame, hg]
      exact ⟨hs.generation he, le_rfl⟩
    · omega
  -- No other entry has the token.
  have hothers : ∀ {k e}, k ≠ view.inode → v.entries.get k = some e →
      e.view.residency ≠ view.residency := by
    intro k e hk he heq
    rcases htoken with ⟨f, hf, hsame⟩ | ⟨_, hnew⟩
    · exact hk (hs.distinct he hf (heq.trans hsame))
    · have hlt := hs.allocated he
      rw [heq, hnew] at hlt
      exact lt_irrefl _ hlt
  constructor
  · obtain ⟨r, hr, hzero⟩ := hs.root
    obtain ⟨r', hr', _, hsame⟩ := h.placed.other h.nonroot.symm hr
    exact ⟨r', hr', hsame.trans hzero⟩
  · intro k e he
    rcases h.placed.get he with ⟨hk, hview, _⟩ | ⟨_, e₀, he₀, hview, _⟩
    · rw [hview, hk]
    · rw [← hview]
      exact hs.inode he₀
  · intro k e he
    rcases h.placed.get he with ⟨_, _, hg⟩ | ⟨_, e₀, he₀, _, hg⟩
    · rw [hg]
      exact hgenerations.1
    · rw [← hg]
      exact (hs.generation he₀).trans hgenerations.2
  · intro k e he
    change e.view.residency.value < m.allocated + 1
    rcases h.placed.get he with ⟨_, hview, _⟩ | ⟨_, e₀, he₀, hview, _⟩
    · rw [hview]
      rcases htoken with ⟨f, hf, hsame⟩ | ⟨_, hnew⟩
      · rw [hsame]
        exact Nat.lt_succ_of_lt (hs.allocated hf)
      · omega
    · rw [← hview]
      exact Nat.lt_succ_of_lt (hs.allocated he₀)
  · intro k l e f he hf heq
    rcases h.placed.get he with ⟨hk, hview, _⟩ | ⟨hk, e₀, he₀, hview, _⟩ <;>
      rcases h.placed.get hf with ⟨hl, hview', _⟩ | ⟨hl, f₀, hf₀, hview', _⟩
    · rw [hk, hl]
    · rw [hview, ← hview'] at heq
      exact absurd heq.symm (hothers hl hf₀)
    · rw [← hview, hview'] at heq
      exact absurd heq (hothers hk he₀)
    · rw [← hview, ← hview'] at heq
      exact hs.distinct he₀ hf₀ heq
  · intro k e hk he
    rcases h.placed.get he with ⟨_, hview, _⟩ | ⟨_, e₀, he₀, hview, _⟩
    · obtain ⟨p, hp, _, hlease⟩ := h.parent
      obtain ⟨p', hp', hsame, _⟩ := h.placed.other hparent hp
      rw [hview]
      exact ⟨p', hp', by rw [hlease, hsame]⟩
    · obtain ⟨p, hp, hlease⟩ := hs.lease hk he₀
      rw [hview] at hp hlease
      by_cases hparent : e.view.parent = view.inode
      · -- The token of the parent is the one it had.
        obtain ⟨p', hp', hsame, _⟩ := h.placed.self
        rw [hparent] at hp
        rcases htoken with ⟨f, hf, heq⟩ | ⟨hnone, _⟩
        · rw [hp] at hf
          cases hf
          exact ⟨p', hparent ▸ hp', by rw [hlease, hsame, heq]⟩
        · rw [hnone] at hp
          cases hp
      · obtain ⟨p', hp', hsame, _⟩ := h.placed.other hparent hp
        exact ⟨p', hp', by rw [hlease, hsame]⟩
  · intro c hc
    rcases List.mem_cons.mp hc with rfl | hold
    · obtain ⟨e, he, hview, _⟩ := h.placed.self
      exact ⟨e, he, by rw [hview]⟩
    · obtain ⟨e, he, heq⟩ := hs.clones c hold
      by_cases hinode : c.inode = view.inode
      · obtain ⟨e', he', hview, _⟩ := h.placed.self
        rw [hinode] at he
        rcases htoken with ⟨f, hf, hsame⟩ | ⟨hnone, _⟩
        · rw [he] at hf
          cases hf
          exact ⟨e', hinode ▸ he', by rw [hview, hsame, heq]⟩
        · rw [hnone] at he
          cases he
      · obtain ⟨e', he', hview, _⟩ := h.placed.other hinode he
        exact ⟨e', he', by rw [hview, heq]⟩
  · intro t ht
    exact hs.fresh t (by change m.allocated + 1 ≤ t.value at ht; omega)

/-- The walk of `parent_lease` has seen the whole chain of the new parent, and the inode is not
    in it. So the chain is still there when the entry of the inode has changed. -/
theorem Chained.walk (hc : Chained v) {view : View} {generation : Nat}
    (hplaced : Placed v v' view generation) {n a : Nat} {e : Entry}
    (he : v.entries.get a = some e) (h : v.walk view.inode n a = .ok ()) : Rooted v' a := by
  induction n generalizing a e with
  | zero => cases h
  | succ n ih =>
    have hne := walk_ne h
    unfold NamespaceViews.walk at h
    rw [if_neg hne] at h
    split at h
    · next hone =>
      rw [hone]
      exact .root
    · rw [he] at h
      cases hc a e he with
      | root => exact .root
      | child he' hp hkind _ =>
        rw [he] at he'
        cases he'
        have hrooted := ih hp h
        obtain ⟨e', he', hview, _⟩ := hplaced.other hne he
        obtain ⟨p', hp', hview', _⟩ := hplaced.other (walk_ne h) hp
        rw [← hview] at hp' hrooted
        exact .child he' hp' (by rw [hview']; exact hkind) hrooted

/-- Resolving a view keeps the parent chains when no folder with children becomes a file. -/
theorem Chained.insert (hc : Chained v) {input view : View} {generation : Nat}
    (h : Inserted v v' m input view generation)
    (hfolder : ∀ k e, k ≠ 1 → v.entries.get k = some e → e.view.parent = view.inode →
      view.kind = .folder) : Chained v' := by
  obtain ⟨p, hp, hkind, _⟩ := h.parent
  have hne := walk_ne h.walk
  have hrooted := hc.walk h.placed hp h.walk
  have hself : Rooted v' view.inode := by
    obtain ⟨e, he, hview, _⟩ := h.placed.self
    obtain ⟨p', hp', hview', _⟩ := h.placed.other hne hp
    rw [← hview] at hp' hrooted
    exact .child he hp' (by rw [hview']; exact hkind) hrooted
  have hall : ∀ k, Rooted v k → Rooted v' k := by
    intro k hk
    induction hk with
    | root => exact .root
    | @child k e q he hq hqkind _ ih =>
      by_cases hk : k = view.inode
      · rw [hk]
        exact hself
      · by_cases hone : k = 1
        · rw [hone]
          exact .root
        · obtain ⟨e', he', hview, _⟩ := h.placed.other hk he
          by_cases hparent : e.view.parent = view.inode
          · obtain ⟨q', hq', hview', _⟩ := h.placed.self
            rw [← hparent, ← hview] at hq'
            exact .child he' hq' (by rw [hview']; exact hfolder k e hone he hparent)
              (by rw [hview]; exact ih)
          · obtain ⟨q', hq', hview', _⟩ := h.placed.other hparent hq
            rw [← hview] at hq'
            exact .child he' hq' (by rw [hview']; exact hqkind) (by rw [hview]; exact ih)
  intro k e he
  rcases h.placed.get he with ⟨hk, _⟩ | ⟨_, e₀, he₀, _⟩
  · rw [hk]
    exact hself
  · exact hall k (hc k e₀ he₀)

/-! ## The mount -/

/-- The invariant of the mount. -/
structure Inv (w : World) : Prop where
  sound : Sound w.views w.memory
  listed : Listed w.views w.memory
  ledger : ∀ {i e}, i ≠ 1 → w.views.entries.get i = some e →
    (w.memory.refs e.view.residency).kernel + w.forgotten (i, e.generation) =
      w.granted (i, e.generation)
  unborn : ∀ i g, w.views.generation < g → w.granted (i, g) = 0 ∧ w.forgotten (i, g) = 0

theorem Inv.create (name : String) (ceiling : Nat) : Inv (World.create name ceiling) := by
  have hget : ∀ i e, (World.create name ceiling).views.entries.get i = some e →
      i = 1 ∧ e = ⟨⟨⟨0⟩, none, 1, 1, .folder, name⟩, 0, false⟩ := by
    intro i e he
    simp only [World.create, NamespaceViews.setCeiling, NamespaceViews.new, Table.get_set] at he
    split at he
    · next hi =>
      cases he
      exact ⟨hi, rfl⟩
    · cases he
  refine ⟨⟨⟨_, Table.get_set_self _ _ _, rfl⟩, ?_, ?_, ?_, ?_, ?_, ?_, fun _ _ => rfl⟩, ⟨?_, ?_⟩, ?_,
    fun _ _ _ => ⟨rfl, rfl⟩⟩
  · intro i e he
    obtain ⟨rfl, rfl⟩ := hget i e he
    rfl
  · intro i e he
    obtain ⟨rfl, rfl⟩ := hget i e he
    exact Nat.zero_le _
  · intro i e he
    obtain ⟨rfl, rfl⟩ := hget i e he
    exact Nat.one_pos
  · intro i k e f he hf _
    rw [(hget i e he).1, (hget k f hf).1]
  · intro i e hi he
    exact absurd (hget i e he).1 hi
  · intro c hc
    cases hc
  · intro i e he hqueued
    obtain ⟨rfl, rfl⟩ := hget i e he
    cases hqueued
  · intro i e hi he
    exact absurd (hget i e he).1 hi
  · intro i e hi he
    exact absurd (hget i e he).1 hi

/-! ### The kernel's references -/

/-- Changing what the token of an entry refers to. -/
theorem Sound.store (h : Sound v m) {i : Nat} {e : Entry} (he : v.entries.get i = some e)
    (refs : LookupRefs) : Sound v (m.store e.view.residency refs) := by
  refine ⟨h.root, h.inode, h.generation, h.allocated, h.distinct, h.lease, h.clones, ?_⟩
  intro t ht
  have hne : t ≠ e.view.residency := by
    rintro rfl
    exact absurd (h.allocated he) (Nat.not_lt.mpr ht)
  simp only [Memory.store, if_neg hne]
  exact h.fresh t ht

theorem Sound.refs_store_of_ne (h : Sound v m) {i k : Nat} {e f : Entry}
    (he : v.entries.get i = some e) (hf : v.entries.get k = some f) (hne : k ≠ i)
    (refs : LookupRefs) : (m.store e.view.residency refs).refs f.view.residency =
      m.refs f.view.residency := by
  have htoken : f.view.residency ≠ e.view.residency := fun heq => hne (h.distinct hf he heq)
  simp only [Memory.store, if_neg htoken]

theorem refs_store_self (m : Memory) (t : Token) (refs : LookupRefs) :
    (m.store t refs).refs t = refs := if_pos rfl

theorem Listed.idle_store (hs : Sound v m) (hl : Listed v m) {i : Nat} {e : Entry}
    (he : v.entries.get i = some e) (refs : LookupRefs) {k : Nat} {f : Entry} (hk : k ≠ 1)
    (hne : k ≠ i) (hf : v.entries.get k = some f)
    (hkernel : ((m.store e.view.residency refs).refs f.view.residency).kernel = 0)
    (htrusted : ((m.store e.view.residency refs).refs f.view.residency).quarantine = false) :
    f.queued = true := by
  rw [hs.refs_store_of_ne he hf hne] at hkernel htrusted
  exact hl.idle hk hf hkernel htrusted

/-- An entry that is still referenced, or not to be trusted, need not be queued. -/
theorem Listed.store (hs : Sound v m) (hl : Listed v m) {i : Nat} {e : Entry}
    (he : v.entries.get i = some e) {refs : LookupRefs}
    (hrefs : refs.kernel ≠ 0 ∨ refs.quarantine = true) :
    Listed v (m.store e.view.residency refs) := by
  refine ⟨hl.queued, ?_⟩
  intro k f hk hf hkernel htrusted
  by_cases hne : k = i
  · subst hne
    rw [he] at hf
    cases hf
    rw [refs_store_self] at hkernel htrusted
    rcases hrefs with hrefs | hrefs
    · exact absurd hkernel hrefs
    · rw [hrefs] at htrusted
      cases htrusted
  · exact hl.idle_store hs he refs hk hne hf hkernel htrusted

theorem World.slot_of_get {i : Nat} {e : Entry} (he : w.views.entries.get i = some e) :
    w.slot i = some (i, e.generation) := by
  unfold World.slot
  rw [he]
  rfl

/-- The counts of the entries that were there change only for the inode. -/
theorem World.count_of_ne {counts : Slot → Nat} {i n k g : Nat} (hne : k ≠ i) :
    w.count counts i n (k, g) = counts (k, g) := by
  unfold World.count World.slot
  rw [if_neg]
  intro heq
  obtain ⟨e, _, hslot⟩ := Option.map_eq_some_iff.mp heq
  exact hne (congrArg Prod.fst hslot).symm

theorem World.count_self {counts : Slot → Nat} {i n : Nat} {e : Entry}
    (he : w.views.entries.get i = some e) :
    w.count counts i n (i, e.generation) = counts (i, e.generation) + n := by
  unfold World.count
  rw [World.slot_of_get he, if_pos rfl]

/-- Nothing is counted for a generation that is not there. -/
theorem Inv.count_unborn (h : Inv w) {counts : Slot → Nat} {i n k g : Nat}
    (hg : w.views.generation < g) : w.count counts i n (k, g) = counts (k, g) := by
  unfold World.count World.slot
  rw [if_neg]
  intro heq
  obtain ⟨e, he, hslot⟩ := Option.map_eq_some_iff.mp heq
  cases hslot
  exact absurd (h.sound.generation he) (Nat.not_le.mpr hg)

/-- A view that is not to be trusted any more keeps its count. -/
theorem Inv.quarantine (h : Inv w) {i : Nat} {e : Entry} (he : w.views.entries.get i = some e) :
    Inv { w with memory := w.memory.quarantine e.view.residency } := by
  refine ⟨h.sound.store he _, h.listed.store h.sound he (.inr rfl), ?_, h.unborn⟩
  intro k f hk hf
  have hledger := h.ledger hk hf
  by_cases hne : k = i
  · subst hne
    have hsame : w.views.entries.get k = some f := hf
    rw [he] at hsame
    cases hsame
    simp only [Memory.quarantine, refs_store_self]
    exact hledger
  · simp only [Memory.quarantine, h.sound.refs_store_of_ne he hf hne]
    exact hledger

theorem Inv.acquireLookup (h : Inv w) (inode : Nat) : Inv (step w (.acquireLookup inode)) := by
  simp only [step, NamespaceViews.acquireLookup]
  cases he : w.views.entries.get inode with
  | none => exact h
  | some e =>
    simp only
    split
    · next heq =>
      -- The count would overflow; the view is quarantined.
      split at heq
      · cases heq
        refine ⟨h.sound.store he _, h.listed.store h.sound he (.inr rfl), ?_, h.unborn⟩
        intro k f hk hf
        by_cases hne : k = inode
        · subst hne
          have hsame := hf
          rw [he] at hsame
          cases hsame
          simp only [Memory.quarantine, refs_store_self]
          exact h.ledger hk hf
        · simp only [Memory.quarantine, h.sound.refs_store_of_ne he hf hne]
          exact h.ledger hk hf
      · cases heq
    · next heq =>
      split at heq
      · cases heq
      · cases heq
        refine ⟨h.sound.store he _, h.listed.store h.sound he (.inl (Nat.succ_ne_zero _)), ?_, ?_⟩
        · intro k f hk hf
          by_cases hne : k = inode
          · subst hne
            have hsame := hf
            rw [he] at hsame
            cases hsame
            simp only [refs_store_self, World.count_self he]
            have hledger := h.ledger hk hf
            omega
          · simp only [h.sound.refs_store_of_ne he hf hne, World.count_of_ne hne]
            exact h.ledger hk hf
        · intro k g hg
          exact ⟨(h.count_unborn hg).trans (h.unborn k g hg).1, (h.unborn k g hg).2⟩

/-- The cases of `forget`. -/
inductive Forgets (v : NamespaceViews) (m : Memory) (inode count : Nat) :
    Bool → NamespaceViews → Memory → Prop where
  /-- The root stays, and nothing given back changes nothing. -/
  | ignored : inode = 1 ∨ count = 0 → Forgets v m inode count true v m
  | unknown : v.entries.get inode = none → Forgets v m inode count false v m
  | excess {e : Entry} : v.entries.get inode = some e →
      Forgets v m inode count false v (m.quarantine e.view.residency)
  | kept {e : Entry} {refs : LookupRefs} : inode ≠ 1 → v.entries.get inode = some e →
      refs.kernel + count = (m.refs e.view.residency).kernel → refs.kernel ≠ 0 →
      Forgets v m inode count true v (m.store e.view.residency refs)
  | retired {e : Entry} {refs : LookupRefs} : inode ≠ 1 → v.entries.get inode = some e →
      refs.kernel + count = (m.refs e.view.residency).kernel →
      v.reclaimable (m.store e.view.residency refs) e = true →
      Forgets v m inode count true (v.remove inode) (m.store e.view.residency refs)
  | listed {e : Entry} {refs : LookupRefs} : inode ≠ 1 → v.entries.get inode = some e →
      refs.kernel + count = (m.refs e.view.residency).kernel →
      Forgets v m inode count true (v.queue (m.store e.view.residency refs) inode)
        (m.store e.view.residency refs)

theorem forget_cases (v : NamespaceViews) (m : Memory) (inode count : Nat) :
    Forgets v m inode count (v.forget m inode count).1 (v.forget m inode count).2.1
      (v.forget m inode count).2.2 := by
  unfold NamespaceViews.forget
  split
  · next hignored =>
    simp only [Bool.or_eq_true, decide_eq_true_eq] at hignored
    exact .ignored hignored
  · next hignored =>
    simp only [Bool.or_eq_true, decide_eq_true_eq, not_or] at hignored
    cases he : v.entries.get inode with
    | none => exact .unknown he
    | some e =>
      simp only
      split
      · exact .excess he
      · next hle =>
        split
        · next hnext => exact .kept hignored.1 he (by simp only; omega) hnext
        · split
          · next hreclaimable => exact .retired hignored.1 he (by simp only; omega) hreclaimable
          · exact .listed hignored.1 he (by simp only; omega)

/-- The ledger of an entry whose lookups were given back. -/
theorem Inv.ledger_forget (h : Inv w) {inode count : Nat} {e : Entry} {refs : LookupRefs}
    (he : w.views.entries.get inode = some e)
    (hrefs : refs.kernel + count = (w.memory.refs e.view.residency).kernel) {k : Nat} {f : Entry}
    (hk : k ≠ 1) (hf : w.views.entries.get k = some f) :
    ((w.memory.store e.view.residency refs).refs f.view.residency).kernel +
      w.count w.forgotten inode count (k, f.generation) = w.granted (k, f.generation) := by
  have hledger := h.ledger hk hf
  by_cases hne : k = inode
  · subst hne
    rw [he] at hf
    cases hf
    rw [refs_store_self, World.count_self he]
    omega
  · rw [h.sound.refs_store_of_ne he hf hne, World.count_of_ne hne]
    exact hledger

theorem Inv.forget (h : Inv w) (inode count : Nat) : Inv (step w (.forget inode count)) := by
  have hcases := forget_cases w.views w.memory inode count
  have hunborn : ∀ (k g : Nat), w.views.generation < g → w.granted (k, g) = 0 ∧
      w.count w.forgotten inode count (k, g) = 0 := fun k g hg =>
    ⟨(h.unborn k g hg).1, (h.count_unborn hg).trans (h.unborn k g hg).2⟩
  simp only [step]
  generalize w.views.forget w.memory inode count = outcome at hcases ⊢
  obtain ⟨answer, v', m'⟩ := outcome
  cases hcases with
  | ignored hignored =>
    refine ⟨h.sound, h.listed, ?_, hunborn⟩
    intro k f hk hf
    have hledger := h.ledger hk hf
    rcases hignored with hone | hzero
    · simp only [World.count_of_ne (fun heq => hk (heq.trans hone))]
      exact hledger
    · simp only [World.count, hzero, Nat.add_zero, ite_self]
      exact hledger
  | unknown => exact h
  | excess he => exact h.quarantine he
  | kept hnonroot he hrefs hkernel =>
    exact ⟨h.sound.store he _, h.listed.store h.sound he (.inl hkernel),
      fun hk hf => h.ledger_forget he hrefs hk hf, hunborn⟩
  | @retired e refs hnonroot he hrefs hreclaimable =>
    have hsound := h.sound.store he refs
    refine ⟨hsound.remove he (hsound.retirable he hreclaimable), .remove h.listed.queued
      (fun hk hne hf => h.listed.idle_store h.sound he _ hk hne hf), ?_, hunborn⟩
    intro k f hk hf
    simp only [Table.get_erase] at hf
    split at hf
    · cases hf
    · exact h.ledger_forget he hrefs hk hf
  | @listed e refs hnonroot he hrefs =>
    have hshape := NamespaceViews.sameShape_queue w.views (w.memory.store e.view.residency refs) inode
    have hrest := NamespaceViews.queue_rest w.views (w.memory.store e.view.residency refs) inode
    refine ⟨(h.sound.store he _).of_shape hshape hrest.1, .queue h.listed.queued
      (fun hk hne hf => h.listed.idle_store h.sound he _ hk hne hf), ?_, ?_⟩
    · intro k f hk hf
      obtain ⟨f₀, hf₀, hview, hgeneration⟩ := hshape.get hf
      simp only [← hview, ← hgeneration]
      exact h.ledger_forget he hrefs hk hf₀
    · intro k g hg
      exact hunborn k g (hrest.1 ▸ hg)

/-! ### Every event -/

/-- The entries after the collector are among those before. -/
def Within (v v' : NamespaceViews) : Prop :=
  ∀ i e', v'.entries.get i = some e' →
    ∃ e, v.entries.get i = some e ∧ e.view = e'.view ∧ e.generation = e'.generation

theorem Examined.within {slot : Slot} {rest : List Slot} {removed : Bool}
    (h : Examined v v' m slot rest removed) : Within v v' := by
  cases removed with
  | false => exact fun i e' he' => (h.kept rfl).1.get he'
  | true =>
    obtain ⟨_, _, _, hget⟩ := h.retired rfl
    intro i e' he'
    rw [hget] at he'
    split at he'
    · cases he'
    · exact ⟨e', he', rfl, rfl⟩

theorem collectLoop_within (limit unchanged removed : Nat) (hs : Sound v m) (hl : Listed v m) :
    Within v (NamespaceViews.collectLoop m limit unchanged removed v).1 := by
  induction limit generalizing unchanged removed v with
  | zero => exact fun i e he => ⟨e, he, rfl, rfl⟩
  | succ limit ih =>
    have hnext : ∀ {v₁ : NamespaceViews} {slot rest removed₁}, Examined v v₁ m slot rest removed₁ →
        ∀ n k, Within v (NamespaceViews.collectLoop m limit n k v₁).1 := by
      intro v₁ slot rest removed₁ h n k i e' he'
      obtain ⟨e₁, he₁, hview₁, hgeneration₁⟩ := ih n k h.sound h.listed i e' he'
      obtain ⟨e, he, hview, hgeneration⟩ := h.within i e₁ he₁
      exact ⟨e, he, hview.trans hview₁, hgeneration.trans hgeneration₁⟩
    unfold NamespaceViews.collectLoop
    split
    · exact fun i e he => ⟨e, he, rfl, rfl⟩
    · split
      · exact fun i e he => ⟨e, he, rfl, rfl⟩
      · next slot rest hcandidates =>
        split
        · next v₁ hexamine => exact hnext (examine_spec hs hl hcandidates hexamine) _ _
        · next v₁ hexamine => exact hnext (examine_spec hs hl hcandidates hexamine) _ _

theorem Inv.collect (h : Inv w) (limit : Nat) : Inv (step w (.collect limit)) := by
  obtain ⟨hs, hl, hgeneration, _, _⟩ := collectLoop_spec limit w.views.candidates.length 0 h.sound
    h.listed le_rfl (h.listed.covered h.sound)
  have hwithin := collectLoop_within limit w.views.candidates.length 0 h.sound h.listed
  refine ⟨hs, hl, ?_, fun k g hg => h.unborn k g (hgeneration ▸ hg)⟩
  intro k f hk hf
  obtain ⟨e, he, hview, hsame⟩ := hwithin k f hf
  rw [← hview, ← hsame]
  exact h.ledger hk he

/-- The views outside change, and nothing else. -/
theorem Inv.setClones (h : Inv w) {clones : List View}
    (hclones : ∀ c ∈ clones, ∃ e, w.views.entries.get c.inode = some e ∧
      e.view.residency = c.residency) :
    Inv { w with memory := { w.memory with clones := clones } } :=
  ⟨⟨h.sound.root, h.sound.inode, h.sound.generation, h.sound.allocated, h.sound.distinct,
    h.sound.lease, hclones, h.sound.fresh⟩, ⟨h.listed.queued, h.listed.idle⟩, h.ledger, h.unborn⟩

/-- The resolution queue does not matter for residency. -/
theorem Inv.setResolved (h : Inv w) {resolved : List Slot} {ceiling : Nat} {due : Slot → Bool} :
    Inv { w with
      views := { w.views with resolved := resolved, ceiling := ceiling }, due := due } :=
  ⟨h.sound.of_shape (fun _ => rfl) rfl, ⟨h.listed.queued, h.listed.idle⟩, h.ledger, h.unborn⟩

/-- The token of an insertion is new when its inode is. -/
theorem Inv.input (h : Inv w) {source : Source} {inode parent : Nat} {kind : NodeKind}
    {name : String} (hpermitted : Permitted w (.insert source inode parent kind name))
    (hnone : w.views.entries.get inode = none) :
    (w.input source inode parent kind name).residency.value = w.memory.allocated := by
  cases source with
  | fresh => rfl
  | clone view =>
    -- A clone of the inode keeps its entry resident.
    obtain ⟨hmem, hinode⟩ := hpermitted
    obtain ⟨e, he, _⟩ := h.sound.clones view hmem
    rw [hinode, hnone] at he
    cases he

/-- The invariant needs no token to be the last one. -/
theorem Sound.allocate (h : Sound v m) : Sound v { m with allocated := m.allocated + 1 } :=
  ⟨h.root, h.inode, h.generation, fun he => Nat.lt_succ_of_lt (h.allocated he), h.distinct, h.lease,
    h.clones, fun t ht => h.fresh t (by change m.allocated + 1 ≤ t.value at ht; omega)⟩

theorem Inv.insert (h : Inv w) {source : Source} {inode parent : Nat} {kind : NodeKind}
    {name : String} (hpermitted : Permitted w (.insert source inode parent kind name)) :
    Inv (step w (.insert source inode parent kind name)) := by
  simp only [step]
  cases hinsert : w.views.insert { w.memory with allocated := w.memory.allocated + 1 }
      (w.input source inode parent kind name) with
  | error error => exact ⟨h.sound.allocate, ⟨h.listed.queued, h.listed.idle⟩, h.ledger, h.unborn⟩
  | ok answer =>
    obtain ⟨view, views⟩ := answer
    obtain ⟨generation, hinserted⟩ := insert_spec hinsert
    have hsame : Inserted w.views views w.memory (w.input source inode parent kind name) view
        generation :=
      ⟨hinserted.placed, hinserted.inode, hinserted.nonroot, hinserted.parent, hinserted.walk,
        hinserted.kind, fun hl =>
          have hlisted := hinserted.listed ⟨hl.queued, hl.idle⟩
          ⟨hlisted.queued, hlisted.idle⟩, hinserted.entry, hinserted.ceiling⟩
    have hinode : view.inode = inode := hsame.inode
    have hlisted := hsame.listed h.listed
    refine ⟨h.sound.insert hsame (h.input hpermitted), ⟨hlisted.queued, hlisted.idle⟩, ?_, ?_⟩
    · intro k f hk hf
      rcases hsame.placed.get hf with ⟨rfl, hview, hg⟩ | ⟨_, f₀, hf₀, hview, hg⟩
      · rcases hsame.entry with ⟨e, he, htoken, hold, _⟩ | ⟨hnone, htoken, hnew, _⟩
        · simp only [hview, hg, htoken, hold]
          exact h.ledger hk he
        · -- A new entry has a new token and a new generation.
          have hfresh := h.sound.fresh view.residency (by
            rw [htoken, h.input hpermitted (hinode ▸ hnone)])
          obtain ⟨hgranted, hforgotten⟩ := h.unborn view.inode generation (by omega)
          simp only [hview, hg, hfresh, hgranted, hforgotten, LookupRefs.new]
      · simp only [← hview, ← hg]
        exact h.ledger hk hf₀
    · intro k g hg
      refine h.unborn k g ?_
      rcases hsame.entry with ⟨_, _, _, _, hgeneration, _⟩ | ⟨_, _, _, hgeneration, _⟩ <;>
        simp only [hgeneration] at hg <;> omega

/-- One event keeps the invariant. -/
theorem Inv.step (h : Inv w) {e : Event} (hpermitted : Permitted w e) : Inv (step w e) := by
  cases e with
  | insert source inode parent kind name => exact h.insert hpermitted
  | acquireLookup inode => exact h.acquireLookup inode
  | forget inode count => exact h.forget inode count
  | get inode =>
    simp only [Views.step, NamespaceViews.get]
    cases hentry : w.views.entries.get inode with
    | none => exact h
    | some entry =>
      apply h.setClones
      intro c hc
      rcases List.mem_cons.mp hc with rfl | hold
      · exact ⟨entry, by rw [h.sound.inode hentry]; exact hentry, rfl⟩
      · exact h.sound.clones c hold
  | clone view =>
    apply h.setClones
    intro c hc
    rcases List.mem_cons.mp hc with rfl | hold
    · exact h.sound.clones c hpermitted
    · exact h.sound.clones c hold
  | drop view =>
    apply h.setClones
    intro c hc
    exact h.sound.clones c (List.mem_of_mem_erase hc)
  | collect limit => exact h.collect limit
  | setCeiling ceiling => exact h.setResolved
  | shedBatch budget => exact h.setResolved

/-! ## Whole runs -/

/-- An insertion leaves a folder with children a folder. -/
def KeepsFolders (w : World) : Event → Prop
  | .insert _ inode _ kind _ => (∃ e, w.views.entries.get inode = some e ∧ e.view.kind = .folder) →
      (∃ k f, k ≠ 1 ∧ w.views.entries.get k = some f ∧ f.view.parent = inode) → kind = .folder
  | _ => True

/-- The states a mount goes through in one event: the kernel's count changes before an entry is
    retired, and the collector retires one entry after the other. -/
def phases (w : World) : Event → List World
  | .forget inode count =>
    [w, { step w (.forget inode count) with views := w.views }, step w (.forget inode count)]
  | .collect limit => (collectPhases w.memory limit w.views.candidates.length w.views).map
      (fun views => { w with views := views })
  | e => [w, step w e]

theorem phases_getLast (w : World) (e : Event) : (phases w e).getLast? = some (step w e) := by
  cases e with
  | collect limit =>
    simp only [phases, List.getLast?_map, collectPhases_getLast limit _ 0]
    rfl
  | _ => rfl

/-- The mount has looked at enough candidates: `limit` is not what stopped the collector. -/
def CollectEnds (w : World) (limit : Nat) : Prop :=
  (NamespaceViews.collectLoop w.memory limit w.views.candidates.length 0 w.views).2.1 = 0 ∨
    (NamespaceViews.collectLoop w.memory limit w.views.candidates.length 0 w.views).1.candidates = []

/-- What holds of the resident views but the root. -/
structure Orderly (w : World) : Prop where
  removed : ∀ e, Permitted w e → (phases w e).getLast? = some (step w e) ∧
    (phases w e).IsChain (fun a b => Retires a.memory a.views b.views)
  ledger : ∀ i e, i ≠ 1 → w.views.entries.get i = some e →
    (w.memory.refs e.view.residency).kernel + w.forgotten (i, e.generation) =
      w.granted (i, e.generation)
  candidates : ∀ i e, i ≠ 1 → w.views.entries.get i = some e →
    (w.memory.refs e.view.residency).kernel = 0 →
    (w.memory.refs e.view.residency).quarantine = false → (i, e.generation) ∈ w.views.candidates
  collected : ∀ limit, CollectEnds w limit → ∀ i e,
    (step w (.collect limit)).views.entries.get i = some e →
    ¬ Retirable (step w (.collect limit)).views w.memory i e

/-- Nothing is removed when the entries stay. -/
theorem chain_of_shape {a b : World} (h : a.views.SameShape b.views) :
    [a, b].IsChain (fun a b => Retires a.memory a.views b.views) :=
  .cons_cons (.of_shape h) (.singleton _)

theorem Inv.phases_retires (h : Inv w) {e : Event} :
    (phases w e).IsChain (fun a b => Retires a.memory a.views b.views) := by
  cases e with
  | insert source inode parent kind name =>
    refine .cons_cons ?_ (.singleton _)
    simp only [Views.step]
    cases hinsert : w.views.insert { w.memory with allocated := w.memory.allocated + 1 }
        (w.input source inode parent kind name) with
    | error error => exact .of_shape (fun _ => rfl)
    | ok answer =>
      obtain ⟨view, views⟩ := answer
      obtain ⟨generation, hinserted⟩ := insert_spec hinsert
      intro i e he
      by_cases hi : i = view.inode
      · subst hi
        obtain ⟨f, hf, _, hg⟩ := hinserted.placed.self
        rcases hinserted.entry with ⟨e', he', _, hold, _⟩ | ⟨hnone, _⟩
        · rw [he] at he'
          cases he'
          exact .inl ⟨f, hf, hg.trans hold⟩
        · rw [he] at hnone
          cases hnone
      · obtain ⟨f, hf, _, hg⟩ := hinserted.placed.other hi he
        exact .inl ⟨f, hf, hg⟩
  | forget inode count =>
    refine .cons_cons (.of_shape (fun _ => rfl)) (.cons_cons ?_ (.singleton _))
    have hcases := forget_cases w.views w.memory inode count
    simp only [Views.step]
    generalize w.views.forget w.memory inode count = outcome at hcases ⊢
    obtain ⟨answer, v', m'⟩ := outcome
    cases hcases with
    | ignored => exact .of_shape (fun _ => rfl)
    | unknown => exact .of_shape (fun _ => rfl)
    | excess => exact .of_shape (fun _ => rfl)
    | kept => exact .of_shape (fun _ => rfl)
    | @retired e refs _ he _ hreclaimable =>
      have hsound := h.sound.store he refs
      intro i f hf
      by_cases hi : i = inode
      · subst hi
        exact .inr (hsound.retirable hf (by
          have hsame : f = e := Option.some.inj (hf.symm.trans he)
          rw [hsame]
          exact hreclaimable))
      · refine .inl ⟨f, ?_, rfl⟩
        simp only [Table.get_erase, if_neg hi]
        exact hf
    | @listed e refs _ _ _ => exact .of_shape (NamespaceViews.sameShape_queue _ _ _)
  | collect limit =>
    simp only [phases, List.isChain_map]
    exact collectPhases_retires limit _ h.sound h.listed
  | acquireLookup inode =>
    apply chain_of_shape
    simp only [Views.step]
    split <;> exact fun _ => rfl
  | get inode =>
    apply chain_of_shape
    simp only [Views.step]
    split <;> exact fun _ => rfl
  | clone view => exact chain_of_shape (fun _ => rfl)
  | drop view => exact chain_of_shape (fun _ => rfl)
  | setCeiling ceiling => exact chain_of_shape (fun _ => rfl)
  | shedBatch budget => exact chain_of_shape (fun _ => rfl)

theorem Inv.orderly (h : Inv w) : Orderly w := by
  refine ⟨fun e _ => ⟨phases_getLast w e, h.phases_retires⟩, fun i e hi he => h.ledger hi he, ?_, ?_⟩
  · intro i e hi he hkernel htrusted
    exact h.listed.queued he (h.listed.idle hi he hkernel htrusted)
  · intro limit hends i e he hretirable
    obtain ⟨hs, hl, _, _, hcovered⟩ := collectLoop_spec limit w.views.candidates.length 0 h.sound
      h.listed le_rfl (h.listed.covered h.sound)
    have hmem := hcovered i e he (hs.reclaimable he hretirable)
    rcases hends with hzero | hempty
    · rw [hzero, List.take_zero] at hmem
      cases hmem
    · rw [hempty, List.take_nil] at hmem
      cases hmem

/-- One event keeps the parent chains. -/
theorem Inv.chained_step (h : Inv w) (hc : Chained w.views) {e : Event}
    (hkeeps : KeepsFolders w e) : Chained (Views.step w e).views := by
  cases e with
  | insert source inode parent kind name =>
    simp only [Views.step]
    cases hinsert : w.views.insert { w.memory with allocated := w.memory.allocated + 1 }
        (w.input source inode parent kind name) with
    | error error => exact hc
    | ok answer =>
      obtain ⟨view, views⟩ := answer
      obtain ⟨generation, hinserted⟩ := insert_spec hinsert
      apply hc.insert hinserted
      intro k f hk hf hparent
      have hinode : view.inode = inode := hinserted.inode
      rw [hinserted.kind]
      rw [hinode] at hparent
      cases hc k f hf with
      | root => exact absurd rfl hk
      | child hf' hp hkind _ =>
        rw [hf] at hf'
        cases hf'
        exact hkeeps ⟨_, hparent ▸ hp, hkind⟩ ⟨k, f, hk, hf, hparent⟩
  | forget inode count =>
    have hcases := forget_cases w.views w.memory inode count
    simp only [Views.step]
    generalize w.views.forget w.memory inode count = outcome at hcases ⊢
    obtain ⟨answer, v', m'⟩ := outcome
    cases hcases with
    | ignored => exact hc
    | unknown => exact hc
    | excess => exact hc
    | kept => exact hc
    | @retired e refs _ he _ hreclaimable =>
      have hsound := h.sound.store he refs
      exact hc.erase hsound he (hsound.retirable he hreclaimable) (fun k => Table.get_erase _ _ _)
    | listed => exact hc.of_shape (NamespaceViews.sameShape_queue _ _ _)
  | collect limit => exact collectLoop_chained limit _ 0 h.sound h.listed hc
  | acquireLookup inode =>
    simp only [Views.step]
    split <;> exact hc
  | get inode =>
    simp only [Views.step]
    split <;> exact hc
  | clone view => exact hc
  | drop view => exact hc
  | setCeiling ceiling => exact hc.of_shape (fun _ => rfl)
  | shedBatch budget => exact hc.of_shape (fun _ => rfl)

theorem Chained.create (name : String) (ceiling : Nat) :
    Chained (World.create name ceiling).views := by
  intro i e he
  simp only [World.create, NamespaceViews.setCeiling, NamespaceViews.new, Table.get_set] at he
  split at he
  · next hi =>
    rw [hi]
    exact .root
  · cases he

/-- Views are retired exactly when nothing can name them: in every state of every run, what is
    removed is `Retirable`, what is retirable is queued and does not survive the collector, the
    kernel's counts are those of the lookups it was granted and has given back, and the parent
    chain of every entry ends at the root unless a folder with children was turned into a file. -/
theorem resident_views {name : String} {ceiling : Nat} {events : List Event}
    (hrun : Run step Permitted (World.create name ceiling) events w) :
    Orderly w ∧
      (Run step (fun w e => Permitted w e ∧ KeepsFolders w e) (World.create name ceiling) events w →
        Chained w.views) := by
  constructor
  · exact (hrun.invariant Inv (.create name ceiling) (fun _ _ h hpermitted =>
      h.step hpermitted)).orderly
  · intro hkeeps
    exact (hkeeps.invariant (fun w => Inv w ∧ Chained w.views)
      ⟨.create name ceiling, .create name ceiling⟩ (fun _ _ h hallowed =>
        ⟨h.1.step hallowed.1, h.1.chained_step h.2 hallowed.2⟩)).2

/-- The views of a folder and of a file in it, as `insert` returns them. -/
def visitedViews : View × View :=
  (⟨⟨1⟩, some ⟨0⟩, 2, 1, .folder, "folder"⟩, ⟨⟨2⟩, some ⟨1⟩, 3, 2, .file, "file"⟩)

/-- The file is looked up and forgotten while it is open, the collector passes it over, and when
    both views are closed it retires the file and with it the folder. -/
def visitedFile : List Event :=
  [.insert .fresh 2 1 .folder "folder", .insert .fresh 3 2 .file "file", .acquireLookup 3,
    .forget 3 1, .collect 8, .drop visitedViews.2, .drop visitedViews.1, .collect 8]

theorem visitedFile_orderly :
    (visitedFile.foldl step (World.create "mount" 0)).views.len = 1 ∧
      Orderly (visitedFile.foldl step (World.create "mount" 0)) ∧
      Chained (visitedFile.foldl step (World.create "mount" 0)).views := by
  have hkeeps : Run step (fun w e => Permitted w e ∧ KeepsFolders w e) (World.create "mount" 0)
      visitedFile (visitedFile.foldl step (World.create "mount" 0)) := by
    refine Run.extend .start ?_
    refine ⟨⟨trivial, ?_⟩, ⟨trivial, ?_⟩, ⟨trivial, trivial⟩, ⟨trivial, trivial⟩,
      ⟨trivial, trivial⟩, ⟨trivial, trivial⟩, ⟨trivial, trivial⟩, ⟨trivial, trivial⟩, trivial⟩
    · rintro _ _
      rfl
    · -- The file is new, so no entry of its inode is a folder.
      rintro ⟨e, he, _⟩
      cases he
  obtain ⟨horderly, hchained⟩ := resident_views (hkeeps.weaken (fun _ _ h => h.1))
  exact ⟨by decide, horderly, hchained hkeeps⟩

/-- The kernel looks the root up and gives it back. -/
def visitedRoot : List Event := [.acquireLookup 1, .forget 1 1]

/-- The root is never queued, and the kernel's forgets of it are not counted. -/
theorem root_keeps_its_count :
    (∃ e, (World.create "mount" 0).views.entries.get 1 = some e ∧
      ((World.create "mount" 0).memory.refs e.view.residency).kernel = 0 ∧
      ((World.create "mount" 0).memory.refs e.view.residency).quarantine = false ∧
      (1, e.generation) ∉ (World.create "mount" 0).views.candidates) ∧
    ∃ w, Run step Permitted (World.create "mount" 0) visitedRoot w ∧
      ∃ e, w.views.entries.get 1 = some e ∧ (w.memory.refs e.view.residency).kernel = 1 ∧
        w.granted (1, e.generation) = 1 ∧ w.forgotten (1, e.generation) = 1 := by
  have hrun : Run step Permitted (World.create "mount" 0) visitedRoot
      (visitedRoot.foldl step (World.create "mount" 0)) :=
    Run.extend .start ⟨trivial, trivial, trivial⟩
  exact ⟨⟨_, rfl, rfl, rfl, List.not_mem_nil⟩, _, hrun, _, rfl, rfl, rfl, rfl⟩

end Cirrove.Views
