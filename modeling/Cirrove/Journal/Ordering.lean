import Cirrove.Journal.Histories

/-!
# Operations in flight

What a claim hands out is not held back by an older operation (`handedOut_first`). That alone does
not keep operations in flight apart: an older operation can get a key later, from a receipt, when a
younger one that holds the key is already in flight. `Unthreatened` is the state in which no receipt
does that, and `excluded_of_run` is what holds over the runs that bind operations only then.
-/

namespace Cirrove.Journal

open Cirrove.Library

variable {ok : String → Prop} {w : World} {start j j' : UploadJournal} {id : Uuid}

/-! ## Keys that receipts give -/

/-- What is in flight waits for no receipt. -/
theorem Reveals.not_inFlight (hinv : Inv ok [] j) {k : Resource} (h : Reveals j id k)
    {op : Operation} (hop : j.queue.find id = some op) : op.inFlight = false := by
  obtain ⟨op', hop', hreveals⟩ := h
  rw [hop] at hop'
  cases hop'
  cases hflight : op.inFlight with
  | false => rfl
  | true =>
    obtain ⟨hbound, hready⟩ := hinv.queue.bound hop (Operation.not_isComplete_of_inFlight hflight)
      (Operation.not_waiting_of_inFlight hflight)
    rcases hreveals with ⟨b, _, _, hb, hunresolved, _⟩ | ⟨row, _, _, _, hrow, hunresolved, _⟩
    · rw [hb, baseBound, Option.all_some, hunresolved] at hbound
      cases hbound
    · simp [Queue.destinationReady, hrow, hunresolved] at hready

/-- Binding an operation reveals nothing new. -/
theorem BindsOne.reveals (h : BindsOne ok j j' id) {x : Uuid} {k : Resource}
    (hreveals : Reveals j' x k) : Reveals j x k := by
  obtain ⟨_, h⟩ := h
  have hevolves := (@Binds.reaches _ _ _ _ _ h (fun _ _ => False)).evolves
  obtain ⟨old, op, hold, hop, hincomplete⟩ := h.self
  have hbefore : ∃ y, j.queue.find x = some y := by
    obtain ⟨y', hy', _⟩ := hreveals
    by_cases hx : x = id
    · exact ⟨old, hx ▸ hold⟩
    · exact ⟨y', h.others x hx ▸ hy'⟩
  -- A receipt that is there is not the one of the operation that was bound.
  have hreceipt : ∀ {p : Uuid} {q : Operation} {n : Node}, j'.queue.find p = some q →
      q.confirmedNode = some n → j.queue.find p = some q := by
    intro p q n hq hn
    by_cases hp : p = id
    · subst hp
      rw [hop] at hq
      cases hq
      rw [Operation.isComplete_of_confirmedNode hn] at hincomplete
      cases hincomplete
    · rw [← h.others p hp]
      exact hq
  obtain ⟨y, hy⟩ := hbefore
  obtain ⟨y', hy', hreveals⟩ := hreveals
  obtain ⟨_, hlater, hcont⟩ := hevolves.kept x y hy
  rw [hy'] at hlater
  cases hlater
  refine ⟨y, hy, ?_⟩
  have hsettings : j'.settings = j.settings := by rw [h.rest]
  have hnames : j'.names = j.names := by rw [h.rest]
  rcases hreveals with ⟨b, p, n, hb, hunresolved, hp, hn, hk⟩ |
    ⟨row, folder, n, name, hrow, hunresolved, hfolder, hn, hname, rfl⟩
  · refine .inl ⟨b, p, n, hcont.unbound hb hunresolved, hunresolved, hreceipt hp hn, hn, ?_⟩
    rw [← hsettings, ← hcont.sourceKeys]
    exact hk
  · refine .inr ⟨row, folder, n, name, h.unresolved x row hrow hunresolved, hunresolved,
      by rw [← hnames]; exact hfolder, ?_, hcont.name name hname,
      by rw [hsettings, hcont.scope]⟩
    unfold UploadJournal.destinationNode at hn ⊢
    cases hprevious : row.predecessor with
    | none =>
      rw [hprevious] at hn
      exact hn
    | some previous =>
      rw [hprevious, hnames, hcont.scope, hcont.sequence] at hn
      obtain ⟨q, hq, hn⟩ := bind_eq_ok hn
      have hsome : Option.filter (fun n => n.kind = .folder && n.target.isNone && n.id ≠ "")
          (if j.names.operations.get previous = some row.parent && q.scope = y.scope &&
            q.sequence < y.sequence then q.confirmedNode else none) = some n := by
        simpa using Except.ok.inj hn
      have hbefore : j.queue.find previous = some q := by
        obtain ⟨hconfirmed, _⟩ := Option.filter_eq_some_iff.mp hsome
        split at hconfirmed
        · exact hreceipt (Queue.operation_ok.mp hq) hconfirmed
        · cases hconfirmed
      simp only [Queue.operation_ok.mpr hbefore]
      exact congrArg Except.ok hsome

/-- Before some operations were bound, their receipts were the same and so was what is in flight. -/
structure Foreseen (start j : UploadJournal) : Prop where
  reveals : ∀ x k, Reveals j x k → Reveals start x k
  before : ∀ x op, j.queue.find x = some op →
    ∃ old, start.queue.find x = some old ∧ old.sequence = op.sequence
  flight : ∀ y op k, j.queue.find y = some op → op.inFlight = true → k ∈ j.queue.resources y →
    ∃ old, start.queue.find y = some old ∧ old.inFlight = true ∧ old.sequence = op.sequence ∧
      k ∈ start.queue.resources y

theorem Foreseen.refl (j : UploadJournal) : Foreseen j j :=
  ⟨fun _ _ h => h, fun _ op h => ⟨op, h, rfl⟩, fun _ op _ h hflight hk => ⟨op, h, hflight, rfl, hk⟩⟩

theorem BindsOne.before (h : BindsOne ok j j' id) {x : Uuid} {op : Operation}
    (hop : j'.queue.find x = some op) : ∃ old, j.queue.find x = some old ∧ old.Continues op := by
  have hevolves := (@Binds.reaches _ _ _ _ _ h.2 (fun _ _ => False)).evolves
  obtain ⟨old, _, hold, _⟩ := h.2.self
  have hbefore : ∃ y, j.queue.find x = some y := by
    by_cases hx : x = id
    · exact ⟨old, hx ▸ hold⟩
    · exact ⟨op, h.2.others x hx ▸ hop⟩
  obtain ⟨y, hy⟩ := hbefore
  obtain ⟨_, hlater, hcont⟩ := hevolves.kept x y hy
  rw [hop] at hlater
  cases hlater
  exact ⟨y, hy, hcont⟩

/-- What is in flight stays as it is when another operation is bound. -/
theorem BindsOne.flight (h : BindsOne ok j j' id) {y : Uuid} {op : Operation} {k : Resource}
    (hop : j'.queue.find y = some op) (hflight : op.inFlight = true)
    (hk : k ∈ j'.queue.resources y) :
    ∃ old, j.queue.find y = some old ∧ old.inFlight = true ∧ old.sequence = op.sequence ∧
      k ∈ j.queue.resources y := by
  have hevolves := (@Binds.reaches _ _ _ _ _ h.2 (fun _ _ => False)).evolves
  obtain ⟨old, hold, hcont⟩ := h.before hop
  rcases hevolves.flight y op hop hflight with ⟨x, hx, hin, _⟩ | ⟨_, hfalse, _⟩
  · rw [hold] at hx
    cases hx
    refine ⟨old, hold, hin, hcont.sequence.symm, ?_⟩
    rcases hevolves.keys y old k hold hk with hk | ⟨_, hreveals⟩
    · exact hk
    · rw [hreveals.not_inFlight h.1 hold] at hin
      cases hin
  · cases hfalse

theorem Bound.foreseen (h : Bound ok start j) : Foreseen start j := by
  induction h with
  | refl => exact .refl start
  | tail _ hnext ih =>
    obtain ⟨_, hbinds⟩ := hnext
    refine ⟨fun x k hk => ih.reveals x k (hbinds.reveals hk), ?_, ?_⟩
    · intro x op hop
      obtain ⟨old, hold, hcont⟩ := hbinds.before hop
      obtain ⟨first, hfirst, heq⟩ := ih.before x old hold
      exact ⟨first, hfirst, heq.trans hcont.sequence.symm⟩
    · intro y op k hop hflight hk
      obtain ⟨old, hold, hin, hsequence, hk⟩ := hbinds.flight hop hflight hk
      obtain ⟨first, hfirst, hin, heq, hk⟩ := ih.flight y old k hold hin hk
      exact ⟨first, hfirst, hin, heq.trans hsequence, hk⟩

/-! ## Older operations -/

/-- No older open operation holds a key of an operation in flight. -/
def Guarded (j : UploadJournal) : Prop :=
  ∀ y op, j.queue.find y = some op → op.inFlight = true →
    ∀ a x, j.queue.find a = some x → x.sequence < op.sequence → x.isComplete = false →
      ∀ k, k ∈ j.queue.resources a → k ∉ j.queue.resources y

/-- No receipt gives an operation a key that a younger one in flight holds. -/
def Unthreatened (j : UploadJournal) : Prop :=
  ∀ a x k, j.queue.find a = some x → Reveals j a k →
    ∀ y op, j.queue.find y = some op → op.inFlight = true → x.sequence < op.sequence →
      k ∉ j.queue.resources y

/-- Operations are bound while no receipt threatens what is in flight, and an upload is picked for
    verification when no older operation holds it back. -/
def Undisturbed (w : World) (e : Event) : Prop :=
  ∀ env op, e.request = some (env, op) → (op.resolves = true → Unthreatened w.journal) ∧
    ∀ id x, op = .claimVerification id → w.journal.queue.find id = some x →
      w.journal.queue.blocked id x.sequence = false

/-- An operation that is open was open before. -/
theorem open_before {a b : Operation} (hcont : a.Continues b) (h : b.isComplete = false) :
    a.isComplete = false := by
  cases hcomplete : a.isComplete with
  | false => rfl
  | true =>
    rw [hcont.frozen hcomplete, hcomplete] at h
    cases h

/-- A commit that gives no keys to operations that were there keeps what is in flight guarded. -/
theorem Guarded.evolves {claimed : Uuid → Uuid → Prop} (hinv : Inv ok [] j) (h : Guarded j)
    (hevolves : j.queue.Evolves claimed (fun _ _ => False) j'.queue)
    (hclaimed : ∀ y token, claimed y token → ∃ old, j.queue.find y = some old ∧
      j.queue.blocked y old.sequence = false) : Guarded j' := by
  intro y op hop hflight a x hx holder hincomplete k hka hky
  have hfree : ∃ old, j.queue.find y = some old ∧
      ∀ a x, j.queue.find a = some x → x.sequence < old.sequence → x.isComplete = false →
        ∀ k, k ∈ j.queue.resources a → k ∉ j.queue.resources y := by
    rcases hevolves.flight y op hop hflight with ⟨old, hold, hin, _⟩ | ⟨token, htoken, _⟩
    · exact ⟨old, hold, h y old hold hin⟩
    · obtain ⟨old, hold, hblocked⟩ := hclaimed y token htoken
      exact ⟨old, hold, (blocked_eq_false hinv.tidy).mp hblocked⟩
  obtain ⟨old, hold, hfree⟩ := hfree
  obtain ⟨_, hlater, hcont⟩ := hevolves.kept y old hold
  rw [hop] at hlater
  cases hlater
  have hky := (hevolves.keys y old k hold hky).resolve_right (fun hfalse => hfalse)
  cases hbefore : j.queue.find a with
  | none =>
    -- What is older than this was there before.
    have hyoung := hevolves.fresh a x hx hbefore
    have hbound := (hinv.queue.sequence hold).2
    rw [hcont.sequence] at holder
    omega
  | some x₀ =>
    obtain ⟨_, hlater, hcont'⟩ := hevolves.kept a x₀ hbefore
    rw [hx] at hlater
    cases hlater
    have hka := (hevolves.keys a x₀ k hbefore hka).resolve_right (fun hfalse => hfalse)
    rw [hcont.sequence, hcont'.sequence] at holder
    exact hfree a x₀ hbefore holder (open_before hcont' hincomplete) k hka hky

/-- A receipt that threatens nothing can be bound. -/
theorem Guarded.binds (h : Guarded j) (hsafe : Unthreatened start) (hbound : Bound ok start j)
    (hbinds : BindsOne ok j j' id) : Guarded j' := by
  have hevolves := (@Binds.reaches _ _ _ _ _ hbinds.2 (fun _ _ => False)).evolves
  intro y op hop hflight a x hx holder hincomplete k hka hky
  obtain ⟨old, hold, hin, hsequence, hky⟩ := hbinds.flight hop hflight hky
  obtain ⟨x₀, hx₀, hcont⟩ := hbinds.before hx
  rw [← hsequence, hcont.sequence] at holder
  rcases hevolves.keys a x₀ k hx₀ hka with hka | ⟨_, hreveals⟩
  · exact h y old hold hin a x₀ hx₀ holder (open_before hcont hincomplete) k hka hky
  · -- The key is new. The receipt that gave it was there when the call began.
    have hforeseen := hbound.foreseen
    obtain ⟨first, hfirst, heq⟩ := hforeseen.before a x₀ hx₀
    obtain ⟨flying, hflying, hin, heq', hky⟩ := hforeseen.flight y old k hold hin hky
    refine hsafe a first k hfirst (hforeseen.reveals a k hreveals) y flying hflying hin ?_ hky
    rw [heq, heq']
    exact holder

/-- What is in flight stays guarded over an event that disturbs nothing. -/
theorem step_guarded {e : Event} (hpermitted : Permitted ok w e) (hundisturbed : Undisturbed w e)
    (hinv : Inv ok [] w.journal) (h : Guarded w.journal) : Guarded (step w e).journal := by
  refine step_invariant hpermitted hinv h ?_ ?_
  · intro env op j j' hrequest _ hmove hguarded
    obtain ⟨hresolves, hverification⟩ := hundisturbed env op hrequest
    cases hmove with
    | quiet hinv hleads =>
      exact hguarded.evolves hinv hleads.evolves (fun _ _ hfalse => False.elim hfalse)
    | bind hop hbound hbinds => exact hguarded.binds (hresolves hop) hbound hbinds
    | claim hinv _ hold hfree hleads =>
      refine hguarded.evolves hinv hleads.evolves ?_
      rintro _ token ⟨rfl, _⟩
      refine ⟨_, hold.stored, ?_⟩
      rcases hfree with ⟨hop, rfl, _⟩ | hfree
      · exact hverification _ _ hop hold.stored
      · exact hfree
    | discard _ _ _ hdiscarded _ _ =>
      intro y op hop hflight a x hx holder hincomplete k hka hky
      rw [hdiscarded.resources] at hka hky
      exact hguarded y op (hdiscarded.mem hop).2 hflight a x (hdiscarded.mem hx).2 holder hincomplete
        k hka.2 hky.2
  · intro j hopening
    exact h.evolves hinv hopening.evolves (fun _ _ hfalse => False.elim hfalse)

/-! ## Exclusion -/

/-- What a claim of the next operation hands out is first. -/
structure First (j : UploadJournal) (op : Operation) : Prop where
  older : ∀ a x, j.queue.find a = some x → x.sequence < op.sequence →
    (∃ k, k ∈ j.queue.resources a ∧ k ∈ j.queue.resources op.id) → x.isComplete = true
  prerequisites : ∀ p, (j.queue.writePrerequisites.get (op.id, p)).isSome = true →
    ∃ x, j.queue.find p = some x ∧ x.isComplete = true
  base : ∀ b, op.base = some b → ∃ x, j.queue.find b.predecessor = some x ∧ x.isComplete = true

/-- No operation overtakes an older one. -/
structure Excluded (w : World) : Prop where
  handed : ∀ env op x, Permitted (fun _ => True) w (.call env op) →
    op = .claimNext ∨ op = .claimNextVerification ∨ op = .claimMutation →
    handedOut (exec env op w.journal).result = some x → First (step w (.call env op)).journal x
  disjoint : ∀ a b x y, w.journal.queue.find a = some x → w.journal.queue.find b = some y →
    x.inFlight = true → y.inFlight = true → a ≠ b →
    ∀ k, k ∈ w.journal.queue.resources a → k ∉ w.journal.queue.resources b

theorem handedOut_first {env : Env} {op : Op} {x : Operation}
    (hpermitted : Permitted ok w (.call env op)) (hinv : Inv ok [] w.journal)
    (hop : op = .claimNext ∨ op = .claimNextVerification ∨ op = .claimMutation)
    (hx : handedOut (exec env op w.journal).result = some x) :
    First (step w (.call env op)).journal x := by
  have hinv' := step_inv hpermitted hinv
  obtain ⟨hhanded, hfree⟩ := answered_of_call hpermitted hinv x hx
  have hblocked : (step w (.call env op)).journal.queue.blocked x.id x.sequence = false := by
    refine hfree.resolve_left ?_
    rintro rfl
    rcases hop with hop | hop | hop <;> cases hop
  refine ⟨?_, ?_, ?_⟩
  · rintro a y hy holder ⟨k, hka, hkx⟩
    by_contra hopen
    exact (blocked_eq_false hinv'.tidy).mp hblocked a y hy holder (by simpa using hopen) k hka hkx
  · intro p hp
    have hcompleted := satisfied_iff.mp hhanded.claimable.prerequisites p hp
    exact (Queue.completed_iff hinv'.tidy).mp hcompleted
  · intro b hb
    obtain ⟨_, p, hp, _, _, hfollows⟩ := hinv'.queue.lineage hhanded.claimable.stored hb
    have hbound := hhanded.claimable.bound
    rw [hb] at hbound
    obtain ⟨_, n, hn, _⟩ := hfollows hbound
    exact ⟨p, hp, Operation.isComplete_of_confirmedNode hn⟩

theorem Guarded.disjoint (h : Guarded j) (hinv : Inv ok [] j) {a b : Uuid} {x y : Operation}
    (hx : j.queue.find a = some x) (hy : j.queue.find b = some y) (hxin : x.inFlight = true)
    (hyin : y.inFlight = true) (hne : a ≠ b) {k : Resource} (hka : k ∈ j.queue.resources a) :
    k ∉ j.queue.resources b := by
  intro hkb
  -- One of the two is the older one.
  rcases Nat.lt_trichotomy x.sequence y.sequence with hlt | heq | hlt
  · exact h b y hy hyin a x hx hlt (Operation.not_isComplete_of_inFlight hxin) k hka hkb
  · exact hne (hinv.queue.unique hx hy heq)
  · exact h a x hx hxin b y hy hlt (Operation.not_isComplete_of_inFlight hyin) k hkb hka

/-- No operation overtakes an older one in a run that disturbs nothing. -/
theorem excluded_of_run {settings : Settings} {events : List Event}
    (h : Run step (fun w e => Permitted (fun _ => True) w e ∧ Undisturbed w e)
      (World.create settings) events w) : Excluded w := by
  obtain ⟨hinv, hguarded⟩ := h.invariant
    (fun w => Inv (fun _ => True) [] w.journal ∧ Guarded w.journal)
    ⟨.create settings, fun _ _ h => (by cases h)⟩
    (fun w e hw he => ⟨step_inv he.1 hw.1, step_guarded he.1 he.2 hw.1 hw.2⟩)
  refine ⟨?_, ?_⟩
  · intro env op x hpermitted hop hx
    exact handedOut_first hpermitted hinv hop hx
  · intro a b x y hx hy hxin hyin hne k hka
    exact hguarded.disjoint hinv hx hy hxin hyin hne hka

/-! ## Checking a script -/

/-- The operations of the queue. -/
def Queue.operations (q : Queue) : List (Uuid × Operation) :=
  q.uploads.rows.map (fun row => (row.1, .upload row.2.body)) ++
    q.mutations.rows.map (fun row => (row.1, .mutation row.2.body))

theorem Queue.mem_operations {q : Queue} {op : Operation} (h : q.find id = some op) :
    (id, op) ∈ q.operations := by
  unfold Queue.find at h
  split at h
  · next row hrow =>
    cases h
    exact List.mem_append_left _ (List.mem_map.mpr ⟨(id, row), (Table.mem_rows _ _ _).mpr hrow, rfl⟩)
  · obtain ⟨row, hrow, rfl⟩ := Option.map_eq_some_iff.mp h
    exact List.mem_append_right _ (List.mem_map.mpr ⟨(id, row), (Table.mem_rows _ _ _).mpr hrow, rfl⟩)

/-- The keys that the receipts of this state give to an operation. -/
def revealedKeys (j : UploadJournal) (id : Uuid) (op : Operation) : List Resource :=
  (op.base.toList.flatMap fun b => if b.resolved then [] else
    ((j.queue.find b.predecessor).bind Operation.confirmedNode).toList.flatMap
      (op.sourceKeys j.settings.lowercase)) ++
  (j.queue.writeDestinations.get id).toList.flatMap fun row => if row.resolved then [] else
    (j.names.byId row.parent).toOption.toList.flatMap fun folder =>
      ((j.destinationNode op row folder).toOption.bind fun n => n).toList.flatMap fun n =>
        op.newName.toList.map (slotKey j.settings.lowercase op.scope n.id)

theorem Reveals.mem_revealedKeys {k : Resource} (h : Reveals j id k) {op : Operation}
    (hop : j.queue.find id = some op) : k ∈ revealedKeys j id op := by
  obtain ⟨op', hop', hreveals⟩ := h
  rw [hop] at hop'
  cases hop'
  refine List.mem_append.mpr ?_
  rcases hreveals with ⟨b, p, n, hb, hunresolved, hp, hn, hk⟩ |
    ⟨row, folder, n, name, hrow, hunresolved, hfolder, hn, hname, rfl⟩
  · refine .inl (List.mem_flatMap.mpr ⟨b, by simp [hb], ?_⟩)
    simpa [hunresolved, hp, hn] using hk
  · refine .inr (List.mem_flatMap.mpr ⟨row, by simp [hrow], ?_⟩)
    simp [hunresolved, hfolder, hn, hname, Except.toOption]

/-- No receipt threatens what is in flight, by a look at all rows. -/
def unthreatened (j : UploadJournal) : Bool :=
  j.queue.operations.all fun a => (revealedKeys j a.1 a.2).all fun k =>
    j.queue.operations.all fun y => !(y.2.inFlight && decide (a.2.sequence < y.2.sequence) &&
      (j.queue.resources y.1).contains k)

theorem Unthreatened.of_check (h : unthreatened j = true) : Unthreatened j := by
  intro a x k hx hreveals y op hop hflight hlt hk
  have hgiver := List.all_eq_true.mp h _ (Queue.mem_operations hx)
  have hkey := List.all_eq_true.mp hgiver k (hreveals.mem_revealedKeys hx)
  have hholder := List.all_eq_true.mp hkey _ (Queue.mem_operations hop)
  simp [hflight, hlt, hk] at hholder

/-- The calls that can disturb an operation in flight find that they do not. -/
def undisturbed (w : World) (e : Event) : Bool :=
  match e.request with
  | none => true
  | some (_, op) => (!op.resolves || unthreatened w.journal) &&
    (match op with
      | .claimVerification id => (w.journal.queue.find id).all fun x =>
          !w.journal.queue.blocked id x.sequence
      | _ => true)

theorem Undisturbed.of_check (w : World) (e : Event) (h : undisturbed w e = true) :
    Undisturbed w e := by
  intro env op hrequest
  unfold undisturbed at h
  rw [hrequest, Bool.and_eq_true] at h
  refine ⟨fun hresolves => .of_check ?_, ?_⟩
  · simpa [hresolves] using h.1
  · rintro id x rfl hx
    simpa [hx] using h.2

/-- The second version of a file waits for the first, while another file is written. The receipt of
    the first version binds the second one, which is handed out beside the other file. -/
def boundReceipt : List Op :=
  [.enqueue sampleDrive (.create "root" "notes"), .enqueueAfterAll ⟨1⟩ [], .claimNext,
    .enqueue sampleDrive (.replace "other" "v1"), .claimNext,
    .acknowledge ⟨1⟩ ⟨21⟩ (sampleFile "item" "root" "notes"), .claimNext]

/-- Both versions hold the name of the file, and the second one got the item from the receipt. -/
theorem excluded_boundReceipt :
    .name sampleDrive "root" "notes" ∈
        (scriptWorld .sample boundReceipt).journal.queue.resources ⟨1⟩ ∧
      .name sampleDrive "root" "notes" ∈
        (scriptWorld .sample boundReceipt).journal.queue.resources ⟨11⟩ ∧
      .item sampleDrive "item" ∈
        (scriptWorld .sample boundReceipt).journal.queue.resources ⟨11⟩ ∧
      ((scriptWorld .sample boundReceipt).journal.queue.find ⟨11⟩).map Operation.inFlight =
        some true ∧
      ((scriptWorld .sample boundReceipt).journal.queue.find ⟨31⟩).map Operation.inFlight =
        some true ∧
      Excluded (scriptWorld .sample boundReceipt) := by
  refine ⟨by decide +kernel, by decide +kernel, by decide +kernel, by decide +kernel,
    by decide +kernel, ?_⟩
  exact excluded_of_run (run_of_checked Undisturbed.of_check (by decide +kernel)
    (by decide +kernel) (fun _ _ _ _ => trivial))

/-- The second version of a file waits for the first, and the item of the first is written by another
    upload when its receipt arrives. -/
def lateReceipt : List Op :=
  [.enqueue sampleDrive (.create "root" "notes"), .enqueueAfterAll ⟨1⟩ [], .claimNext,
    .enqueue sampleDrive (.replace "item" "v1"), .claimNext,
    .acknowledge ⟨1⟩ ⟨21⟩ (sampleFile "item" "root" "notes"), .claimNext]

theorem lateReceipt_not_excluded :
    Run step (Permitted (fun _ => True)) (World.create .sample) (script 1 lateReceipt)
        (scriptWorld .sample lateReceipt) ∧
      ¬ Excluded (scriptWorld .sample lateReceipt) := by
  refine ⟨run_of_script (by decide +kernel) (fun _ _ _ _ => trivial), ?_⟩
  intro h
  have hfirst : ((scriptWorld .sample lateReceipt).journal.queue.find ⟨11⟩).map
      Operation.inFlight = some true := by decide +kernel
  have hsecond : ((scriptWorld .sample lateReceipt).journal.queue.find ⟨31⟩).map
      Operation.inFlight = some true := by decide +kernel
  obtain ⟨x, hx, hxin⟩ := Option.map_eq_some_iff.mp hfirst
  obtain ⟨y, hy, hyin⟩ := Option.map_eq_some_iff.mp hsecond
  refine h.disjoint ⟨11⟩ ⟨31⟩ x y hx hy hxin hyin (by decide) (.item sampleDrive "item") ?_ ?_
  · decide +kernel
  · decide +kernel

end Cirrove.Journal
