import Cirrove.Library.Refinement
import Cirrove.Mutation.Resending

/-!
# The worker with a provider

The mutation worker over the journal and a provider that asks a service, while others use the
journal, the service changes, and the process dies anywhere. The worker does nothing there that it
could not do with a provider of which nothing is known. So what was asked of the service was asked
in calls, one after the other, and no call sent a change that was unread (`refined`).
-/

namespace Cirrove.Mutation

open Cirrove.Library
open Cirrove.Journal
open Relation (ReflTransGen)

variable {R : Type} {A : R → Type} {X : Type}

/-- A service. -/
structure Service (R : Type) (A : R → Type) (X : Type) where
  /-- What others do to it. -/
  stirs : X → X → Prop
  /-- What is answered, if anything is, and what becomes of the service then. -/
  answers : (r : R) → X → Option (A r) → X → Prop

/-- Questions and their answers, the last one first. -/
abbrev Asked (R : Type) (A : R → Type) := List ((r : R) × Option (A r))

structure System (R : Type) (A : R → Type) (X : Type) where
  world : World
  remote : X
  /-- What was asked of the service. -/
  asked : Asked R A

/-- A call of a provider. -/
def MutationProvider.call (p : MutationProvider R A) :
    (c : Call) → Dialogue R (fun r => Option (A r)) (CallAnswer c)
  | .prepare id request => p.prepareMutation id request
  | .mutate id request item => p.mutate id request item
  | .reconcile id request item => p.reconcile id request item

/-- The provider says with each question which operation it is about. -/
def MutationProvider.tagged (p : MutationProvider R A) :
    MutationProvider (Uuid × R) (fun r => A r.2) where
  prepareMutation id request := (p.prepareMutation id request).within (Prod.mk id) fun _ x => x
  mutate id request item := (p.mutate id request item).within (Prod.mk id) fun _ x => x
  reconcile id request item := (p.reconcile id request item).within (Prod.mk id) fun _ x => x

theorem MutationProvider.tagged_call (p : MutationProvider R A) (c : Call) :
    p.tagged.call c = (p.call c).within (Prod.mk c.operation) fun _ x => x := by
  cases c <;> rfl

/-- The worker with the journal and a provider. -/
def working (service : Service R A X) : Game (WorkerAsk R) (WorkerAnswer A) (System R A X) where
  inv _ := True
  allowed _ _ := True
  stirs s t := (∃ w, Stirs s.world w ∧ t = { s with world := w }) ∨
    ∃ x, service.stirs s.remote x ∧ t = { s with remote := x }
  dies s t := ∃ w, Dies s.world w ∧ t = { s with world := w }
  answers
    | .cancelled, s, _, t => t = s
    | .journal op, s, (answer : Except JournalError Reply), t =>
      ∃ w, Answers op s.world answer w ∧ t = { s with world := w }
    | .remote r, s, answer, t =>
      ∃ x, service.answers r s.remote answer x ∧ t = ⟨s.world, x, ⟨r, answer⟩ :: s.asked⟩
  inv_stirs _ _ := trivial
  inv_dies _ _ := trivial
  inv_answers _ _ _ := trivial

/-! ## Calls as questions -/

/-- A call as a part of the worker's work. -/
abbrev asPart {α : Type} (call : Dialogue R (fun r => Option (A r)) α) :
    Dialogue (WorkerAsk R) (WorkerAnswer A) α := call.within .remote fun _ x => x

section Fill

variable (p : MutationProvider R A)

/-- A call is answered by what the provider does. -/
def answered : (r : WorkerAsk Call) →
    Dialogue (WorkerAsk R) (WorkerAnswer A) (WorkerAnswer CallAnswer r)
  | .cancelled => .ask .cancelled fun (cancelled : Bool) => .done cancelled
  | .journal op => .ask (.journal op) fun (answer : Except JournalError Reply) => .done answer
  | .remote c => (asPart (p.call c)).bind fun a => .done (some a)

namespace Worker

variable {α : Type} (record : MutationRecord) (attempt : Uuid)

/-- The worker's work with a provider of which nothing is known, done with this one. -/
abbrev filled (work : Work Call CallAnswer α) : Work R A α := Dialogue.fills (answered p) work

theorem filled_bind {β : Type} {work : Work Call CallAnswer α} {work' : Work R A α}
    {f : α → Work Call CallAnswer β} {f' : α → Work R A β} (h : filled p work = work')
    (hf : ∀ a, filled p (f a) = f' a) : filled p (work >>= f) = work' >>= f' := by
  obtain rfl := h
  exact (Dialogue.fills_bind work f).trans (congrArg (filled p work >>= ·) (funext hf))

theorem filled_onJournal (op : Op) : filled p (onJournal op) = onJournal op := rfl

theorem filled_cancelled : filled p (ask .cancelled) = ask .cancelled := rfl

/-- A call is made as the provider makes it. -/
theorem fill_call (c : Call) (f : Option (CallAnswer c) → CallAnswer c)
    (hf : ∀ a, f (some a) = a) :
    (asPart (.ask c fun answer => .done (f answer))).fill (answered p) = asPart (p.call c) := by
  show ((asPart (p.call c)).bind fun a => .done (some a)).bind (fun answer => .done (f answer)) = _
  rw [Dialogue.bind_assoc]
  have hdone : (fun a => (Dialogue.done (some a)).bind fun answer => .done (f answer) :
      CallAnswer c → Dialogue (WorkerAsk R) (WorkerAnswer A) (CallAnswer c)) = .done :=
    funext fun a => congrArg Dialogue.done (hf a)
  rw [hdone]
  exact Dialogue.bind_done _

theorem filled_remote
    {call : Dialogue Call (fun r => Option (CallAnswer r)) (Except MutationError α)}
    {call' : Dialogue R (fun r => Option (A r)) (Except MutationError α)}
    (h : (asPart call).fill (answered p) = asPart call') :
    filled p (remote call) = remote call' := by
  unfold remote
  refine filled_bind p (filled_cancelled p) fun (cancelled : Bool) => ?_
  cases cancelled with
  | true => rfl
  | false =>
    show Dialogue.fill (answered p) (_ >>= fun a => .done (Except.ok a)) = _
    rw [Dialogue.fill_bind, h]
    rfl

theorem filled_prepared : filled p (prepared unknown record attempt) =
    prepared p record attempt := by
  unfold prepared
  split
  · refine filled_bind p (filled_remote p
      (fill_call p (.prepare record.id record.request) settled fun _ => rfl)) ?_
    rintro (e | _ | item)
    · dsimp only
      split
      · exact filled_bind p (filled_onJournal p _) fun _ => rfl
      · exact filled_bind p (filled_onJournal p _) fun _ => rfl
    · rfl
    · exact filled_bind p (filled_onJournal p _) fun _ => rfl
  · rfl

theorem filled_sent : filled p (sent unknown record) = sent p record := by
  unfold sent
  split
  · exact filled_remote p
      (fill_call p (.reconcile record.id record.request record.preparedItem) settled fun _ => rfl)
  · refine filled_bind p (filled_remote p
      (fill_call p (.mutate record.id record.request record.preparedItem) settled fun _ => rfl)) ?_
    exact fun _ => rfl

theorem filled_reported (result : Except MutationError MutationReconciliation) :
    filled p (reported record attempt result) = reported record attempt result := by
  have hacknowledged : ∀ op, filled p (onJournal op >>= acknowledged) =
      onJournal op >>= acknowledged := by
    refine fun op => filled_bind p (filled_onJournal p op) fun reply => ?_
    cases reply <;> rfl
  unfold reported
  split
  · exact hacknowledged _
  · exact hacknowledged _
  · exact filled_bind p (filled_onJournal p _) fun _ => rfl
  · exact filled_bind p (filled_onJournal p _) fun _ => rfl
  · exact filled_bind p (filled_onJournal p _) fun _ => rfl
  · exact filled_bind p (filled_onJournal p _) fun _ => rfl

theorem filled_carried : filled p (carried unknown record attempt) =
    carried p record attempt := by
  unfold carried
  refine filled_bind p (filled_prepared p record attempt) ?_
  rintro (state | r)
  · rfl
  · exact filled_bind p (filled_sent p r) fun result => filled_reported p r attempt result

theorem filled_runOnce : filled p (runOnce unknown) = runOnce p := by
  unfold runOnce
  refine filled_bind p (filled_cancelled p) fun (cancelled : Bool) => ?_
  split
  · rfl
  refine filled_bind p (filled_onJournal p .claimMutation) fun reply => ?_
  split
  · rfl
  next record hrecord =>
  split
  · rfl
  · exact filled_bind p (filled_carried p record _) fun _ => rfl

end Worker

end Fill

/-! ## What was asked -/

/-- This was asked of the service in these calls, one after the other. -/
inductive Traces (p : MutationProvider R A) : Calls → Asked R A → Prop where
  | start : Traces p [] []
  | cut {calls : Calls} {asked play : Asked R A} {c : Call}
      {left : Dialogue R (fun r => Option (A r)) (CallAnswer c)} (h : Traces p calls asked)
      (hplays : (p.call c).Plays play left) : Traces p (⟨c, none⟩ :: calls) (play ++ asked)
  | ends {calls : Calls} {asked play : Asked R A} {c : Call} {a : CallAnswer c}
      (h : Traces p calls asked) (hplays : (p.call c).Plays play (.done a)) :
      Traces p (⟨c, some a⟩ :: calls) (play ++ asked)

section Traces

variable {p : MutationProvider R A} {calls : Calls} {asked : Asked R A}

/-- A question was asked in a call. -/
theorem Traces.call_of_mem (h : Traces p calls asked) {q : (r : R) × Option (A r)}
    (hq : q ∈ asked) : ∃ c ∈ calls, ∃ play left, (p.call c.1).Plays play left ∧ q ∈ play := by
  induction h with
  | start => cases hq
  | cut h hplays ih =>
    rcases List.mem_append.mp hq with hq | hq
    · exact ⟨_, List.mem_cons_self, _, _, hplays, hq⟩
    · obtain ⟨c, hc, hcall⟩ := ih hq
      exact ⟨c, List.mem_cons_of_mem _ hc, hcall⟩
  | ends h hplays ih =>
    rcases List.mem_append.mp hq with hq | hq
    · exact ⟨_, List.mem_cons_self, _, _, hplays, hq⟩
    · obtain ⟨c, hc, hcall⟩ := ih hq
      exact ⟨c, List.mem_cons_of_mem _ hc, hcall⟩

/-- What a call was answered the provider can answer. -/
theorem Traces.ends_of_mem (h : Traces p calls asked) {c : Call} {a : CallAnswer c}
    (hc : ⟨c, some a⟩ ∈ calls) : (p.call c).Ends a := by
  induction h with
  | start => cases hc
  | cut h hplays ih =>
    rcases List.mem_cons.mp hc with heq | hc
    · cases heq
    · exact ih hc
  | ends h hplays ih =>
    rcases List.mem_cons.mp hc with heq | hc
    · cases heq
      exact Dialogue.plays_ends hplays .done
    · exact ih hc

/-- What each call may do at most so often, all of them may do as often as there are such calls. -/
theorem Traces.countP_le (h : Traces p calls asked) {marked : (r : R) × Option (A r) → Bool}
    {counted : ((r : Call) × Option (CallAnswer r)) → Bool}
    (hcalls : ∀ c ∈ calls,
      (p.call c.1).AtMost (fun _ => false) marked (if counted c then 1 else 0)) :
    asked.countP marked ≤ calls.countP counted := by
  induction h with
  | start => exact Nat.le_refl 0
  | cut h hplays ih =>
    have hplay := Dialogue.plays_atMost hplays (hcalls _ List.mem_cons_self)
    have hrest := ih fun c hc => hcalls c (List.mem_cons_of_mem _ hc)
    rw [List.countP_append, List.countP_cons]
    omega
  | ends h hplays ih =>
    have hplay := Dialogue.plays_atMost hplays (hcalls _ List.mem_cons_self)
    have hrest := ih fun c hc => hcalls c (List.mem_cons_of_mem _ hc)
    rw [List.countP_append, List.countP_cons]
    omega

end Traces

/-! ## The worker with a provider of which nothing is known -/

/-- The same journal, and calls in which the service was asked. -/
structure Mirrors (p : MutationProvider R A) (s' : System R A X) (s : Served) : Prop where
  world : s'.world = s.world
  traces : Traces p s.calls s'.asked

/-- The same while a question of the worker is open, with this of its dialogue left. -/
def During (p : MutationProvider R A) : (r : WorkerAsk Call) →
    Dialogue (WorkerAsk R) (WorkerAnswer A) (WorkerAnswer CallAnswer r) → System R A X → Served →
    Prop
  | .cancelled, d, s', s => Mirrors p s' s ∧ (d = answered p .cancelled ∨ ∃ b, d = .done b)
  | .journal op, d, s', s => (Mirrors p s' s ∧ d = answered p (.journal op)) ∨
    ∃ answer, d = .done answer ∧ Answers op s.world answer s'.world ∧ Traces p s.calls s'.asked
  | .remote c, d, s', s => s'.world = s.world ∧ ∃ play asked left, s'.asked = play ++ asked ∧
    Traces p s.calls asked ∧ (p.call c).Plays play left ∧
    d = (asPart left).bind fun a => .done (some a)

section Refines

variable {p : MutationProvider R A} {service : Service R A X} {s' t' : System R A X} {s : Served}

theorem Mirrors.stirs (h : Mirrors p s' s) (hst : (working service).stirs s' t') :
    ∃ t, ReflTransGen serving.stirs s t ∧ Mirrors p t' t := by
  rcases hst with ⟨w, hst, rfl⟩ | ⟨x, -, rfl⟩
  · exact ⟨{ s with world := w }, .single ⟨w, h.world ▸ hst, rfl⟩, rfl, h.traces⟩
  · exact ⟨s, .refl, h.world, h.traces⟩

theorem Mirrors.dies (h : Mirrors p s' s) (hdies : (working service).dies s' t') :
    ∃ t, serving.dies s t ∧ Mirrors p t' t := by
  obtain ⟨w, hdies, rfl⟩ := hdies
  exact ⟨{ s with world := w }, ⟨w, h.world ▸ hdies, rfl⟩, rfl, h.traces⟩

theorem During.stirs {r : WorkerAsk Call} {q : WorkerAsk R}
    {next : WorkerAnswer A q → Dialogue (WorkerAsk R) (WorkerAnswer A) (WorkerAnswer CallAnswer r)}
    (h : During p r (.ask q next) s' s) (hst : (working service).stirs s' t') :
    ∃ t, ReflTransGen serving.stirs s t ∧ During p r (.ask q next) t' t := by
  cases r with
  | cancelled =>
    obtain ⟨t, hst, ht⟩ := h.1.stirs hst
    exact ⟨t, hst, ht, h.2⟩
  | journal op =>
    rcases h with ⟨h, hleft⟩ | ⟨_, ⟨⟩, _⟩
    obtain ⟨t, hst, ht⟩ := h.stirs hst
    exact ⟨t, hst, .inl ⟨ht, hleft⟩⟩
  | remote c =>
    obtain ⟨hworld, hcall⟩ := h
    rcases hst with ⟨w, hst, rfl⟩ | ⟨x, -, rfl⟩
    · exact ⟨{ s with world := w }, .single ⟨w, hworld ▸ hst, rfl⟩, rfl, hcall⟩
    · exact ⟨s, .refl, hworld, hcall⟩

theorem During.answers {r : WorkerAsk Call} {q : WorkerAsk R}
    {next : WorkerAnswer A q → Dialogue (WorkerAsk R) (WorkerAnswer A) (WorkerAnswer CallAnswer r)}
    {a : WorkerAnswer A q} (h : During p r (.ask q next) s' s)
    (ha : (working service).answers q s' a t') : During p r (next a) t' s := by
  cases r with
  | cancelled =>
    rcases h with ⟨h, hleft | ⟨_, ⟨⟩⟩⟩
    cases hleft
    obtain rfl : t' = s' := ha
    exact ⟨h, .inr ⟨a, rfl⟩⟩
  | journal op =>
    rcases h with ⟨h, hleft⟩ | ⟨_, ⟨⟩, _⟩
    cases hleft
    obtain ⟨w, hanswers, rfl⟩ := ha
    exact .inr ⟨a, rfl, h.world ▸ hanswers, h.traces⟩
  | remote c =>
    obtain ⟨hworld, play, asked, left, hasked, htraces, hplays, hleft⟩ := h
    cases left with
    | done b => cases hleft
    | ask r k =>
      cases hleft
      obtain ⟨x, -, rfl⟩ := ha
      refine ⟨hworld, ⟨r, a⟩ :: play, asked, k a, ?_, htraces, hplays.answers a, rfl⟩
      exact congrArg (List.cons _) hasked

theorem During.ends {r : WorkerAsk Call} {a : WorkerAnswer CallAnswer r}
    (h : During p r (.done a) s' s) : ∃ t, serving.answers r s a t ∧ Mirrors p s' t := by
  cases r with
  | cancelled => exact ⟨s, rfl, h.1⟩
  | journal op =>
    rcases h with ⟨_, ⟨⟩⟩ | ⟨answer, hdone, hanswers, htraces⟩
    cases hdone
    exact ⟨{ s with world := s'.world }, ⟨s'.world, hanswers, rfl⟩, rfl, htraces⟩
  | remote c =>
    obtain ⟨hworld, play, asked, left, hasked, htraces, hplays, hleft⟩ := h
    cases left with
    | done b =>
      cases hleft
      refine ⟨{ s with calls := ⟨c, some b⟩ :: s.calls }, rfl, hworld, ?_⟩
      rw [hasked]
      exact .ends htraces hplays
    | ask r k => cases hleft

/-- A call that is open has been cut off when the process dies. -/
theorem During.cut {c : Call} {d : Dialogue (WorkerAsk R) (WorkerAnswer A) _}
    (h : During p (.remote c) d s' s) :
    Mirrors p s' { s with calls := ⟨c, none⟩ :: s.calls } := by
  obtain ⟨hworld, play, asked, left, hasked, htraces, hplays, -⟩ := h
  refine ⟨hworld, ?_⟩
  rw [hasked]
  exact .cut htraces hplays

theorem During.dies {r : WorkerAsk Call} {q : WorkerAsk R}
    {next : WorkerAnswer A q → Dialogue (WorkerAsk R) (WorkerAnswer A) (WorkerAnswer CallAnswer r)}
    (h : During p r (.ask q next) s' s) (hdies : (working service).dies s' t') :
    ∃ t u, (t = s ∨ ∃ a, serving.answers r s a t) ∧ serving.dies t u ∧ Mirrors p t' u := by
  cases r with
  | cancelled =>
    obtain ⟨u, hdies, hu⟩ := h.1.dies hdies
    exact ⟨s, u, .inl rfl, hdies, hu⟩
  | journal op =>
    rcases h with ⟨h, -⟩ | ⟨_, ⟨⟩, _⟩
    obtain ⟨u, hdies, hu⟩ := h.dies hdies
    exact ⟨s, u, .inl rfl, hdies, hu⟩
  | remote c =>
    obtain ⟨u, hdies, hu⟩ := h.cut.dies hdies
    exact ⟨_, u, .inr ⟨none, rfl⟩, hdies, hu⟩

/-- The worker with a provider is a worker with one of which nothing is known. -/
theorem refines : (working service).Refines serving (answered p) (Mirrors p) (During p) where
  stirs := Mirrors.stirs
  dies := Mirrors.dies
  begins := by
    intro r s' s h
    cases r with
    | cancelled => exact ⟨h, .inl rfl⟩
    | journal op => exact .inl ⟨h, rfl⟩
    | remote c => exact ⟨h.world, [], s'.asked, p.call c, rfl, h.traces, .start, rfl⟩
  stirsDuring := During.stirs
  answers := During.answers
  ends := During.ends
  diesDuring := During.dies

end Refines

/-! ## Every run -/

/-- A new journal, opened, and a service of which nothing was asked yet. -/
def System.create (settings : Settings) (remote : X) : System R A X :=
  ⟨World.create settings, remote, []⟩

/-- In every run, whatever is lost, cut off or begun again and whoever else uses the journal and the
    service: what was asked of the service was asked in calls by the rules. -/
theorem refined {p : MutationProvider R A} {service : Service R A X} {settings : Settings}
    {remote : X} {log : List ((r : WorkerAsk R) × WorkerAnswer A r)} {s : System R A X}
    {work : Option (Dialogue (WorkerAsk R) (WorkerAnswer A)
      (Except JournalError (Option (Uuid × MutationState))))}
    (h : (working service).Reaches (Worker.runOnce p).run (.create settings remote) log s work) :
    ∃ calls, Served.Sound ⟨s.world, calls⟩ ∧ Traces p calls s.asked := by
  have hfill : (Worker.runOnce p).run = (Worker.runOnce unknown).run.fill (answered p) :=
    congrArg ExceptT.run (Worker.filled_runOnce p).symm
  rw [hfill] at h
  have hstart : Mirrors p (.create settings remote) (.create settings) := ⟨rfl, .start⟩
  -- what is reached with this provider is reached with the unknown one
  obtain ⟨log, t, x, hreaches, hstands⟩ := refines.reaches h hstart
  have hsound : ∀ {log t x}, serving.Reaches (Worker.runOnce unknown).run (.create settings)
      log t x → t.Sound := fun h =>
    (h.keeps (Served.Sound.create settings) (fun _ => Worker.runOnce_keeps)
      fun result _ _ _ _ _ => by cases result <;> trivial).1
  have hmirrored : ∃ t : Served, t.Sound ∧ Mirrors p s t := by
    cases hstands with
    | rests hrel => exact ⟨t, hsound hreaches, hrel⟩
    | done a hrel => exact ⟨t, hsound hreaches, hrel⟩
    | @asks r next q rest hduring =>
      cases r with
      | cancelled => exact ⟨t, hsound hreaches, hduring.1⟩
      | journal op =>
        rcases hduring with ⟨hrel, -⟩ | ⟨_, ⟨⟩, _⟩
        exact ⟨t, hsound hreaches, hrel⟩
      | remote c =>
        -- the call that is open is taken as one that was cut off
        have hcut : serving.answers (.remote c) t (none : Option (CallAnswer c))
          { t with calls := ⟨c, none⟩ :: t.calls } := rfl
        exact ⟨_, hsound (hreaches.answers hcut), hduring.cut⟩
  obtain ⟨t, ht, hrel⟩ := hmirrored
  refine ⟨t.calls, ?_, hrel.traces⟩
  rw [hrel.world]
  exact ht

/-! ## A folder that is sent -/

section Sample

/-- The worker calls the journal. -/
theorem working_call {α : Type} (first : Nat) (env : Env) {service : Service R A X}
    {d : Dialogue (WorkerAsk R) (WorkerAnswer A) α} {start : System R A X} {w : World} {remote : X}
    {asked : Asked R A} {log : List ((r : WorkerAsk R) × WorkerAnswer A r)} {op : Op}
    {next : Except JournalError Reply → Dialogue (WorkerAsk R) (WorkerAnswer A) α}
    (h : (working service).Reaches d start log ⟨w, remote, asked⟩ (some (.ask (.journal op) next)))
    (henv : env.uuid = (Env.numbered first).uuid) (hready : callable w first op = true)
    (reply : Reply) (hresult : (exec env op w.journal).result = .ok reply) :
    (working service).Reaches d start (⟨.journal op, Except.ok reply⟩ :: log)
      ⟨step w (.call env op), remote, asked⟩ (some (next (.ok reply))) := by
  obtain ⟨hpermitted, hdrawn⟩ := permitted_of_ready env henv hready
  have hanswers := Answers.ends env hpermitted hdrawn
  rw [hresult] at hanswers
  exact .answers h ⟨_, hanswers, rfl⟩

/-- The worker is not stopped. -/
theorem working_on {α : Type} {service : Service R A X}
    {d : Dialogue (WorkerAsk R) (WorkerAnswer A) α} {start s : System R A X}
    {log : List ((r : WorkerAsk R) × WorkerAnswer A r)}
    {next : Bool → Dialogue (WorkerAsk R) (WorkerAnswer A) α}
    (h : (working service).Reaches d start log s (some (.ask .cancelled next))) :
    (working service).Reaches d start (⟨.cancelled, false⟩ :: log) s (some (next false)) :=
  .answers (a := false) h rfl

theorem bind_assoc_three {α β γ δ : Type} (d : Dialogue R A α) (f : α → Dialogue R A β)
    (g : β → Dialogue R A γ) (h : γ → Dialogue R A δ) :
    ((d.bind f).bind g).bind h = d.bind fun a => ((f a).bind g).bind h := by
  simp only [Dialogue.bind_assoc]

theorem bind_assoc_four {α β γ δ ε : Type} (d : Dialogue R A α) (f : α → Dialogue R A β)
    (g : β → Dialogue R A γ) (h : γ → Dialogue R A δ) (k : δ → Dialogue R A ε) :
    (((d.bind f).bind g).bind h).bind k = d.bind fun a => (((f a).bind g).bind h).bind k := by
  simp only [Dialogue.bind_assoc]

section Carried

variable {p : MutationProvider R A} {service : Service R A X} {start s : System R A X}
  {d : Dialogue (WorkerAsk R) (WorkerAnswer A)
    (Except JournalError (Option (Uuid × MutationState)))}
  {log : List ((r : WorkerAsk R) × WorkerAnswer A r)}

/-- What is left to be done with a change of which so much is known. -/
abbrev reporting (record : MutationRecord) (attempt : Uuid)
    (result : Except MutationError MutationReconciliation) :
    Dialogue (WorkerAsk R) (WorkerAnswer A) (Except JournalError (Option (Uuid × MutationState))) :=
  (do return some (record.id, ← Worker.reported record attempt result) : Worker.Work R A _).run

/-- A change for which nothing has to be reserved is sent. -/
theorem working_sent (record : MutationRecord) (attempt : Uuid) (hstate : record.state ≠ .verifying)
    (hprepared : record.state = .applying → record.preparedItem.isSome = true)
    (h : (working service).Reaches d start log s (some (do
      return some (record.id, ← Worker.carried p record attempt) : Worker.Work R A _).run)) :
    ∃ log, (working service).Reaches d start log s
      (some ((asPart (p.mutate record.id record.request record.preparedItem)).bind fun result =>
        reporting record attempt (result.map .applied))) := by
  have hnone : ¬ (record.state = .applying ∧ record.preparedItem.isNone = true) := by
    rintro ⟨happlying, hnone⟩
    rw [Option.isNone_iff_eq_none] at hnone
    simp [hnone] at hprepared
    exact hprepared happlying
  unfold Worker.carried Worker.prepared at h
  rw [if_neg hnone] at h
  have h : (working service).Reaches d start log s (some (do
      let state ← (do Worker.reported record attempt (← Worker.sent p record))
      return some (record.id, state) : Worker.Work R A _).run) := h
  unfold Worker.sent at h
  rw [if_neg hstate] at h
  have h := working_on h
  exact ⟨_, Eq.mp (congrArg (fun d' => (working service).Reaches d start _ s (some d'))
    (bind_assoc_four (asPart (p.mutate record.id record.request record.preparedItem)) _ _ _ _)) h⟩

/-- What became of a change is looked for. -/
theorem working_looked (record : MutationRecord) (attempt : Uuid)
    (hstate : record.state = .verifying)
    (h : (working service).Reaches d start log s (some (do
      return some (record.id, ← Worker.carried p record attempt) : Worker.Work R A _).run)) :
    ∃ log, (working service).Reaches d start log s
      (some ((asPart (p.reconcile record.id record.request record.preparedItem)).bind fun result =>
        reporting record attempt result)) := by
  have hnone : ¬ (record.state = .applying ∧ record.preparedItem.isNone = true) := by
    rw [hstate]
    rintro ⟨⟨⟩, -⟩
  unfold Worker.carried Worker.prepared at h
  rw [if_neg hnone] at h
  have h : (working service).Reaches d start log s (some (do
      let state ← (do Worker.reported record attempt (← Worker.sent p record))
      return some (record.id, state) : Worker.Work R A _).run) := h
  unfold Worker.sent at h
  rw [if_pos hstate] at h
  have h := working_on h
  exact ⟨_, Eq.mp (congrArg (fun d' => (working service).Reaches d start _ s (some d'))
    (bind_assoc_three (asPart (p.reconcile record.id record.request record.preparedItem))
      _ _ _)) h⟩

end Carried

variable (p : MutationProvider R A) (service : Service R A X) (remote : X)

abbrev Worked (log : List ((r : WorkerAsk R) × WorkerAnswer A r)) (s : System R A X)
    (work : Option (Dialogue (WorkerAsk R) (WorkerAnswer A)
      (Except JournalError (Option (Uuid × MutationState))))) : Prop :=
  (working service).Reaches (Worker.runOnce p).run (.create .sample remote) log s work

/-- The folder that the worker has taken. -/
def sampled : MutationRecord := sampleChange .applying (some ⟨11⟩) 0 0 none

theorem worked_claim : ∃ log, Worked p service remote log ⟨sampleWorld 2, remote, []⟩
    (some (do return some (⟨1⟩, ← Worker.carried p sampled ⟨11⟩) : Worker.Work R A _).run) := by
  have hqueued : Worked p service remote [] ⟨sampleWorld 1, remote, []⟩ none := by
    have hready : sampleReady 0 1 (.enqueueMutation sampleRequest) = true := by decide +kernel
    obtain ⟨hpermitted, hdrawn⟩ := permitted_of_ready (.numbered 1) rfl hready
    exact .stirs .start (.inl ⟨_, Stirs.call (w := World.create .sample) (.numbered 1)
      (.enqueueMutation sampleRequest) hpermitted hdrawn rfl, rfl⟩)
  have h : Worked p service remote _ _ _ := .begins hqueued
  have h : Worked p service remote _ _ _ := working_on h
  have h : Worked p service remote _ ⟨sampleWorld 2, remote, []⟩ _ :=
    working_call 11 (.numbered 11) h rfl (by decide +kernel)
      (.claimed (some (.mutation sampled))) (by decide +kernel)
  exact ⟨_, h⟩

/-- The folder is sent, when there was nothing to be prepared. -/
theorem worked_mutate (hprepare : p.prepareMutation sampled.id sampled.request = .done (.ok none)) :
    ∃ log, Worked p service remote log ⟨sampleWorld 2, remote, []⟩
      (some ((asPart (p.mutate ⟨1⟩ sampleRequest none)).bind fun result =>
        reporting sampled ⟨11⟩ (result.map .applied))) := by
  obtain ⟨log, h⟩ := worked_claim p service remote
  unfold Worker.carried Worker.prepared at h
  rw [if_pos (by decide), hprepare] at h
  have h : Worked p service remote _ _ _ := working_on h
  have h : Worked p service remote _ _ _ := working_on h
  exact ⟨_, Eq.mp (congrArg (fun d => Worked p service remote _ _ (some d))
    (bind_assoc_four (asPart (p.mutate ⟨1⟩ sampleRequest none)) _ _ _ _)) h⟩

end Sample

end Cirrove.Mutation
