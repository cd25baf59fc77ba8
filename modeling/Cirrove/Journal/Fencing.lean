import Cirrove.Journal.Histories

/-!
# Attempts are fenced

A worker that claims an operation gets a token with it. `World.Sound` ties the tokens that were
handed out to those the journal accepts, over every run. So the report of a worker whose token is
not the latest one is refused (`report_refused`), and what is complete stays complete.
-/

namespace Cirrove.Journal

open Cirrove.Library

variable {ok : String → Prop} {w : World}

/-! ## The tokens -/

/-- The tokens of a world. -/
structure World.Sound (ok : String → Prop) (w : World) : Prop where
  inv : Inv ok [] w.journal
  /-- A running process knows who holds what. -/
  current : w.running = true → ∀ id op, w.journal.queue.find id = some op → op.inFlight = true →
    op.attempt = w.current id
  issued : ∀ id token, w.current id = some token → (id, token) ∈ w.issued
  unique : ∀ a b token, (a, token) ∈ w.issued → (b, token) ∈ w.issued → a = b

theorem World.Sound.create (settings : Settings) : (World.create settings).Sound ok where
  inv := .create settings
  current := fun _ _ _ h => (by cases h)
  issued := fun _ _ h => (by cases h)
  unique := fun _ _ _ h => (by cases h)

/-- A worker learns the token of the operation it was handed. -/
theorem World.Sound.learn {env : Env} {result : Except JournalError Reply} {j : UploadJournal}
    (h : w.Sound ok) (hinv : Inv ok [] j) (hrunning : w.running = true)
    (hunissued : ∀ id, (id, env.uuid 0) ∉ w.issued)
    (hanswered : ∀ x, handedOut result = some x → HandedOut env j x)
    (hgranted : Granted w.journal j (handedOut result)) :
    (({ w with journal := j } : World).learn result).Sound ok := by
  unfold World.learn
  cases hresult : handedOut result with
  | none =>
    refine ⟨hinv, ?_, h.issued, h.unique⟩
    intro _ id op hop hflight
    rcases hgranted id op hop hflight with ⟨old, hold, hin, heq⟩ | ⟨y, hy, _⟩
    · rw [heq]
      exact h.current hrunning id old hold hin
    · rw [hresult] at hy
      cases hy
  | some x =>
    have hhanded := hanswered x hresult
    have hattempt : x.attempt = some (env.uuid 0) := hhanded.attempt
    have hissued : ∀ {id token}, (id, token) ∈ w.issued ++ x.attempt.toList.map (x.id, ·) →
        (id, token) ∈ w.issued ∨ (id = x.id ∧ token = env.uuid 0) := by
      intro id token hmem
      rw [hattempt] at hmem
      simpa [eq_comm] using hmem
    refine ⟨hinv, ?_, ?_, ?_⟩
    · intro _ id op hop hflight
      show op.attempt = if id = x.id then x.attempt else w.current id
      by_cases hid : id = x.id
      · rw [if_pos hid]
        have hstored : j.queue.find x.id = some x := hhanded.claimable.stored
        have hop' : j.queue.find x.id = some op := hid ▸ hop
        rw [hstored] at hop'
        cases hop'
        rfl
      · rw [if_neg hid]
        rcases hgranted id op hop hflight with ⟨old, hold, hin, heq⟩ | ⟨y, hy, hyid, _⟩
        · rw [heq]
          exact h.current hrunning id old hold hin
        · rw [hresult] at hy
          cases hy
          exact absurd hyid.symm hid
    · intro id token hcurrent
      replace hcurrent : (if id = x.id then x.attempt else w.current id) = some token := hcurrent
      show (id, token) ∈ w.issued ++ x.attempt.toList.map (x.id, ·)
      split at hcurrent
      · next hid => simp [hcurrent, hid]
      · exact List.mem_append_left _ (h.issued id token hcurrent)
    · intro a b token ha hb
      rcases hissued ha with ha | ⟨rfl, rfl⟩
      · rcases hissued hb with hb | ⟨_, rfl⟩
        · exact h.unique a b token ha hb
        · exact absurd ha (hunissued a)
      · rcases hissued hb with hb | ⟨rfl, _⟩
        · exact absurd hb (hunissued b)
        · rfl

/-- Every event keeps the tokens in order. -/
theorem World.Sound.step {e : Event} (h : w.Sound ok) (hpermitted : Permitted ok w e) :
    (step w e).Sound ok := by
  have hinv := step_inv hpermitted h.inv
  cases e with
  | call env op =>
    obtain ⟨hrunning, hfresh, htags⟩ := id hpermitted
    have hperforms := exec_path h.inv hfresh.injective hfresh.unused op hfresh.parent hfresh.captured
      htags
    have hinv' : Inv ok [] ((exec env op w.journal).final w.journal) :=
      Commits.final_of_states h.inv (fun m hm => (performs_states hperforms m hm).inv h.inv)
    have hanswered := answered_of_call hpermitted h.inv
    rw [step_call_journal] at hanswered
    refine h.learn hinv' hrunning (hfresh.unissued 0) (fun x hx => (hanswered x hx).1) ?_
    cases hresult : (exec env op w.journal).result with
    | error e => exact hperforms.2 _ rfl e hresult
    | ok reply => exact ((hperforms.1 _ rfl).2 reply hresult).2.2
  | die env op commits =>
    refine ⟨hinv, ?_, h.issued, h.unique⟩
    intro hrunning
    cases hrunning
  | start size =>
    refine ⟨hinv, ?_, ?_, h.unique⟩
    · intro hrunning id op hop hflight
      -- A journal that was opened is idle.
      have hresult : ∃ a, (UploadJournal.reopen size w.journal).result = .ok a := by
        replace hrunning : (UploadJournal.reopen size w.journal).result.toBool = true := hrunning
        cases hopened : (UploadJournal.reopen size w.journal).result with
        | error e =>
          rw [hopened] at hrunning
          cases hrunning
        | ok a => exact ⟨a, rfl⟩
      obtain ⟨a, ha⟩ := hresult
      have hidle := ((reopen_path h.inv size _ rfl).2 a ha).2
      rw [hidle id op hop] at hflight
      cases hflight
    · intro id token hcurrent
      cases hcurrent
  | startDies size commits =>
    refine ⟨hinv, ?_, ?_, h.unique⟩
    · intro hrunning
      cases hrunning
    · intro id token hcurrent
      cases hcurrent

theorem sound_of_run {settings : Settings} {events : List Event}
    (h : Run Journal.step (Permitted ok) (World.create settings) events w) : w.Sound ok :=
  h.invariant (World.Sound ok) (.create settings) (fun _ _ hsound hpermitted => hsound.step hpermitted)

/-! ## Reports -/

/-- The operation and the token of a report. -/
def Op.report : Op → Option (Uuid × Uuid)
  | .recordSession id attempt _ _ => some (id, attempt)
  | .deferAttempt id attempt _ _ => some (id, attempt)
  | .acknowledge id attempt _ => some (id, attempt)
  | .recordPreparedMutation id attempt _ => some (id, attempt)
  | .acknowledgeMutation id attempt _ _ => some (id, attempt)
  | .deferMutation id attempt _ _ => some (id, attempt)
  | .deferMutationPreparation id attempt _ => some (id, attempt)
  | .retryUncommittedMutation id attempt => some (id, attempt)
  | _ => none

/-- The call fails and commits nothing. -/
def Refuses (x : Commits UploadJournal JournalError Reply) (j : UploadJournal) : Prop :=
  ∃ e, x j = ⟨.error e, []⟩

theorem Refuses.of_transaction {α : Type} {f : α → Reply} {j : UploadJournal}
    {tx : UploadJournal → Except JournalError (α × UploadJournal)}
    (h : ∀ a j', tx j ≠ .ok (a, j')) : Refuses (answer f (Commits.transaction tx)) j := by
  cases htx : tx j with
  | error e =>
    refine ⟨e, ?_⟩
    have hfail : Commits.transaction tx j = ⟨.error e, []⟩ := by
      unfold Commits.transaction
      rw [htx]
    have hbind : answer f (Commits.transaction tx) j = _ :=
      Commits.bind_of_error (congrArg Outcome.result hfail)
    rw [hbind, hfail]
  | ok answer => exact absurd htx (h answer.1 answer.2)

theorem Refuses.of_commit {f : PUnit → Reply} {j : UploadJournal}
    {tx : UploadJournal → Except JournalError UploadJournal} (h : ∀ j', tx j ≠ .ok j') :
    Refuses (answer f (Commits.commit tx)) j := by
  apply Refuses.of_transaction
  intro a j' htx
  cases hresult : tx j with
  | error e =>
    rw [hresult] at htx
    cases htx
  | ok j₁ => exact h j₁ hresult

/-- A report is accepted only with the token of the operation in flight. -/
theorem report_refused {j : UploadJournal} (hinv : Inv ok [] j) {env : Env} {op : Op}
    {id attempt : Uuid} (hreport : op.report = some (id, attempt))
    (hother : ∀ x, j.queue.find id = some x → x.inFlight = true → x.attempt ≠ some attempt) :
    Refuses (exec env op) j := by
  have hupload : ∀ r, j.activeAttempt id attempt ≠ .ok r := by
    intro r hr
    obtain ⟨hfind, rfl, hflight, hattempt⟩ := activeAttempt_eq_ok hinv hr
    exact hother _ hfind hflight hattempt
  have hmutation : ∀ r, j.mutationAttempt id attempt ≠ .ok r := by
    intro r hr
    obtain ⟨hfind, rfl, hflight, hattempt⟩ := mutationAttempt_eq_ok hinv hr
    exact hother _ hfind hflight hattempt
  cases op <;> cases hreport
  case recordSession =>
    apply Refuses.of_commit
    intro j' h
    obtain ⟨r, hr, _⟩ := bind_eq_ok h
    exact hupload r hr
  case deferAttempt =>
    apply Refuses.of_commit
    intro j' h
    obtain ⟨_, _, h⟩ := bind_eq_ok h
    obtain ⟨r, hr, _⟩ := bind_eq_ok h
    exact hupload r hr
  case acknowledge =>
    apply Refuses.of_commit
    intro j' h
    obtain ⟨r, hr, _⟩ := bind_eq_ok h
    exact hupload r hr
  case recordPreparedMutation =>
    apply Refuses.of_commit
    intro j' h
    obtain ⟨_, _, h⟩ := bind_eq_ok h
    obtain ⟨r, hr, _⟩ := bind_eq_ok h
    exact hmutation r hr
  case acknowledgeMutation =>
    apply Refuses.of_transaction
    intro a j' h
    obtain ⟨r, hr, _⟩ := bind_eq_ok h
    exact hmutation r hr
  case deferMutation =>
    apply Refuses.of_commit
    intro j' h
    obtain ⟨_, _, h⟩ := bind_eq_ok h
    obtain ⟨r, hr, _⟩ := bind_eq_ok h
    exact hmutation r hr
  case deferMutationPreparation =>
    apply Refuses.of_commit
    intro j' h
    obtain ⟨r, hr, _⟩ := bind_eq_ok h
    exact hmutation r hr
  case retryUncommittedMutation =>
    apply Refuses.of_commit
    intro j' h
    obtain ⟨r, hr, _⟩ := bind_eq_ok h
    exact hmutation r hr

/-! ## Completion -/

theorem Move.completed {start j j' : UploadJournal} {env : Env} {op : Op}
    (h : Move ok start env op j j') {p : Uuid} {x : Operation} (hx : j.queue.find p = some x)
    (hcomplete : x.isComplete = true) : j'.queue.find p = some x := by
  have hkept : ∀ {claimed : Uuid → Uuid → Prop} {gained : Uuid → Resource → Prop},
      j.queue.Evolves claimed gained j'.queue → j'.queue.find p = some x := by
    intro claimed gained hevolves
    obtain ⟨x', hx', hcont⟩ := hevolves.kept p x hx
    rw [hcont.frozen hcomplete] at hx'
    exact hx'
  cases h with
  | quiet _ h => exact hkept h.evolves
  | bind _ _ h => exact hkept (@Binds.reaches _ _ _ _ _ h.2 (fun _ _ => False)).evolves
  | claim _ _ _ _ h => exact hkept h.evolves
  | discard _ _ _ h _ _ =>
    rw [h.find_of_ne]
    · exact hx
    · -- Only what is not complete is taken back.
      rintro rfl
      obtain ⟨removal, hremoval, _, hincomplete, _⟩ := h.removal
      rw [hremoval] at hx
      cases hx
      rw [hincomplete] at hcomplete
      cases hcomplete

/-- A complete operation is what it was, for ever. -/
theorem step_completed {e : Event} (hpermitted : Permitted ok w e) (hinv : Inv ok [] w.journal)
    {p : Uuid} {x : Operation} (hx : w.journal.queue.find p = some x)
    (hcomplete : x.isComplete = true) : (step w e).journal.queue.find p = some x := by
  refine step_invariant (K := fun j => j.queue.find p = some x) hpermitted hinv hx ?_ ?_
  · intro env op j j' _ _ hmove hj
    exact hmove.completed hj hcomplete
  · intro j hopening
    obtain ⟨x', hx', hcont⟩ := hopening.evolves.kept p x hx
    rw [hcont.frozen hcomplete] at hx'
    exact hx'

/-! ## The fence -/

/-- The journal accepts the result of the latest claim and of no other. -/
structure Fenced (w : World) : Prop where
  attempt : ∀ id op, w.journal.queue.find id = some op →
    (op.attempt.isSome = true ↔ op.inFlight = true)
  uploads : ∀ id row, w.journal.queue.uploads.get id = some row → row.state = row.body.state
  mutations : ∀ id row, w.journal.queue.mutations.get id = some row → row.state = row.body.state
  complete : ∀ id, w.journal.queue.writeQueue.get id =
    (w.journal.queue.find id).map (fun op => ⟨op.sequence, op.isComplete⟩)
  settled : ∀ e, Permitted (fun _ => True) w e → ∀ id row,
    w.journal.queue.writeQueue.get id = some row → row.complete = true →
    (step w e).journal.queue.writeQueue.get id = some row
  live : w.running = true → ∀ a b x y, w.journal.queue.find a = some x →
    w.journal.queue.find b = some y → x.inFlight = true → x.attempt = y.attempt → a = b
  report : w.running = true → ∀ env op id attempt, op.report = some (id, attempt) →
    w.current id ≠ some attempt → Refuses (exec env op) w.journal

/-- Attempts are fenced after every run. -/
theorem fenced_of_run {settings : Settings} {events : List Event}
    (h : Run step (Permitted (fun _ => True)) (World.create settings) events w) : Fenced w := by
  have hsound := sound_of_run h
  have hinv := hsound.inv
  have ht := hinv.tidy
  refine ⟨fun id op hop => hinv.queue.attempt hop, ?_, ?_, ht.queue, ?_, ?_, ?_⟩
  · intro id row hrow
    exact congrArg UploadRow.state (ht.upload hrow).1
  · intro id row hrow
    exact congrArg MutationRow.state (ht.mutation hrow).1
  · intro e hpermitted id row hrow hcomplete
    rw [ht.queue] at hrow
    obtain ⟨op, hop, rfl⟩ := Option.map_eq_some_iff.mp hrow
    rw [(step_inv hpermitted hinv).tidy.queue, step_completed hpermitted hinv hop hcomplete]
    rfl
  · intro hrunning a b x y hx hy hflight heq
    have hsome := (hinv.queue.attempt hx).mpr hflight
    obtain ⟨token, htoken⟩ := Option.isSome_iff_exists.mp hsome
    have hyflight : y.inFlight = true := (hinv.queue.attempt hy).mp (by rw [← heq]; exact hsome)
    have ha := hsound.current hrunning a x hx hflight
    have hb := hsound.current hrunning b y hy hyflight
    refine hsound.unique a b token (hsound.issued a token ?_) (hsound.issued b token ?_)
    · rw [← ha]
      exact htoken
    · rw [← hb, ← heq]
      exact htoken
  · intro hrunning env op id attempt hreport hother
    refine report_refused hinv hreport ?_
    intro x hx hflight hattempt
    refine hother ?_
    rw [← hsound.current hrunning id x hx hflight]
    exact hattempt

/-- An upload is queued, claimed, put off and claimed again. -/
def twiceClaimed : List Op :=
  [.enqueue sampleDrive (.create "root" "notes"), .claimNext,
    .deferAttempt ⟨1⟩ ⟨11⟩ .verifyRequired 0, .claimNextVerification]

theorem fenced_twiceClaimed :
    (scriptWorld .sample twiceClaimed).current ⟨1⟩ = some ⟨31⟩ ∧
      Fenced (scriptWorld .sample twiceClaimed) := by
  refine ⟨by decide +kernel, fenced_of_run (run_of_script ?_ (fun _ _ _ _ => trivial))⟩
  decide +kernel

end Cirrove.Journal
