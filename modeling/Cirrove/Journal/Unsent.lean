import Cirrove.Journal.Reopening
import Cirrove.Library.Query

/-!
# What was not sent

`UploadJournal::list` and the count of `unsent_uploads` (`cirrove-service/src/accounts.rs`), beside
what it stands for: every upload and every change complete and no working file with edits that were
not sealed. `list` gives a thousand rows whatever is asked for, so the two part company
(`unsent_eq_zero_iff`).

Opening a journal changes neither (`Seen`, `reopen_seen`).
-/

namespace Cirrove.Journal

open Cirrove.Library

/-! ## The list and the count -/

/-- `UploadJournal::list` -/
def UploadJournal.list (j : UploadJournal) (after limit : Nat) : List UploadRecord :=
  if 2 ^ 63 ≤ after then []
  else ((orderBy UploadRow.sequence (j.queue.uploads.select fun _ row =>
    if after < row.sequence then some row else none)).take (max 1 (min limit 1000))).map
      UploadRow.body

/-- The states the count passes over. -/
def UploadState.passed : UploadState → Bool
  | .uploaded => true
  | .failed => true
  | _ => false

/-- The count of `unsent_uploads`. -/
def UploadJournal.unsent (j : UploadJournal) : Nat :=
  ((j.list 0 10000).filter fun r => !r.state.passed).length

/-- Nothing in the journal is left to send. -/
structure UploadJournal.Sent (j : UploadJournal) : Prop where
  uploads : ∀ id row, j.queue.uploads.get id = some row → row.body.state.isComplete = true
  mutations : ∀ id row, j.queue.mutations.get id = some row → row.body.state.isComplete = true
  files : ∀ id row, j.workingFiles.get id = some row → row.body.dirty = false

theorem UploadJournal.unsent_eq_zero (j : UploadJournal) :
    j.unsent = 0 ↔ ∀ r ∈ j.list 0 10000, r.state.passed = true := by
  simp [UploadJournal.unsent]

theorem UploadJournal.mem_list {j : UploadJournal} {after limit : Nat} {r : UploadRecord}
    (h : r ∈ j.list after limit) : ∃ id row, j.queue.uploads.get id = some row ∧ row.body = r := by
  unfold UploadJournal.list at h
  split at h
  · cases h
  · obtain ⟨row, hrow, rfl⟩ := List.mem_map.mp h
    obtain ⟨id, stored, hget, hsome⟩ :=
      (Table.mem_select _ _ _).mp (mem_orderBy.mp (List.mem_of_mem_take hrow))
    split at hsome
    · cases hsome
      exact ⟨id, row, hget, rfl⟩
    · cases hsome

/-- The first thousand uploads tell what is left to send: none of them was resolved when nothing
is, and one of them has yet to arrive when something is. -/
def UploadJournal.Telling (j : UploadJournal) : Prop :=
  (j.Sent → ∀ r ∈ j.list 0 10000, r.state ≠ .resolved) ∧
    (¬ j.Sent → ∃ r ∈ j.list 0 10000, r.state ≠ .uploaded ∧ r.state ≠ .failed)

/-- The count is zero exactly when nothing is left to send, if and only if the first thousand
uploads tell. -/
theorem UploadJournal.unsent_eq_zero_iff (j : UploadJournal) :
    (j.unsent = 0 ↔ j.Sent) ↔ j.Telling := by
  have hpassed : ∀ s : UploadState, s.passed = false ↔ s ≠ .uploaded ∧ s ≠ .failed := by
    intro s
    cases s <;> simp [UploadState.passed]
  rw [j.unsent_eq_zero]
  unfold Telling
  by_cases hsent : j.Sent
  · simp only [hsent, iff_true, true_implies, not_true, false_implies, and_true]
    have hcomplete : ∀ r ∈ j.list 0 10000, r.state.passed = true ↔ r.state ≠ .resolved := by
      intro r hr
      obtain ⟨id, row, hget, rfl⟩ := mem_list hr
      have hdone := hsent.uploads id row hget
      cases hstate : row.body.state <;>
        simp_all [UploadState.passed, UploadState.isComplete]
    exact forall₂_congr hcomplete
  · simp only [hsent, iff_false, false_implies, not_false_eq_true, true_implies, true_and]
    simp only [not_forall, Bool.not_eq_true, hpassed, exists_prop]

/-! ## What opening leaves alone -/

/-- The states an upload ends in; all others look alike here. -/
def UploadState.ended : UploadState → Option UploadState
  | .uploaded => some .uploaded
  | .resolved => some .resolved
  | .failed => some .failed
  | _ => none

/-- Two journals that list the same uploads in the same end states, hold the same complete changes
and the same unsealed edits. -/
structure Seen (start j : UploadJournal) : Prop where
  uploads : ∀ id, (j.queue.uploads.get id).map (fun row => (row.sequence, row.body.state.ended)) =
    (start.queue.uploads.get id).map fun row => (row.sequence, row.body.state.ended)
  mutations : ∀ id, (j.queue.mutations.get id).map (fun row => row.body.state.isComplete) =
    (start.queue.mutations.get id).map fun row => row.body.state.isComplete
  files : ∀ id, (j.workingFiles.get id).map (fun row => row.body.dirty) =
    (start.workingFiles.get id).map fun row => row.body.dirty

section

variable {ok : String → Prop} {start j j' : UploadJournal}

theorem Seen.refl (j : UploadJournal) : Seen j j := ⟨fun _ => rfl, fun _ => rfl, fun _ => rfl⟩

theorem Seen.trans (h : Seen start j) (h' : Seen j j') : Seen start j' :=
  ⟨fun id => (h'.uploads id).trans (h.uploads id),
    fun id => (h'.mutations id).trans (h.mutations id),
    fun id => (h'.files id).trans (h.files id)⟩

theorem UploadState.ended_of_inFlight {s : UploadState} (h : s.inFlight = true) :
    s.ended = UploadState.verifyRequired.ended := by
  cases s <;> simp_all [UploadState.inFlight, UploadState.ended]

theorem recoverMutations_seen (hinv : Inv ok [] j) : Seen j j.recoverMutations where
  uploads _ := rfl
  files _ := rfl
  mutations id := by
    show (((j.queue.mutations.mapRows _).get id).map fun row => row.body.state.isComplete) = _
    rw [Table.get_mapRows, Option.map_map]
    cases hget : j.queue.mutations.get id with
    | none => rfl
    | some row =>
      have hstate : row.state = row.body.state := by
        rw [(hinv.tidy.mutation hget).1]
      simp only [Option.map_some, Function.comp, Option.some.injEq]
      split
      · rename_i hflight
        rw [hstate] at hflight
        cases hbody : row.body.state <;> simp_all [MutationState.inFlight, MutationState.isComplete]
      · rfl

theorem recoverPreparations_seen (j : UploadJournal) : Seen j j.recoverPreparations where
  mutations _ := rfl
  files _ := rfl
  uploads id := by
    show (((j.queue.uploads.mapRows _).get id).map fun row =>
      (row.sequence, row.body.state.ended)) = _
    rw [Table.get_mapRows, Option.map_map]
    apply congrArg (fun f => (j.queue.uploads.get id).map f)
    funext row
    simp only [Function.comp]
    split <;> rfl

theorem recoverUploads_seen (hinv : Inv ok [] j) : Seen j j.recoverUploads where
  mutations _ := rfl
  files _ := rfl
  uploads id := by
    show (((j.queue.uploads.mapRows _).get id).map fun row =>
      (row.sequence, row.body.state.ended)) = _
    rw [Table.get_mapRows, Option.map_map]
    cases hget : j.queue.uploads.get id with
    | none => rfl
    | some row =>
      have hstate : row.state = row.body.state := by
        rw [(hinv.tidy.upload hget).1]
      simp only [Option.map_some, Function.comp, Option.some.injEq]
      split
      · rename_i hflight
        rw [hstate] at hflight
        rw [UploadState.ended_of_inFlight hflight]
      · rfl

/-- A torn write leaves a file as unsealed as it was. -/
theorem recoverFile_seen (hinv : Inv ok [] j) {id : Uuid} {size : Nat}
    (h : j.recoverFile id size = .ok j') : Seen j j' := by
  unfold UploadJournal.recoverFile at h
  obtain ⟨w, hw, h⟩ := bind_eq_ok h
  obtain ⟨row, hrow, rfl⟩ := workingFile_eq_ok hw
  split at h
  · cases h
    exact .refl j
  · obtain ⟨_, _, h⟩ := bind_eq_ok h
    have hkey : row.body.id = id := (hinv.files hrow).key
    unfold UploadJournal.saveWorking at h
    obtain ⟨slot, _, h⟩ := bind_eq_ok h
    obtain ⟨j₁, hwrite, h⟩ := bind_eq_ok h
    obtain ⟨names, _, h⟩ := bind_eq_ok h
    cases h
    unfold UploadJournal.writeWorkingRow at hwrite
    rw [show ({ row.body with node := { row.body.node with size := size } } : WorkingFile).id = id
      from hkey, hrow] at hwrite
    obtain ⟨_, _, hwrite⟩ := bind_eq_ok hwrite
    cases hwrite
    refine ⟨fun _ => rfl, fun _ => rfl, ?_⟩
    intro other
    show ((j.workingFiles.set id _).get other).map _ = _
    by_cases hother : other = id
    · subst hother
      rw [Table.get_set_self, hrow]
      rfl
    · rw [Table.get_set_of_ne _ _ hother]

theorem releaseUnlinkedReaders_seen (hinv : Inv ok [] j) {id : Uuid}
    (h : j.releaseUnlinkedReaders id = .ok j') : Seen j j' := by
  unfold UploadJournal.releaseUnlinkedReaders at h
  obtain ⟨r, hr, h⟩ := bind_eq_ok h
  split at h
  · cases h
    exact .refl j
  · cases howner : j.names.forOperation id with
    | none =>
      simp only [howner] at h
      cases h
    | some o =>
      simp only [howner] at h
      obtain ⟨_, hcheck, h⟩ := bind_eq_ok h
      rw [check_eq_ok] at hcheck
      simp only [Bool.and_eq_true, Bool.or_eq_true, decide_eq_true_eq] at hcheck
      have hstate : r.state ≠ .applied := by
        rcases hcheck.1.2 with hstate | hstate <;> simp [hstate]
      obtain ⟨hfind, hid⟩ := mutation_eq_ok hinv hr
      unfold UploadJournal.saveMutation at h
      obtain ⟨q₁, hupdate, h⟩ := bind_eq_ok h
      obtain ⟨q₂, hcomplete, h⟩ := bind_eq_ok h
      have hqueue : j' = { j with queue := q₂ } := by
        split at h
        · next hs _ => exact absurd hs hstate
        · cases h
          rfl
      -- the body of one change is rewritten, its state as it was
      have hrow : ∃ row, j.queue.mutations.get r.id = some row ∧ row.body = r := by
        unfold Queue.mutation at hr
        split at hr
        · next row hrow =>
          cases hr
          exact ⟨row, hid ▸ hrow, rfl⟩
        · cases hr
      obtain ⟨row, hget, hbody⟩ := hrow
      unfold Queue.updateMutation at hupdate
      rw [show ({ r with localReady := true } : MutationRecord).id = r.id from rfl, hget] at hupdate
      cases hupdate
      unfold Queue.queueComplete at hcomplete
      split at hcomplete
      · cases hcomplete
      · cases hcomplete
        subst hqueue
        refine ⟨fun _ => rfl, ?_, fun _ => rfl⟩
        intro other
        show ((j.queue.mutations.set r.id _).get other).map _ = _
        by_cases hother : other = r.id
        · subst hother
          rw [Table.get_set_self, hget, ← hbody]
          rfl
        · rw [Table.get_set_of_ne _ _ hother]

theorem recoverReader_seen {id : Uuid} (h : j.recoverReader id = .ok j') : Seen j j' := by
  have hqueue : j'.queue = j.queue ∧ j'.workingFiles = j.workingFiles := by
    unfold UploadJournal.recoverReader at h
    split at h
    · cases h
    · obtain ⟨_, _, h⟩ := bind_eq_ok h
      obtain ⟨_, _, h⟩ := bind_eq_ok h
      split at h
      · cases h
        exact ⟨rfl, rfl⟩
      · unfold UploadJournal.releaseReplacementReaders at h
        split at h
        · cases h
        · split at h
          · cases h
            exact ⟨rfl, rfl⟩
          · obtain ⟨_, _, h⟩ := bind_eq_ok h
            obtain ⟨_, _, h⟩ := bind_eq_ok h
            obtain ⟨_, _, h⟩ := bind_eq_ok h
            obtain ⟨_, _, h⟩ := bind_eq_ok h
            obtain ⟨_, _, h⟩ := bind_eq_ok h
            cases h
            exact ⟨rfl, rfl⟩
  exact ⟨fun id => by rw [hqueue.1], fun id => by rw [hqueue.1], fun id => by rw [hqueue.2]⟩

/-- Every state an opening commits lists, holds and keeps what the journal did before. -/
theorem reopen_seen (hstart : Inv ok [] start) (size : Uuid → Nat) :
    Commits.Triple (fun j => j = start) (UploadJournal.reopen size) (Seen start)
      (fun _ => Seen start) := by
  have hstep : ∀ {tx : UploadJournal → Except JournalError UploadJournal},
      (∀ j j', Inv ok [] j → tx j = .ok j' → Seen j j' ∧ Opening ok j j') →
      Commits.Triple (fun j => Seen start j ∧ Inv ok [] j) (Commits.commit tx) (Seen start)
        (fun _ j => Seen start j ∧ Inv ok [] j) := by
    intro tx htx
    apply Commits.triple_commit
    rintro j ⟨hseen, hinv⟩ j' h
    obtain ⟨hnext, hopening⟩ := htx j j' hinv h
    exact ⟨hseen.trans hnext, hseen.trans hnext, hopening.inv⟩
  refine Commits.triple_consequence (P := fun j => Seen start j ∧ Inv ok [] j) (I := Seen start)
    (Q := fun _ j => Seen start j ∧ Inv ok [] j) ?_ ?_ (fun _ h => h) (fun _ _ h => h.1)
  · unfold UploadJournal.reopen
    apply Commits.triple_bind
    · apply hstep
      rintro j _ hinv ⟨⟩
      exact ⟨recoverMutations_seen hinv, (recoverMutations_recovered hinv).leads hinv⟩
    intro _
    apply Commits.triple_bind
    · apply hstep
      rintro j _ hinv ⟨⟩
      exact ⟨recoverPreparations_seen j, (recoverPreparations_find hinv).leads hinv⟩
    intro _
    apply Commits.triple_bind
    · apply hstep
      rintro j _ hinv ⟨⟩
      exact ⟨⟨fun _ => rfl, fun _ => rfl, fun _ => rfl⟩,
        .of_inv (closeReaders_inv hinv) rfl rfl (.of_same rfl rfl rfl)⟩
    intro _
    apply Commits.triple_bind
    · apply hstep
      rintro j _ hinv ⟨⟩
      exact ⟨recoverUploads_seen hinv, (recoverUploads_recovered hinv).leads hinv⟩
    intro _
    apply Commits.triple_bind
    · exact Commits.triple_read (fun _ h _ _ => h)
    intro files
    apply Commits.triple_bind
    · apply Commits.triple_forEach files
      intro id _
      exact hstep fun j j' hinv h => ⟨recoverFile_seen hinv h, recoverFile_leads hinv h⟩
    intro _
    apply Commits.triple_bind
    · exact Commits.triple_read (fun _ h _ _ => h)
    intro unlinked
    apply Commits.triple_bind
    · apply Commits.triple_forEach unlinked
      intro id _
      exact hstep fun j j' hinv h =>
        ⟨releaseUnlinkedReaders_seen hinv h, releaseUnlinkedReaders_leads hinv h⟩
    intro _
    apply Commits.triple_bind
    · exact Commits.triple_read (fun _ h _ _ => h)
    intro replaced
    apply Commits.triple_forEach replaced
    intro id _
    exact hstep fun j j' hinv h => ⟨recoverReader_seen h, recoverReader_leads hinv h⟩
  · rintro j rfl
    exact ⟨.refl j, hstart⟩

/-! ## Journals that look alike -/

/-- Two lists of rows with the same columns and one row for each key are one list once sorted. -/
theorem orderBy_map_eq {α β : Type*} {key : α → Nat} {f : α → Nat × β} {rows rows' : List α}
    (hkey : ∀ a, (f a).1 = key a) (hnodup : (rows.map key).Nodup)
    (hperm : (rows.map f).Perm (rows'.map f)) :
    (orderBy key rows).map f = (orderBy key rows').map f := by
  have hsorted : ∀ rows : List α, ((orderBy key rows).map f).Pairwise (fun x y => x.1 ≤ y.1) := by
    intro rows
    rw [List.pairwise_map]
    simpa only [hkey] using orderBy_pairwise key rows
  have hperm' : ((orderBy key rows).map f).Perm ((orderBy key rows').map f) :=
    (((orderBy_perm key rows).map f).trans hperm).trans ((orderBy_perm key rows').map f).symm
  have hfirst : (((orderBy key rows).map f).map Prod.fst).Nodup := by
    rw [List.map_map]
    have heq : Prod.fst ∘ f = key := funext hkey
    rw [heq]
    exact (((orderBy_perm key rows).map key).nodup_iff).mpr hnodup
  refine List.Perm.eq_of_pairwise ?_ (hsorted rows) (hsorted rows') hperm'
  intro x y hx hy hxy hyx
  exact List.inj_on_of_nodup_map hfirst hx (hperm'.mem_iff.mpr hy) (Nat.le_antisymm hxy hyx)

theorem select_sequence_nodup (hinv : Inv ok [] j) (after : Nat) :
    ((j.queue.uploads.select fun _ row => if after < row.sequence then some row else none).map
      UploadRow.sequence).Nodup := by
  have hkeys := j.queue.uploads.rows_keys_nodup
  unfold List.Nodup at hkeys ⊢
  rw [List.pairwise_map] at hkeys ⊢
  unfold Table.select
  rw [List.pairwise_filterMap]
  apply hkeys.imp_of_mem
  intro x y hx hy hne a ha b hb heq
  have hrow : ∀ {z : Uuid × UploadRow} {c : UploadRow}, z ∈ j.queue.uploads.rows →
      (if after < z.2.sequence then some z.2 else none) = some c →
      j.queue.find z.1 = some (.upload z.2.body) ∧ c.sequence = z.2.body.sequence := by
    intro z c hz hc
    have hget := (Table.mem_rows _ _ _).mp hz
    split at hc
    · cases hc
      exact ⟨Queue.find_of_upload hget, by rw [(hinv.tidy.upload hget).1]⟩
    · cases hc
  obtain ⟨hfindx, hseqx⟩ := hrow hx ha
  obtain ⟨hfindy, hseqy⟩ := hrow hy hb
  exact hne (hinv.queue.unique hfindx hfindy (hseqx.symm.trans (heq.trans hseqy)))

/-- Journals that look alike list uploads in the same end states. -/
theorem Seen.list_ended (h : Seen start j) (hstart : Inv ok [] start) (after limit : Nat) :
    (j.list after limit).map (fun r => r.state.ended) =
      (start.list after limit).map fun r => r.state.ended := by
  have hselect : ∀ j : UploadJournal,
      ((j.queue.uploads.select fun _ row => if after < row.sequence then some row else none).map
        fun row => (row.sequence, row.body.state.ended)) =
      ((j.queue.uploads.rows.map fun row => (row.1, row.2.sequence, row.2.body.state.ended)).filterMap
        fun x => if after < x.2.1 then some x.2 else none) := by
    intro j
    rw [Table.select, List.map_filterMap, List.filterMap_map]
    congr 1
    funext row
    simp only [Function.comp]
    split <;> rfl
  have hperm := (Table.rows_map_perm h.uploads).symm.filterMap fun x => if after < x.2.1 then some x.2 else none
  rw [← hselect, ← hselect] at hperm
  have hsorted := @orderBy_map_eq _ _ UploadRow.sequence _ _ _ (fun _ => rfl)
    (select_sequence_nodup hstart after) hperm
  unfold UploadJournal.list
  split
  · rfl
  · rw [List.map_map, List.map_map]
    have hended : (fun r : UploadRecord => r.state.ended) ∘ UploadRow.body =
        Prod.snd ∘ fun row : UploadRow => (row.sequence, row.body.state.ended) := rfl
    rw [hended, ← List.map_map, ← List.map_map]
    simp only [List.map_take, hsorted]

theorem UploadState.isComplete_iff_ended (s : UploadState) :
    s.isComplete = true ↔ s.ended = some .uploaded ∨ s.ended = some .resolved := by
  cases s <;> simp [UploadState.isComplete, UploadState.ended]

/-- A property of a column holds of all rows of tables with the same column, or of neither. -/
theorem forall_rows_iff {K V W : Type*} [DecidableEq K] {t t' : Table K V} {f : V → W}
    (h : ∀ k, (t'.get k).map f = (t.get k).map f) (p : W → Prop) :
    (∀ k v, t'.get k = some v → p (f v)) ↔ ∀ k v, t.get k = some v → p (f v) := by
  have hcolumn : ∀ t : Table K V, (∀ k v, t.get k = some v → p (f v)) ↔
      ∀ k w, (t.get k).map f = some w → p w := by
    intro t
    constructor
    · intro hall k w hw
      obtain ⟨v, hv, rfl⟩ := Option.map_eq_some_iff.mp hw
      exact hall k v hv
    · intro hall k v hv
      exact hall k (f v) (by rw [hv]; rfl)
  rw [hcolumn, hcolumn]
  simp only [h]

theorem Seen.sent_iff (h : Seen start j) : j.Sent ↔ start.Sent := by
  have huploads := forall_rows_iff h.uploads fun x => x.2 = some .uploaded ∨ x.2 = some .resolved
  have hmutations := forall_rows_iff h.mutations fun complete => complete = true
  have hfiles := forall_rows_iff h.files fun dirty => dirty = false
  have hparts : ∀ j : UploadJournal, j.Sent ↔
      (∀ id row, j.queue.uploads.get id = some row →
        row.body.state.ended = some .uploaded ∨ row.body.state.ended = some .resolved) ∧
      (∀ id row, j.queue.mutations.get id = some row → row.body.state.isComplete = true) ∧
      ∀ id row, j.workingFiles.get id = some row → row.body.dirty = false := by
    intro j
    simp only [← UploadState.isComplete_iff_ended]
    exact ⟨fun h => ⟨h.uploads, h.mutations, h.files⟩, fun h => ⟨h.1, h.2.1, h.2.2⟩⟩
  rw [hparts, hparts]
  exact and_congr huploads (and_congr hmutations hfiles)

theorem Seen.telling_iff (h : Seen start j) (hstart : Inv ok [] start) :
    j.Telling ↔ start.Telling := by
  have hlists := h.list_ended hstart 0 10000
  have hparts : ∀ j : UploadJournal, j.Telling ↔
      (j.Sent → ∀ e ∈ (j.list 0 10000).map (fun r => r.state.ended), e ≠ some .resolved) ∧
      (¬ j.Sent → ∃ e ∈ (j.list 0 10000).map (fun r => r.state.ended),
        e ≠ some .uploaded ∧ e ≠ some .failed) := by
    intro j
    have hresolved : ∀ s : UploadState, s ≠ .resolved ↔ s.ended ≠ some .resolved := by
      intro s
      cases s <;> simp [UploadState.ended]
    have hwaiting : ∀ s : UploadState, (s ≠ .uploaded ∧ s ≠ .failed) ↔
        (s.ended ≠ some .uploaded ∧ s.ended ≠ some .failed) := by
      intro s
      cases s <;> simp [UploadState.ended]
    simp only [UploadJournal.Telling, hresolved, hwaiting, List.mem_map,
      exists_exists_and_eq_and, forall_exists_index, and_imp, forall_apply_eq_imp_iff₂]
  rw [hparts, hparts, hlists, h.sent_iff]

end

end Cirrove.Journal
