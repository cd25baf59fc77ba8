import Cirrove.Journal.Histories

/-!
# Dependent writes

An operation that continues another one is sent against the receipt of that one. `Grounded` says so
of every operation that was bound, and of every operation a call hands out: no placeholder and no
name that only this computer knows leaves it.
-/

namespace Cirrove.Journal

open Cirrove.Library

variable {ok : String → Prop} {w : World}

/-- A cloud never gives an item or a version a text that this journal writes in the place of one. -/
def Genuine (tag : String) : Prop := tag ≠ pendingReceipt ∧ ∀ id, tag ≠ localDirectory id

/-- The operation names nothing that the cloud does not know. -/
structure Addressed (j : UploadJournal) (op : Operation) : Prop where
  upload : ∀ r item etag, op = .upload r → r.intent = .replace item etag →
    item ≠ pendingReceipt ∧ etag ≠ pendingReceipt
  mutation : ∀ r before, op = .mutation r → r.request.intent.before = some before →
    before.id ≠ pendingReceipt ∧ before.etag ≠ some pendingReceipt
  destination : ∀ f row, j.names.objects.get f = some row → row.body.Unconfirmed →
    row.body.scope = op.scope → op.destination ≠ some (localDirectory f)

/-- Every dependent write is bound to the receipt of its predecessor. -/
structure Grounded (w : World) : Prop where
  base : ∀ id op b, w.journal.queue.find id = some op → op.base = some b → b.resolved = true →
    ∃ p n, w.journal.queue.find b.predecessor = some p ∧ p.isComplete = true ∧
      p.scope = op.scope ∧ p.sequence < op.sequence ∧ p.confirmedNode = some n ∧ op.carries n
  alone : ∀ x y a b bx yb, w.journal.queue.find x = some a → w.journal.queue.find y = some b →
    a.base = some bx → b.base = some yb → bx.predecessor = yb.predecessor → x = y
  sent : ∀ env op x, Permitted Genuine w (.call env op) →
    handedOut (exec env op w.journal).result = some x →
    Addressed (step w (.call env op)).journal x

/-- What can be claimed is addressed to the cloud. -/
theorem Claimable.addressed {j : UploadJournal} {op : Operation} (h : Claimable j.queue op)
    (hinv : Inv Genuine [] j) : Addressed j op := by
  have hwell := hinv.queue.wellFormed h.stored
  refine ⟨?_, ?_, ?_⟩
  · rintro r item etag rfl hintent
    obtain ⟨hitem, hetag⟩ := UploadRecord.WellFormed.source hwell h.bound item etag hintent
    exact ⟨hitem.1, hetag.1⟩
  · rintro r before rfl hbefore
    have htags := MutationRecord.WellFormed.source hwell h.bound before hbefore
    refine ⟨(htags before.id (by simp [nodeTags])).1, ?_⟩
    intro hetag
    exact (htags pendingReceipt (by simp [nodeTags, hetag])).1 rfl
  · intro f row hrow hunconfirmed hscope hdestination
    rcases hinv.parents h.stored hdestination with ⟨d, hd, hunresolved⟩ | hgenuine | hother
    · -- A destination that is not resolved holds the operation back.
      have hready := h.destination
      simp [Queue.destinationReady, hd, hunresolved] at hready
    · exact hgenuine.2 f rfl
    · exact hother f row hrow hunconfirmed hscope rfl

/-- Dependent writes are grounded after every run. -/
theorem grounded_of_run {settings : Settings} {events : List Event}
    (h : Run step (Permitted Genuine) (World.create settings) events w) : Grounded w := by
  have hinv := inv_of_run h
  refine ⟨?_, ?_, ?_⟩
  · intro id op b hop hb hresolved
    obtain ⟨_, p, hp, hearlier, _, hfollows⟩ := hinv.queue.lineage hop hb
    obtain ⟨hscope, n, hn, hcarries⟩ := hfollows hresolved
    exact ⟨p, n, hp, Operation.isComplete_of_confirmedNode hn, hscope, hearlier, hn, hcarries⟩
  · intro x y a b bx yb hx hy hbx hyb heq
    have hleft := (hinv.queue.lineage hx hbx).1
    have hright := (hinv.queue.lineage hy hyb).1
    rw [heq, hright] at hleft
    exact (Option.some.inj hleft).symm
  · intro env op x hpermitted hx
    have hhanded := (answered_of_call hpermitted hinv x hx).1
    exact hhanded.claimable.addressed (step_inv hpermitted hinv)

/-- The second version of a file is queued behind the first, and sent when that is confirmed. -/
def savedTwice : List Op :=
  [.enqueue sampleDrive (.create "root" "notes"), .enqueueAfterAll ⟨1⟩ [], .claimNext,
    .acknowledge ⟨1⟩ ⟨21⟩ (sampleFile "item" "root" "notes")]

theorem grounded_savedTwice :
    (handedOut (exec (.numbered 41) .claimNext (scriptWorld .sample savedTwice).journal).result).map
        Operation.id = some ⟨11⟩ ∧
      Grounded (scriptWorld .sample savedTwice) := by
  refine ⟨by decide +kernel, grounded_of_run (run_of_script (by decide +kernel) ?_)⟩
  intro op hop tag htag
  have hall : (savedTwice.flatMap Op.tags).all (fun tag => foreign tag && tag ≠ pendingReceipt) =
      true := by decide +kernel
  have htag := List.all_eq_true.mp hall tag (List.mem_flatMap.mpr ⟨op, hop, htag⟩)
  simp only [Bool.and_eq_true, decide_eq_true_eq] at htag
  exact ⟨htag.2, foreign.ne htag.1⟩

end Cirrove.Journal
