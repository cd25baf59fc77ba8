import Cirrove.Journal.Evolution
import Cirrove.Journal.Machine

/-!
# What was tried stays tried

A claim hands out an operation that waits in `pending` as one that may be sent at once, and one in
`verify_required` as one to look for first. `Retains` says that no operation is put back to where
it would be sent at once, and that a change keeps the identity that was reserved for it; `apart` are
the new operations, of which nothing is said, those that may be put back, and those for which an
identity may be reserved.

It is a statement about rows alone, so that it holds of every function by what the function stores:
in the middle of a transaction as well, whatever else is true there.
-/

namespace Cirrove.Journal

open Cirrove.Library

/-- What is not said of every operation. -/
structure Apart where
  /-- Nothing is said of these. -/
  new : Uuid → Prop
  /-- These uploads may be put back. -/
  upload : Uuid → Prop
  /-- These changes may be put back. -/
  change : Uuid → Prop
  /-- For these changes an identity may be reserved. -/
  prepare : Uuid → Prop

/-- It is said of every operation. -/
def Apart.none : Apart := ⟨fun _ => False, fun _ => False, fun _ => False, fun _ => False⟩

/-! ## Rows -/

/-- The upload is sent at once when it is claimed. -/
def UploadRecord.untried (r : UploadRecord) : Prop := r.state = .pending ∨ r.state = .preparing

/-- The change makes a folder. -/
def MutationRecord.makesFolder (r : MutationRecord) : Prop :=
  ∃ parent name, r.request.intent = .createFolder parent name

/-- A later version of an upload, which may have been put `back`. -/
def UploadRecord.After (old : UploadRecord) (back : Prop) (new : UploadRecord) : Prop :=
  new.untried → back ∨ old.untried

/-- A later version of a change, which may have been put `back`, or for which an identity was
    reserved where it may have been. -/
structure MutationRecord.After (old : MutationRecord) (back reserve : Prop) (new : MutationRecord) :
    Prop where
  untried : new.state = .pending → back ∨ old.state = .pending
  folder : new.makesFolder → old.makesFolder
  prepared : new.preparedItem = old.preparedItem ∨ (reserve ∧ old.preparedItem = none)

theorem UploadRecord.After.refl (r : UploadRecord) (back : Prop) : r.After back r := .inr

theorem UploadRecord.After.trans {a b c : UploadRecord} {back : Prop} (hab : a.After back b)
    (hbc : b.After back c) : a.After back c := fun h => (hbc h).elim .inl hab

theorem UploadRecord.After.mono {a b : UploadRecord} {back back' : Prop} (h : a.After back b)
    (hback : back → back') : a.After back' b := fun hb => (h hb).imp_left hback

theorem MutationRecord.After.refl (r : MutationRecord) (back reserve : Prop) :
    r.After back reserve r := ⟨.inr, fun h => h, .inl rfl⟩

theorem MutationRecord.After.trans {a b c : MutationRecord} {back reserve : Prop}
    (hab : a.After back reserve b) (hbc : b.After back reserve c) : a.After back reserve c where
  untried h := (hbc.untried h).elim .inl hab.untried
  folder h := hab.folder (hbc.folder h)
  prepared := by
    rcases hab.prepared with hsame | hreserved
    · rw [← hsame]
      exact hbc.prepared
    · exact .inr hreserved

theorem MutationRecord.After.mono {a b : MutationRecord} {back back' reserve reserve' : Prop}
    (h : a.After back reserve b) (hback : back → back') (hreserve : reserve → reserve') :
    a.After back' reserve' b :=
  { h with
    untried := fun hb => (h.untried hb).imp_left hback
    prepared := h.prepared.imp_right fun hr => ⟨hreserve hr.1, hr.2⟩ }

/-- A reserved identity is kept. -/
theorem MutationRecord.After.keeps {old new : MutationRecord} {back reserve : Prop} {item : String}
    (h : old.After back reserve new) (hitem : old.preparedItem = some item) :
    new.preparedItem = some item := by
  rcases h.prepared with hsame | ⟨-, hnone⟩
  · rw [hsame, hitem]
  · rw [hnone] at hitem
    cases hitem

/-- A change with the same request and the same identity. -/
theorem MutationRecord.After.of_state {r : MutationRecord} {back reserve : Prop}
    {new : MutationRecord} (hrequest : new.request = r.request)
    (hprepared : new.preparedItem = r.preparedItem)
    (hstate : new.state = .pending → back ∨ r.state = .pending) : r.After back reserve new := by
  refine ⟨hstate, ?_, .inl hprepared⟩
  rintro ⟨parent, name, hintent⟩
  exact ⟨parent, name, by rw [← hrequest, hintent]⟩

namespace Queue

/-- A row repeats its body. -/
structure Keyed (q : Queue) : Prop where
  upload : ∀ id row, q.uploads.get id = some row → row.body.id = id ∧ row.state = row.body.state
  mutation : ∀ id row, q.mutations.get id = some row →
    row.body.id = id ∧ row.state = row.body.state

/-- Every row but those of `apart` is a later version of one. -/
structure Follows (apart : Apart) (q q' : Queue) : Prop where
  keyed : q'.Keyed
  upload : ∀ id row', ¬ apart.new id → q'.uploads.get id = some row' →
    ∃ row, q.uploads.get id = some row ∧ row.body.After (apart.upload id) row'.body
  mutation : ∀ id row', ¬ apart.new id → q'.mutations.get id = some row' →
    ∃ row, q.mutations.get id = some row ∧
      row.body.After (apart.change id) (apart.prepare id) row'.body

/-- Nothing that was tried is put back. -/
def Retains (apart : Apart) (q q' : Queue) : Prop := q.Keyed → q.Follows apart q'

variable {apart : Apart} {q q' q'' : Queue}

theorem Tidy.keyed (h : q.Tidy) : q.Keyed where
  upload _ _ hrow := ⟨(h.upload hrow).2, congrArg UploadRow.state (h.upload hrow).1⟩
  mutation _ _ hrow := ⟨(h.mutation hrow).2, congrArg MutationRow.state (h.mutation hrow).1⟩

/-- The tables of the operations are what they were. -/
theorem Retains.of_same (huploads : q'.uploads = q.uploads)
    (hmutations : q'.mutations = q.mutations) : q.Retains apart q' := by
  intro hkeyed
  refine ⟨⟨?_, ?_⟩, ?_, ?_⟩
  · rw [huploads]
    exact hkeyed.upload
  · rw [hmutations]
    exact hkeyed.mutation
  · intro id row _ hrow
    exact ⟨row, huploads ▸ hrow, .inr⟩
  · intro id row _ hrow
    exact ⟨row, hmutations ▸ hrow, .refl _ _ _⟩

theorem Retains.refl (q : Queue) : q.Retains apart q := .of_same rfl rfl

theorem Retains.trans (h : q.Retains apart q') (h' : q'.Retains apart q'') :
    q.Retains apart q'' := by
  intro hkeyed
  have hfirst := h hkeyed
  have hsecond := h' hfirst.keyed
  refine ⟨hsecond.keyed, ?_, ?_⟩
  · intro id row hid hrow
    obtain ⟨mid, hmid, hlater⟩ := hsecond.upload id row hid hrow
    obtain ⟨old, hold, hfirst⟩ := hfirst.upload id mid hid hmid
    exact ⟨old, hold, hfirst.trans hlater⟩
  · intro id row hid hrow
    obtain ⟨mid, hmid, hlater⟩ := hsecond.mutation id row hid hrow
    obtain ⟨old, hold, hfirst⟩ := hfirst.mutation id mid hid hmid
    exact ⟨old, hold, hfirst.trans hlater⟩

/-- One upload is stored. -/
theorem Retains.of_upload {r : UploadRecord} {row : UploadRow} (hbody : row.body = r)
    (hstate : row.state = r.state) (huploads : q'.uploads = q.uploads.set r.id row)
    (hmutations : q'.mutations = q.mutations)
    (hafter : q.Keyed → ¬ apart.new r.id → ∃ old, q.uploads.get r.id = some old ∧
      old.body.After (apart.upload r.id) r) :
    q.Retains apart q' := by
  intro hkeyed
  refine ⟨⟨?_, ?_⟩, ?_, ?_⟩
  · intro id found hfound
    rw [huploads, Table.get_set] at hfound
    split at hfound
    · next hid =>
      cases hfound
      rw [hbody]
      exact ⟨hid.symm, hstate⟩
    · exact hkeyed.upload id found hfound
  · rw [hmutations]
    exact hkeyed.mutation
  · intro id found hid hfound
    rw [huploads, Table.get_set] at hfound
    split at hfound
    · next heq =>
      cases hfound
      rw [heq, hbody]
      exact hafter hkeyed (heq ▸ hid)
    · exact ⟨found, hfound, .inr⟩
  · intro id found _ hfound
    exact ⟨found, hmutations ▸ hfound, .refl _ _ _⟩

/-- One change is stored. -/
theorem Retains.of_mutation {r : MutationRecord} {row : MutationRow} (hbody : row.body = r)
    (hstate : row.state = r.state) (huploads : q'.uploads = q.uploads)
    (hmutations : q'.mutations = q.mutations.set r.id row)
    (hafter : q.Keyed → ¬ apart.new r.id → ∃ old, q.mutations.get r.id = some old ∧
      old.body.After (apart.change r.id) (apart.prepare r.id) r) :
    q.Retains apart q' := by
  intro hkeyed
  refine ⟨⟨?_, ?_⟩, ?_, ?_⟩
  · rw [huploads]
    exact hkeyed.upload
  · intro id found hfound
    rw [hmutations, Table.get_set] at hfound
    split at hfound
    · next hid =>
      cases hfound
      rw [hbody]
      exact ⟨hid.symm, hstate⟩
    · exact hkeyed.mutation id found hfound
  · intro id found _ hfound
    exact ⟨found, huploads ▸ hfound, .inr⟩
  · intro id found hid hfound
    rw [hmutations, Table.get_set] at hfound
    split at hfound
    · next heq =>
      cases hfound
      rw [heq, hbody]
      exact hafter hkeyed (heq ▸ hid)
    · exact ⟨found, hfound, .refl _ _ _⟩

theorem Retains.mono {apart' : Apart} (h : q.Retains apart q')
    (hnew : ∀ id, apart.new id → apart'.new id) (hupload : ∀ id, apart.upload id → apart'.upload id)
    (hchange : ∀ id, apart.change id → apart'.change id)
    (hprepare : ∀ id, apart.prepare id → apart'.prepare id) : q.Retains apart' q' := by
  intro hkeyed
  have hfollows := h hkeyed
  refine ⟨hfollows.keyed, ?_, ?_⟩
  · intro id row' hid hrow'
    obtain ⟨row, hrow, hafter⟩ := hfollows.upload id row' (fun hboth => hid (hnew id hboth)) hrow'
    exact ⟨row, hrow, hafter.mono (hupload id)⟩
  · intro id row' hid hrow'
    obtain ⟨row, hrow, hafter⟩ := hfollows.mutation id row' (fun hboth => hid (hnew id hboth)) hrow'
    exact ⟨row, hrow, hafter.mono (hchange id) (hprepare id)⟩

theorem Retains.of_none (h : q.Retains .none q') : q.Retains apart q' :=
  h.mono (fun _ hid => hid.elim) (fun _ hid => hid.elim) (fun _ hid => hid.elim)
    fun _ hid => hid.elim

/-- Rows are changed one by one. -/
theorem Retains.of_mapped {f : UploadRow → UploadRow} {g : MutationRow → MutationRow}
    (huploads : ∀ id, q'.uploads.get id = (q.uploads.get id).map f)
    (hmutations : ∀ id, q'.mutations.get id = (q.mutations.get id).map g)
    (hf : ∀ row, row.state = row.body.state → (f row).body.id = row.body.id ∧
      (f row).state = (f row).body.state ∧ row.body.After False (f row).body)
    (hg : ∀ row, row.state = row.body.state → (g row).body.id = row.body.id ∧
      (g row).state = (g row).body.state ∧ row.body.After False False (g row).body) :
    q.Retains apart q' := by
  intro hkeyed
  have hupload : ∀ id row', q'.uploads.get id = some row' →
      ∃ row, q.uploads.get id = some row ∧ f row = row' := by
    intro id row' hrow'
    rw [huploads] at hrow'
    exact Option.map_eq_some_iff.mp hrow'
  have hmutation : ∀ id row', q'.mutations.get id = some row' →
      ∃ row, q.mutations.get id = some row ∧ g row = row' := by
    intro id row' hrow'
    rw [hmutations] at hrow'
    exact Option.map_eq_some_iff.mp hrow'
  refine ⟨⟨?_, ?_⟩, ?_, ?_⟩
  · intro id row' hrow'
    obtain ⟨row, hrow, rfl⟩ := hupload id row' hrow'
    obtain ⟨hid, hstate⟩ := hkeyed.upload id row hrow
    exact ⟨(hf row hstate).1.trans hid, (hf row hstate).2.1⟩
  · intro id row' hrow'
    obtain ⟨row, hrow, rfl⟩ := hmutation id row' hrow'
    obtain ⟨hid, hstate⟩ := hkeyed.mutation id row hrow
    exact ⟨(hg row hstate).1.trans hid, (hg row hstate).2.1⟩
  · intro id row' _ hrow'
    obtain ⟨row, hrow, rfl⟩ := hupload id row' hrow'
    exact ⟨row, hrow, (hf row (hkeyed.upload id row hrow).2).2.2.mono False.elim⟩
  · intro id row' _ hrow'
    obtain ⟨row, hrow, rfl⟩ := hmutation id row' hrow'
    exact ⟨row, hrow, (hg row (hkeyed.mutation id row hrow).2).2.2.mono False.elim False.elim⟩

/-- An operation is taken back. -/
theorem discard_retains (q : Queue) (id : Uuid) : q.Retains apart (q.discard id) := by
  intro hkeyed
  have hmutation : ∀ other row, (q.discard id).mutations.get other = some row →
      q.mutations.get other = some row := by
    intro other row hrow
    have hrow : (q.mutations.erase id).get other = some row := hrow
    rw [Table.get_erase] at hrow
    split at hrow
    · cases hrow
    · exact hrow
  refine ⟨⟨hkeyed.upload, ?_⟩, ?_, ?_⟩
  · exact fun other row hrow => hkeyed.mutation other row (hmutation other row hrow)
  · exact fun other row _ hrow => ⟨row, hrow, .inr⟩
  · exact fun other row _ hrow => ⟨row, hmutation other row hrow, .refl _ _ _⟩

/-! ## Storing and admitting -/

theorem upload_ok_row {id : Uuid} {r : UploadRecord} (h : q.upload id = .ok r) :
    ∃ row, q.uploads.get id = some row ∧ row.body = r := by
  unfold Queue.upload at h
  split at h
  · next row hrow =>
    cases h
    exact ⟨row, hrow, rfl⟩
  · cases h

theorem mutation_ok_row {id : Uuid} {r : MutationRecord} (h : q.mutation id = .ok r) :
    ∃ row, q.mutations.get id = some row ∧ row.body = r := by
  unfold Queue.mutation at h
  split at h
  · next row hrow =>
    cases h
    exact ⟨row, hrow, rfl⟩
  · cases h

theorem find_row_upload {id : Uuid} {r : UploadRecord} (h : q.find id = some (.upload r)) :
    ∃ row, q.uploads.get id = some row ∧ row.body = r := by
  unfold Queue.find at h
  split at h
  · next row hrow =>
    cases h
    exact ⟨row, hrow, rfl⟩
  · obtain ⟨_, _, hop⟩ := Option.map_eq_some_iff.mp h
    cases hop

theorem find_row_mutation {id : Uuid} {r : MutationRecord} (h : q.find id = some (.mutation r)) :
    ∃ row, q.mutations.get id = some row ∧ row.body = r := by
  unfold Queue.find at h
  split at h
  · cases h
  · obtain ⟨row, hrow, hop⟩ := Option.map_eq_some_iff.mp h
    cases hop
    exact ⟨row, hrow, rfl⟩

theorem queueComplete_same {id : Uuid} {complete : Bool}
    (h : q.queueComplete id complete = .ok q') :
    q'.uploads = q.uploads ∧ q'.mutations = q.mutations := by
  unfold queueComplete at h
  split at h
  · cases h
  · cases h
    exact ⟨rfl, rfl⟩

theorem updateUpload_retains {r : UploadRecord} (h : q.updateUpload r = .ok q')
    (hafter : q.Keyed → ¬ apart.new r.id → ∀ old, q.uploads.get r.id = some old →
      old.body.After (apart.upload r.id) r) :
    q.Retains apart q' := by
  unfold updateUpload at h
  split at h
  · cases h
  · next row hrow =>
    cases h
    refine .of_upload (r := r) rfl rfl rfl rfl fun hkeyed hid => ?_
    exact ⟨row, hrow, hafter hkeyed hid row hrow⟩

theorem updateMutation_retains {r : MutationRecord} (h : q.updateMutation r = .ok q')
    (hafter : q.Keyed → ¬ apart.new r.id → ∀ old, q.mutations.get r.id = some old →
      old.body.After (apart.change r.id) (apart.prepare r.id) r) :
    q.Retains apart q' := by
  unfold updateMutation at h
  split at h
  · cases h
  · next row hrow =>
    cases h
    refine .of_mutation (r := r) rfl rfl rfl rfl fun hkeyed hid => ?_
    exact ⟨row, hrow, hafter hkeyed hid row hrow⟩

theorem insertEach_same {operation : Uuid} {sequence : Nat} {prerequisites : List Uuid}
    (h : q.insertEach operation sequence prerequisites = .ok q') :
    q'.uploads = q.uploads ∧ q'.mutations = q.mutations := by
  induction prerequisites generalizing q with
  | nil =>
    cases h
    exact ⟨rfl, rfl⟩
  | cons predecessor rest ih =>
    obtain ⟨_, _, h⟩ := bind_eq_ok h
    have hrest := ih h
    exact hrest

/-- A new operation is apart, and the others are what they were. -/
theorem admitOperation_retains {names : Namespace} (op : Operation) {keys : List Resource}
    {destination : Option String} {prerequisites : List Uuid} (hid : apart.new op.id)
    (h : q.admitOperation names op keys destination prerequisites = .ok q') :
    q.Retains apart q' := by
  unfold admitOperation at h
  have hbound : ∃ q₁ : Queue, (q₁.uploads = q.uploads ∧ q₁.mutations = q.mutations) ∧
      (do
        let q ← q₁.insertDependency op.id op.sequence op.base
        let q ← q.insertBarriers op.id op.sequence op.scope prerequisites
        return q.put op) = Except.ok q' := by
    cases destination with
    | none => exact ⟨q.queueInsert op.id keys, ⟨rfl, rfl⟩, h⟩
    | some parent =>
      obtain ⟨q₁, hbind, h⟩ := bind_eq_ok h
      refine ⟨q₁, ?_, h⟩
      unfold Queue.bind at hbind
      split at hbind
      · cases hbind
        exact ⟨rfl, rfl⟩
      · obtain ⟨_, _, hbind⟩ := bind_eq_ok hbind
        split at hbind
        · obtain ⟨_, _, hbind⟩ := bind_eq_ok hbind
          cases hbind
          exact ⟨rfl, rfl⟩
        · obtain ⟨_, _, hbind⟩ := bind_eq_ok hbind
          cases hbind
          exact ⟨rfl, rfl⟩
  obtain ⟨q₁, h₁, h⟩ := hbound
  obtain ⟨q₂, hdependency, h⟩ := bind_eq_ok h
  obtain ⟨q₃, hbarriers, h⟩ := bind_eq_ok h
  have h₂ : q₂.uploads = q₁.uploads ∧ q₂.mutations = q₁.mutations := by
    unfold insertDependency at hdependency
    split at hdependency
    · cases hdependency
      exact ⟨rfl, rfl⟩
    · obtain ⟨_, _, hdependency⟩ := bind_eq_ok hdependency
      obtain ⟨_, _, hdependency⟩ := bind_eq_ok hdependency
      cases hdependency
      exact ⟨rfl, rfl⟩
  have h₃ : q₃.uploads = q₂.uploads ∧ q₃.mutations = q₂.mutations := by
    obtain ⟨_, _, hbarriers⟩ := bind_eq_ok hbarriers
    exact insertEach_same hbarriers
  cases h
  have hsame : q.Retains apart q₃ :=
    .of_same (h₃.1.trans (h₂.1.trans h₁.1)) (h₃.2.trans (h₂.2.trans h₁.2))
  refine hsame.trans ?_
  cases op with
  | upload r => exact .of_upload (r := r) rfl rfl rfl rfl fun _ hnot => absurd hid hnot
  | mutation r => exact .of_mutation (r := r) rfl rfl rfl rfl fun _ hnot => absurd hid hnot

end Queue

/-! ## Storing an operation again -/

section Storing

variable {apart : Apart} {j j' : UploadJournal}

theorem saveObject_queue {o : NamespaceObject} (h : j.saveObject o = .ok j') :
    j'.queue = j.queue := by
  obtain ⟨_, _, h⟩ := bind_eq_ok h
  cases h
  rfl

theorem confirmObject_queue {operation : Uuid} {sequence : Nat} {remote : Node}
    (h : j.confirmObject operation sequence remote = .ok j') : j'.queue = j.queue := by
  obtain ⟨_, _, h⟩ := bind_eq_ok h
  cases h
  rfl

theorem confirmReplacement_queue {operation : Uuid} {sequence : Nat} {remote : Node}
    {replaced : Bool} (h : j.confirmReplacement operation sequence remote = .ok (replaced, j')) :
    j'.queue = j.queue := by
  unfold UploadJournal.confirmReplacement at h
  split at h
  · cases h
    rfl
  split at h
  · cases h
    rfl
  obtain ⟨_, _, h⟩ := bind_eq_ok h
  obtain ⟨_, _, h⟩ := bind_eq_ok h
  obtain ⟨_, _, h⟩ := bind_eq_ok h
  obtain ⟨_, _, h⟩ := bind_eq_ok h
  split at h
  · obtain ⟨_, _, h⟩ := bind_eq_ok h
    obtain ⟨_, _, h⟩ := bind_eq_ok h
    obtain ⟨j₁, h₁, h⟩ := bind_eq_ok h
    obtain ⟨_, _, h⟩ := bind_eq_ok h
    obtain ⟨j₂, h₂, h⟩ := bind_eq_ok h
    obtain ⟨_, _, h⟩ := bind_eq_ok h
    obtain ⟨j₃, h₃, h⟩ := bind_eq_ok h
    cases h
    exact (saveObject_queue h₃).trans ((saveObject_queue h₂).trans (saveObject_queue h₁))
  · cases h

theorem save_retains {r : UploadRecord} (h : j.save r = .ok j')
    (hafter : j.queue.Keyed → ¬ apart.new r.id →
      ∀ old, j.queue.uploads.get r.id = some old → old.body.After (apart.upload r.id) r) :
    j.queue.Retains apart j'.queue := by
  unfold UploadJournal.save at h
  obtain ⟨q₁, hupdate, h⟩ := bind_eq_ok h
  obtain ⟨q₂, hcomplete, h⟩ := bind_eq_ok h
  obtain ⟨huploads, hmutations⟩ := Queue.queueComplete_same hcomplete
  have hstored := (Queue.updateUpload_retains hupdate hafter).trans (.of_same huploads hmutations)
  have hqueue : j'.queue = q₂ := by
    split at h
    · obtain ⟨⟨replaced, j₁⟩, hconfirm, h⟩ := bind_eq_ok h
      have hsame := confirmReplacement_queue hconfirm
      cases replaced with
      | true =>
        cases h
        exact hsame
      | false => exact (confirmObject_queue h).trans hsame
    · cases h
      rfl
  rw [hqueue]
  exact hstored

theorem saveMutation_queue {r : MutationRecord} (h : j.saveMutation r = .ok j') :
    ∃ q, j.queue.updateMutation r = .ok q ∧ j'.queue.uploads = q.uploads ∧
      j'.queue.mutations = q.mutations := by
  unfold UploadJournal.saveMutation at h
  obtain ⟨q₁, hupdate, h⟩ := bind_eq_ok h
  obtain ⟨q₂, hcomplete, h⟩ := bind_eq_ok h
  have hqueue : j'.queue = q₂ := by
    split at h
    · exact confirmObject_queue h
    · cases h
      rfl
  rw [hqueue]
  exact ⟨q₁, hupdate, Queue.queueComplete_same hcomplete⟩

theorem saveMutation_retains {r : MutationRecord} (h : j.saveMutation r = .ok j')
    (hafter : j.queue.Keyed → ¬ apart.new r.id →
      ∀ old, j.queue.mutations.get r.id = some old →
        old.body.After (apart.change r.id) (apart.prepare r.id) r) :
    j.queue.Retains apart j'.queue := by
  obtain ⟨q, hupdate, huploads, hmutations⟩ := saveMutation_queue h
  exact (Queue.updateMutation_retains hupdate hafter).trans (.of_same huploads hmutations)

/-- What is stored is what was given. -/
theorem saveMutation_row {r : MutationRecord} {row : MutationRow} (h : j.saveMutation r = .ok j')
    (hrow : j'.queue.mutations.get r.id = some row) : row.body = r := by
  obtain ⟨q, hupdate, -, hmutations⟩ := saveMutation_queue h
  unfold Queue.updateMutation at hupdate
  split at hupdate
  · cases hupdate
  · cases hupdate
    rw [hmutations, Table.get_set, if_pos rfl] at hrow
    cases hrow
    rfl

/-- An upload that was tried is stored. -/
theorem save_tried {r : UploadRecord} (h : j.save r = .ok j') (hstate : ¬ r.untried) :
    j.queue.Retains apart j'.queue :=
  save_retains h fun _ _ _ _ huntried => absurd huntried hstate

/-- A later version of the change that was read is stored. -/
theorem saveMutation_follows {id : Uuid} {old new : MutationRecord} {back reserve : Prop}
    (h : j.saveMutation new = .ok j') (hold : j.queue.mutation id = .ok old) (hid : new.id = old.id)
    (hback : back → apart.change id) (hreserve : reserve → apart.prepare id)
    (hafter : old.After back reserve new) : j.queue.Retains apart j'.queue := by
  apply saveMutation_retains h
  intro hkeyed _ row hrow
  obtain ⟨found, hfound, rfl⟩ := Queue.mutation_ok_row hold
  have hsame := (hkeyed.mutation id found hfound).1
  rw [hid, hsame, hfound] at hrow
  cases hrow
  rw [hid, hsame]
  exact hafter.mono hback hreserve

theorem saveMutation_after {id : Uuid} {old new : MutationRecord}
    (h : j.saveMutation new = .ok j') (hold : j.queue.mutation id = .ok old)
    (hid : new.id = old.id) (hafter : old.After False False new) :
    j.queue.Retains apart j'.queue :=
  saveMutation_follows h hold hid False.elim False.elim hafter

/-- A report that puts an upload back is about that upload. -/
theorem save_back {id : Uuid} {old new : UploadRecord} (h : j.save new = .ok j')
    (hold : j.queue.upload id = .ok old) (hid : new.id = old.id) (hback : apart.upload id) :
    j.queue.Retains apart j'.queue := by
  apply save_retains h
  intro hkeyed _ row _
  obtain ⟨found, hfound, rfl⟩ := Queue.upload_ok_row hold
  rw [hid, (hkeyed.upload id found hfound).1]
  exact fun _ => .inl hback

end Storing

/-! ## Binding -/

section Binding

variable {apart : Apart} {j j' : UploadJournal} {id : Uuid}

theorem resolveUpload_retains (h : j.resolveUpload id = .ok j') :
    j.queue.Retains apart j'.queue := by
  unfold UploadJournal.resolveUpload at h
  obtain ⟨r, hr, h⟩ := bind_eq_ok h
  obtain ⟨row, hrow, rfl⟩ := Queue.upload_ok_row hr
  split at h
  · next base _ =>
    obtain ⟨node, _, h⟩ := bind_eq_ok h
    split at h
    · exact save_tried h (by simp [UploadRecord.untried])
    · next intent _ =>
      cases h
      unfold Queue.updateUploadBody
      split
      · exact .of_same rfl rfl
      · next found hfound =>
        refine fun hkeyed => Queue.Retains.of_upload
          (r := { row.body with intent := intent, base := some { base with resolved := true } })
          rfl ?_ rfl rfl ?_ hkeyed
        · have hsame := (hkeyed.upload id row hrow).1
          rw [show found = row from Option.some.inj ((hsame ▸ hfound).symm.trans hrow)]
          exact (hkeyed.upload id row hrow).2
        · intro hkeyed _
          exact ⟨row, (hkeyed.upload id row hrow).1 ▸ hrow, .inr⟩
  · cases h

/-- A change that follows a receipt makes no folder. -/
theorem MutationIntent.follow_ne {intent intent' : MutationIntent} {node : Node}
    (h : intent.follow node = some intent') (parent name : String) :
    intent' ≠ .createFolder parent name := by
  rintro rfl
  cases intent <;> cases h

theorem resolveMutation_retains (h : j.resolveMutation id = .ok j') :
    j.queue.Retains apart j'.queue := by
  unfold UploadJournal.resolveMutation at h
  obtain ⟨r, hr, h⟩ := bind_eq_ok h
  obtain ⟨row, hrow, rfl⟩ := Queue.mutation_ok_row hr
  split at h
  · next base _ =>
    obtain ⟨node, _, h⟩ := bind_eq_ok h
    split at h
    · exact saveMutation_after h hr rfl (.of_state rfl rfl (by simp))
    · next node _ =>
      split at h
      · next intent hfollow =>
        have hnot : ∀ r : MutationRecord, r.request.intent = intent → ¬ r.makesFolder := by
          rintro r hintent ⟨parent, name, heq⟩
          exact MutationIntent.follow_ne hfollow parent name (hintent.symm.trans heq)
        dsimp only at h
        split at h
        · refine saveMutation_after h hr rfl ⟨by simp, ?_, .inl rfl⟩
          intro hmakes
          exact absurd hmakes (hnot _ rfl)
        · obtain ⟨keys, _, h⟩ := bind_eq_ok h
          cases h
          unfold Queue.updateMutationBody
          split
          · exact .of_same rfl rfl
          · next found hfound =>
            refine fun hkeyed => Queue.Retains.of_mutation (r := { row.body with
              request := { row.body.request with intent := intent }
              base := some { base with resolved := true } }) rfl ?_ rfl rfl ?_ hkeyed
            · have hsame := (hkeyed.mutation id row hrow).1
              rw [show found = row from Option.some.inj ((hsame ▸ hfound).symm.trans hrow)]
              exact (hkeyed.mutation id row hrow).2
            · intro hkeyed _
              refine ⟨row, (hkeyed.mutation id row hrow).1 ▸ hrow, .inr, ?_, .inl rfl⟩
              intro hmakes
              exact absurd hmakes (hnot _ rfl)
      · cases h
  · cases h

theorem resolveDestination_retains (h : j.resolveDestination id = .ok j') :
    j.queue.Retains apart j'.queue := by
  unfold UploadJournal.resolveDestination at h
  split at h
  · obtain ⟨_, _, h⟩ := bind_eq_ok h
    obtain ⟨op, hop, h⟩ := bind_eq_ok h
    obtain ⟨remote, hremote, h⟩ := bind_eq_ok h
    clear hremote
    obtain ⟨_, _, h⟩ := bind_eq_ok h
    cases op with
    | upload old =>
      obtain ⟨r, hr, h⟩ := bind_eq_ok h
      obtain ⟨queue, hqueue, h⟩ := bind_eq_ok h
      cases h
      have hbound : r.id = old.id ∧ old.After False r := by
        unfold UploadJournal.boundUpload at hr
        split at hr
        · cases hr
          exact ⟨rfl, .inr⟩
        · cases hr
          exact ⟨rfl, by simp [UploadRecord.After, UploadRecord.untried]⟩
        · cases hr
      have hadd : j.queue.Retains apart (j.queue.addResources id
          (uploadResources j.settings.lowercase r.scope r.intent)) := .of_same rfl rfl
      refine hadd.trans (.trans (Queue.updateUpload_retains hqueue ?_) (.of_same rfl rfl))
      intro hkeyed _ row hrow
      obtain ⟨found, hfound, rfl⟩ := Queue.find_row_upload (Queue.operation_ok.mp hop)
      rw [hbound.1, (hkeyed.upload id found hfound).1] at hrow
      rw [show row = found from Option.some.inj (hrow.symm.trans hfound)]
      exact hbound.2.mono False.elim
    | mutation old =>
      obtain ⟨r, hr, h⟩ := bind_eq_ok h
      obtain ⟨keys, _, h⟩ := bind_eq_ok h
      obtain ⟨queue, hqueue, h⟩ := bind_eq_ok h
      cases h
      have hbound : r.id = old.id ∧ old.After False False r := by
        unfold UploadJournal.boundMutation at hr
        split at hr
        · next hintent _ =>
          cases hr
          exact ⟨rfl, .inr, fun _ => ⟨_, _, hintent⟩, .inl rfl⟩
        · cases hr
          refine ⟨rfl, .inr, ?_, .inl rfl⟩
          rintro ⟨_, _, hintent⟩
          cases hintent
        · cases hr
          exact ⟨rfl, .of_state rfl rfl (by simp)⟩
        · cases hr
          exact ⟨rfl, .of_state rfl rfl (by simp)⟩
        · cases hr
      have hadd : j.queue.Retains apart (j.queue.addResources id keys) := .of_same rfl rfl
      refine hadd.trans (.trans (Queue.updateMutation_retains hqueue ?_) (.of_same rfl rfl))
      intro hkeyed _ row hrow
      obtain ⟨found, hfound, rfl⟩ := Queue.find_row_mutation (Queue.operation_ok.mp hop)
      rw [hbound.1, (hkeyed.mutation id found hfound).1] at hrow
      rw [show row = found from Option.some.inj (hrow.symm.trans hfound)]
      exact hbound.2.mono False.elim False.elim
  · cases h

end Binding

/-! ## Computations that commit -/

/-- From here on nothing that was tried is put back. -/
def Retained (apart : Apart) (start j : UploadJournal) : Prop :=
  start.queue.Retains apart j.queue

section Committing

variable {apart : Apart} {start : UploadJournal} {α : Type}

theorem triple_retained_transaction {tx : UploadJournal → Except JournalError (α × UploadJournal)}
    (h : ∀ j a j', tx j = .ok (a, j') → j.queue.Retains apart j'.queue) :
    Commits.Triple (Retained apart start) (Commits.transaction tx) (Retained apart start)
      (fun _ => Retained apart start) := by
  apply Commits.triple_transaction
  intro j hj a j' htx
  have hnext : Retained apart start j' := Queue.Retains.trans hj (h j a j' htx)
  exact ⟨hnext, hnext⟩

theorem triple_retained_commit {tx : UploadJournal → Except JournalError UploadJournal}
    (h : ∀ j j', tx j = .ok j' → j.queue.Retains apart j'.queue) :
    Commits.Triple (Retained apart start) (Commits.commit tx) (Retained apart start)
      (fun _ => Retained apart start) := by
  apply Commits.triple_commit
  intro j hj j' htx
  have hnext : Retained apart start j' := Queue.Retains.trans hj (h j j' htx)
  exact ⟨hnext, hnext⟩

theorem triple_retained_read {f : UploadJournal → Except JournalError α} :
    Commits.Triple (Retained apart start) (Commits.read f) (Retained apart start)
      (fun _ => Retained apart start) := Commits.triple_read fun _ h _ _ => h

theorem resolveReadyDestinations_retains :
    Commits.Triple (Retained apart start) UploadJournal.resolveReadyDestinations
      (Retained apart start) (fun _ => Retained apart start) := by
  unfold UploadJournal.resolveReadyDestinations
  refine Commits.triple_bind triple_retained_read fun rows => ?_
  refine Commits.triple_bind (Commits.triple_forEach rows fun row _ => ?_)
    fun _ => triple_retained_read
  exact triple_retained_commit fun _ _ h => resolveDestination_retains h

/-- Binding puts nothing back. -/
theorem resolveReadyGenerations_retains :
    Commits.Triple (Retained apart start) UploadJournal.resolveReadyGenerations
      (Retained apart start) (fun _ => Retained apart start) := by
  unfold UploadJournal.resolveReadyGenerations
  refine Commits.triple_bind resolveReadyDestinations_retains fun _ => ?_
  refine Commits.triple_bind triple_retained_read fun rows => ?_
  refine Commits.triple_bind (Commits.triple_forEach rows fun row _ => ?_) fun _ => ?_
  · refine triple_retained_commit fun j j' h => ?_
    split at h
    · exact resolveUpload_retains h
    · exact resolveMutation_retains h
  · exact Commits.triple_bind triple_retained_read fun _ => Commits.triple_pure fun _ h => h

end Committing

/-! ## New operations -/

section Entering

variable {apart : Apart} {j j' : UploadJournal} {env : Env}

/-- The upload is admitted, and what else the call does follows. -/
theorem enqueueGeneration_admits {id : Uuid} {scope : Scope} {intent : UploadIntent}
    {order : WriteOrder} {workingFile : Option Uuid} {commit : UploadJournal.UploadCommit}
    {record : UploadRecord} (hid : apart.new id)
    (h : j.enqueueGeneration env id scope intent order workingFile commit = .ok (record, j')) :
    ∃ queue r, j.queue.Retains apart queue ∧ commit { j with queue := queue } r = .ok j' := by
  unfold UploadJournal.enqueueGeneration at h
  obtain ⟨_, _, h⟩ := bind_eq_ok h
  obtain ⟨_, _, h⟩ := bind_eq_ok h
  obtain ⟨_, _, h⟩ := bind_eq_ok h
  have hrest : ∃ sealed : Nat × String, ∃ queue,
      j.queue.admitOperation j.names (.upload (UploadRecord.new env id j.queue.nextSequence scope
        intent order.base workingFile sealed.1 sealed.2))
        (uploadResources j.settings.lowercase scope intent)
        (Operation.upload (UploadRecord.new env id j.queue.nextSequence scope
          intent order.base workingFile sealed.1 sealed.2)).destination order.prerequisites
        = .ok queue ∧
      commit { j with queue := queue } (UploadRecord.new env id j.queue.nextSequence scope
        intent order.base workingFile sealed.1 sealed.2) = .ok j' := by
    split at h
    · obtain ⟨_, _, h⟩ := bind_eq_ok h
      obtain ⟨_, _, h⟩ := bind_eq_ok h
      obtain ⟨sealed, _, h⟩ := bind_eq_ok h
      obtain ⟨queue, hqueue, h⟩ := bind_eq_ok h
      obtain ⟨j₁, hj₁, h⟩ := bind_eq_ok h
      cases h
      exact ⟨sealed, queue, hqueue, hj₁⟩
    · obtain ⟨_, _, h⟩ := bind_eq_ok h
      obtain ⟨sealed, _, h⟩ := bind_eq_ok h
      obtain ⟨queue, hqueue, h⟩ := bind_eq_ok h
      obtain ⟨j₁, hj₁, h⟩ := bind_eq_ok h
      cases h
      exact ⟨sealed, queue, hqueue, hj₁⟩
  obtain ⟨sealed, queue, hqueue, hj₁⟩ := hrest
  exact ⟨queue, _, Queue.admitOperation_retains (.upload (.new ..)) hid hqueue, hj₁⟩

theorem enqueueGeneration_retains {id : Uuid} {scope : Scope} {intent : UploadIntent}
    {order : WriteOrder} {workingFile : Option Uuid} {commit : UploadJournal.UploadCommit}
    {record : UploadRecord} (hid : apart.new id)
    (hcommit : ∀ j r j', commit j r = .ok j' → j.queue.Retains apart j'.queue)
    (h : j.enqueueGeneration env id scope intent order workingFile commit = .ok (record, j')) :
    j.queue.Retains apart j'.queue := by
  obtain ⟨queue, r, hadmitted, hj₁⟩ := enqueueGeneration_admits hid h
  exact hadmitted.trans (hcommit _ r _ hj₁)

theorem enqueueMutationTransaction_retains {id : Uuid} {request : MutationRequest}
    {order : WriteOrder} {workingFile : Option Uuid} {attached : Bool}
    {commit : UploadJournal.MutationCommit} {record : MutationRecord} (hid : apart.new id)
    (hcommit : ∀ j r j', commit j r = .ok j' → j.queue.Retains apart j'.queue)
    (h : j.enqueueMutationTransaction id request order workingFile attached commit
      = .ok (record, j')) : j.queue.Retains apart j'.queue := by
  unfold UploadJournal.enqueueMutationTransaction at h
  obtain ⟨_, _, h⟩ := bind_eq_ok h
  have hrest : ∃ keys queue,
      j.queue.admitOperation j.names (.mutation (MutationRecord.new id j.queue.nextSequence request
        order.base workingFile true)) keys request.intent.destination order.prerequisites
        = .ok queue ∧
      commit { j with queue := queue } (MutationRecord.new id j.queue.nextSequence request
        order.base workingFile true) = .ok j' := by
    split at h
    · obtain ⟨_, _, h⟩ := bind_eq_ok h
      obtain ⟨_, _, h⟩ := bind_eq_ok h
      obtain ⟨keys, _, h⟩ := bind_eq_ok h
      obtain ⟨queue, hqueue, h⟩ := bind_eq_ok h
      obtain ⟨j₁, hj₁, h⟩ := bind_eq_ok h
      cases h
      exact ⟨keys, queue, hqueue, hj₁⟩
    · obtain ⟨_, _, h⟩ := bind_eq_ok h
      obtain ⟨keys, _, h⟩ := bind_eq_ok h
      obtain ⟨queue, hqueue, h⟩ := bind_eq_ok h
      obtain ⟨j₁, hj₁, h⟩ := bind_eq_ok h
      cases h
      exact ⟨keys, queue, hqueue, hj₁⟩
  obtain ⟨keys, queue, hqueue, hj₁⟩ := hrest
  exact (Queue.admitOperation_retains _ hid hqueue).trans (hcommit _ _ _ hj₁)

theorem enqueueChange_retains {mutation : MutationRecord} {prerequisites : List Uuid}
    (hid : apart.new mutation.id) (h : j.enqueueChange mutation prerequisites = .ok j') :
    j.queue.Retains apart j'.queue := by
  unfold UploadJournal.enqueueChange at h
  obtain ⟨keys, _, h⟩ := bind_eq_ok h
  obtain ⟨queue, hqueue, h⟩ := bind_eq_ok h
  cases h
  exact Queue.admitOperation_retains (.mutation mutation) hid hqueue

end Entering

end Cirrove.Journal
