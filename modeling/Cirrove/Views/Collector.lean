import Cirrove.Views.Tokens
import Mathlib.Data.List.Chain

/-!
# The collector

One turn of `collect` and its loop. The loop stops when it has looked at every candidate since the
last removal; `Covered` says that what can still be retired is among the candidates it has not
looked at, so nothing is left when there are none.

`Rooted` is the parent chain of an entry. It is a finite derivation, so there is no cycle and no
dangling parent in it.
-/

namespace Cirrove.Views

open Cirrove.Library

variable {v v' : NamespaceViews} {m : Memory}

/-! ## The collector -/

/-- What one turn of the collector does to the index. -/
structure Examined (v v' : NamespaceViews) (m : Memory) (slot : Slot) (rest : List Slot)
    (removed : Bool) : Prop where
  sound : Sound v' m
  listed : Listed v' m
  generation : v'.generation = v.generation
  resolved : v'.resolved = v.resolved
  kept : removed = false → v.SameShape v' ∧ (∃ tail, v'.candidates = rest ++ tail) ∧
    ∀ e, v.entries.get slot.1 = some e → e.generation = slot.2 → v.reclaimable m e = false
  retired : removed = true → ∃ e, v.entries.get slot.1 = some e ∧ Retirable v m slot.1 e ∧
    ∀ k, v'.entries.get k = if k = slot.1 then none else v.entries.get k

/-- The index whose first candidate was taken out of the queue. -/
theorem Listed.popped (h : Listed v m) {slot : Slot} {rest : List Slot}
    (hcandidates : v.candidates = slot :: rest) {k : Nat} {e : Entry}
    (he : v.entries.get k = some e) (hqueued : e.queued = true) (hne : (k, e.generation) ≠ slot) :
    (k, e.generation) ∈ rest := by
  have hmem := h.queued he hqueued
  rw [hcandidates] at hmem
  exact (List.mem_cons.mp hmem).resolve_left hne

theorem examine_spec (hs : Sound v m) (hl : Listed v m) {slot : Slot} {rest : List Slot}
    (hcandidates : v.candidates = slot :: rest) {removed : Bool}
    (h : { v with candidates := rest }.examine m slot = (v', removed)) :
    Examined v v' m slot rest removed := by
  unfold NamespaceViews.examine at h
  cases hentry : (v.entries.get slot.1).filter (fun entry => entry.generation = slot.2) with
  | none =>
    -- A stale slot: its entry is gone, or is of a later generation.
    simp only [hentry] at h
    cases h
    have hstale : ∀ e, v.entries.get slot.1 = some e → e.generation ≠ slot.2 := by
      intro e he hgeneration
      simp [he, hgeneration] at hentry
    refine ⟨hs.of_shape (fun _ => rfl) rfl, ⟨?_, ?_⟩, rfl, rfl, fun _ => ⟨fun _ => rfl, ⟨[], ?_⟩, ?_⟩,
      fun hfalse => by cases hfalse⟩
    · intro k e he hqueued
      apply hl.popped hcandidates he hqueued
      rintro rfl
      exact hstale e he rfl
    · exact hl.idle
    · rw [List.append_nil]
    · intro e he hgeneration
      exact absurd hgeneration (hstale e he)
  | some e =>
    simp only [hentry] at h
    obtain ⟨he, hgeneration⟩ := Option.filter_eq_some_iff.mp hentry
    rw [decide_eq_true_eq] at hgeneration
    -- The index with the flag of the entry taken back.
    have hget : ∀ k, (v.entries.set slot.1 { e with queued := false }).get k =
        if k = slot.1 then some { e with queued := false } else v.entries.get k :=
      fun k => Table.get_set _ _ _ _
    have hshape : v.SameShape { v with
        candidates := rest, entries := v.entries.set slot.1 { e with queued := false } } := by
      intro k
      simp only [hget]
      split
      · next hk => rw [hk, he]; rfl
      · rfl
    have hqueued : ∀ {k f}, (v.entries.set slot.1 { e with queued := false }).get k = some f →
        f.queued = true → (k, f.generation) ∈ rest := by
      intro k f hf hflag
      rw [hget] at hf
      split at hf
      · cases hf
        cases hflag
      · next hk =>
        apply hl.popped hcandidates hf hflag
        rintro rfl
        exact hk rfl
    have hidle : ∀ {k f}, k ≠ 1 → k ≠ slot.1 →
        (v.entries.set slot.1 { e with queued := false }).get k = some f →
        (m.refs f.view.residency).kernel = 0 → (m.refs f.view.residency).quarantine = false →
        f.queued = true := by
      intro k f hk hne hf
      rw [hget, if_neg hne] at hf
      exact hl.idle hk hf
    have hsame : v.reclaimable m { e with queued := false } = v.reclaimable m e := rfl
    rw [hshape.reclaimable, hsame] at h
    have hs₁ := hs.of_shape hshape rfl
    split at h
    · next hreclaimable =>
      cases h
      have hretirable := hs.retirable he hreclaimable
      have herase : ∀ k, ((v.entries.set slot.1 { e with queued := false }).erase slot.1).get k =
          if k = slot.1 then none else v.entries.get k := by
        intro k
        rw [Table.get_erase]
        split
        · rfl
        · next hk => rw [hget, if_neg hk]
      refine ⟨?_, ⟨?_, ?_⟩, rfl, rfl, (fun hfalse => by cases hfalse), fun _ => ⟨e, he, hretirable, herase⟩⟩
      · refine (hs.remove he hretirable).of_shape ?_ rfl
        intro k
        simp only [NamespaceViews.remove, herase, Table.get_erase]
      · intro k f hf hflag
        simp only [NamespaceViews.remove, herase] at hf
        split at hf
        · cases hf
        · next hk =>
          apply hl.popped hcandidates hf hflag
          rintro rfl
          exact hk rfl
      · intro k f hk hf
        simp only [NamespaceViews.remove, herase] at hf
        split at hf
        · cases hf
        · exact hl.idle hk hf
    · next hreclaimable =>
      rw [Bool.not_eq_true] at hreclaimable
      have hnot : ∀ f, v.entries.get slot.1 = some f → f.generation = slot.2 →
          v.reclaimable m f = false := by
        intro f hf _
        rw [he] at hf
        cases hf
        exact hreclaimable
      split at h
      · -- The kernel has forgotten it, so it goes to the end of the queue.
        cases h
        have hrest := NamespaceViews.queue_rest { v with
          candidates := rest, entries := v.entries.set slot.1 { e with queued := false } } m slot.1
        have hshape' := hshape.trans (NamespaceViews.sameShape_queue _ m slot.1)
        refine ⟨hs.of_shape hshape' hrest.1, Listed.queue hqueued hidle, hrest.1, hrest.2.2,
          fun _ => ⟨hshape', ?_, hnot⟩, fun hfalse => by cases hfalse⟩
        unfold NamespaceViews.queue
        split
        · exact ⟨[], (List.append_nil _).symm⟩
        · split
          · exact ⟨_, rfl⟩
          · exact ⟨[], (List.append_nil _).symm⟩
      · next hkernel =>
        cases h
        refine ⟨hs₁, ⟨hqueued, ?_⟩, rfl, rfl,
          fun _ => ⟨hshape, ⟨[], (List.append_nil _).symm⟩, hnot⟩, fun hfalse => by cases hfalse⟩
        intro k f hk hf hzero
        by_cases hslot : k = slot.1
        · simp only [hget, if_pos hslot, Option.some.injEq] at hf
          subst hf
          exact absurd hzero hkernel
        · exact hidle hk hslot hf hzero

/-- The candidates that are still to be looked at cover everything that can be retired. -/
def Covered (v : NamespaceViews) (m : Memory) (unchanged : Nat) : Prop :=
  ∀ i e, v.entries.get i = some e → v.reclaimable m e = true →
    (i, e.generation) ∈ v.candidates.take unchanged

/-- Everything that can be retired is queued. -/
theorem Listed.covered (hs : Sound v m) (h : Listed v m) :
    Covered v m v.candidates.length := by
  intro i e he hreclaimable
  rw [List.take_length]
  have hretirable := hs.retirable he hreclaimable
  exact h.queued he (h.idle hretirable.nonroot he hretirable.kernel hretirable.trusted)

/-- A turn that retires nothing has only looked at one candidate. -/
theorem Examined.covered {slot : Slot} {rest : List Slot} (h : Examined v v' m slot rest false)
    (hcandidates : v.candidates = slot :: rest) {unchanged : Nat}
    (hle : unchanged + 1 ≤ v.candidates.length) (hcovered : Covered v m (unchanged + 1)) :
    unchanged ≤ v'.candidates.length ∧ Covered v' m unchanged := by
  obtain ⟨hshape, ⟨tail, htail⟩, hnot⟩ := h.kept rfl
  rw [hcandidates, List.length_cons] at hle
  refine ⟨by rw [htail, List.length_append]; omega, ?_⟩
  intro i e he hreclaimable
  obtain ⟨e₀, he₀, hview, hgeneration⟩ := hshape.get he
  rw [hshape.reclaimable] at hreclaimable
  have hsame : v.reclaimable m e₀ = v.reclaimable m e := by
    unfold NamespaceViews.reclaimable
    rw [hview]
  have hmem := hcovered i e₀ he₀ (hsame.trans hreclaimable)
  rw [hcandidates, List.take_succ_cons] at hmem
  rw [htail, List.take_append_of_le_length (by omega), ← hgeneration]
  refine (List.mem_cons.mp hmem).resolve_left ?_
  rintro rfl
  have hfalse := hnot e₀ he₀ rfl
  rw [hsame, hreclaimable] at hfalse
  cases hfalse

/-- The collector keeps the invariant, and when it was not stopped by its limit it leaves nothing
    behind that could be retired. -/
theorem collectLoop_spec (limit unchanged removed : Nat) (hs : Sound v m) (hl : Listed v m)
    (hle : unchanged ≤ v.candidates.length) (hcovered : Covered v m unchanged) :
    Sound (NamespaceViews.collectLoop m limit unchanged removed v).1 m ∧
      Listed (NamespaceViews.collectLoop m limit unchanged removed v).1 m ∧
      (NamespaceViews.collectLoop m limit unchanged removed v).1.generation = v.generation ∧
      (NamespaceViews.collectLoop m limit unchanged removed v).1.resolved = v.resolved ∧
      Covered (NamespaceViews.collectLoop m limit unchanged removed v).1 m
        (NamespaceViews.collectLoop m limit unchanged removed v).2.1 := by
  induction limit generalizing unchanged removed v with
  | zero => exact ⟨hs, hl, rfl, rfl, hcovered⟩
  | succ limit ih =>
    unfold NamespaceViews.collectLoop
    split
    · exact ⟨hs, hl, rfl, rfl, hcovered⟩
    · next hunchanged =>
      obtain ⟨unchanged, rfl⟩ := Nat.exists_eq_succ_of_ne_zero hunchanged
      split
      · next hempty =>
        rw [hempty, List.length_nil] at hle
        omega
      · next slot rest hcandidates =>
        split
        · next v₁ hexamine =>
          have h := examine_spec hs hl hcandidates hexamine
          obtain ⟨hs', hl', hgeneration, hresolved, hcovered'⟩ := ih v₁.candidates.length (removed + 1)
            h.sound h.listed le_rfl (h.listed.covered h.sound)
          exact ⟨hs', hl', hgeneration.trans h.generation, hresolved.trans h.resolved, hcovered'⟩
        · next v₁ hexamine =>
          have h := examine_spec hs hl hcandidates hexamine
          obtain ⟨hle', hcov⟩ := h.covered hcandidates hle hcovered
          obtain ⟨hs', hl', hgeneration, hresolved, hcovered'⟩ := ih unchanged removed h.sound h.listed
            hle' hcov
          exact ⟨hs', hl', hgeneration.trans h.generation, hresolved.trans h.resolved, hcovered'⟩

/-- The states the collector goes through, one for each turn. -/
def collectPhases (m : Memory) : Nat → Nat → NamespaceViews → List NamespaceViews
  | 0, _, v => [v]
  | limit + 1, unchanged, v =>
    if unchanged = 0 then [v]
    else
      match v.candidates with
      | [] => [v]
      | slot :: rest =>
        match { v with candidates := rest }.examine m slot with
        | (v', true) => v :: collectPhases m limit v'.candidates.length v'
        | (v', false) => v :: collectPhases m limit (unchanged - 1) v'

/-- Every entry of `a` is still in `b`, or it was removed because nothing could name it. -/
def Retires (m : Memory) (a b : NamespaceViews) : Prop :=
  ∀ i e, a.entries.get i = some e →
    (∃ f, b.entries.get i = some f ∧ f.generation = e.generation) ∨ Retirable a m i e

theorem Retires.of_shape (h : v.SameShape v') : Retires m v v' := by
  intro i e he
  obtain ⟨f, hf, _, hgeneration⟩ := h.symm.get he
  exact .inl ⟨f, hf, hgeneration⟩

theorem Examined.retires {slot : Slot} {rest : List Slot} {removed : Bool}
    (h : Examined v v' m slot rest removed) : Retires m v v' := by
  cases removed with
  | false => exact .of_shape (h.kept rfl).1
  | true =>
    obtain ⟨e, he, hretirable, hget⟩ := h.retired rfl
    intro i f hf
    by_cases hi : i = slot.1
    · subst hi
      rw [he] at hf
      cases hf
      exact .inr hretirable
    · exact .inl ⟨f, by rw [hget, if_neg hi]; exact hf, rfl⟩

theorem collectPhases_cons (m : Memory) (limit unchanged : Nat) (v : NamespaceViews) :
    ∃ rest, collectPhases m limit unchanged v = v :: rest := by
  cases limit with
  | zero => exact ⟨[], rfl⟩
  | succ limit =>
    unfold collectPhases
    split
    · exact ⟨[], rfl⟩
    · split
      · exact ⟨[], rfl⟩
      · split <;> exact ⟨_, rfl⟩

/-- In every turn of the collector, only what nothing can name is removed. -/
theorem collectPhases_retires (limit unchanged : Nat) (hs : Sound v m) (hl : Listed v m) :
    (collectPhases m limit unchanged v).IsChain (Retires m) := by
  induction limit generalizing unchanged v with
  | zero => exact .singleton _
  | succ limit ih =>
    have hnext : ∀ v₁ unchanged', Sound v₁ m → Listed v₁ m → Retires m v v₁ →
        (v :: collectPhases m limit unchanged' v₁).IsChain (Retires m) := by
      intro v₁ unchanged' hs₁ hl₁ hretires
      have hchain := ih unchanged' hs₁ hl₁
      obtain ⟨rest, hrest⟩ := collectPhases_cons m limit unchanged' v₁
      rw [hrest] at hchain ⊢
      exact .cons_cons hretires hchain
    unfold collectPhases
    split
    · exact .singleton _
    · split
      · exact .singleton _
      · next slot rest hcandidates =>
        split
        · next v₁ hexamine =>
          have h := examine_spec hs hl hcandidates hexamine
          exact hnext v₁ _ h.sound h.listed h.retires
        · next v₁ hexamine =>
          have h := examine_spec hs hl hcandidates hexamine
          exact hnext v₁ _ h.sound h.listed h.retires

/-- The last of the states is the one the collector leaves. -/
theorem collectPhases_getLast (limit unchanged removed : Nat) (v : NamespaceViews) :
    (collectPhases m limit unchanged v).getLast? =
      some (NamespaceViews.collectLoop m limit unchanged removed v).1 := by
  induction limit generalizing unchanged removed v with
  | zero => rfl
  | succ limit ih =>
    have hlast : ∀ v₁ unchanged' removed',
        (v :: collectPhases m limit unchanged' v₁).getLast? =
          some (NamespaceViews.collectLoop m limit unchanged' removed' v₁).1 := by
      intro v₁ unchanged' removed'
      obtain ⟨rest, hrest⟩ := collectPhases_cons m limit unchanged' v₁
      rw [← ih unchanged' removed' v₁, hrest, List.getLast?_cons_cons]
    unfold collectPhases NamespaceViews.collectLoop
    by_cases hunchanged : unchanged = 0
    · simp only [hunchanged, if_true]
      rfl
    · simp only [if_neg hunchanged]
      cases hcandidates : v.candidates with
      | nil => rfl
      | cons slot rest =>
        simp only
        cases hexamine : ({ v with candidates := rest } : NamespaceViews).examine m slot with
        | mk v₁ removed₁ =>
          cases removed₁ with
          | true => exact hlast _ _ _
          | false => exact hlast _ _ _

/-! ## Parent chains -/

/-- The parent chain of an inode consists of resident folders and ends at the root. -/
inductive Rooted (v : NamespaceViews) : Nat → Prop where
  | root : Rooted v 1
  | child {i : Nat} {e p : Entry} : v.entries.get i = some e →
      v.entries.get e.view.parent = some p → p.view.kind = .folder →
      Rooted v e.view.parent → Rooted v i

/-- Every entry has its parent chain. -/
def Chained (v : NamespaceViews) : Prop := ∀ i e, v.entries.get i = some e → Rooted v i

theorem Rooted.of_shape (hshape : v.SameShape v') {i : Nat} (h : Rooted v i) : Rooted v' i := by
  induction h with
  | root => exact .root
  | child he hp hkind _ ih =>
    obtain ⟨e', he', hview, _⟩ := hshape.symm.get he
    obtain ⟨p', hp', hview', _⟩ := hshape.symm.get hp
    rw [← hview] at hp' ih
    exact .child he' hp' (by rw [hview']; exact hkind) ih

theorem Chained.of_shape (h : Chained v) (hshape : v.SameShape v') : Chained v' := by
  intro i e he
  obtain ⟨e₀, he₀, _⟩ := hshape.get he
  exact (h i e₀ he₀).of_shape hshape

/-- Retiring an entry that no other has as its parent keeps the chains of the others. -/
theorem Chained.erase (h : Chained v) (hs : Sound v m) {i : Nat} {e : Entry}
    (he : v.entries.get i = some e) (hretirable : Retirable v m i e)
    (hget : ∀ k, v'.entries.get k = if k = i then none else v.entries.get k) : Chained v' := by
  have hrooted : ∀ k, Rooted v k → k ≠ i → Rooted v' k := by
    intro k hk
    induction hk with
    | root => exact fun _ => .root
    | @child k f p hf hp hkind _ ih =>
      intro hne
      by_cases hone : k = 1
      · rw [hone]
        exact .root
      · have hparent : f.view.parent ≠ i := by
          intro hparent
          obtain ⟨p', hp', hlease⟩ := hs.lease hone hf
          rw [hparent, he] at hp'
          cases hp'
          exact hretirable.children k f hf hlease
        exact .child (by rw [hget, if_neg hne]; exact hf) (by rw [hget, if_neg hparent]; exact hp)
          hkind (ih hparent)
  intro k f hf
  rw [hget] at hf
  split at hf
  · cases hf
  · next hne => exact hrooted k (h k f hf) hne

/-- The collector keeps the parent chains. -/
theorem collectLoop_chained (limit unchanged removed : Nat) (hs : Sound v m) (hl : Listed v m)
    (h : Chained v) : Chained (NamespaceViews.collectLoop m limit unchanged removed v).1 := by
  induction limit generalizing unchanged removed v with
  | zero => exact h
  | succ limit ih =>
    unfold NamespaceViews.collectLoop
    split
    · exact h
    · split
      · exact h
      · next slot rest hcandidates =>
        split
        · next v₁ hexamine =>
          have hexamined := examine_spec hs hl hcandidates hexamine
          obtain ⟨e, he, hretirable, hget⟩ := hexamined.retired rfl
          exact ih _ _ hexamined.sound hexamined.listed (h.erase hs he hretirable hget)
        · next v₁ hexamine =>
          have hexamined := examine_spec hs hl hcandidates hexamine
          exact ih _ _ hexamined.sound hexamined.listed (h.of_shape (hexamined.kept rfl).1)

end Cirrove.Views
