import Cirrove.Views.Residency

/-!
# Entries and tokens

The invariant of the index. `Sound` is about the entries and the tokens: distinct entries have
distinct tokens, an entry holds the token of its resident parent, and every clone outside holds
the token of its resident entry. `Listed` is about the queue of candidates: what the kernel has
forgotten is queued. A strong count of one therefore means that neither a clone nor a child holds
the entry (`sole_holder`), which is all that removal needs (`Sound.retirable`).
-/

namespace Cirrove.Views

open Cirrove.Library

variable {v v' : NamespaceViews} {m : Memory}

namespace NamespaceViews

/-! ## Counting the holders of a token -/

/-- The entries that two indexes agree on, whatever is queued. -/
def SameShape (v v' : NamespaceViews) : Prop :=
  ∀ i, (v'.entries.get i).map (fun e => (e.view, e.generation)) =
    (v.entries.get i).map (fun e => (e.view, e.generation))

theorem SameShape.get (h : v.SameShape v') {i : Nat} {e : Entry}
    (he : v'.entries.get i = some e) :
    ∃ e₀, v.entries.get i = some e₀ ∧ e₀.view = e.view ∧ e₀.generation = e.generation := by
  have hi := h i
  rw [he, Option.map_some] at hi
  obtain ⟨e₀, he₀, heq⟩ := Option.map_eq_some_iff.mp hi.symm
  rw [Prod.mk.injEq] at heq
  exact ⟨e₀, he₀, heq⟩

theorem SameShape.symm (h : v.SameShape v') : v'.SameShape v := fun i => (h i).symm

theorem SameShape.trans {v₁ : NamespaceViews} (h₁ : v.SameShape v₁) (h₂ : v₁.SameShape v') :
    v.SameShape v' := fun i => (h₂ i).trans (h₁ i)

/-- The strong count does not look at the queue. -/
theorem SameShape.strongCount (h : v.SameShape v') (t : Token) :
    v'.strongCount m t = v.strongCount m t := by
  have htokens : ∀ u : NamespaceViews, u.tokens =
      (u.entries.rows.map (fun row => (row.1, (row.2.view, row.2.generation)))).flatMap
        (fun row => row.2.1.tokens) := by
    intro u
    simp only [tokens, List.flatMap_map]
  have hperm := (Table.rows_map_perm h).flatMap_right (fun row => row.2.1.tokens)
  rw [← htokens, ← htokens] at hperm
  exact (hperm.append_right _).count_eq t

theorem SameShape.reclaimable (h : v.SameShape v') (e : Entry) :
    v'.reclaimable m e = v.reclaimable m e := by
  unfold NamespaceViews.reclaimable
  rw [h.strongCount]

/-- A token with one holder, an entry of the index, has no other. -/
theorem sole_holder {i : Nat} {e : Entry} (he : v.entries.get i = some e)
    (hcount : v.strongCount m e.view.residency = 1) :
    (∀ k f, v.entries.get k = some f → k ≠ i → e.view.residency ∉ f.view.tokens) ∧
      e.view.parentResidency ≠ some e.view.residency ∧
      ∀ c ∈ m.clones, e.view.residency ∉ c.tokens := by
  obtain ⟨before, after, hrows⟩ := List.append_of_mem ((Table.mem_rows _ _ _).mpr he)
  unfold strongCount tokens at hcount
  rw [hrows] at hcount
  simp only [List.flatMap_append, List.flatMap_cons, List.count_append, View.tokens,
    List.count_cons_self] at hcount
  have hzero : ∀ {l : List Token}, l.count e.view.residency = 0 → e.view.residency ∉ l :=
    fun h => List.count_eq_zero.mp h
  refine ⟨?_, ?_, ?_⟩
  · intro k f hf hne hmem
    have hrow : (k, f) ∈ before ++ (i, e) :: after := hrows ▸ (Table.mem_rows _ _ _).mpr hf
    have hbefore := hzero (l := before.flatMap (fun row => row.2.view.tokens))
      (by simp only [View.tokens]; omega)
    have hafter := hzero (l := after.flatMap (fun row => row.2.view.tokens))
      (by simp only [View.tokens]; omega)
    rcases List.mem_append.mp hrow with hin | hin
    · exact hbefore (List.mem_flatMap.mpr ⟨_, hin, hmem⟩)
    · rcases List.mem_cons.mp hin with heq | hin
      · cases heq
        exact hne rfl
      · exact hafter (List.mem_flatMap.mpr ⟨_, hin, hmem⟩)
  · intro hself
    rw [hself] at hcount
    simp only [Option.toList_some, List.count_cons_self, List.count_nil] at hcount
    omega
  · intro c hc hmem
    have hclones := hzero (l := m.clones.flatMap View.tokens) (by omega)
    exact hclones (List.mem_flatMap.mpr ⟨c, hc, hmem⟩)

/-! ## The queue -/

/-- The flag of an entry after it was offered to the queue. -/
theorem get_queue (v : NamespaceViews) (m : Memory) (i k : Nat) :
    (v.queue m i).entries.get k = if k = i then (v.entries.get i).map (fun e =>
      { e with queued := e.queued || (decide (i ≠ 1) && !(m.refs e.view.residency).quarantine) })
    else v.entries.get k := by
  unfold queue
  cases he : v.entries.get i with
  | none =>
    by_cases hk : k = i
    · simp [hk, he]
    · simp [hk]
  | some e =>
    simp only
    split
    · next hguard =>
      simp only [Bool.and_eq_true, Bool.not_eq_true', decide_eq_true_eq] at hguard
      by_cases hk : k = i
      · simp [hk, hguard.1.1, hguard.2]
      · simp [hk, Table.get_set_of_ne]
    · next hguard =>
      by_cases hk : k = i
      · have hflag : (e.queued || (decide (i ≠ 1) && !(m.refs e.view.residency).quarantine)) =
            e.queued := by
          cases hq : e.queued <;> simp_all
        rw [if_pos hk, hk, he, Option.map_some, hflag]
      · rw [if_neg hk]

theorem sameShape_queue (v : NamespaceViews) (m : Memory) (i : Nat) :
    v.SameShape (v.queue m i) := by
  intro k
  rw [get_queue]
  split
  · next hk =>
    rw [hk, Option.map_map]
    rfl
  · rfl

theorem mem_candidates_queue {slot : Slot} (h : slot ∈ v.candidates) (m : Memory) (i : Nat) :
    slot ∈ (v.queue m i).candidates := by
  unfold queue
  split
  · exact h
  · split
    · exact List.mem_append_left _ h
    · exact h

/-- What the queue marks is in it. -/
theorem queued_in_candidates {i : Nat} {e : Entry} (he : v.entries.get i = some e)
    (hflag : e.queued = false) (hi : i ≠ 1)
    (hrefs : (m.refs e.view.residency).quarantine = false) :
    (i, e.generation) ∈ (v.queue m i).candidates := by
  unfold queue
  simp [he, hflag, hi, hrefs]

theorem queue_rest (v : NamespaceViews) (m : Memory) (i : Nat) :
    (v.queue m i).generation = v.generation ∧ (v.queue m i).ceiling = v.ceiling ∧
      (v.queue m i).resolved = v.resolved := by
  unfold queue
  split
  · exact ⟨rfl, rfl, rfl⟩
  · split <;> exact ⟨rfl, rfl, rfl⟩

end NamespaceViews

/-! ## The invariant -/

/-- The entries and the tokens. -/
structure Sound (v : NamespaceViews) (m : Memory) : Prop where
  root : ∃ e, v.entries.get 1 = some e ∧ e.generation = 0
  inode : ∀ {i e}, v.entries.get i = some e → e.view.inode = i
  generation : ∀ {i e}, v.entries.get i = some e → e.generation ≤ v.generation
  allocated : ∀ {i e}, v.entries.get i = some e → e.view.residency.value < m.allocated
  distinct : ∀ {i k e f}, v.entries.get i = some e → v.entries.get k = some f →
    e.view.residency = f.view.residency → i = k
  lease : ∀ {i e}, i ≠ 1 → v.entries.get i = some e →
    ∃ p, v.entries.get e.view.parent = some p ∧ e.view.parentResidency = some p.view.residency
  clones : ∀ c ∈ m.clones, ∃ e, v.entries.get c.inode = some e ∧ e.view.residency = c.residency
  fresh : ∀ t : Token, m.allocated ≤ t.value → m.refs t = .new

/-- The queue of candidates, and the entries the kernel has forgotten. -/
structure Listed (v : NamespaceViews) (m : Memory) : Prop where
  queued : ∀ {i e}, v.entries.get i = some e → e.queued = true → (i, e.generation) ∈ v.candidates
  idle : ∀ {i e}, i ≠ 1 → v.entries.get i = some e → (m.refs e.view.residency).kernel = 0 →
    (m.refs e.view.residency).quarantine = false → e.queued = true

/-- The queue does not matter. -/
theorem Sound.of_shape (h : Sound v m) (hshape : v.SameShape v')
    (hgeneration : v'.generation = v.generation) : Sound v' m where
  root := by
    obtain ⟨e, he, hzero⟩ := h.root
    obtain ⟨e', he', _, hsame⟩ := hshape.symm.get he
    exact ⟨e', he', hsame.trans hzero⟩
  inode := by
    intro i e he
    obtain ⟨e₀, he₀, hview, _⟩ := hshape.get he
    rw [← hview]
    exact h.inode he₀
  generation := by
    intro i e he
    obtain ⟨e₀, he₀, _, hsame⟩ := hshape.get he
    rw [← hsame, hgeneration]
    exact h.generation he₀
  allocated := by
    intro i e he
    obtain ⟨e₀, he₀, hview, _⟩ := hshape.get he
    rw [← hview]
    exact h.allocated he₀
  distinct := by
    intro i k e f he hf heq
    obtain ⟨e₀, he₀, hview, _⟩ := hshape.get he
    obtain ⟨f₀, hf₀, hview', _⟩ := hshape.get hf
    rw [← hview, ← hview'] at heq
    exact h.distinct he₀ hf₀ heq
  lease := by
    intro i e hi he
    obtain ⟨e₀, he₀, hview, _⟩ := hshape.get he
    obtain ⟨p, hp, hlease⟩ := h.lease hi he₀
    obtain ⟨p', hp', hview', _⟩ := hshape.symm.get hp
    rw [hview] at hp' hlease
    exact ⟨p', hp', by rw [hlease, hview']⟩
  clones := by
    intro c hc
    obtain ⟨e, he, heq⟩ := h.clones c hc
    obtain ⟨e', he', hview, _⟩ := hshape.symm.get he
    exact ⟨e', he', by rw [hview]; exact heq⟩
  fresh := h.fresh

/-- What may be retired: the kernel has forgotten it, nothing outside holds its token and no
    resident child leases it. -/
structure Retirable (v : NamespaceViews) (m : Memory) (i : Nat) (e : Entry) : Prop where
  nonroot : i ≠ 1
  kernel : (m.refs e.view.residency).kernel = 0
  trusted : (m.refs e.view.residency).quarantine = false
  clones : ∀ c ∈ m.clones, e.view.residency ∉ c.tokens
  children : ∀ k f, v.entries.get k = some f → f.view.parentResidency ≠ some e.view.residency

theorem Sound.retirable (h : Sound v m) {i : Nat} {e : Entry} (he : v.entries.get i = some e)
    (hreclaimable : v.reclaimable m e = true) : Retirable v m i e := by
  unfold NamespaceViews.reclaimable at hreclaimable
  simp only [Bool.and_eq_true, decide_eq_true_eq, Bool.not_eq_true'] at hreclaimable
  obtain ⟨hothers, hself, hclones⟩ := NamespaceViews.sole_holder he hreclaimable.2
  refine ⟨h.inode he ▸ hreclaimable.1.1.1, hreclaimable.1.1.2, hreclaimable.1.2, hclones, ?_⟩
  intro k f hf hlease
  by_cases hk : k = i
  · subst hk
    rw [he] at hf
    cases hf
    exact hself hlease
  · exact hothers k f hf hk (by simp [View.tokens, hlease])

/-- What nothing can name has one holder, the index. -/
theorem Sound.reclaimable (h : Sound v m) {i : Nat} {e : Entry} (he : v.entries.get i = some e)
    (hretirable : Retirable v m i e) : v.reclaimable m e = true := by
  have hcount : v.strongCount m e.view.residency = 1 := by
    obtain ⟨before, after, hrows⟩ := List.append_of_mem ((Table.mem_rows _ _ _).mpr he)
    have hnodup := Table.rows_keys_nodup v.entries
    rw [hrows, List.map_append, List.map_cons, List.nodup_append'] at hnodup
    obtain ⟨_, hafter, hdisjoint⟩ := hnodup
    have hnone : ∀ rows : List (Nat × Entry), (∀ row ∈ rows, v.entries.get row.1 = some row.2 ∧
        row.1 ≠ i) → (rows.flatMap (fun row => row.2.view.tokens)).count e.view.residency = 0 := by
      intro rows hall
      rw [List.count_eq_zero, List.mem_flatMap]
      rintro ⟨row, hrow, hmem⟩
      obtain ⟨hget, hne⟩ := hall row hrow
      rcases List.mem_cons.mp hmem with heq | hlease
      · exact hne (h.distinct hget he heq.symm)
      · exact hretirable.children _ _ hget (Option.mem_toList.mp hlease)
    have hget : ∀ row ∈ v.entries.rows, v.entries.get row.1 = some row.2 :=
      fun row hrow => (Table.mem_rows _ _ _).mp hrow
    rw [hrows] at hget
    have hself : e.view.parentResidency.toList.count e.view.residency = 0 := by
      rw [List.count_eq_zero, Option.mem_toList]
      exact hretirable.children i e he
    have hclones : (m.clones.flatMap View.tokens).count e.view.residency = 0 := by
      rw [List.count_eq_zero, List.mem_flatMap]
      rintro ⟨c, hc, hmem⟩
      exact hretirable.clones c hc hmem
    unfold NamespaceViews.strongCount NamespaceViews.tokens
    rw [hrows, List.count_append, List.flatMap_append, List.flatMap_cons, List.count_append,
      List.count_append, hnone before, hnone after, hclones]
    · simp only [View.tokens, List.count_cons_self, hself]
    · intro row hrow
      refine ⟨hget row (by simp [hrow]), ?_⟩
      intro heq
      exact (List.nodup_cons.mp hafter).1 (List.mem_map.mpr ⟨row, hrow, heq⟩)
    · intro row hrow
      refine ⟨hget row (by simp [hrow]), ?_⟩
      intro heq
      exact hdisjoint (List.mem_map.mpr ⟨row, hrow, heq⟩) List.mem_cons_self
  unfold NamespaceViews.reclaimable
  simp [h.inode he, hretirable.nonroot, hretirable.kernel, hretirable.trusted, hcount]

/-- Retiring an entry. No other entry has it as its parent. -/
theorem Sound.remove (h : Sound v m) {i : Nat} {e : Entry} (he : v.entries.get i = some e)
    (hretirable : Retirable v m i e) : Sound (v.remove i) m := by
  have hget : ∀ k f, (v.remove i).entries.get k = some f → k ≠ i ∧ v.entries.get k = some f := by
    intro k f hf
    simp only [NamespaceViews.remove, Table.get_erase] at hf
    split at hf
    · cases hf
    · next hk => exact ⟨hk, hf⟩
  have hkept : ∀ k, k ≠ i → (v.remove i).entries.get k = v.entries.get k := by
    intro k hk
    simp only [NamespaceViews.remove, Table.get_erase, if_neg hk]
  constructor
  · obtain ⟨r, hr, hzero⟩ := h.root
    exact ⟨r, by rw [hkept 1 hretirable.nonroot.symm]; exact hr, hzero⟩
  · intro k f hf
    exact h.inode (hget k f hf).2
  · intro k f hf
    exact h.generation (hget k f hf).2
  · intro k f hf
    exact h.allocated (hget k f hf).2
  · intro k l f g hf hg heq
    exact h.distinct (hget k f hf).2 (hget l g hg).2 heq
  · intro k f hk hf
    obtain ⟨_, hf⟩ := hget k f hf
    obtain ⟨p, hp, hlease⟩ := h.lease hk hf
    refine ⟨p, ?_, hlease⟩
    rw [hkept, hp]
    intro hparent
    rw [hparent, he] at hp
    cases hp
    exact hretirable.children k f hf hlease
  · intro c hc
    obtain ⟨f, hf, heq⟩ := h.clones c hc
    refine ⟨f, ?_, heq⟩
    rw [hkept, hf]
    intro hinode
    rw [hinode, he] at hf
    cases hf
    exact hretirable.clones c hc (by simp [View.tokens, heq])
  · exact h.fresh

theorem Listed.remove {i : Nat}
    (hqueued : ∀ {k e}, v.entries.get k = some e → e.queued = true → (k, e.generation) ∈ v.candidates)
    (hidle : ∀ {k e}, k ≠ 1 → k ≠ i → v.entries.get k = some e →
      (m.refs e.view.residency).kernel = 0 → (m.refs e.view.residency).quarantine = false →
      e.queued = true) : Listed (v.remove i) m := by
  constructor
  · intro k f hf hflag
    simp only [NamespaceViews.remove, Table.get_erase] at hf
    split at hf
    · cases hf
    · exact hqueued hf hflag
  · intro k f hk hf
    simp only [NamespaceViews.remove, Table.get_erase] at hf
    split at hf
    · cases hf
    · next hne => exact hidle hk hne hf

/-- Offering an entry to the queue lists it, if nobody has done so. -/
theorem Listed.queue {i : Nat}
    (hqueued : ∀ {k e}, v.entries.get k = some e → e.queued = true → (k, e.generation) ∈ v.candidates)
    (hidle : ∀ {k e}, k ≠ 1 → k ≠ i → v.entries.get k = some e →
      (m.refs e.view.residency).kernel = 0 → (m.refs e.view.residency).quarantine = false →
      e.queued = true) : Listed (v.queue m i) m := by
  constructor
  · intro k f hf hflag
    rw [NamespaceViews.get_queue] at hf
    split at hf
    · next hk =>
      subst hk
      obtain ⟨e, he, rfl⟩ := Option.map_eq_some_iff.mp hf
      simp only at hflag ⊢
      cases hold : e.queued with
      | true => exact NamespaceViews.mem_candidates_queue (hqueued he hold) m k
      | false =>
        rw [hold, Bool.false_or, Bool.and_eq_true, decide_eq_true_eq, Bool.not_eq_true'] at hflag
        exact NamespaceViews.queued_in_candidates he hold hflag.1 hflag.2
    · exact NamespaceViews.mem_candidates_queue (hqueued hf hflag) m i
  · intro k f hk hf hkernel htrusted
    rw [NamespaceViews.get_queue] at hf
    split at hf
    · next hki =>
      subst hki
      obtain ⟨e, he, rfl⟩ := Option.map_eq_some_iff.mp hf
      simp only at htrusted ⊢
      simp [hk, htrusted]
    · next hki => exact hidle hk hki hf hkernel htrusted

end Cirrove.Views
