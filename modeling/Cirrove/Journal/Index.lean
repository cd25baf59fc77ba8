import Cirrove.Journal.Namespace
import Cirrove.Library.Runs

/-!
# The indexes of the local names

`namespace_entries` and `namespace_remote` are determined by the bodies of the objects: a row for
every object that has a name of its own, and a row for every cloud item that an object owns. So no
name and no cloud item belongs to two objects. `namespace::save` rewrites the rows of one object
and keeps this (`Indexed.store`).
-/

namespace Cirrove.Journal

open Cirrove.Library

/-- The indexes say what the objects say. -/
structure Namespace.Indexed (lowercase : String → String) (n : Namespace) : Prop where
  key : ∀ {id row}, n.objects.get id = some row → row.body.id = id
  names : ∀ {id row}, n.objects.get id = some row →
    n.scopes.get row.body.scope = some row.body.names
  entries : ∀ slot id, n.entries.get slot = some id ↔ ∃ row, n.objects.get id = some row ∧
    row.body.unlinked = false ∧ row.body.followsRemote = false ∧
    row.body.slot lowercase = some slot
  remote : ∀ item id, n.remote.get item = some id ↔ ∃ row r, n.objects.get id = some row ∧
    row.body.remoteOwned = true ∧ row.body.remote = some r ∧ item = (row.body.scope, r.id)
  operations : ∀ {p id}, n.operations.get p = some id → (n.objects.get id).isSome = true
  owned : ∀ {id row}, n.objects.get id = some row →
    row.body.remoteOwned = true ∨ row.body.unlinked = true
  follows : ∀ {id row}, n.objects.get id = some row → row.body.followsRemote = true →
    row.body.unlinked = false ∧ row.body.workingFile = none ∧ row.body.latest = none ∧
    row.body.remote.isSome = true
  working : ∀ {a b x y}, n.objects.get a = some x → n.objects.get b = some y →
    x.body.workingFile.isSome = true → x.body.workingFile = y.body.workingFile → a = b
  placed : ∀ {id row}, n.objects.get id = some row → row.body.node.parentId.isSome = true

/-- The names after an object was stored. -/
structure Stored (lowercase : String → String) (n n' : Namespace) (o : NamespaceObject) :
    Prop where
  self : n'.objects.get o.id =
    some ⟨((n.objects.get o.id).map ObjectRow.identity).getD (o.scope, o.node.id), o⟩
  others : ∀ id, id ≠ o.id → n'.objects.get id = n.objects.get id
  operations : ∀ p id, n.operations.get p = some id → n'.operations.get p = some id
  latest : ∀ p, o.latest = some p → n'.operations.get p = some o.id
  owners : ∀ p, o.latest ≠ some p → n'.operations.get p = n.operations.get p
  scopes : n'.scopes = n.scopes
  policy : ∀ names, n.scopes.get o.scope = some names → o.names = names
  owned : o.remoteOwned = true ∨ o.unlinked = true
  follows : o.followsRemote = true → o.unlinked = false ∧ o.workingFile = none ∧ o.latest = none ∧
    o.remote.isSome = true
  working : o.workingFile.isSome = true → ∀ id row, id ≠ o.id → n.objects.get id = some row →
    row.body.id = id → row.body.workingFile ≠ o.workingFile
  slot : ∃ slot, o.slot lowercase = some slot
  entries : ∀ slot id, n'.entries.get slot = some id ↔
    (id ≠ o.id ∧ n.entries.get slot = some id) ∨
      (id = o.id ∧ o.unlinked = false ∧ o.followsRemote = false ∧ o.slot lowercase = some slot)
  remote : ∀ item id, n'.remote.get item = some id ↔
    (id ≠ o.id ∧ n.remote.get item = some id) ∨
      (id = o.id ∧ o.remoteOwned = true ∧ ∃ r, o.remote = some r ∧ item = (o.scope, r.id))

/-- Rewriting the rows of one object in an index. -/
theorem get_reindex {K : Type} [DecidableEq K] (t : Table K Uuid) (o : Uuid) (key : Option K)
    (hfree : ∀ k, key = some k → (t.get k).any (· ≠ o) = false) (k : K) (id : Uuid) :
    (match key with
      | some x => (t.deleteWhere (fun _ object => object = o)).set x o
      | none => t.deleteWhere (fun _ object => object = o)).get k = some id ↔
    (id ≠ o ∧ t.get k = some id) ∨ (id = o ∧ key = some k) := by
  have hdeleted : (t.deleteWhere (fun _ object => object = o)).get k = some id ↔
      id ≠ o ∧ t.get k = some id := by
    rw [Table.get_deleteWhere_eq_some_iff, decide_eq_false_iff_not, and_comm]
  cases key with
  | none =>
    simp only [hdeleted, reduceCtorEq, and_false, or_false]
  | some x =>
    simp only [Table.get_set]
    split
    · next hk =>
      subst hk
      have hfree := hfree k rfl
      simp only [Option.some.injEq, and_true]
      constructor
      · rintro rfl
        exact .inr rfl
      · rintro (⟨hne, hget⟩ | rfl)
        · -- The key was free, or it was the object's own.
          rw [hget] at hfree
          simp [hne] at hfree
        · rfl
    · next hk =>
      have hne : x ≠ k := fun heq => hk heq.symm
      simp only [hdeleted, Option.some.injEq, hne, and_false, or_false]

theorem save_stored {n n' : Namespace} {lowercase : String → String} {o : NamespaceObject}
    (h : n.save lowercase o = .ok n') : Stored lowercase n n' o := by
  unfold Namespace.save at h
  obtain ⟨_, _, h⟩ := bind_eq_ok h
  obtain ⟨_, howned, h⟩ := bind_eq_ok h
  obtain ⟨_, hfollows, h⟩ := bind_eq_ok h
  obtain ⟨names, hpolicy, h⟩ := bind_eq_ok h
  obtain ⟨_, hnames, h⟩ := bind_eq_ok h
  rw [check_eq_ok] at howned hfollows hnames
  rw [decide_eq_true_eq] at hnames
  cases hparent : o.node.parentId with
  | none =>
    simp only [hparent] at h
    cases h
  | some parent =>
    simp only [hparent] at h
    obtain ⟨slot, hslot, h⟩ := bind_eq_ok h
    obtain ⟨_, hoccupied, h⟩ := bind_eq_ok h
    obtain ⟨_, _, h⟩ := bind_eq_ok h
    obtain ⟨_, hworking, h⟩ := bind_eq_ok h
    obtain ⟨_, hremote, h⟩ := bind_eq_ok h
    obtain ⟨_, howner, h⟩ := bind_eq_ok h
    rw [check_eq_ok] at hoccupied hworking hremote howner
    cases h
    -- The slot is the one the object itself would name.
    have hself : o.slot lowercase = some slot := by
      unfold Namespace.entrySlot at hslot
      rw [hpolicy] at hslot
      cases hslot
      rw [NamespaceObject.slot, hparent, hnames]
      rfl
    refine ⟨Table.get_set_self _ _ _, fun id hid => Table.get_set_of_ne _ _ hid, ?_, ?_, ?_, rfl,
      ?_, ?_, ?_, ?_, ⟨slot, hself⟩, ?_, ?_⟩
    · intro p id hp
      simp only [Namespace.write]
      cases hlatest : o.latest with
      | none => exact hp
      | some operation =>
        simp only [Table.get_set]
        split
        · next hsame =>
          -- The owner of an operation never changes.
          rw [hsame] at hp
          simpa [hlatest, hp, eq_comm] using howner
        · exact hp
    · intro p hp
      simp only [Namespace.write, hp, Table.get_set_self]
    · intro p hp
      simp only [Namespace.write]
      cases hlatest : o.latest with
      | none => rfl
      | some operation =>
        have hne : p ≠ operation := by
          rintro rfl
          exact hp hlatest
        simp only [Table.get_set_of_ne _ _ hne]
    · intro configured hconfigured
      unfold Namespace.policy at hpolicy
      rw [hconfigured] at hpolicy
      cases hpolicy
      exact hnames
    · simpa using howned
    · intro hf
      simpa [hf, Option.isSome_iff_ne_none, and_assoc] using hfollows
    · intro hsome id row hne hrow hid heq
      simp only [Bool.or_eq_true, Option.isNone_iff_eq_none, List.all_eq_true] at hworking
      rcases hworking with hnone | hall
      · rw [hnone] at hsome
        cases hsome
      · have hmem : row.body ∈ n.allObjects := (Table.mem_select _ _ _).mpr ⟨id, row, hrow, rfl⟩
        have hboth := hall row.body hmem
        simp only [hid, decide_eq_true_eq, ne_eq, heq, not_true, decide_false] at hboth
        exact hne (hboth.resolve_right Bool.false_ne_true)
    · intro s id
      have hiff := get_reindex n.entries o.id
        (if o.followsRemote || o.unlinked then none else some slot) (by
          intro k hk
          split at hk
          · cases hk
          · next hkeeps =>
            cases hk
            simp only [Bool.or_eq_true, not_or, Bool.not_eq_true] at hkeeps
            simpa [hkeeps.1, hkeeps.2] using hoccupied) s id
      simp only [Namespace.write]
      split
      · next hflags =>
        rw [if_pos hflags] at hiff
        refine hiff.trans (or_congr_right ?_)
        constructor
        · rintro ⟨_, hnone⟩
          cases hnone
        · rintro ⟨_, hlinked, hown, _⟩
          simp [hlinked, hown] at hflags
      · next hflags =>
        rw [if_neg hflags] at hiff
        simp only [Bool.or_eq_true, not_or, Bool.not_eq_true] at hflags
        refine hiff.trans (or_congr_right ?_)
        rw [hself]
        simp [hflags.1, hflags.2]
    · intro item id
      cases hown : o.remoteOwned with
      | false =>
        have hiff := get_reindex n.remote o.id none (fun _ hk => by cases hk) item id
        simp only [Namespace.write, hown]
        refine hiff.trans (or_congr_right ?_)
        simp
      | true =>
        cases hr : o.remote with
        | none =>
          have hiff := get_reindex n.remote o.id none (fun _ hk => by cases hk) item id
          simp only [Namespace.write, hown, hr]
          refine hiff.trans (or_congr_right ?_)
          simp
        | some r =>
          have hiff := get_reindex n.remote o.id (some (o.scope, r.id)) (by
            intro k hk
            cases hk
            simpa [hown, hr] using hremote) item id
          simp only [Namespace.write, hown, hr]
          refine hiff.trans (or_congr_right ?_)
          simp [eq_comm]

/-- Storing an object keeps the indexes. -/
theorem Namespace.Indexed.store {lowercase : String → String} {n n' : Namespace}
    {o : NamespaceObject} (h : n.Indexed lowercase) (hstored : Stored lowercase n n' o)
    (hscope : (n.scopes.get o.scope).isSome = true) : n'.Indexed lowercase := by
  have hcases : ∀ {id row}, n'.objects.get id = some row →
      (id = o.id ∧ row.body = o) ∨ (id ≠ o.id ∧ n.objects.get id = some row) := by
    intro id row hrow
    by_cases hid : id = o.id
    · subst hid
      rw [hstored.self] at hrow
      cases hrow
      exact .inl ⟨rfl, rfl⟩
    · rw [hstored.others id hid] at hrow
      exact .inr ⟨hid, hrow⟩
  constructor
  · intro id row hrow
    rcases hcases hrow with ⟨rfl, hbody⟩ | ⟨_, hold⟩
    · rw [hbody]
    · exact h.key hold
  · intro id row hrow
    rw [hstored.scopes]
    rcases hcases hrow with ⟨_, hbody⟩ | ⟨_, hold⟩
    · obtain ⟨names, hnames⟩ := Option.isSome_iff_exists.mp hscope
      rw [hbody, hstored.policy names hnames, hnames]
    · exact h.names hold
  · intro slot id
    rw [hstored.entries, h.entries]
    constructor
    · rintro (⟨hne, row, hrow, hrest⟩ | ⟨rfl, hrest⟩)
      · exact ⟨row, by rw [hstored.others id hne]; exact hrow, hrest⟩
      · exact ⟨_, hstored.self, hrest⟩
    · rintro ⟨row, hrow, hrest⟩
      rcases hcases hrow with ⟨rfl, hbody⟩ | ⟨hne, hold⟩
      · rw [hbody] at hrest
        exact .inr ⟨rfl, hrest⟩
      · exact .inl ⟨hne, row, hold, hrest⟩
  · intro item id
    rw [hstored.remote, h.remote]
    constructor
    · rintro (⟨hne, row, r, hrow, hrest⟩ | ⟨rfl, hown, r, hr, hitem⟩)
      · exact ⟨row, r, by rw [hstored.others id hne]; exact hrow, hrest⟩
      · exact ⟨_, r, hstored.self, hown, hr, hitem⟩
    · rintro ⟨row, r, hrow, hown, hr, hitem⟩
      rcases hcases hrow with ⟨rfl, hbody⟩ | ⟨hne, hold⟩
      · rw [hbody] at hown hr hitem
        exact .inr ⟨rfl, hown, r, hr, hitem⟩
      · exact .inl ⟨hne, row, r, hold, hown, hr, hitem⟩
  · intro p id hp
    by_cases hlatest : o.latest = some p
    · rw [hstored.latest p hlatest] at hp
      cases hp
      rw [hstored.self]
      rfl
    · rw [hstored.owners p hlatest] at hp
      by_cases hid : id = o.id
      · rw [hid, hstored.self]
        rfl
      · rw [hstored.others id hid]
        exact h.operations hp
  · intro id row hrow
    rcases hcases hrow with ⟨_, hbody⟩ | ⟨_, hold⟩
    · rw [hbody]
      exact hstored.owned
    · exact h.owned hold
  · intro id row hrow
    rcases hcases hrow with ⟨_, hbody⟩ | ⟨_, hold⟩
    · rw [hbody]
      exact hstored.follows
    · exact h.follows hold
  · intro a b x y hx hy hsome hsame
    rcases hcases hx with ⟨rfl, hbx⟩ | ⟨ha, hoa⟩ <;> rcases hcases hy with ⟨rfl, hby⟩ | ⟨hb, hob⟩
    · rfl
    · rw [hbx] at hsome hsame
      exact absurd hsame.symm (hstored.working hsome b y hb hob (h.key hob))
    · rw [hby] at hsame
      exact absurd hsame (hstored.working (hsame ▸ hsome) a x ha hoa (h.key hoa))
    · exact h.working hoa hob hsome hsame
  · intro id row hrow
    rcases hcases hrow with ⟨_, hbody⟩ | ⟨_, hold⟩
    · obtain ⟨slot, hslot⟩ := hstored.slot
      obtain ⟨parent, hparent, _⟩ := Option.map_eq_some_iff.mp hslot
      rw [hbody, hparent]
      rfl
    · exact h.placed hold

/-- More scopes are configured. -/
theorem Namespace.Indexed.setScopes {lowercase : String → String} {n : Namespace}
    (h : n.Indexed lowercase) {scopes : Table Scope NamespaceNames}
    (hscopes : ∀ scope names, n.scopes.get scope = some names → scopes.get scope = some names) :
    ({ n with scopes := scopes } : Namespace).Indexed lowercase :=
  ⟨h.key, fun hrow => hscopes _ _ (h.names hrow), h.entries, h.remote, h.operations, h.owned,
    h.follows, h.working, h.placed⟩

/-- The owners of some operations are forgotten. -/
theorem Namespace.Indexed.forget {lowercase : String → String} {n : Namespace}
    (h : n.Indexed lowercase) {operations : Table Uuid Uuid}
    (hoperations : ∀ p id, operations.get p = some id → n.operations.get p = some id) :
    ({ n with operations := operations } : Namespace).Indexed lowercase :=
  ⟨h.key, h.names, h.entries, h.remote, fun hp => h.operations (hoperations _ _ hp), h.owned,
    h.follows, h.working, h.placed⟩

end Cirrove.Journal
