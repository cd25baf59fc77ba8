import Cirrove.Store.Staging

/-!
# Point queries of a directory

`directories::child_on` and `directories::child_id_on` answer for one name or one identity
without reading the whole listing. Their queries are the two listing queries with a further
condition in each arm and another order (`name_query`). They agree with the listing:
`lookup_agrees_with_listing`.

## Sections

- the queries
- the first element of a sorted list with a property
- agreement, arm by arm
- the members are distinct, so that the table of previous members can be filled
-/

namespace Cirrove.Store

open Cirrove.Library

variable {s : Store} {scope : Scope} {parent : String}

/-! ## The queries -/

/-- The listing in either mode; `Store::children` is the one that does not require a
    snapshot. -/
def childrenMode (s : Store) (scope : Scope) (parent : String) (requireSnapshot : Bool) :
    Option (List Node) :=
  (s.readSource scope parent requireSnapshot).map fun source =>
    (s.sourceRows scope parent source).insertionSort byNameId

/-- `name_query(SNAPSHOT_CHILDREN)`, before ordering. -/
def snapshotNamed (s : Store) (scope : Scope) (parent name : String) (revision : Nat) :
    List Node :=
  (s.directoryEntries.select fun key body =>
    if key.1 = scope ∧ key.2.1 = parent ∧ body.name = name ∧
        ¬ s.observedAfter scope key.2.2 revision ∧
        ¬ s.absentAfter scope key.2.2 revision then some body else none) ++
  (s.observed.select fun key row =>
    if key.1 = scope ∧ row.body.parentId = some parent ∧ row.body.name = name ∧
        revision < row.sourceRevision ∧
        ¬ s.absentAfter scope key.2 revision then some row.body else none)

/-- `name_query(INDEXED_CHILDREN)`, before ordering. -/
def indexedNamed (s : Store) (scope : Scope) (parent name : String) : List Node :=
  (s.nodes.select fun key body =>
    if key.1 = scope ∧ body.parentId = some parent ∧ body.name = name ∧
        (s.observed.get (scope, key.2)).isNone ∧
        (s.observedAbsent.get (scope, key.2)).isNone then some body else none) ++
  (s.observed.select fun key row =>
    if key.1 = scope ∧ row.body.parentId = some parent ∧ row.body.name = name then
      some row.body else none)

def namedRows (s : Store) (scope : Scope) (parent name : String) : ReadSource → List Node
  | .snapshot revision => s.snapshotNamed scope parent name revision
  | .indexed => s.indexedNamed scope parent name

/-- `ORDER BY id` -/
def byId (a b : Node) : Prop := a.id ≤ b.id

instance : DecidableRel byId := fun a b => by unfold byId; infer_instance

/-- `directories::child_on`. The outer `none` is an unknown directory. -/
def childOn (s : Store) (scope : Scope) (parent name : String) (requireSnapshot : Bool) :
    Option (Option Node) :=
  (s.readSource scope parent requireSnapshot).map fun source =>
    ((s.namedRows scope parent name source).insertionSort byId).head?

/-- The rows of `child_id_on`: one identity in every arm. -/
def identifiedRows (s : Store) (scope : Scope) (parent id : String) : ReadSource → List Node
  | .snapshot revision =>
    (s.directoryEntries.select fun key body =>
      if key.1 = scope ∧ key.2.1 = parent ∧ key.2.2 = id ∧
          ¬ s.observedAfter scope key.2.2 revision ∧
          ¬ s.absentAfter scope key.2.2 revision then some body else none) ++
    (s.observed.select fun key row =>
      if key.1 = scope ∧ key.2 = id ∧ row.body.parentId = some parent ∧
          revision < row.sourceRevision ∧
          ¬ s.absentAfter scope key.2 revision then some row.body else none)
  | .indexed =>
    (s.nodes.select fun key body =>
      if key.1 = scope ∧ key.2 = id ∧ body.parentId = some parent ∧
          (s.observed.get (scope, key.2)).isNone ∧
          (s.observedAbsent.get (scope, key.2)).isNone then some body else none) ++
    (s.observed.select fun key row =>
      if key.1 = scope ∧ key.2 = id ∧ row.body.parentId = some parent then
        some row.body else none)

/-- `directories::child_id_on` with its check of the row it has read. -/
def childIdQuery (s : Store) (scope : Scope) (parent id : String) :
    Except StoreError (Option (Option Node)) :=
  match s.readSource scope parent false with
  | none => .ok none
  | some source =>
    match (s.identifiedRows scope parent id source).head? with
    | none => .ok (some none)
    | some n => if n.id ≠ id then .error .outOfOrder else .ok (some (some n))

/-- `INSERT INTO previous`, whose primary key is the identity. -/
def insertPrevious (previous : Table String Node) (n : Node) :
    Except StoreError (Table String Node) :=
  if (previous.get n.id).isSome then .error .database else .ok (previous.set n.id n)

/-- The visit of the staged publication that fills the table. -/
def previousTable (members : List Node) : Except StoreError (Table String Node) :=
  members.foldlM insertPrevious .empty

/-! ## The first element of a sorted list -/

/-- The elements of a sorted list with one name come in the order of their identities. -/
theorem find?_sorted_eq_head? {rows : List Node} {name : String}
    (hdistinct : (rows.map Node.id).Nodup) :
    (rows.insertionSort byNameId).find? (fun n => n.name = name) =
      ((rows.filter fun n => n.name = name).insertionSort byId).head? := by
  rw [← List.head?_filter]
  have hperm : ((rows.insertionSort byNameId).filter fun n => n.name = name).Perm
      ((rows.filter fun n => n.name = name).insertionSort byId) :=
    ((List.perm_insertionSort byNameId rows).filter _).trans
      (List.perm_insertionSort byId _).symm
  -- Among elements of one name the two orders are the same.
  have hsorted : ((rows.insertionSort byNameId).filter fun n => n.name = name).Pairwise byId := by
    have hpairs := (List.pairwise_insertionSort byNameId rows).filter (fun n => n.name = name)
    refine hpairs.imp_of_mem ?_
    intro a b ha hb hab
    have hname : a.name = b.name := by
      have haname : a.name = name := by simpa using (List.mem_filter.mp ha).2
      have hbname : b.name = name := by simpa using (List.mem_filter.mp hb).2
      exact haname.trans hbname.symm
    rcases hab with hlt | ⟨_, hid⟩
    · exact absurd hlt (hname ▸ lt_irrefl _)
    · exact hid
  have hids : (((rows.filter fun n => n.name = name).insertionSort byId).map Node.id).Nodup :=
    ((List.perm_insertionSort byId _).map Node.id).nodup_iff.mpr
      (hdistinct.sublist (List.filter_sublist.map Node.id))
  congr 1
  have : Std.Total byId := ⟨fun a b => le_total a.id b.id⟩
  have : IsTrans Node byId := ⟨fun _ _ _ hab hbc => le_trans hab hbc⟩
  refine hperm.eq_of_pairwise ?_ hsorted (List.pairwise_insertionSort byId _)
  intro a b ha hb hab hba
  exact List.inj_on_of_nodup_map hids (hperm.subset ha) hb (le_antisymm hab hba)

/-! ## Arm by arm -/

theorem sourceRows_nodup (hkeys : WellKeyed s) (source : ReadSource) :
    ((s.sourceRows scope parent source).map Node.id).Nodup := by
  cases source with
  | snapshot revision => exact snapshotRows_nodup hkeys revision
  | indexed => exact indexedRows_nodup hkeys

/-- Rows selected under a further condition are the selected rows that satisfy it. -/
theorem filter_select {K V β : Type*} [DecidableEq K] (t : Table K V) {c c' : K → V → Prop}
    [∀ k v, Decidable (c k v)] [∀ k v, Decidable (c' k v)] {body : K → V → β} {p : β → Bool}
    (h : ∀ k v, t.get k = some v → (c' k v ↔ c k v ∧ p (body k v) = true)) :
    (t.select fun k v => if c k v then some (body k v) else none).filter p =
      t.select fun k v => if c' k v then some (body k v) else none := by
  unfold Table.select
  rw [List.filter_filterMap]
  apply List.filterMap_congr
  intro row hrow
  have hget := (Table.mem_rows _ _ _).mp hrow
  have hiff := h row.1 row.2 hget
  show Option.filter p (if c row.1 row.2 then some (body row.1 row.2) else none) =
    if c' row.1 row.2 then some (body row.1 row.2) else none
  by_cases hc : c row.1 row.2
  · by_cases hp : p (body row.1 row.2) = true
    · rw [if_pos hc, if_pos (hiff.mpr ⟨hc, hp⟩), Option.filter_some_pos hp]
    · rw [if_pos hc, if_neg (fun hc' => hp (hiff.mp hc').2), Option.filter_some_neg (by simpa using hp)]
  · rw [if_neg hc, if_neg (fun hc' => hc (hiff.mp hc').1), Option.filter_none]

/-- A condition on the name can be asked in every arm. -/
theorem filter_name_sourceRows (name : String) (source : ReadSource) :
    (s.sourceRows scope parent source).filter (fun n => n.name = name) =
      s.namedRows scope parent name source := by
  cases source with
  | snapshot revision =>
    show List.filter _ (_ ++ _) = _ ++ _
    rw [List.filter_append]
    congr 1
    · apply filter_select
      intro key body _
      simp only [decide_eq_true_eq]
      tauto
    · apply filter_select
      intro key row _
      simp only [decide_eq_true_eq]
      tauto
  | indexed =>
    show List.filter _ (_ ++ _) = _ ++ _
    rw [List.filter_append]
    congr 1
    · apply filter_select
      intro key body _
      simp only [decide_eq_true_eq]
      tauto
    · apply filter_select
      intro key row _
      simp only [decide_eq_true_eq]
      tauto

/-- Rows carry their identity, so it can be asked of the body or of the key. -/
theorem filter_id_sourceRows (hkeys : WellKeyed s) (id : String) (source : ReadSource) :
    (s.sourceRows scope parent source).filter (fun n => n.id = id) =
      s.identifiedRows scope parent id source := by
  cases source with
  | snapshot revision =>
    show List.filter _ (_ ++ _) = _ ++ _
    rw [List.filter_append]
    congr 1
    · apply filter_select
      rintro ⟨sc, p, key⟩ body hget
      simp only [decide_eq_true_eq, hkeys.entries _ _ _ _ hget]
      tauto
    · apply filter_select
      rintro ⟨sc, key⟩ row hget
      simp only [decide_eq_true_eq, hkeys.observed _ _ _ hget]
      tauto
  | indexed =>
    show List.filter _ (_ ++ _) = _ ++ _
    rw [List.filter_append]
    congr 1
    · apply filter_select
      rintro ⟨sc, key⟩ body hget
      simp only [decide_eq_true_eq, hkeys.nodes _ _ _ hget]
      tauto
    · apply filter_select
      rintro ⟨sc, key⟩ row hget
      simp only [decide_eq_true_eq, hkeys.observed _ _ _ hget]
      tauto

/-! ## Agreement -/

theorem childOn_eq (hkeys : WellKeyed s) (name : String) (requireSnapshot : Bool) :
    s.childOn scope parent name requireSnapshot =
      (s.childrenMode scope parent requireSnapshot).map
        fun nodes => nodes.find? (fun n => n.name = name) := by
  unfold childOn childrenMode
  rw [Option.map_map]
  congr 1
  funext source
  show _ = ((s.sourceRows scope parent source).insertionSort byNameId).find? _
  rw [find?_sorted_eq_head? (sourceRows_nodup hkeys source), filter_name_sourceRows]

/-- A member is found by its identity in any order. -/
theorem find?_id_sorted {rows : List Node} (hdistinct : (rows.map Node.id).Nodup) (id : String) :
    (rows.insertionSort byNameId).find? (fun n => n.id = id) =
      rows.find? (fun n => n.id = id) := by
  have hperm := List.perm_insertionSort byNameId rows
  apply Option.ext
  intro n
  rw [find?_id_iff ((hperm.map Node.id).nodup_iff.mpr hdistinct), find?_id_iff hdistinct,
    hperm.mem_iff]

theorem childIdQuery_eq (hkeys : WellKeyed s) (id : String) :
    s.childIdQuery scope parent id =
      .ok ((s.childrenOn scope parent).map fun nodes => nodes.find? (fun n => n.id = id)) := by
  unfold childIdQuery childrenOn
  cases s.readSource scope parent false with
  | none => rfl
  | some source =>
    have hhead : (s.identifiedRows scope parent id source).head? =
        ((s.sourceRows scope parent source).insertionSort byNameId).find? (fun n => n.id = id) := by
      rw [find?_id_sorted (sourceRows_nodup hkeys source), ← filter_id_sourceRows hkeys,
        List.head?_filter]
    simp only [Option.map_some, hhead]
    cases hfind : ((s.sourceRows scope parent source).insertionSort byNameId).find?
        (fun n => n.id = id) with
    | none => rfl
    | some n =>
      have hid : n.id = id := by simpa using List.find?_some hfind
      simp [hid]

/-- The check of `child_id_on` never fires, and the handoffs see the member itself. -/
theorem childIdQuery_eq_childIdOn (hkeys : WellKeyed s) (id : String) :
    s.childIdQuery scope parent id = .ok (s.childIdOn scope parent id) := by
  rw [childIdQuery_eq hkeys]
  unfold childrenOn childIdOn
  rw [Option.map_map]
  congr 2
  funext source
  exact find?_id_sorted (sourceRows_nodup hkeys source) id

/-! ## The table of previous members -/

theorem foldlM_insertPrevious {members : List Node} {previous : Table String Node}
    (hdistinct : (members.map Node.id).Nodup)
    (habsent : ∀ n ∈ members, previous.get n.id = none) :
    ∃ filled, members.foldlM insertPrevious previous = .ok filled ∧
      ∀ id, filled.get id = (members.find? (fun n => n.id = id)).or (previous.get id) := by
  induction members generalizing previous with
  | nil => exact ⟨previous, rfl, fun id => rfl⟩
  | cons n rest ih =>
    rw [List.map_cons, List.nodup_cons] at hdistinct
    have hinsert : insertPrevious previous n = .ok (previous.set n.id n) := by
      simp [insertPrevious, habsent n List.mem_cons_self]
    have hrest : ∀ m ∈ rest, (previous.set n.id n).get m.id = none := by
      intro m hm
      have hne : m.id ≠ n.id := fun heq => hdistinct.1 (heq ▸ List.mem_map_of_mem hm)
      rw [Table.get_set_of_ne _ _ hne]
      exact habsent m (List.mem_cons_of_mem _ hm)
    obtain ⟨filled, hfilled, hget⟩ := ih hdistinct.2 hrest
    refine ⟨filled, ?_, ?_⟩
    · rw [List.foldlM_cons, hinsert]
      exact hfilled
    · intro id
      rw [hget id, List.find?_cons]
      by_cases hid : n.id = id
      · subst hid
        have hnone : rest.find? (fun m => m.id = n.id) = none := by
          rw [List.find?_eq_none]
          intro m hm hsame
          exact hdistinct.1 ((of_decide_eq_true hsame) ▸ List.mem_map_of_mem hm)
        simp [hnone]
      · rw [Table.get_set_of_ne _ _ (Ne.symm hid)]
        simp [hid]

/-- Filling the table of previous members never meets an identity twice. -/
theorem previousTable_ok {members : List Node} (hdistinct : (members.map Node.id).Nodup) :
    ∃ filled, previousTable members = .ok filled ∧
      ∀ id, filled.get id = members.find? (fun n => n.id = id) := by
  obtain ⟨filled, hfilled, hget⟩ := foldlM_insertPrevious hdistinct
    (fun n (_ : n ∈ members) => Table.get_empty n.id)
  exact ⟨filled, hfilled, fun id => by simpa using hget id⟩

/-! ## Point queries beside the listing -/

/-- In every reachable state the point queries agree with the listing, which is ordered,
    lists no identity twice and fills the table of previous members. -/
theorem lookup_agrees_with_listing {w : World} (h : Reachable w) (scope : Scope)
    (parent name id : String) (requireSnapshot : Bool) :
    w.store.childOn scope parent name requireSnapshot =
        (w.store.childrenMode scope parent requireSnapshot).map
          (fun nodes => nodes.find? (fun n => n.name = name)) ∧
      w.store.childIdQuery scope parent id =
        .ok ((w.store.childrenMode scope parent false).map
          (fun nodes => nodes.find? (fun n => n.id = id))) ∧
      ∀ nodes, w.store.childrenMode scope parent requireSnapshot = some nodes →
        nodes.Pairwise byNameId ∧ (nodes.map Node.id).Nodup ∧
          ∃ filled, previousTable nodes = .ok filled := by
  have hkeys := h.inv.sound.keyed
  refine ⟨childOn_eq hkeys name requireSnapshot, childIdQuery_eq hkeys id, ?_⟩
  intro nodes hnodes
  obtain ⟨source, _, rfl⟩ := Option.map_eq_some_iff.mp hnodes
  have hdistinct : (((w.store.sourceRows scope parent source).insertionSort byNameId).map
      Node.id).Nodup :=
    ((List.perm_insertionSort byNameId _).map Node.id).nodup_iff.mpr
      (sourceRows_nodup hkeys source)
  obtain ⟨filled, hfilled, _⟩ := previousTable_ok hdistinct
  exact ⟨List.pairwise_insertionSort byNameId _, hdistinct, filled, hfilled⟩

/-- Two files of one name, listed with the later identity first. -/
def sameName : List Op :=
  [.observeDirectory drive "top"
    [{ fileAt "b" "top" with name := "note" }, { fileAt "a" "top" with name := "note" }]]

/-- Both queries and the listing answer with the file whose identity comes first. -/
theorem lookup_agrees_with_listing_sameName :
    (sameName.foldl World.step (World.create "db")).store.childOn drive "top" "note" false =
        some (some { fileAt "a" "top" with name := "note" }) ∧
      (sameName.foldl World.step (World.create "db")).store.childOn drive "top" "note" false =
        ((sameName.foldl World.step (World.create "db")).store.childrenMode drive "top" false).map
          (fun nodes => nodes.find? (fun n => n.name = "note")) := by
  have hreachable : Reachable (sameName.foldl World.step (World.create "db")) := by
    refine ⟨"db", sameName, Run.extend .start ?_⟩
    refine ⟨.of_ticketless rfl ?_, trivial⟩
    intro n hn
    simp only [List.mem_cons, List.not_mem_nil, or_false] at hn
    rcases hn with rfl | rfl
    · rfl
    · rfl
  exact ⟨rfl, (lookup_agrees_with_listing hreachable drive "top" "note" "a" false).1⟩

end Cirrove.Store
