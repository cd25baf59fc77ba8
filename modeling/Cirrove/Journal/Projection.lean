import Cirrove.Journal.Index

/-!
# The merged directory

`project_namespace` merges what a provider lists in a folder with the local objects of its
scope. An object that is active, or that a local change needs as an ancestor, stands for its
cloud item; another one only lends the item its local identity. Every entry of both sides is
accounted for unless two local entries have one name in the folder, where the map by names
keeps one of them (`merged_listing_accounts_iff`).
-/

namespace Cirrove.Journal

open Cirrove.Library

/-! ## Native archives -/

structure NativeArchiveRole where
  retired : Bool
  backedUp : Bool
  sourceOwner : Uuid
  working : Uuid
  artifact : String
  deriving DecidableEq, Repr

/-- A local object with the role of a native archive, which the other tables do without. -/
structure ArchiveObject extends NamespaceObject where
  nativeArchive : Option NativeArchiveRole := none
  deriving DecidableEq, Repr

/-- `format!("local-native-archive-{id}")` -/
def localNativeArchive (id : Uuid) : String := "local-native-archive-" ++ toString id.value

namespace ArchiveObject

/-- `valid_retired_native_archive` -/
def validRetired (o : ArchiveObject) : Bool :=
  o.nativeArchive.any fun role =>
    role.retired && !role.backedUp && role.working = o.id &&
      o.node.id = localNativeArchive o.id && o.node.kind = .file && !o.node.package &&
      o.node.target.isNone && o.workingFile.isNone && o.latest.isNone && o.remote.isNone &&
      !o.remoteOwned && o.remoteSequence = 0 && !o.followsRemote && o.unlinked

/-- `valid_native_archive_owner` -/
def validOwner (o owner : ArchiveObject) : Bool :=
  o.nativeArchive.any fun role =>
    if role.retired then
      o.validRetired && role.sourceOwner = owner.id && owner.id ≠ o.id && owner.scope = o.scope &&
        owner.nativeArchive.isNone && o.names = owner.names &&
        o.node.parentId = some owner.node.id
    else
      role.sourceOwner = owner.id && owner.id ≠ o.id && owner.scope = o.scope &&
        owner.nativeArchive.isNone && owner.remoteOwned && !owner.unlinked &&
        !owner.followsRemote && owner.workingFile.isNone && owner.node.kind = .folder &&
        owner.node.package && owner.node.target.isNone && o.names = owner.names &&
        o.node.parentId = some owner.node.id &&
        (if role.backedUp then decide (o.node.name ≠ owner.node.name)
          else decide (o.node.name = owner.node.name)) &&
        owner.remote.any fun remote =>
          remote.kind = .folder && remote.package && remote.target.isNone &&
            role.artifact = "icloud-artifact:" ++ remote.id

end ArchiveObject

/-! ## The merge -/

/-- A remote item whose name a local object has. -/
structure NamespaceCollision where
  object : Uuid
  remote : Node
  deriving DecidableEq, Repr

structure NamespaceListing where
  nodes : List Node := []
  conflicts : List NamespaceCollision := []
  deriving DecidableEq, Repr

/-- The maps the objects of a scope are sorted into. -/
structure Sides where
  hidden : List String := []
  derived : Table String (ArchiveObject × ArchiveObject) := .empty
  here : Table String ArchiveObject := .empty
  aliases : Table String String := .empty

section Merge

variable (objects : List ArchiveObject) (retained : Uuid → Bool) (key : String → String)
  (parent : String)

/-- An object stands for its cloud item: it does not follow it, or a local change needs it. -/
def ArchiveObject.stands (o : ArchiveObject) : Bool := !o.followsRemote || retained o.id

/-- The archive an object adds, with its owner. -/
def Sides.deriveArchive (sides : Sides) (o : ArchiveObject) :
    Except JournalError (Table String (ArchiveObject × ArchiveObject)) :=
  match o.nativeArchive with
  | none => .ok sides.derived
  | some role =>
    match (objects.filter (fun x => x.id = role.sourceOwner)).getLast? with
    | none => .error .corrupt
    | some owner => do
      check (o.validOwner owner) .corrupt
      return if o.unlinked then sides.derived else sides.derived.set role.artifact (o, owner)

/-- One object of the scope. -/
def Sides.sort (sides : Sides) (o : ArchiveObject) : Except JournalError Sides :=
  if o.stands retained then do
    let derived ← sides.deriveArchive objects o
    return {
      hidden := match o.remoteOwned, o.remote with
        | true, some remote => sides.hidden ++ [remote.id]
        | _, _ => sides.hidden
      derived := derived
      here := if !o.unlinked && o.node.parentId = some parent then
          sides.here.set (key o.node.name) o
        else sides.here
      aliases := sides.aliases }
  else do
    check o.remoteOwned .corrupt
    match o.remote with
    | none => .error .corrupt
    | some remote => return { sides with aliases := sides.aliases.set remote.id o.node.id }

/-- A remote item as it is presented: under its local identity, in this folder. -/
def Sides.present (sides : Sides) (node : Node) : Node :=
  { node with id := (sides.aliases.get node.id).getD node.id, parentId := some parent }

/-- One remote item. -/
def Sides.merge (sides : Sides) (listing : NamespaceListing) (node : Node) :
    Except JournalError NamespaceListing :=
  match sides.derived.get node.id with
  | some (archive, owner) => do
    let name := if archive.nativeArchive.any (·.backedUp) then owner.node.name
      else archive.node.name
    check (node.kind = .file && !node.package && node.target.isNone && node.name = name &&
      node.parentId = owner.remote.map (·.id)) .corrupt
    return listing
  | none =>
    if node.id ∈ sides.hidden then .ok listing
    else match sides.here.get (key node.name) with
      | some o => .ok { listing with conflicts := listing.conflicts ++ [⟨o.id, node⟩] }
      | none => .ok { listing with nodes := listing.nodes ++ [sides.present parent node] }

end Merge

/-- `project_retained_namespace`. The values of the map by names come in any order; they are
    sorted by their names. -/
def projectRetainedNamespace (lowercase : String → String) (retained : Uuid → Bool)
    (objects : List ArchiveObject) (scope : Scope) (parent : String) (remote : List Node) :
    Except JournalError NamespaceListing := do
  let objects := objects.filter (fun o => o.scope = scope)
  let names := (objects.head?.map (·.names)).getD .insensitive
  check (objects.all (fun o => o.names = names)) .corrupt
  let key := names.fold lowercase
  let sides ← objects.foldlM (Sides.sort objects retained key parent) {}
  let listing ← remote.foldlM (sides.merge key parent) {}
  let entries := (sides.here.rows.map (·.2.node)).mergeSort (fun a b => a.name ≤ b.name)
  return { listing with nodes := listing.nodes ++ entries }

/-- The objects `RetainedAncestors::new` keeps. -/
def retains (objects : List ArchiveObject) (id : Uuid) : Bool :=
  (retainedAncestors (objects.map (·.toNamespaceObject))).any (fun o => o.id = id)

/-- `project_namespace` -/
def projectNamespace (lowercase : String → String) (objects : List ArchiveObject) (scope : Scope)
    (parent : String) (remote : List Node) : Except JournalError NamespaceListing :=
  projectRetainedNamespace lowercase (retains objects) objects scope parent remote

/-! ## What has to be accounted for -/

section Accounts

variable (objects : List ArchiveObject) (retained : Uuid → Bool) (key : String → String)
  (parent : String)

/-- The local entries of the folder. -/
def localEntries : List ArchiveObject :=
  objects.filter fun o => o.stands retained && !o.unlinked && o.node.parentId = some parent

/-- The item is owned by an object that stands for it. -/
def Covered (node : Node) : Prop :=
  ∃ o ∈ objects, o.stands retained = true ∧ o.remoteOwned = true ∧ o.remote.map (·.id) = some node.id

/-- The item is the artifact of a linked native archive. -/
def Derived (node : Node) : Prop :=
  ∃ o ∈ objects, o.stands retained = true ∧ o.unlinked = false ∧
    o.nativeArchive.map (·.artifact) = some node.id

/-- A local entry has the item's name. -/
def Named (node : Node) : Prop :=
  ∃ o ∈ localEntries objects retained parent, key o.node.name = key node.name

/-- What becomes of a remote item. -/
inductive Fate where
  | substituted
  | hidden
  | conflict
  | listed
  deriving DecidableEq, Repr

open Classical in
/-- An archive takes the place of its artifact, an object of its own item; of the rest an item
    is reported when its name is taken, and listed otherwise. -/
noncomputable def fate (node : Node) : Fate :=
  if Derived objects retained node then .substituted
  else if Covered objects retained node then .hidden
  else if Named objects retained key parent node then .conflict
  else .listed

/-- How an item is listed: under the local identity of the object that follows it. -/
structure Presented (node shown : Node) : Prop where
  same : shown = { node with id := shown.id, parentId := some parent }
  followed : ∀ o ∈ objects, o.stands retained = false → o.remote.map (·.id) = some node.id →
    shown.id = o.node.id
  unfollowed : (∀ o ∈ objects, o.stands retained = false →
    o.remote.map (·.id) ≠ some node.id) → shown.id = node.id

/-- Every entry of both sides is accounted for. -/
structure Accounts (remote : List Node) (listing : NamespaceListing) (shown entries : List Node) :
    Prop where
  nodes : listing.nodes = shown ++ entries
  /-- Each item that is neither hidden nor substituted nor in conflict is listed once. -/
  listed : List.Forall₂ (Presented objects retained parent)
    (remote.filter fun n => fate objects retained key parent n = .listed) shown
  /-- Each conflict is reported with a local object of that name. -/
  reported : List.Forall₂ (fun n c => c.remote = n ∧
      ∃ o ∈ localEntries objects retained parent, c.object = o.id ∧ key o.node.name = key n.name)
    (remote.filter fun n => fate objects retained key parent n = .conflict) listing.conflicts
  /-- Each local entry is listed once, and nothing else beside the items. -/
  entries_once : ∀ o ∈ localEntries objects retained parent, entries.count o.node = 1
  entries_local : ∀ e ∈ entries, ∃ o ∈ localEntries objects retained parent, e = o.node
  /-- No listed local entry has the name of another listed entry. -/
  entries_apart : (entries.map fun e => key e.name).Nodup
  shown_apart : ∀ n ∈ shown, ∀ e ∈ entries, key e.name ≠ key n.name

end Accounts

/-! ## The objects of a journal -/

/-- What the journal's unique columns and `save` promise of the objects of a scope. -/
structure Journalled (key : String → String) (retained : Uuid → Bool)
    (objects : List ArchiveObject) : Prop where
  /-- An item has one row. -/
  identities : (objects.map (·.node.id)).Nodup
  /-- `namespace_entries` has one row for a name in a folder. -/
  slots : ∀ a ∈ objects, ∀ b ∈ objects, a.followsRemote = false → b.followsRemote = false →
    a.unlinked = false → b.unlinked = false → ∀ folder, a.node.parentId = some folder →
    b.node.parentId = some folder → key a.node.name = key b.node.name → a = b
  /-- `namespace_remote` has one row for a cloud item. -/
  owners : ∀ a ∈ objects, ∀ b ∈ objects, a.remoteOwned = true → b.remoteOwned = true →
    ∀ item, a.remote.map (·.id) = some item → b.remote.map (·.id) = some item → a = b

/-- No retained ancestor in the folder has the name of another local entry. -/
def RoutesApart (objects : List ArchiveObject) (retained : Uuid → Bool) (key : String → String)
    (parent : String) : Prop :=
  ∀ a ∈ localEntries objects retained parent, ∀ b ∈ localEntries objects retained parent,
    a.followsRemote = true → key a.node.name = key b.node.name → a = b

/-- The indexes of the names keep the objects of a scope so. -/
theorem Namespace.Indexed.journalled {lowercase : String → String} {n : Namespace}
    {objects : List ArchiveObject} {scope : Scope} {names : NamespaceNames}
    (h : n.Indexed lowercase) (hscope : ∀ o ∈ objects, o.scope = scope ∧ o.names = names)
    (hrows : ∀ o ∈ objects, ∃ row, n.objects.get o.id = some row ∧
      row.body = o.toNamespaceObject ∧ o.nativeArchive = none)
    (hidentities : (objects.map (·.node.id)).Nodup) (retained : Uuid → Bool) :
    Journalled (names.fold lowercase) retained objects := by
  -- An object is what its row says.
  have heq : ∀ a ∈ objects, ∀ b ∈ objects, a.id = b.id → a = b := by
    intro a ha b hb hid
    obtain ⟨row, hrow, hbody, harchive⟩ := hrows a ha
    obtain ⟨row', hrow', hbody', harchive'⟩ := hrows b hb
    rw [hid, hrow'] at hrow
    obtain rfl := Option.some.inj hrow
    obtain ⟨o, role⟩ := a
    obtain ⟨o', role'⟩ := b
    simp_all
  constructor
  case identities => exact hidentities
  case slots =>
    intro a ha b hb hafollows hbfollows halinked hblinked folder hparent hparent' hkey
    obtain ⟨row, hrow, hbody, _⟩ := hrows a ha
    obtain ⟨row', hrow', hbody', _⟩ := hrows b hb
    have hslot : a.slot lowercase = some (scope, folder, names.fold lowercase a.node.name) := by
      simp [NamespaceObject.slot, hparent, hscope a ha]
    have hslot' : b.slot lowercase = some (scope, folder, names.fold lowercase a.node.name) := by
      simp [NamespaceObject.slot, hparent', hscope b hb, hkey]
    have ha' := (h.entries _ a.id).mpr ⟨row, hrow, by rw [hbody]; exact halinked,
      by rw [hbody]; exact hafollows, by rw [hbody]; exact hslot⟩
    have hb' := (h.entries _ b.id).mpr ⟨row', hrow', by rw [hbody']; exact hblinked,
      by rw [hbody']; exact hbfollows, by rw [hbody']; exact hslot'⟩
    rw [ha'] at hb'
    exact heq a ha b hb (Option.some.inj hb')
  case owners =>
    intro a ha b hb haowned hbowned item hitem hitem'
    obtain ⟨row, hrow, hbody, _⟩ := hrows a ha
    obtain ⟨row', hrow', hbody', _⟩ := hrows b hb
    obtain ⟨r, hr, rfl⟩ := Option.map_eq_some_iff.mp hitem
    obtain ⟨r', hr', hsame⟩ := Option.map_eq_some_iff.mp hitem'
    have ha' := (h.remote (scope, r.id) a.id).mpr ⟨row, r, hrow, by rw [hbody]; exact haowned,
      by rw [hbody]; exact hr, by rw [hbody, (hscope a ha).1]⟩
    have hb' := (h.remote (scope, r.id) b.id).mpr ⟨row', r', hrow', by rw [hbody']; exact hbowned,
      by rw [hbody']; exact hr', by rw [hbody', (hscope b hb).1, hsame]⟩
    rw [ha'] at hb'
    exact heq a ha b hb (Option.some.inj hb')

/-! ## The maps -/

section Sorted

variable {objects done : List ArchiveObject} {retained : Uuid → Bool} {key : String → String}
  {parent : String} {sides sides' : Sides} {o : ArchiveObject}

theorem mem_localEntries : o ∈ localEntries objects retained parent ↔
    o ∈ objects ∧ o.stands retained = true ∧ o.unlinked = false ∧
      o.node.parentId = some parent := by
  simp [localEntries, and_assoc]

/-- The maps hold what the objects so far add to them. -/
structure Sides.Sorted (retained : Uuid → Bool) (key : String → String) (parent : String)
    (done : List ArchiveObject) (sides : Sides) : Prop where
  hidden : ∀ id, id ∈ sides.hidden ↔
    ∃ o ∈ done, o.stands retained = true ∧ o.remoteOwned = true ∧ o.remote.map (·.id) = some id
  derived : ∀ id, (sides.derived.get id).isSome = true ↔
    ∃ o ∈ done, o.stands retained = true ∧ o.unlinked = false ∧
      o.nativeArchive.map (·.artifact) = some id
  here : ∀ k o, sides.here.get k = some o →
    o ∈ localEntries done retained parent ∧ key o.node.name = k
  here_isSome : ∀ o ∈ localEntries done retained parent,
    (sides.here.get (key o.node.name)).isSome = true
  aliases : ∀ id l, sides.aliases.get id = some l →
    ∃ o ∈ done, o.stands retained = false ∧ o.remoteOwned = true ∧
      o.remote.map (·.id) = some id ∧ l = o.node.id
  aliases_isSome : ∀ o ∈ done, o.stands retained = false → o.remoteOwned = true ∧
    ∀ id, o.remote.map (·.id) = some id → (sides.aliases.get id).isSome = true

theorem Sides.Sorted.start : Sides.Sorted retained key parent [] {} where
  hidden := by simp
  derived := by simp
  here := by simp
  here_isSome := by simp [localEntries]
  aliases := by simp
  aliases_isSome := by simp

theorem isSome_get_set {K V : Type*} [DecidableEq K] (t : Table K V) (k k' : K) (v : V) :
    ((t.set k v).get k').isSome = true ↔ k' = k ∨ (t.get k').isSome = true := by
  rw [Table.get_set]
  split <;> simp_all

/-- The archive of an object is derived from it, unless it is unlinked. -/
theorem Sides.deriveArchive_eq_ok {t : Table String (ArchiveObject × ArchiveObject)}
    (h : sides.deriveArchive objects o = .ok t) (id : String) :
    (t.get id).isSome = true ↔ (sides.derived.get id).isSome = true ∨
      (o.unlinked = false ∧ o.nativeArchive.map (·.artifact) = some id) := by
  unfold Sides.deriveArchive at h
  cases hrole : o.nativeArchive with
  | none =>
    simp only [hrole] at h
    cases h
    simp
  | some role =>
    simp only [hrole] at h
    split at h
    · cases h
    · obtain ⟨_, _, h⟩ := bind_eq_ok h
      cases h
      cases hunlinked : o.unlinked with
      | true => simp
      | false =>
        simp only [Bool.false_eq_true, if_false, isSome_get_set]
        constructor
        · rintro (rfl | hold)
          · exact .inr ⟨trivial, rfl⟩
          · exact .inl hold
        · rintro (hold | ⟨_, hartifact⟩)
          · exact .inr hold
          · exact .inl (Option.some.inj hartifact).symm

theorem mem_localEntries_concat {x : ArchiveObject} :
    x ∈ localEntries (done ++ [o]) retained parent ↔
      x ∈ localEntries done retained parent ∨ (x = o ∧ x ∈ localEntries [o] retained parent) := by
  simp only [mem_localEntries, List.mem_append, List.mem_singleton]
  tauto

/-- An object that stands adds its item, its archive and its entry. -/
theorem Sides.Sorted.stood (h : Sides.Sorted retained key parent done sides)
    (hstands : o.stands retained = true)
    (hsort : sides.sort objects retained key parent o = .ok sides') :
    Sides.Sorted retained key parent (done ++ [o]) sides' := by
  rw [Sides.sort, if_pos hstands] at hsort
  obtain ⟨derived, hderive, hsort⟩ := bind_eq_ok hsort
  cases hsort
  have hlocal : o ∈ localEntries [o] retained parent ↔
      (!o.unlinked && o.node.parentId = some parent) = true := by
    simp [mem_localEntries, hstands]
  constructor
  case hidden =>
    intro id
    have hown : (∃ x ∈ done ++ [o], x.stands retained = true ∧ x.remoteOwned = true ∧
        x.remote.map (·.id) = some id) ↔ id ∈ sides.hidden ∨
          (o.remoteOwned = true ∧ o.remote.map (·.id) = some id) := by
      rw [h.hidden]
      simp only [List.mem_append, List.mem_singleton, or_and_right, exists_or, exists_eq_left,
        hstands, true_and]
    rw [hown]
    cases howned : o.remoteOwned with
    | false => simp
    | true =>
      cases hremote : o.remote with
      | none => simp
      | some remote => simp [eq_comm]
  case derived =>
    intro id
    rw [Sides.deriveArchive_eq_ok hderive, h.derived]
    simp only [List.mem_append, List.mem_singleton, or_and_right, exists_or, exists_eq_left,
      hstands, true_and]
  case here =>
    intro k x hx
    simp only at hx
    split at hx
    · next hhere =>
      rw [Table.get_set] at hx
      split at hx
      · next hk =>
        obtain rfl := Option.some.inj hx
        exact ⟨mem_localEntries_concat.mpr (.inr ⟨rfl, hlocal.mpr hhere⟩), hk.symm⟩
      · obtain ⟨hmem, hkey⟩ := h.here k x hx
        exact ⟨mem_localEntries_concat.mpr (.inl hmem), hkey⟩
    · obtain ⟨hmem, hkey⟩ := h.here k x hx
      exact ⟨mem_localEntries_concat.mpr (.inl hmem), hkey⟩
  case here_isSome =>
    intro x hx
    simp only
    rcases mem_localEntries_concat.mp hx with hold | ⟨rfl, hnew⟩
    · split
      · rw [isSome_get_set]
        exact .inr (h.here_isSome x hold)
      · exact h.here_isSome x hold
    · rw [if_pos (hlocal.mp hnew), isSome_get_set]
      exact .inl rfl
  case aliases =>
    intro id l hl
    obtain ⟨x, hx, hrest⟩ := h.aliases id l hl
    exact ⟨x, List.mem_append_left _ hx, hrest⟩
  case aliases_isSome =>
    intro x hx hfollows
    rcases List.mem_append.mp hx with hx | hx
    · exact h.aliases_isSome x hx hfollows
    · obtain rfl := List.mem_singleton.mp hx
      rw [hstands] at hfollows
      cases hfollows

/-- An object that follows its item adds an alias. -/
theorem Sides.Sorted.followed (h : Sides.Sorted retained key parent done sides)
    (hfollows : o.stands retained = false)
    (hsort : sides.sort objects retained key parent o = .ok sides') :
    Sides.Sorted retained key parent (done ++ [o]) sides' := by
  rw [Sides.sort, if_neg (by simp [hfollows])] at hsort
  obtain ⟨_, howned, hsort⟩ := bind_eq_ok hsort
  rw [check_eq_ok] at howned
  cases hremote : o.remote with
  | none =>
    rw [hremote] at hsort
    cases hsort
  | some remote =>
    rw [hremote] at hsort
    cases hsort
    -- What only standing objects add stays.
    have hstanding : ∀ (P : ArchiveObject → Prop),
        (∃ x ∈ done ++ [o], x.stands retained = true ∧ P x) ↔
          ∃ x ∈ done, x.stands retained = true ∧ P x := by
      intro P
      simp [or_and_right, exists_or, hfollows]
    have hlocal : ∀ x, x ∈ localEntries (done ++ [o]) retained parent ↔
        x ∈ localEntries done retained parent := by
      intro x
      rw [mem_localEntries_concat, or_iff_left]
      rintro ⟨rfl, hmem⟩
      rw [mem_localEntries, hfollows] at hmem
      cases hmem.2.1
    constructor
    case hidden => intro id; rw [hstanding]; exact h.hidden id
    case derived => intro id; rw [hstanding]; exact h.derived id
    case here => intro k x hx; rw [hlocal]; exact h.here k x hx
    case here_isSome => intro x hx; exact h.here_isSome x ((hlocal x).mp hx)
    case aliases =>
      intro id l hl
      simp only [Table.get_set] at hl
      split at hl
      · next hid =>
        obtain rfl := Option.some.inj hl
        exact ⟨o, by simp, hfollows, howned, by simp [hremote, hid], rfl⟩
      · obtain ⟨x, hx, hrest⟩ := h.aliases id l hl
        exact ⟨x, List.mem_append_left _ hx, hrest⟩
    case aliases_isSome =>
      intro x hx hxfollows
      rcases List.mem_append.mp hx with hx | hx
      · obtain ⟨hxowned, hxalias⟩ := h.aliases_isSome x hx hxfollows
        refine ⟨hxowned, ?_⟩
        intro id hid
        rw [isSome_get_set]
        exact .inr (hxalias id hid)
      · obtain rfl := List.mem_singleton.mp hx
        refine ⟨howned, ?_⟩
        intro id hid
        rw [hremote] at hid
        rw [isSome_get_set]
        exact .inl (Option.some.inj hid).symm

theorem Sides.Sorted.fold (h : Sides.Sorted retained key parent done sides)
    {more : List ArchiveObject}
    (hfold : more.foldlM (Sides.sort objects retained key parent) sides = .ok sides') :
    Sides.Sorted retained key parent (done ++ more) sides' := by
  induction more generalizing done sides with
  | nil =>
    cases hfold
    rw [List.append_nil]
    exact h
  | cons o more ih =>
    rw [List.foldlM_cons] at hfold
    obtain ⟨next, hnext, hfold⟩ := bind_eq_ok hfold
    rw [← List.singleton_append, ← List.append_assoc]
    cases hstands : o.stands retained with
    | true => exact ih (h.stood hstands hnext) hfold
    | false => exact ih (h.followed hstands hnext) hfold

end Sorted

/-! ## The remote side -/

section Remote

variable {objects : List ArchiveObject} {retained : Uuid → Bool} {key : String → String}
  {parent : String} {sides : Sides}

/-- What the maps say of an item is its fate. -/
theorem Sides.Sorted.fate_eq (h : Sides.Sorted retained key parent objects sides) (n : Node) :
    fate objects retained key parent n =
      if (sides.derived.get n.id).isSome then .substituted
      else if n.id ∈ sides.hidden then .hidden
      else if (sides.here.get (key n.name)).isSome then .conflict
      else .listed := by
  have hnamed : Named objects retained key parent n ↔
      (sides.here.get (key n.name)).isSome = true := by
    constructor
    · rintro ⟨o, ho, hkey⟩
      rw [← hkey]
      exact h.here_isSome o ho
    · intro hsome
      obtain ⟨o, ho⟩ := Option.isSome_iff_exists.mp hsome
      obtain ⟨hmem, hkey⟩ := h.here _ o ho
      exact ⟨o, hmem, hkey⟩
  simp only [fate, Derived, Covered, ← h.derived, ← h.hidden, hnamed]

/-- An item is presented under the identity of the one object that follows it. -/
theorem Sides.Sorted.presented (h : Sides.Sorted retained key parent objects sides)
    (hjournal : Journalled key retained objects) (n : Node) :
    Presented objects retained parent n (sides.present parent n) where
  same := rfl
  followed := by
    intro o ho hfollows hremote
    obtain ⟨howned, halias⟩ := h.aliases_isSome o ho hfollows
    obtain ⟨l, hl⟩ := Option.isSome_iff_exists.mp (halias _ hremote)
    obtain ⟨x, hx, _, hxowned, hxremote, rfl⟩ := h.aliases _ _ hl
    obtain rfl := hjournal.owners x hx o ho hxowned howned _ hxremote hremote
    simp [Sides.present, hl]
  unfollowed := by
    intro hnobody
    cases halias : sides.aliases.get n.id with
    | none => simp [Sides.present, halias]
    | some l =>
      obtain ⟨x, hx, hfollows, _, hxremote, _⟩ := h.aliases _ _ halias
      exact absurd hxremote (hnobody x hx hfollows)

/-- What one remote item adds. -/
theorem Sides.Sorted.merged (h : Sides.Sorted retained key parent objects sides) {n : Node}
    {listing listing' : NamespaceListing}
    (hmerge : sides.merge key parent listing n = .ok listing') :
    (fate objects retained key parent n = .listed ∧
      listing' = { listing with nodes := listing.nodes ++ [sides.present parent n] }) ∨
    (fate objects retained key parent n = .conflict ∧
      ∃ o ∈ localEntries objects retained parent, key o.node.name = key n.name ∧
        listing' = { listing with conflicts := listing.conflicts ++ [⟨o.id, n⟩] }) ∨
    (fate objects retained key parent n ≠ .listed ∧
      fate objects retained key parent n ≠ .conflict ∧ listing' = listing) := by
  rw [h.fate_eq n]
  unfold Sides.merge at hmerge
  cases hderived : sides.derived.get n.id with
  | some pair =>
    simp only [hderived] at hmerge
    obtain ⟨_, _, hmerge⟩ := bind_eq_ok hmerge
    cases hmerge
    exact .inr (.inr ⟨by simp, by simp, rfl⟩)
  | none =>
    simp only [hderived] at hmerge
    by_cases hhidden : n.id ∈ sides.hidden
    · rw [if_pos hhidden] at hmerge
      cases hmerge
      exact .inr (.inr ⟨by simp [hhidden], by simp [hhidden], rfl⟩)
    · rw [if_neg hhidden] at hmerge
      cases hhere : sides.here.get (key n.name) with
      | some o =>
        simp only [hhere] at hmerge
        cases hmerge
        obtain ⟨hmem, hkey⟩ := h.here _ o hhere
        exact .inr (.inl ⟨by simp [hhidden], o, hmem, hkey, rfl⟩)
      | none =>
        simp only [hhere] at hmerge
        cases hmerge
        exact .inl ⟨by simp [hhidden], rfl⟩

/-- What the remote items add: those that are listed, and those that are in conflict. -/
theorem Sides.Sorted.mergeAll (h : Sides.Sorted retained key parent objects sides)
    (hjournal : Journalled key retained objects) {remote : List Node}
    {listing listing' : NamespaceListing}
    (hfold : remote.foldlM (sides.merge key parent) listing = .ok listing') :
    ∃ shown conflicts, listing'.nodes = listing.nodes ++ shown ∧
      listing'.conflicts = listing.conflicts ++ conflicts ∧
      List.Forall₂ (Presented objects retained parent)
        (remote.filter fun n => fate objects retained key parent n = .listed) shown ∧
      List.Forall₂ (fun n c => c.remote = n ∧
          ∃ o ∈ localEntries objects retained parent, c.object = o.id ∧ key o.node.name = key n.name)
        (remote.filter fun n => fate objects retained key parent n = .conflict) conflicts := by
  induction remote generalizing listing with
  | nil =>
    cases hfold
    exact ⟨[], [], by simp, by simp, .nil, .nil⟩
  | cons n remote ih =>
    rw [List.foldlM_cons] at hfold
    obtain ⟨next, hnext, hfold⟩ := bind_eq_ok hfold
    obtain ⟨shown, conflicts, hnodes, hconflicts, hshown, hreported⟩ := ih hfold
    rcases h.merged hnext with ⟨hfate, rfl⟩ | ⟨hfate, o, ho, hkey, rfl⟩ | ⟨hlisted, hconflict, rfl⟩
    · refine ⟨sides.present parent n :: shown, conflicts, by simp [hnodes], hconflicts, ?_, ?_⟩
      · rw [List.filter_cons_of_pos (by simpa using hfate)]
        exact .cons (h.presented hjournal n) hshown
      · rw [List.filter_cons_of_neg (by simp [hfate])]
        exact hreported
    · refine ⟨shown, ⟨o.id, n⟩ :: conflicts, hnodes, by simp [hconflicts], ?_, ?_⟩
      · rw [List.filter_cons_of_neg (by simp [hfate])]
        exact hshown
      · rw [List.filter_cons_of_pos (by simpa using hfate)]
        exact .cons ⟨rfl, o, ho, rfl, hkey⟩ hreported
    · refine ⟨shown, conflicts, hnodes, hconflicts, ?_, ?_⟩
      · rw [List.filter_cons_of_neg (by simpa using hlisted)]
        exact hshown
      · rw [List.filter_cons_of_neg (by simpa using hconflict)]
        exact hreported

end Remote

/-! ## The local side -/

section Local

variable {objects : List ArchiveObject} {retained : Uuid → Bool} {key : String → String}
  {parent : String} {sides : Sides}

/-- Local entries whose names the journal and the routes keep apart are the map's. -/
theorem Journalled.apart (h : Journalled key retained objects)
    (hroutes : RoutesApart objects retained key parent) {a b : ArchiveObject}
    (ha : a ∈ localEntries objects retained parent) (hb : b ∈ localEntries objects retained parent)
    (hkey : key a.node.name = key b.node.name) : a = b := by
  obtain ⟨hamem, _, halinked, haparent⟩ := mem_localEntries.mp ha
  obtain ⟨hbmem, _, hblinked, hbparent⟩ := mem_localEntries.mp hb
  cases hafollows : a.followsRemote with
  | true => exact hroutes a ha b hb hafollows hkey
  | false =>
    cases hbfollows : b.followsRemote with
    | true => exact (hroutes b hb a ha hbfollows hkey.symm).symm
    | false =>
      exact h.slots a hamem b hbmem hafollows hbfollows halinked hblinked parent haparent hbparent
        hkey

theorem Journalled.eq_of_node (h : Journalled key retained objects) {a b : ArchiveObject}
    (ha : a ∈ objects) (hb : b ∈ objects) (hnode : a.node = b.node) : a = b :=
  List.inj_on_of_nodup_map h.identities ha hb (congrArg Node.id hnode)

/-- The entries of the map, in any order. -/
theorem Sides.Sorted.entries (h : Sides.Sorted retained key parent objects sides)
    {entries : List Node} (hperm : entries.Perm (sides.here.rows.map (·.2.node))) :
    (∀ e ∈ entries, ∃ o ∈ localEntries objects retained parent, e = o.node) ∧
      (entries.map fun e => key e.name).Nodup := by
  have hrow : ∀ row ∈ sides.here.rows, row.2 ∈ localEntries objects retained parent ∧
      key row.2.node.name = row.1 := by
    rintro ⟨k, o⟩ hrow
    exact h.here k o ((Table.mem_rows _ _ _).mp hrow)
  constructor
  · intro e he
    obtain ⟨row, hmem, rfl⟩ := List.mem_map.mp (hperm.mem_iff.mp he)
    exact ⟨row.2, (hrow row hmem).1, rfl⟩
  · rw [(hperm.map _).nodup_iff, List.map_map]
    have hkeys : sides.here.rows.map ((fun e => key e.name) ∘ fun row => row.2.node) =
        sides.here.rows.map Prod.fst := by
      apply List.map_congr_left
      intro row hmem
      exact (hrow row hmem).2
    rw [hkeys]
    exact Table.rows_keys_nodup _

/-- Where no two local entries have one name, each of them is in the map. -/
theorem Sides.Sorted.entries_once (h : Sides.Sorted retained key parent objects sides)
    (hapart : ∀ a ∈ localEntries objects retained parent,
      ∀ b ∈ localEntries objects retained parent, key a.node.name = key b.node.name → a = b)
    {entries : List Node} (hperm : entries.Perm (sides.here.rows.map (·.2.node)))
    {o : ArchiveObject} (ho : o ∈ localEntries objects retained parent) :
    entries.count o.node = 1 := by
  obtain ⟨x, hx⟩ := Option.isSome_iff_exists.mp (h.here_isSome o ho)
  obtain ⟨hxmem, hxkey⟩ := h.here _ x hx
  obtain rfl := hapart x hxmem o ho hxkey
  apply List.count_eq_one_of_mem
  · exact (h.entries hperm).2.of_map
  · rw [hperm.mem_iff]
    exact List.mem_map_of_mem ((Table.mem_rows _ _ _).mpr hx)

end Local

/-! ## The listing -/

theorem Accounts.mem_entries {objects : List ArchiveObject} {retained : Uuid → Bool}
    {key : String → String} {parent : String} {remote shown entries : List Node}
    {listing : NamespaceListing} {o : ArchiveObject}
    (h : Accounts objects retained key parent remote listing shown entries)
    (ho : o ∈ localEntries objects retained parent) : o.node ∈ entries := by
  rw [← List.count_pos_iff, h.entries_once o ho]
  exact Nat.one_pos

/-- A listed item presents one of the listed items. -/
theorem exists_presented {objects : List ArchiveObject} {retained : Uuid → Bool} {parent : String}
    {items shown : List Node} {n : Node}
    (h : List.Forall₂ (Presented objects retained parent) items shown) (hn : n ∈ shown) :
    ∃ item ∈ items, Presented objects retained parent item n := by
  induction h with
  | nil => cases hn
  | cons hpresented _ ih =>
    rcases List.mem_cons.mp hn with rfl | hn
    · exact ⟨_, List.mem_cons_self, hpresented⟩
    · obtain ⟨item, hitem, hpresented⟩ := ih hn
      exact ⟨item, List.mem_cons_of_mem _ hitem, hpresented⟩

/-- A merge that succeeds sorts the objects of the scope, merges the items and adds the entries
    of the map. -/
theorem projectRetainedNamespace_eq_ok {lowercase : String → String} {retained : Uuid → Bool}
    {objects : List ArchiveObject} {scope : Scope} {parent : String} {remote : List Node}
    {names : NamespaceNames} {listing : NamespaceListing}
    (hnames : ∀ o ∈ objects, o.scope = scope → o.names = names)
    (hok : projectRetainedNamespace lowercase retained objects scope parent remote = .ok listing) :
    ∃ sides merged, Sides.Sorted retained (names.fold lowercase) parent
        (objects.filter fun o => o.scope = scope) sides ∧
      remote.foldlM (sides.merge (names.fold lowercase) parent) {} = .ok merged ∧
      listing = { merged with nodes := merged.nodes ++
        (sides.here.rows.map (·.2.node)).mergeSort (fun a b => a.name ≤ b.name) } := by
  obtain ⟨_, _, hok⟩ := bind_eq_ok hok
  obtain ⟨sides, hsort, hok⟩ := bind_eq_ok hok
  obtain ⟨merged, hmerge, hok⟩ := bind_eq_ok hok
  cases hok
  cases hscope : objects.filter (fun o => decide (o.scope = scope)) with
  | nil =>
    -- Without objects the maps are empty, and under whatever key a name is not found.
    rw [hscope] at hsort
    cases hsort
    exact ⟨{}, merged, .start, hmerge, rfl⟩
  | cons o rest =>
    have ho : o ∈ objects.filter (fun o => decide (o.scope = scope)) := by simp [hscope]
    have hpolicy : o.names = names := by
      simp only [List.mem_filter, decide_eq_true_eq] at ho
      exact hnames o ho.1 ho.2
    simp only [hscope, List.head?_cons, Option.map_some, Option.getD_some, hpolicy] at hsort hmerge
    refine ⟨sides, merged, ?_, hmerge, rfl⟩
    exact Sides.Sorted.start.fold hsort

/-- Every entry of the merged directory is accounted for, each local one once and under a name
    of its own, exactly when no retained ancestor in the folder has the name of another local
    entry: the map by names keeps one entry for a name. -/
theorem merged_listing_accounts_iff {lowercase : String → String} {objects : List ArchiveObject}
    {scope : Scope} {parent : String} {remote : List Node} {names : NamespaceNames}
    {listing : NamespaceListing}
    (hnames : ∀ o ∈ objects, o.scope = scope → o.names = names)
    (hjournal : Journalled (names.fold lowercase) (retains objects)
      (objects.filter fun o => o.scope = scope))
    (hok : projectNamespace lowercase objects scope parent remote = .ok listing) :
    (∃ shown entries, Accounts (objects.filter fun o => o.scope = scope) (retains objects)
      (names.fold lowercase) parent remote listing shown entries) ↔
    RoutesApart (objects.filter fun o => o.scope = scope) (retains objects)
      (names.fold lowercase) parent := by
  constructor
  · -- Two entries of one name are both listed, though listed names are apart.
    rintro ⟨shown, entries, h⟩ a ha b hb _ hkey
    have hnode : a.node = b.node :=
      List.inj_on_of_nodup_map h.entries_apart (h.mem_entries ha) (h.mem_entries hb) hkey
    exact hjournal.eq_of_node (mem_localEntries.mp ha).1 (mem_localEntries.mp hb).1 hnode
  · intro hroutes
    obtain ⟨sides, merged, hsorted, hmerge, rfl⟩ := projectRetainedNamespace_eq_ok hnames hok
    obtain ⟨shown, conflicts, hnodes, hconflicts, hshown, hreported⟩ :=
      hsorted.mergeAll hjournal hmerge
    have hperm := List.mergeSort_perm (sides.here.rows.map (·.2.node))
      (fun a b => decide (a.name ≤ b.name))
    refine ⟨shown, _, ⟨?_, hshown, ?_, ?_, (hsorted.entries hperm).1, (hsorted.entries hperm).2, ?_⟩⟩
    · simp [hnodes]
    · simpa [hconflicts] using hreported
    · intro o ho
      exact hsorted.entries_once (fun a ha b hb => hjournal.apart hroutes ha hb) hperm ho
    · -- A listed item is not named by a local entry.
      intro n hn e he hkey
      obtain ⟨o, ho, rfl⟩ := (hsorted.entries hperm).1 e he
      obtain ⟨item, hitem, hpresented⟩ := exists_presented hshown hn
      have hfate := (List.mem_filter.mp hitem).2
      have hname : n.name = item.name := by rw [hpresented.same]
      rw [decide_eq_true_eq] at hfate
      unfold fate at hfate
      split_ifs at hfate with _ _ hnamed
      exact hnamed ⟨o, ho, by rw [hkey, hname]⟩

/-! ### A route back to a taken name -/

section Route

def docs : ArchiveObject where
  id := ⟨1⟩
  scope := ⟨"account", "provider", ""⟩
  names := .sensitive
  node := ⟨"local-directory-1", some "root", "docs", .folder, 0, 0, none, none, none, false⟩
  remote := some ⟨"remote-docs", some "root", "docs", .folder, 0, 0, none, none, none, false⟩
  remoteOwned := true
  remoteSequence := 0
  workingFile := none
  latest := none
  revision := 1
  followsRemote := true
  unlinked := false

/-- A folder that was created where the cloud had the other one before it was renamed. -/
def laterDocs (name : String) : ArchiveObject :=
  { docs with
    id := ⟨2⟩
    node := { docs.node with id := "local-directory-2", name := name }
    remote := none
    latest := some ⟨12⟩
    followsRemote := false }

/-- A folder in the renamed one. -/
def draft : ArchiveObject :=
  { docs with
    id := ⟨3⟩
    node := { docs.node with id := "local-directory-3", parentId := some docs.node.id, name := "draft" }
    remote := none
    revision := 2
    followsRemote := false }

/-- The same folder while its removal is queued. -/
def removedDraft : ArchiveObject :=
  { draft with
    latest := some ⟨13⟩
    revision := 1
    unlinked := true }

def renamedDocs : Node :=
  ⟨"remote-docs", some "root", "reports", .folder, 0, 0, none, none, none, false⟩

/-- A journal whose scope tells names apart by case. -/
def sensitiveNames : Namespace :=
  ⟨Table.empty.set docs.scope .sensitive, .empty, .empty, .empty, .empty⟩

/-- The name of the renamed folder is taken while no linked object is in it; then the removal of
    its child is refused and discarded, which stores the child as a linked object again. -/
def routeNames (name : String) : Except JournalError Namespace := do
  let n ← sensitiveNames.save id docs.toNamespaceObject
  let n ← n.save id removedDraft.toNamespaceObject
  let n ← n.save id (laterDocs name).toNamespaceObject
  n.save id draft.toNamespaceObject

theorem sensitiveNames_indexed : sensitiveNames.Indexed id := by
  constructor <;> simp [sensitiveNames]

/-- What those calls store is an object set the journal promises. -/
theorem routeNames_journalled {name : String} {n : Namespace} (h : routeNames name = .ok n)
    (retained : Uuid → Bool) :
    Journalled (NamespaceNames.sensitive.fold id) retained [docs, laterDocs name, draft] := by
  unfold routeNames at h
  obtain ⟨n₁, h₁, h⟩ := bind_eq_ok h
  obtain ⟨n₂, h₂, h⟩ := bind_eq_ok h
  obtain ⟨n₃, h₃, h₄⟩ := bind_eq_ok h
  have hdocs := save_stored h₁
  have hremoved := save_stored h₂
  have hlater := save_stored h₃
  have hdraft := save_stored h₄
  have hscope : (sensitiveNames.scopes.get docs.scope).isSome = true := by decide
  have hindexed : n.Indexed id := by
    refine .store (.store (.store (.store sensitiveNames_indexed hdocs hscope) hremoved ?_)
      hlater ?_) hdraft ?_
    · rw [hdocs.scopes]
      exact hscope
    · rw [hremoved.scopes, hdocs.scopes]
      exact hscope
    · rw [hlater.scopes, hremoved.scopes, hdocs.scopes]
      exact hscope
  have hsame : ∀ o ∈ [docs, laterDocs name, draft], o.scope = docs.scope ∧ o.names = .sensitive := by
    simp [docs, laterDocs, draft]
  -- Each row is what the last call that stored its object wrote.
  have hdocsRow := (hdraft.others ⟨1⟩ (by decide)).trans ((hlater.others ⟨1⟩
    (show (⟨1⟩ : Uuid) ≠ ⟨2⟩ by decide)).trans ((hremoved.others ⟨1⟩ (by decide)).trans hdocs.self))
  have hlaterRow := (hdraft.others ⟨2⟩ (by decide)).trans hlater.self
  refine hindexed.journalled hsame ?_ (by simp [docs, laterDocs, draft]) retained
  intro o ho
  simp only [List.mem_cons, List.not_mem_nil, or_false] at ho
  obtain rfl | rfl | rfl := ho
  · exact ⟨_, hdocsRow, rfl, rfl⟩
  · exact ⟨_, hlaterRow, rfl, rfl⟩
  · exact ⟨_, hdraft.self, rfl, rfl⟩

/-- Where the name stays free, all three folders are accounted for. -/
theorem merged_listing_accounts_apart : ∃ n listing, routeNames "notes" = .ok n ∧
    projectNamespace id [docs, laterDocs "notes", draft] docs.scope "root" [renamedDocs] =
      .ok listing ∧
    ∃ shown entries, Accounts [docs, laterDocs "notes", draft]
      (retains [docs, laterDocs "notes", draft]) (NamespaceNames.sensitive.fold id) "root"
      [renamedDocs] listing shown entries := by
  have hsaved : (routeNames "notes").toBool = true := by decide +kernel
  have hok : (projectNamespace id [docs, laterDocs "notes", draft] docs.scope "root"
      [renamedDocs]).toBool = true := by decide +kernel
  have hscope : [docs, laterDocs "notes", draft].filter (fun o => decide (o.scope = docs.scope)) =
      [docs, laterDocs "notes", draft] := by decide +kernel
  have hroutes : RoutesApart [docs, laterDocs "notes", draft]
      (retains [docs, laterDocs "notes", draft]) (NamespaceNames.sensitive.fold id) "root" := by
    unfold RoutesApart
    decide +kernel
  cases hnames : routeNames "notes" with
  | error e => simp [hnames, Except.toBool] at hsaved
  | ok n =>
    cases hproject : projectNamespace id [docs, laterDocs "notes", draft] docs.scope "root"
        [renamedDocs] with
    | error e => simp [hproject, Except.toBool] at hok
    | ok listing =>
      have haccounts := @merged_listing_accounts_iff id _ _ _ _ .sensitive _ (by decide +kernel)
        (by rw [hscope]; exact routeNames_journalled hnames _) hproject
      rw [hscope] at haccounts
      exact ⟨n, listing, rfl, rfl, haccounts.mpr hroutes⟩

/-- The renamed folder has no linked child when its old name is taken, and its name is not
    looked at when the removal of its child is discarded, which makes it a retained ancestor
    again. The listing keeps one of the two folders of that name. -/
theorem retained_route_hides_entry : ∃ n listing, routeNames "docs" = .ok n ∧
    projectNamespace id [docs, laterDocs "docs", draft] docs.scope "root" [renamedDocs] =
      .ok listing ∧
    Journalled (NamespaceNames.sensitive.fold id) (retains [docs, laterDocs "docs", draft])
      [docs, laterDocs "docs", draft] ∧
    ¬∃ shown entries, Accounts [docs, laterDocs "docs", draft]
      (retains [docs, laterDocs "docs", draft]) (NamespaceNames.sensitive.fold id) "root"
      [renamedDocs] listing shown entries := by
  have hsaved : (routeNames "docs").toBool = true := by decide +kernel
  have hok : (projectNamespace id [docs, laterDocs "docs", draft] docs.scope "root"
      [renamedDocs]).toBool = true := by decide +kernel
  cases hnames : routeNames "docs" with
  | error e => simp [hnames, Except.toBool] at hsaved
  | ok n =>
    cases hproject : projectNamespace id [docs, laterDocs "docs", draft] docs.scope "root"
        [renamedDocs] with
    | error e => simp [hproject, Except.toBool] at hok
    | ok listing =>
      refine ⟨n, listing, rfl, rfl, routeNames_journalled hnames _, ?_⟩
      rintro ⟨shown, entries, h⟩
      -- Both folders would be listed, under one name.
      have hdocs := h.mem_entries (show docs ∈ _ by decide +kernel)
      have hlater := h.mem_entries (show laterDocs "docs" ∈ _ by decide +kernel)
      have hnode := List.inj_on_of_nodup_map h.entries_apart hdocs hlater rfl
      exact absurd hnode (by decide +kernel)

end Route

end Cirrove.Journal
