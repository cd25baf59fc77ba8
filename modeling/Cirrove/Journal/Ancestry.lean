import Cirrove.Journal.Namespace
import Cirrove.Library.Worklist
import Mathlib.Order.Bounds.Basic

/-!
# Retained routes

`RetainedAncestors` of `cirrove-service/src/journal/ancestry.rs`: the objects that have to stay
visible so that local changes do, with the directories and the names they take. `Namespace.lean` has
the loop; here is that it ends, and with what (`retained_least`).
-/

namespace Cirrove.Journal

open Cirrove.Library

/-! ## What the loop fills -/

structure RetainedAncestors where
  objects : List Uuid := []
  directories : List (Scope × String) := []
  slots : List (Slot × Uuid) := []

/-- The scope and the item a link leads to. -/
def NamespaceObject.linkTarget (o : NamespaceObject) : Option (Scope × String) :=
  o.node.target.map fun target => ({ o.scope with collection := target.collection }, target.item)

/-- The directories of an object: a folder itself, and the target of a link to a folder or to
something of unknown kind. -/
def NamespaceObject.directories (o : NamespaceObject) : List (Scope × String) :=
  (if o.node.kind = .folder then [(o.scope, o.node.id)] else []) ++
    (o.node.target.filter fun target => target.kind = none || target.kind = some .folder).toList.map
      fun target => ({ o.scope with collection := target.collection }, target.item)

namespace RetainedAncestors

/-- What the loop inserts for an object it takes for the first time. -/
def insert (lowercase : String → String) (r : RetainedAncestors) (o : NamespaceObject) :
    RetainedAncestors where
  objects := o.id :: r.objects
  directories := o.directories ++ r.directories
  slots := (o.slot lowercase).toList.map (·, o.id) ++ r.slots

/-- `RetainedAncestors::new` -/
def new (lowercase : String → String) (objects : List NamespaceObject) : RetainedAncestors :=
  (retainedAncestors objects).foldl (insert lowercase) {}

def contains (r : RetainedAncestors) (id : Uuid) : Bool := id ∈ r.objects

def directory (r : RetainedAncestors) (scope : Scope) (item : String) : Bool :=
  (scope, item) ∈ r.directories

/-- `check_slot` -/
def checkSlot (lowercase : String → String) (r : RetainedAncestors) (o : NamespaceObject) :
    Except JournalError Unit :=
  check (!(o.slot lowercase).any fun slot =>
    r.slots.any fun owner => owner.1 = slot && owner.2 ≠ o.id) .stale

end RetainedAncestors

/-! ## The closure -/

/-- The linked folder an object is in. -/
structure ParentOf (objects : List NamespaceObject) (o f : NamespaceObject) : Prop where
  mem : f ∈ objects
  linked : f.unlinked = false
  folder : f.node.kind = .folder
  scope : f.scope = o.scope
  parent : o.node.parentId = some f.node.id

/-- A linked link that leads to the parent of an object, or to what the object is in the cloud. -/
structure LinkTo (objects : List NamespaceObject) (o l : NamespaceObject) : Prop where
  mem : l ∈ objects
  linked : l.unlinked = false
  target : ∃ item, l.linkTarget = some (o.scope, item) ∧
    (o.node.parentId = some item ∨ o.remote.map Node.id = some item)

/-- A set of objects that has the local changes and, with an object, the routes to it. -/
structure Closed (objects : List NamespaceObject) (S : Set NamespaceObject) : Prop where
  changed : ∀ o ∈ objects, o.unlinked = false → o.followsRemote = false → o ∈ S
  parent : ∀ o ∈ S, ∀ f, ParentOf objects o f → f ∈ S
  link : ∀ o ∈ S, ∀ l, LinkTo objects o l → l ∈ S

/-- The objects with ids of their own, the linked folders of a scope with items of their own. -/
structure Distinct (objects : List NamespaceObject) : Prop where
  ids : (objects.map NamespaceObject.id).Nodup
  folders : ∀ f ∈ objects, ∀ g ∈ objects, f.unlinked = false → g.unlinked = false →
    f.node.kind = .folder → g.node.kind = .folder → f.scope = g.scope → f.node.id = g.node.id → f = g

section

variable {objects : List NamespaceObject} {o x : NamespaceObject}

theorem retainLoop_eq (fuel : Nat) (pending retained : List NamespaceObject) :
    retainLoop objects fuel pending retained =
      worklist NamespaceObject.id (fun o => (o.routes objects).reverse) fuel pending retained := by
  induction fuel generalizing pending retained with
  | zero => rfl
  | succ fuel ih =>
    cases pending with
    | nil => rfl
    | cons o pending =>
      rw [retainLoop, worklist, ih, ih]

/-- The last of values that are all the same is each of them. -/
theorem mem_getLast {l : List NamespaceObject} (hsame : ∀ a ∈ l, ∀ b ∈ l, a = b) :
    x ∈ l.getLast?.toList ↔ x ∈ l := by
  rw [Option.mem_toList]
  constructor
  · exact List.mem_of_getLast?
  · intro hx
    cases hlast : l.getLast? with
    | none => exact absurd (List.getLast?_eq_none_iff.mp hlast ▸ hx) List.not_mem_nil
    | some y => rw [hsame x hx y (List.mem_of_getLast? hlast)]

/-- The routes of an object are its parent and the links to it. -/
theorem mem_routes (h : Distinct objects) :
    x ∈ o.routes objects ↔ ParentOf objects o x ∨ LinkTo objects o x := by
  have hfolder : ∀ item, x ∈ ((objects.filter fun y => !y.unlinked).filter fun y =>
      y.node.kind = .folder && y.scope = o.scope && y.node.id = item).getLast?.toList ↔
      x ∈ objects ∧ x.unlinked = false ∧ x.node.kind = .folder ∧ x.scope = o.scope ∧
        x.node.id = item := by
    intro item
    rw [mem_getLast]
    · simp only [List.mem_filter, Bool.and_eq_true, decide_eq_true_eq, Bool.not_eq_true']
      constructor
      · rintro ⟨⟨hmem, hlinked⟩, ⟨hkind, hscope⟩, hid⟩
        exact ⟨hmem, hlinked, hkind, hscope, hid⟩
      · rintro ⟨hmem, hlinked, hkind, hscope, hid⟩
        exact ⟨⟨hmem, hlinked⟩, ⟨hkind, hscope⟩, hid⟩
    · intro a ha b hb
      simp only [List.mem_filter, Bool.and_eq_true, decide_eq_true_eq, Bool.not_eq_true'] at ha hb
      obtain ⟨⟨ha, hal⟩, ⟨hak, has⟩, hai⟩ := ha
      obtain ⟨⟨hb, hbl⟩, ⟨hbk, hbs⟩, hbi⟩ := hb
      exact h.folders a ha b hb hal hbl hak hbk (has.trans hbs.symm) (hai.trans hbi.symm)
  have hlinks : ∀ item, x ∈ ((objects.filter fun y => !y.unlinked).filter fun y =>
      y.node.target.any fun target =>
        { y.scope with collection := target.collection } = o.scope && target.item = item) ↔
      x ∈ objects ∧ x.unlinked = false ∧ x.linkTarget = some (o.scope, item) := by
    intro item
    simp only [List.mem_filter, Bool.not_eq_true', Option.any_eq_true, Bool.and_eq_true,
      decide_eq_true_eq, NamespaceObject.linkTarget, Option.map_eq_some_iff, Prod.mk.injEq, and_assoc]
  unfold NamespaceObject.routes
  simp only [List.mem_append, List.mem_flatMap, Option.mem_toList, hfolder, hlinks]
  constructor
  · rintro (⟨parent, hparent, ⟨hmem, hlinked, hkind, hscope, rfl⟩ | ⟨hmem, hlinked, htarget⟩⟩ |
      ⟨remote, hremote, hmem, hlinked, htarget⟩)
    · exact .inl ⟨hmem, hlinked, hkind, hscope, hparent⟩
    · exact .inr ⟨hmem, hlinked, parent, htarget, .inl hparent⟩
    · exact .inr ⟨hmem, hlinked, remote.id, htarget, .inr (by rw [hremote]; rfl)⟩
  · rintro (⟨hmem, hlinked, hkind, hscope, hparent⟩ | ⟨hmem, hlinked, item, htarget, hitem | hitem⟩)
    · exact .inl ⟨_, hparent, .inl ⟨hmem, hlinked, hkind, hscope, rfl⟩⟩
    · exact .inl ⟨item, hitem, .inr ⟨hmem, hlinked, htarget⟩⟩
    · obtain ⟨remote, hremote, rfl⟩ := Option.map_eq_some_iff.mp hitem
      exact .inr ⟨remote, hremote, hmem, hlinked, htarget⟩

theorem routes_subset : o.routes objects ⊆ objects := by
  intro x hx
  unfold NamespaceObject.routes at hx
  simp only [List.mem_append, List.mem_flatMap, Option.mem_toList] at hx
  rcases hx with ⟨parent, -, hx | hx⟩ | ⟨remote, -, hx⟩
  · exact List.mem_of_mem_filter (List.mem_of_mem_filter (List.mem_of_getLast? hx))
  · exact List.mem_of_mem_filter (List.mem_of_mem_filter hx)
  · exact List.mem_of_mem_filter (List.mem_of_mem_filter hx)

theorem length_routes : (o.routes objects).length ≤ 2 * objects.length + 1 := by
  have hlinked : (objects.filter fun y => !y.unlinked).length ≤ objects.length :=
    List.length_filter_le _ _
  have hlinks : ∀ p : NamespaceObject → Bool,
      ((objects.filter fun y => !y.unlinked).filter p).length ≤ objects.length :=
    fun p => (List.length_filter_le _ _).trans hlinked
  have hone : ∀ l : List NamespaceObject, l.getLast?.toList.length ≤ 1 := by
    intro l
    cases l.getLast? <;> simp
  unfold NamespaceObject.routes
  rw [List.length_append]
  have hparent : ∀ (parent : Option String) (f : String → List NamespaceObject) (n : Nat),
      (∀ item, (f item).length ≤ n) → (parent.toList.flatMap f).length ≤ n := by
    intro parent f n hf
    cases parent with
    | none => exact Nat.zero_le _
    | some item => simpa using hf item
  have hremote : ∀ (remote : Option Node) (f : Node → List NamespaceObject) (n : Nat),
      (∀ node, (f node).length ≤ n) → (remote.toList.flatMap f).length ≤ n := by
    intro remote f n hf
    cases remote with
    | none => exact Nat.zero_le _
    | some node => simpa using hf node
  have hfirst := hparent o.node.parentId (fun parent =>
    (((objects.filter fun y => !y.unlinked).filter fun y =>
      y.node.kind = .folder && y.scope = o.scope && y.node.id = parent).getLast?.toList) ++
    ((objects.filter fun y => !y.unlinked).filter fun y => y.node.target.any fun target =>
        { y.scope with collection := target.collection } = o.scope && target.item = parent))
    (1 + objects.length) (by
      intro item
      rw [List.length_append]
      exact Nat.add_le_add (hone _) (hlinks _))
  have hsecond := hremote o.remote (fun remote =>
    ((objects.filter fun y => !y.unlinked).filter fun y => y.node.target.any fun target =>
        { y.scope with collection := target.collection } = o.scope && target.item = remote.id))
    objects.length (fun node => hlinks _)
  calc _ ≤ (1 + objects.length) + objects.length := Nat.add_le_add hfirst hsecond
    _ ≤ 2 * objects.length + 1 := by omega

/-- The loop ends by itself. -/
theorem ends_retainedAncestors (h : Distinct objects) :
    Ends NamespaceObject.id (fun o => (o.routes objects).reverse)
      (objects.filter fun o => !o.followsRemote && !o.unlinked).reverse []
      (retainedAncestors objects) := by
  have hids : ∀ a ∈ objects, ∀ b ∈ objects, a.id = b.id → a = b :=
    fun a ha b hb => List.inj_on_of_nodup_map h.ids ha hb
  have hfuel : (objects.filter fun o => !o.followsRemote && !o.unlinked).reverse.length +
      (objects.filter (· ∉ ([] : List NamespaceObject))).length * (2 * objects.length + 1) ≤
      2 * objects.length * objects.length + 2 * objects.length + 1 := by
    have hstarts : (objects.filter fun o => !o.followsRemote && !o.unlinked).length ≤
        objects.length := List.length_filter_le _ _
    have hall : (objects.filter (· ∉ ([] : List NamespaceObject))).length ≤ objects.length :=
      List.length_filter_le _ _
    have hmul := Nat.mul_le_mul_right (2 * objects.length + 1) hall
    have hsquare : objects.length * (2 * objects.length + 1) =
        2 * objects.length * objects.length + objects.length := by
      rw [Nat.mul_add, Nat.mul_one, Nat.mul_comm objects.length]
    rw [List.length_reverse]
    omega
  unfold retainedAncestors
  rw [retainLoop_eq]
  apply ends_worklist hids _ _ _ _ _ hfuel _ (List.nil_subset _)
  · intro a _
    rw [List.reverse_subset]
    exact routes_subset
  · intro a _
    rw [List.length_reverse]
    exact length_routes
  · rw [List.reverse_subset]
    exact List.filter_subset_self _

/-- The loop takes exactly the objects reached from the local changes. -/
theorem mem_retainedAncestors (h : Distinct objects) :
    x ∈ retainedAncestors objects ↔
      ReachedFrom (fun o => (o.routes objects).reverse)
        (objects.filter fun o => !o.followsRemote && !o.unlinked) x := by
  have hids : ∀ a ∈ objects, ∀ b ∈ objects, a.id = b.id → a = b :=
    fun a ha b hb => List.inj_on_of_nodup_map h.ids ha hb
  rw [(ends_retainedAncestors h).mem_iff hids (fun a _ => by
      rw [List.reverse_subset]
      exact routes_subset) (by
      rw [List.reverse_subset]
      exact List.filter_subset_self _) (List.nil_subset _)
      (fun a ha => absurd ha List.not_mem_nil)]
  simp only [List.not_mem_nil, false_or]
  constructor
  · exact fun hx => hx.mono (by simp)
  · exact fun hx => hx.mono (by simp)

/-- What is retained is closed, and is in every closed set. -/
theorem retained_isLeast (h : Distinct objects) :
    IsLeast { S | Closed objects S } { x | x ∈ retainedAncestors objects } := by
  have hstep : ∀ a b, b ∈ (a.routes objects).reverse ↔ ParentOf objects a b ∨ LinkTo objects a b :=
    fun a b => by rw [List.mem_reverse, mem_routes h]
  constructor
  · refine ⟨?_, ?_, ?_⟩
    · intro o ho hlinked hfollows
      rw [Set.mem_ofPred_eq, mem_retainedAncestors h]
      exact .of_mem (by simp [ho, hlinked, hfollows])
    · intro o ho f hf
      rw [Set.mem_ofPred_eq, mem_retainedAncestors h] at ho ⊢
      obtain ⟨s, hs, hreach⟩ := ho
      exact ⟨s, hs, hreach.tail ((hstep o f).mpr (.inl hf))⟩
    · intro o ho l hl
      rw [Set.mem_ofPred_eq, mem_retainedAncestors h] at ho ⊢
      obtain ⟨s, hs, hreach⟩ := ho
      exact ⟨s, hs, hreach.tail ((hstep o l).mpr (.inr hl))⟩
  · intro S hS x hx
    rw [Set.mem_ofPred_eq, mem_retainedAncestors h] at hx
    obtain ⟨s, hs, hreach⟩ := hx
    induction hreach with
    | refl =>
      simp only [List.mem_filter, Bool.and_eq_true, Bool.not_eq_true'] at hs
      exact hS.changed s hs.1 hs.2.2 hs.2.1
    | @tail a b _ hab ih =>
      rcases (hstep a b).mp hab with hparent | hlink
      · exact hS.parent a ih b hparent
      · exact hS.link a ih b hlink

end

/-! ## The answers -/

section

variable {lowercase : String → String}

theorem foldl_insert (r : RetainedAncestors) (retained : List NamespaceObject) :
    (∀ id, id ∈ (retained.foldl (RetainedAncestors.insert lowercase) r).objects ↔
      id ∈ r.objects ∨ ∃ o ∈ retained, o.id = id) ∧
    (∀ d, d ∈ (retained.foldl (RetainedAncestors.insert lowercase) r).directories ↔
      d ∈ r.directories ∨ ∃ o ∈ retained, d ∈ o.directories) ∧
    (∀ s, s ∈ (retained.foldl (RetainedAncestors.insert lowercase) r).slots ↔
      s ∈ r.slots ∨ ∃ o ∈ retained, o.slot lowercase = some s.1 ∧ o.id = s.2) := by
  induction retained generalizing r with
  | nil => simp
  | cons o retained ih =>
    obtain ⟨hobjects, hdirectories, hslots⟩ := ih (r.insert lowercase o)
    rw [List.foldl_cons]
    refine ⟨?_, ?_, ?_⟩
    · intro id
      rw [hobjects, List.exists_mem_cons_iff, ← or_assoc]
      simp [RetainedAncestors.insert, or_comm, eq_comm]
    · intro d
      rw [hdirectories, List.exists_mem_cons_iff, ← or_assoc]
      simp [RetainedAncestors.insert, or_comm]
    · rintro ⟨slot, id⟩
      have hinsert : (slot, id) ∈ (r.insert lowercase o).slots ↔
          (slot, id) ∈ r.slots ∨ o.slot lowercase = some slot ∧ o.id = id := by
        simp only [RetainedAncestors.insert, List.mem_append, List.mem_map, Option.mem_toList,
          Prod.mk.injEq]
        constructor
        · rintro (⟨_, hslot, rfl, hid⟩ | hmem)
          · exact .inr ⟨hslot, hid⟩
          · exact .inl hmem
        · rintro (hmem | ⟨hslot, hid⟩)
          · exact .inr hmem
          · exact .inl ⟨slot, hslot, rfl, hid⟩
      rw [hslots, List.exists_mem_cons_iff, ← or_assoc, hinsert]

variable (lowercase) (objects : List NamespaceObject)

theorem contains_iff (id : Uuid) : (RetainedAncestors.new lowercase objects).contains id = true ↔
    ∃ o ∈ retainedAncestors objects, o.id = id := by
  rw [RetainedAncestors.contains, decide_eq_true_iff, RetainedAncestors.new,
    (foldl_insert _ _).1]
  simp

/-- A folder, or the target of a link to a folder or to something of unknown kind. -/
inductive NamespaceObject.LeadsTo (o : NamespaceObject) (scope : Scope) (item : String) : Prop where
  | folder (kind : o.node.kind = .folder) (here : o.scope = scope) (id : o.node.id = item)
  | link {target : RemoteRef} (target_eq : o.node.target = some target)
      (kind : target.kind = none ∨ target.kind = some .folder)
      (leads : { o.scope with collection := target.collection } = scope) (id : target.item = item)

theorem mem_directories {o : NamespaceObject} {scope : Scope} {item : String} :
    (scope, item) ∈ o.directories ↔ o.LeadsTo scope item := by
  simp only [NamespaceObject.directories, List.mem_append, List.mem_map, Option.mem_toList,
    Option.filter_eq_some_iff, Bool.or_eq_true, decide_eq_true_eq, Prod.mk.injEq]
  constructor
  · rintro (hfolder | ⟨target, ⟨htarget, hkind⟩, hleads, hid⟩)
    · split at hfolder
      · next hkind =>
        obtain ⟨hscope, hid⟩ := Prod.mk.inj (List.mem_singleton.mp hfolder)
        exact .folder hkind hscope.symm hid.symm
      · cases hfolder
    · exact .link htarget hkind hleads hid
  · rintro (⟨hkind, rfl, rfl⟩ | ⟨htarget, hkind, hleads, hid⟩)
    · rw [if_pos hkind]
      exact .inl List.mem_cons_self
    · exact .inr ⟨_, ⟨htarget, hkind⟩, hleads, hid⟩

theorem directory_iff (scope : Scope) (item : String) :
    (RetainedAncestors.new lowercase objects).directory scope item = true ↔
      ∃ o ∈ retainedAncestors objects, o.LeadsTo scope item := by
  rw [RetainedAncestors.directory, decide_eq_true_iff, RetainedAncestors.new,
    (foldl_insert _ _).2.1]
  simp [mem_directories]

/-- The same name in the same folder. -/
structure NamespaceObject.SameSlot (lowercase : String → String) (o m : NamespaceObject) : Prop where
  scope : m.scope = o.scope
  parent : ∃ parent, o.node.parentId = some parent ∧ m.node.parentId = some parent
  name : m.names.fold lowercase m.node.name = o.names.fold lowercase o.node.name

theorem sameSlot_iff {o m : NamespaceObject} : o.SameSlot lowercase m ↔
    ∃ slot, o.slot lowercase = some slot ∧ m.slot lowercase = some slot := by
  simp only [NamespaceObject.slot, Option.map_eq_some_iff]
  constructor
  · rintro ⟨hscope, ⟨parent, hparent, hparent'⟩, hname⟩
    exact ⟨_, ⟨parent, hparent, rfl⟩, parent, hparent', by rw [hscope, hname]⟩
  · rintro ⟨_, ⟨parent, hparent, rfl⟩, parent', hparent', heq⟩
    simp only [Prod.mk.injEq] at heq
    obtain ⟨hscope, rfl, hname⟩ := heq
    exact ⟨hscope, ⟨parent', hparent, hparent'⟩, hname⟩

theorem checkSlot_eq (o : NamespaceObject) :
    (RetainedAncestors.new lowercase objects).checkSlot lowercase o = .error .stale ∧
      (∃ m ∈ retainedAncestors objects, m.id ≠ o.id ∧ o.SameSlot lowercase m) ∨
    (RetainedAncestors.new lowercase objects).checkSlot lowercase o = .ok () ∧
      ¬ ∃ m ∈ retainedAncestors objects, m.id ≠ o.id ∧ o.SameSlot lowercase m := by
  have htaken : ((o.slot lowercase).any fun slot =>
      (RetainedAncestors.new lowercase objects).slots.any fun owner =>
        owner.1 = slot && owner.2 ≠ o.id) = true ↔
      ∃ m ∈ retainedAncestors objects, m.id ≠ o.id ∧ o.SameSlot lowercase m := by
    simp only [Option.any_eq_true, List.any_eq_true, Bool.and_eq_true, decide_eq_true_eq,
      RetainedAncestors.new, (foldl_insert _ _).2.2, sameSlot_iff, List.not_mem_nil, false_or]
    constructor
    · rintro ⟨slot, hslot, ⟨_, id⟩, ⟨m, hm, hown, rfl⟩, rfl, hne⟩
      exact ⟨m, hm, hne, _, hslot, hown⟩
    · rintro ⟨m, hm, hne, slot, hslot, hown⟩
      exact ⟨slot, hslot, (slot, m.id), ⟨m, hm, hown, rfl⟩, rfl, hne⟩
  unfold RetainedAncestors.checkSlot
  by_cases h : ∃ m ∈ retainedAncestors objects, m.id ≠ o.id ∧ o.SameSlot lowercase m
  · rw [htaken.mpr h]
    exact .inl ⟨rfl, h⟩
  · rw [Bool.eq_false_iff.mpr (mt htaken.mp h)]
    exact .inr ⟨rfl, h⟩

end

/-! ## The order of the input -/

section

variable {objects objects' : List NamespaceObject} {S : Set NamespaceObject}

theorem Closed.of_perm (hperm : objects'.Perm objects) (h : Closed objects S) :
    Closed objects' S where
  changed o ho := h.changed o (hperm.mem_iff.mp ho)
  parent o ho f hf :=
    h.parent o ho f ⟨hperm.mem_iff.mp hf.mem, hf.linked, hf.folder, hf.scope, hf.parent⟩
  link o ho l hl := h.link o ho l ⟨hperm.mem_iff.mp hl.mem, hl.linked, hl.target⟩

theorem Distinct.of_perm (hperm : objects'.Perm objects) (h : Distinct objects) :
    Distinct objects' where
  ids := (hperm.map _).nodup_iff.mpr h.ids
  folders f hf g hg := h.folders f (hperm.mem_iff.mp hf) g (hperm.mem_iff.mp hg)

theorem mem_retained_perm (hperm : objects'.Perm objects) (h : Distinct objects)
    (o : NamespaceObject) : o ∈ retainedAncestors objects' ↔ o ∈ retainedAncestors objects := by
  have hsame : { S | Closed objects' S } = { S | Closed objects S } := by
    ext S
    exact ⟨fun hS => hS.of_perm hperm.symm, fun hS => hS.of_perm hperm⟩
  have hleast := retained_isLeast (h.of_perm hperm)
  rw [hsame] at hleast
  exact Set.ext_iff.mp (hleast.unique (retained_isLeast h)) o

end

/-- Retained routes are the least closure, in whatever order the objects come. -/
theorem retained_least (lowercase : String → String) (objects : List NamespaceObject)
    (h : Distinct objects) :
    Ends NamespaceObject.id (fun o => (o.routes objects).reverse)
      (objects.filter fun o => !o.followsRemote && !o.unlinked).reverse []
      (retainedAncestors objects) ∧
    (∃ S, IsLeast { S | Closed objects S } S ∧
      (∀ id, (RetainedAncestors.new lowercase objects).contains id = true ↔
        ∃ o ∈ S, o.id = id) ∧
      (∀ scope item, (RetainedAncestors.new lowercase objects).directory scope item = true ↔
        ∃ o ∈ S, o.LeadsTo scope item) ∧
      ∀ o, (RetainedAncestors.new lowercase objects).checkSlot lowercase o = .error .stale ∧
          (∃ m ∈ S, m.id ≠ o.id ∧ o.SameSlot lowercase m) ∨
        (RetainedAncestors.new lowercase objects).checkSlot lowercase o = .ok () ∧
          ¬ ∃ m ∈ S, m.id ≠ o.id ∧ o.SameSlot lowercase m) ∧
    ∀ objects', objects'.Perm objects →
      (∀ id, (RetainedAncestors.new lowercase objects').contains id =
        (RetainedAncestors.new lowercase objects).contains id) ∧
      (∀ scope item, (RetainedAncestors.new lowercase objects').directory scope item =
        (RetainedAncestors.new lowercase objects).directory scope item) ∧
      ∀ o, (RetainedAncestors.new lowercase objects').checkSlot lowercase o =
        (RetainedAncestors.new lowercase objects).checkSlot lowercase o := by
  refine ⟨ends_retainedAncestors h, ?_, ?_⟩
  · exact ⟨_, retained_isLeast h, contains_iff lowercase objects, directory_iff lowercase objects,
      checkSlot_eq lowercase objects⟩
  · intro objects' hperm
    have hmem := mem_retained_perm hperm h
    refine ⟨?_, ?_, ?_⟩
    · intro id
      rw [Bool.eq_iff_iff, contains_iff, contains_iff]
      simp only [hmem]
    · intro scope item
      rw [Bool.eq_iff_iff, directory_iff, directory_iff]
      simp only [hmem]
    · intro o
      have hthere := checkSlot_eq lowercase objects' o
      simp only [hmem] at hthere
      rcases checkSlot_eq lowercase objects o with ⟨heq, htaken⟩ | ⟨heq, hfree⟩
      · rcases hthere with ⟨heq', -⟩ | ⟨-, hfree⟩
        · rw [heq, heq']
        · exact absurd htaken hfree
      · rcases hthere with ⟨-, htaken⟩ | ⟨heq', -⟩
        · exact absurd htaken hfree
        · rw [heq, heq']

/-! ## Two folders in each other -/

def sampleObject (id : Nat) (collection item parent : String) (kind : NodeKind)
    (target : Option RemoteRef) (followsRemote : Bool) : NamespaceObject where
  id := ⟨id⟩
  scope := ⟨"account", "onedrive", collection⟩
  names := .sensitive
  node :=
    { id := item, parentId := some parent, name := item, kind := kind, size := 0, modifiedUnix := 0
      etag := none, contentVersion := none, target := target, package := false }
  remote := none
  remoteOwned := true
  remoteSequence := 0
  workingFile := none
  latest := none
  revision := 0
  followsRemote := followsRemote
  unlinked := false

/-- A local file in two folders that are in each other, and a link to one of them. -/
def sampleObjects : List NamespaceObject :=
  [sampleObject 1 "drive" "file" "f" .file none false,
    sampleObject 2 "drive" "f" "g" .folder none true,
    sampleObject 3 "drive" "g" "f" .folder none true,
    sampleObject 4 "shared" "link" "root" .shortcut (some ⟨"drive", "g", none⟩) true]

theorem sampleObjects_retained :
    (RetainedAncestors.new id sampleObjects).contains ⟨4⟩ = true ∧
      (RetainedAncestors.new id sampleObjects.reverse).contains ⟨4⟩ = true := by
  obtain ⟨-, ⟨S, hleast, hcontains, -⟩, horder⟩ :=
    retained_least id sampleObjects ⟨by decide, by decide⟩
  have hclosed : Closed sampleObjects S := hleast.1
  have hfile : sampleObject 1 "drive" "file" "f" .file none false ∈ S :=
    hclosed.changed _ (by decide) rfl rfl
  have hfolder : sampleObject 2 "drive" "f" "g" .folder none true ∈ S :=
    hclosed.parent _ hfile _ ⟨by decide, rfl, rfl, rfl, rfl⟩
  have hlink : sampleObject 4 "shared" "link" "root" .shortcut (some ⟨"drive", "g", none⟩) true ∈ S :=
    hclosed.link _ hfolder _ ⟨by decide, rfl, "g", rfl, .inl rfl⟩
  have hfound := (hcontains ⟨4⟩).mpr ⟨_, hlink, rfl⟩
  exact ⟨hfound, ((horder _ (List.reverse_perm _)).1 _).trans hfound⟩

end Cirrove.Journal
