import Mathlib.Data.Fintype.Card
import Mathlib.Data.List.Nodup
import Mathlib.Data.List.Pairwise
import Mathlib.Data.Set.Finite.Basic
import Mathlib.Logic.Relation

/-!
# Walking down a graph with a stack

A walk takes a vertex from its stack, visits it and puts the vertices next to it on the
stack, whether or not it has met them before. `Visits` is the order of the visits. The walk
ends exactly when nothing it can reach lies below itself, and what it collects on the way
is without repetition exactly when no two vertices lead to the same item.

## Sections

- the walk, and what it reaches
- termination
- repetitions
-/

namespace Cirrove.Library

variable {α β : Type*} (next : α → List α)

/-- `a` leads to `b` in any number of steps. -/
def Descends : α → α → Prop := Relation.ReflTransGen fun a b => b ∈ next a

/-- `a` leads to `b` in at least one step. -/
def DescendsBelow : α → α → Prop := Relation.TransGen fun a b => b ∈ next a

/-- The visits of a walk, in order, from the stack it starts with. -/
inductive Visits : List α → List α → Prop where
  | done : Visits [] []
  | visit {a : α} {rest order : List α} : Visits (next a ++ rest) order →
      Visits (a :: rest) (a :: order)

variable {next}

/-! ## What a walk reaches -/

theorem Descends.trans {a b c : α} (hab : Descends next a b) (hbc : Descends next b c) :
    Descends next a c :=
  Relation.ReflTransGen.trans hab hbc

theorem Descends.of_next {a b : α} (h : b ∈ next a) : Descends next a b :=
  Relation.ReflTransGen.single h

namespace Visits

/-- A walk visits what its stack leads to, and nothing else. -/
theorem mem_iff {stack order : List α} (h : Visits next stack order) {b : α} :
    b ∈ order ↔ ∃ a ∈ stack, Descends next a b := by
  induction h with
  | done => simp
  | @visit a rest order _ ih =>
    rw [List.mem_cons, ih]
    constructor
    · rintro (rfl | ⟨c, hc, hreach⟩)
      · exact ⟨b, List.mem_cons_self, .refl⟩
      · rcases List.mem_append.mp hc with hc | hc
        · exact ⟨a, List.mem_cons_self, (Descends.of_next hc).trans hreach⟩
        · exact ⟨c, List.mem_cons_of_mem _ hc, hreach⟩
    · rintro ⟨c, hc, hreach⟩
      rcases List.mem_cons.mp hc with rfl | hc
      · rcases hreach.cases_head with rfl | ⟨d, hd, hreach⟩
        · exact .inl rfl
        · exact .inr ⟨d, List.mem_append_left _ hd, hreach⟩
      · exact .inr ⟨c, List.mem_append_right _ hc, hreach⟩

/-- Two walks one after the other are one walk. -/
theorem append {stack stack' order order' : List α} (h : Visits next stack order)
    (h' : Visits next stack' order') : Visits next (stack ++ stack') (order ++ order') := by
  induction h with
  | done => exact h'
  | @visit a rest order _ ih =>
    apply Visits.visit
    rw [List.append_assoc] at ih
    exact ih

/-- A walk deals with the upper part of its stack first. -/
theorem split {stack stack' order : List α} (h : Visits next (stack ++ stack') order) :
    ∃ first second, Visits next stack first ∧ Visits next stack' second ∧
      order = first ++ second := by
  generalize hwhole : stack ++ stack' = whole at h
  induction h generalizing stack with
  | done =>
    obtain ⟨rfl, rfl⟩ := List.append_eq_nil_iff.mp hwhole
    exact ⟨[], [], .done, .done, rfl⟩
  | @visit a rest order hrest ih =>
    cases stack with
    | nil =>
      subst hwhole
      exact ⟨[], a :: order, .done, .visit hrest, rfl⟩
    | cons b stack =>
      obtain ⟨rfl, rfl⟩ := List.cons.inj hwhole
      obtain ⟨first, second, hfirst, hsecond, rfl⟩ := ih (List.append_assoc _ _ _)
      exact ⟨b :: first, second, .visit hfirst, hsecond, rfl⟩

/-- The walk from one vertex. -/
theorem singleton_iff {a : α} {order : List α} :
    Visits next [a] order ↔ ∃ below, Visits next (next a) below ∧ order = a :: below := by
  constructor
  · intro h
    cases h with
    | visit hbelow =>
      rw [List.append_nil] at hbelow
      exact ⟨_, hbelow, rfl⟩
  · rintro ⟨below, hbelow, rfl⟩
    apply Visits.visit
    rw [List.append_nil]
    exact hbelow

/-! ## Termination -/

/-- Only a descent without end keeps a walk from ending. -/
theorem acc {stack order : List α} (h : Visits next stack order) :
    ∀ a ∈ stack, Acc (fun b a => b ∈ next a) a := by
  induction h with
  | done => simp
  | @visit a rest order _ ih =>
    intro b hb
    rcases List.mem_cons.mp hb with rfl | hb
    · apply Acc.intro
      intro c hc
      exact ih c (List.mem_append_left _ hc)
    · exact ih b (List.mem_append_right _ hb)

end Visits

theorem exists_visits {stack : List α} (h : ∀ a ∈ stack, Acc (fun b a => b ∈ next a) a) :
    ∃ order, Visits next stack order := by
  have hone : ∀ a, Acc (fun b a => b ∈ next a) a → ∃ order, Visits next [a] order := by
    intro a ha
    induction ha with
    | intro a _ ih =>
      -- The vertices next to `a` are walked one after the other.
      have hall : ∀ below : List α, (∀ b ∈ below, b ∈ next a) →
          ∃ order, Visits next below order := by
        intro below hbelow
        induction below with
        | nil => exact ⟨[], .done⟩
        | cons b below ihbelow =>
          obtain ⟨first, hfirst⟩ := ih b (hbelow b List.mem_cons_self)
          obtain ⟨second, hsecond⟩ := ihbelow fun c hc => hbelow c (List.mem_cons_of_mem _ hc)
          exact ⟨first ++ second, hfirst.append hsecond⟩
      obtain ⟨order, horder⟩ := hall (next a) fun b hb => hb
      exact ⟨a :: order, Visits.singleton_iff.mpr ⟨order, horder, rfl⟩⟩
  induction stack with
  | nil => exact ⟨[], .done⟩
  | cons a stack ih =>
    obtain ⟨first, hfirst⟩ := hone a (h a List.mem_cons_self)
    obtain ⟨second, hsecond⟩ := ih fun b hb => h b (List.mem_cons_of_mem _ hb)
    exact ⟨first ++ second, hfirst.append hsecond⟩

/-- A descent that ends never comes back to a vertex. -/
theorem not_descendsBelow_of_acc {a : α} (h : Acc (fun b a => b ∈ next a) a) :
    ¬ DescendsBelow next a a := by
  induction h with
  | intro a _ ih =>
    intro hcycle
    -- The cycle through `a` is one through the vertex it visits first.
    obtain ⟨b, hb, hback⟩ := Relation.TransGen.head'_iff.mp hcycle
    exact ih b hb (Relation.TransGen.tail' hback hb)

theorem acc_of_descends {a b : α} (h : Acc (fun b a => b ∈ next a) a) (hreach : Descends next a b) :
    Acc (fun b a => b ∈ next a) b := by
  induction hreach with
  | refl => exact h
  | tail _ hstep ih => exact ih.inv hstep

/-- Where only finitely many vertices are reached, the descent ends exactly when none of
    them lies below itself. -/
theorem acc_iff_acyclic {a : α} (hfinite : {b | Descends next a b}.Finite) :
    Acc (fun b a => b ∈ next a) a ↔ ∀ b, Descends next a b → ¬ DescendsBelow next b b := by
  constructor
  · intro hacc b hreach
    exact not_descendsBelow_of_acc (acc_of_descends hacc hreach)
  · intro hacyclic
    have : Finite {b | Descends next a b} := hfinite
    -- The descent among the vertices that are reached is a strict order on a finite type.
    let below : {b | Descends next a b} → {b | Descends next a b} → Prop :=
      fun c b => DescendsBelow next b.1 c.1
    have : IsTrans _ below := ⟨fun _ _ _ hba hcb => Relation.TransGen.trans hcb hba⟩
    have : Std.Irrefl below := ⟨fun b => hacyclic b.1 b.2⟩
    have hwf := Finite.wellFounded_of_trans_of_irrefl below
    have hall : ∀ b : {b | Descends next a b}, Acc (fun b a => b ∈ next a) b.1 := by
      intro b
      induction b using hwf.induction with
      | _ b ih =>
        apply Acc.intro
        intro c hc
        exact ih ⟨c, b.2.trans (.of_next hc)⟩ (Relation.TransGen.single hc)
    exact hall ⟨a, .refl⟩

/-! ## Repetitions -/

variable (next) in
/-- `a` leads to a vertex that has the item `x`. -/
def LeadsTo (items : α → List β) (a : α) (x : β) : Prop := ∃ b, Descends next a b ∧ x ∈ items b

variable (next) in
/-- No item is at two vertices, and no vertex with an item below it is next to two. -/
structure Unambiguous (items : α → List β) (root : α) : Prop where
  item : ∀ p p' x, Descends next root p → Descends next root p' → x ∈ items p → x ∈ items p' →
    p = p'
  vertex : ∀ p p' q x, Descends next root p → Descends next root p' → q ∈ next p → q ∈ next p' →
    LeadsTo next items q x → p = p'

variable {items : α → List β}

theorem LeadsTo.of_next {a b : α} {x : β} (hb : b ∈ next a) (h : LeadsTo next items b x) :
    LeadsTo next items a x := by
  obtain ⟨c, hc, hx⟩ := h
  exact ⟨c, (Descends.of_next hb).trans hc, hx⟩

theorem Visits.mem_flatMap_iff {stack order : List α} (h : Visits next stack order) {x : β} :
    x ∈ order.flatMap items ↔ ∃ a ∈ stack, LeadsTo next items a x := by
  simp only [List.mem_flatMap, h.mem_iff, LeadsTo]
  tauto

theorem leadsTo_iff {a : α} {x : β} :
    LeadsTo next items a x ↔ x ∈ items a ∨ ∃ b ∈ next a, LeadsTo next items b x := by
  constructor
  · rintro ⟨c, hreach, hx⟩
    rcases hreach.cases_head with rfl | ⟨b, hb, hreach⟩
    · exact .inl hx
    · exact .inr ⟨b, hb, c, hreach, hx⟩
  · rintro (hx | ⟨b, hb, hleads⟩)
    · exact ⟨a, .refl, hx⟩
    · exact hleads.of_next hb

variable (next) in
/-- Two vertices that lead to no common item. -/
def Divergent (items : α → List β) (a b : α) : Prop :=
  ∀ x, LeadsTo next items a x → ¬ LeadsTo next items b x

variable (next) in
/-- The items of a vertex are apart from each other and from all that is below it, and the
    vertices next to it lead to different items. -/
structure Apart (items : α → List β) (a : α) : Prop where
  own : (items a).Nodup
  below : ∀ x ∈ items a, ∀ b ∈ next a, ¬ LeadsTo next items b x
  branches : (next a).Pairwise (Divergent next items)

/-- A walk collects without repetition exactly when every vertex it visits keeps its items
    apart, and so does its stack. -/
theorem Visits.nodup_iff {stack order : List α} (h : Visits next stack order) :
    (order.flatMap items).Nodup ↔
      (∀ a ∈ order, Apart next items a) ∧ stack.Pairwise (Divergent next items) := by
  induction h with
  | done => simp
  | @visit a rest order hrest ih =>
    rw [List.flatMap_cons, List.nodup_append, ih, List.pairwise_append, List.pairwise_cons,
      List.forall_mem_cons]
    constructor
    · rintro ⟨hown, ⟨hbelow, hbranches, hothers, hacross⟩, hdisjoint⟩
      have hfirst : ∀ x ∈ items a, ∀ c ∈ next a ++ rest, ¬ LeadsTo next items c x := by
        intro x hx c hc hleads
        exact hdisjoint x hx x (hrest.mem_flatMap_iff.mpr ⟨c, hc, hleads⟩) rfl
      refine ⟨⟨⟨hown, ?_, hbranches⟩, hbelow⟩, ?_, hothers⟩
      · intro x hx b hb
        exact hfirst x hx b (List.mem_append_left _ hb)
      · intro c hc x hx
        rcases leadsTo_iff.mp hx with hx | ⟨b, hb, hx⟩
        · exact hfirst x hx c (List.mem_append_right _ hc)
        · exact hacross b hb c hc x hx
    · rintro ⟨⟨happart, hbelow⟩, hfirst, hothers⟩
      refine ⟨happart.own, ⟨hbelow, happart.branches, hothers, ?_⟩, ?_⟩
      · intro b hb c hc x hx
        exact hfirst c hc x (hx.of_next hb)
      · intro x hx y hy hxy
        subst hxy
        obtain ⟨c, hc, hleads⟩ := hrest.mem_flatMap_iff.mp hy
        rcases List.mem_append.mp hc with hc | hc
        · exact happart.below x hx c hc hleads
        · exact hfirst c hc x (leadsTo_iff.mpr (.inl hx)) hleads

/-! ### Apart everywhere, and unambiguous -/

instance : Std.Symm (Divergent next items) := ⟨fun _ _ h x hx hx' => h x hx' hx⟩

/-- Where all is apart, two vertices below `a` that are marked and lead to the same item are
    one, if no marked vertex is below another. -/
theorem eq_of_apart (marked : α → Prop) (x : β) {a p p' : α}
    (happart : ∀ b, Descends next a b → Apart next items b)
    (hleads : ∀ b, marked b → LeadsTo next items b x)
    (hapart : ∀ b c d, Descends next a b → marked b → c ∈ next b → Descends next c d → ¬ marked d)
    (hp : Descends next a p) (hp' : Descends next a p') (hmarked : marked p)
    (hmarked' : marked p') : p = p' := by
  induction hp using Relation.ReflTransGen.head_induction_on with
  | refl =>
    rcases hp'.cases_head with heq | ⟨c, hc, hreach⟩
    · exact heq
    · exact absurd hmarked' (hapart p c p' .refl hmarked hc hreach)
  | @head a c hc hreach ih =>
    rcases hp'.cases_head with rfl | ⟨c', hc', hreach'⟩
    · exact absurd hmarked (hapart a c p .refl hmarked' hc hreach)
    · by_cases heq : c = c'
      · -- The two ways go on together.
        subst heq
        apply ih
        · intro b hb
          exact happart b ((Descends.of_next hc).trans hb)
        · intro b d e hb
          exact hapart b d e ((Descends.of_next hc).trans hb)
        · exact hreach'
      · have hdisjoint := (happart a .refl).branches.forall hc hc' heq
        obtain ⟨d, hd, hx⟩ := hleads p hmarked
        obtain ⟨d', hd', hx'⟩ := hleads p' hmarked'
        exact absurd ⟨d', hreach'.trans hd', hx'⟩ (hdisjoint x ⟨d, hreach.trans hd, hx⟩)

theorem Unambiguous.of_apart {root : α}
    (hacyclic : ∀ b, Descends next root b → ¬ DescendsBelow next b b)
    (happart : ∀ b, Descends next root b → Apart next items b) : Unambiguous next items root where
  item := by
    intro p p' x hp hp' hx hx'
    apply eq_of_apart (fun b => x ∈ items b) x happart _ _ hp hp' hx hx'
    · intro b hb
      exact ⟨b, .refl, hb⟩
    · intro b c d hreach hb hc hd hmarked
      exact (happart b hreach).below x hb c hc ⟨d, hd, hmarked⟩
  vertex := by
    intro p p' q x hp hp' hq hq' hleads
    apply eq_of_apart (fun b => q ∈ next b) x happart _ _ hp hp' hq hq'
    · intro b hb
      exact hleads.of_next hb
    · intro b c d hreach hb hc hd hmarked
      by_cases heq : c = q
      · -- The vertex would be below itself.
        subst heq
        exact hacyclic c (hreach.trans (.of_next hb)) (Relation.TransGen.tail' hd hmarked)
      · have hdisjoint := (happart b hreach).branches.forall hc hb heq
        obtain ⟨e, he, hx⟩ := hleads.of_next hmarked
        exact hdisjoint x ⟨e, hd.trans he, hx⟩ hleads

/-- Of two vertices above one that leads to an item, one is above the other. -/
theorem Unambiguous.linear {root c c' d : α} {x : β} (h : Unambiguous next items root)
    (hroot : Descends next root c) (hroot' : Descends next root c') (hc : Descends next c d)
    (hc' : Descends next c' d) (hleads : LeadsTo next items d x) :
    Descends next c c' ∨ Descends next c' c := by
  induction hc with
  | refl => exact .inr hc'
  | @tail e d hce hstep ih =>
    rcases hc'.cases_tail with rfl | ⟨e', hce', hstep'⟩
    · exact .inl (hce.tail hstep)
    · have heq : e = e' :=
        h.vertex e e' d x (hroot.trans hce) (hroot'.trans hce') hstep hstep' hleads
      subst heq
      exact ih hce' (hleads.of_next hstep)

theorem Unambiguous.apart {root b : α} (h : Unambiguous next items root)
    (hacyclic : ∀ b, Descends next root b → ¬ DescendsBelow next b b)
    (hnext : (next b).Nodup) (hown : (items b).Nodup) (hb : Descends next root b) :
    Apart next items b where
  own := hown
  below := by
    rintro x hx c hc ⟨d, hd, hx'⟩
    have hreach : Descends next root c := hb.trans (.of_next hc)
    have heq := h.item b d x hb (hreach.trans hd) hx hx'
    subst heq
    exact hacyclic b hb (Relation.TransGen.head' hc hd)
  branches := by
    apply hnext.imp_of_mem
    rintro c c' hc hc' hne x ⟨d, hd, hx⟩ ⟨d', hd', hx'⟩
    have hreach : Descends next root c := hb.trans (.of_next hc)
    have hreach' : Descends next root c' := hb.trans (.of_next hc')
    have heq := h.item d d' x (hreach.trans hd) (hreach'.trans hd') hx hx'
    subst heq
    -- One branch is above the other, and so is the vertex itself: it is below itself.
    have habove : ∀ {e f : α}, e ∈ next b → f ∈ next b → e ≠ f → Descends next e f →
        Descends next f d → False := by
      intro e f he hf hef hreaches hfd
      rcases hreaches.cases_tail with rfl | ⟨g, hg, hstep⟩
      · exact hef rfl
      · have hgb : g = b := h.vertex g b f x ((hb.trans (.of_next he)).trans hg) hb hstep hf
          ⟨d, hfd, hx⟩
        subst hgb
        exact hacyclic g hb (Relation.TransGen.head' he hg)
    rcases h.linear hreach hreach' hd hd' ⟨d, .refl, hx⟩ with hcc | hcc
    · exact habove hc hc' hne hcc hd'
    · exact habove hc' hc (Ne.symm hne) hcc hd

/-- A walk from one vertex that ends collects without repetition exactly when nothing below
    the vertex is ambiguous. -/
theorem Visits.nodup_iff_unambiguous {root : α} {order : List α} (h : Visits next [root] order)
    (hnext : ∀ b, (next b).Nodup) (hown : ∀ b, (items b).Nodup) :
    (order.flatMap items).Nodup ↔ Unambiguous next items root := by
  have hacc := h.acc root List.mem_cons_self
  have hacyclic : ∀ b, Descends next root b → ¬ DescendsBelow next b b := by
    intro b hb
    exact not_descendsBelow_of_acc (acc_of_descends hacc hb)
  have hvisited : ∀ b, b ∈ order ↔ Descends next root b := by
    intro b
    simp [h.mem_iff]
  rw [h.nodup_iff]
  constructor
  · rintro ⟨happart, _⟩
    exact .of_apart hacyclic fun b hb => happart b ((hvisited b).mpr hb)
  · intro hunambiguous
    refine ⟨?_, List.pairwise_singleton _ _⟩
    intro b hb
    exact hunambiguous.apart hacyclic (hnext b) (hown b) ((hvisited b).mp hb)

end Cirrove.Library
