import Mathlib.Data.Finset.Sort
import Mathlib.Data.Set.Card

/-!
# Paging through an ordered set that changes

A sweep goes through an ordered set in pages. A page answers, in order, some of the elements
past the cursor, starting with the first; the cursor moves to the last element it answered.
Between two pages the set may change in any way. An element that stays is met exactly once,
whatever happens to the others.
-/

namespace Cirrove.Library

variable {α : Type*} [LinearOrder α]

/-- The element lies past the cursor. -/
def Past (cursor : Option α) (a : α) : Prop := ∀ c ∈ cursor, c < a

instance (cursor : Option α) (a : α) : Decidable (Past cursor a) := by
  unfold Past
  infer_instance

/-- One page of the set from the cursor. -/
structure PageFrom (s : Set α) (cursor : Option α) (page : List α) (complete : Bool) : Prop where
  sorted : page.Pairwise (· < ·)
  mem : ∀ a ∈ page, a ∈ s ∧ Past cursor a
  /-- What is left out comes later, and nothing is left out of the last page. -/
  rest : ∀ a ∈ s, Past cursor a → a ∈ page ∨ (complete = false ∧ ∀ b ∈ page, b < a)
  progress : complete = false → page ≠ []

/-- The cursor after a page. -/
def cursorAfter (cursor : Option α) (page : List α) : Option α := page.getLast?.or cursor

/-- A sweep: the sets its pages were taken from, what it has met, and whether it is over. -/
inductive Sweep : Option α → List (Set α) → List α → Bool → Prop where
  | start : Sweep none [] [] false
  | page {cursor : Option α} {sets : List (Set α)} {met page : List α} {s : Set α}
      {complete : Bool} : Sweep cursor sets met false → PageFrom s cursor page complete →
      Sweep (cursorAfter cursor page) (sets ++ [s]) (met ++ page) complete

/-- A page is the beginning of the ordered elements past the cursor, up to one that is not in
    the set, after which there is none. -/
theorem PageFrom.of_prefix {s : Set α} {cursor : Option α} {page rest : List α} {complete : Bool}
    (hsorted : (page ++ rest).Pairwise (· < ·)) (hmem : ∀ a ∈ page, a ∈ s ∧ Past cursor a)
    (hall : ∀ a ∈ s, Past cursor a → a ∈ page ++ rest)
    (hcomplete : complete = true → ∀ a ∈ rest, a ∉ s)
    (hprogress : complete = false → page ≠ []) : PageFrom s cursor page complete where
  sorted := (List.pairwise_append.mp hsorted).1
  mem := hmem
  rest := by
    intro a ha hpast
    rcases List.mem_append.mp (hall a ha hpast) with hpage | hrest
    · exact .inl hpage
    · cases complete with
      | true => exact absurd ha (hcomplete rfl a hrest)
      | false =>
        refine .inr ⟨rfl, ?_⟩
        intro b hb
        exact (List.pairwise_append.mp hsorted).2.2 b hb a hrest
  progress := hprogress

/-- In an ordered list nothing comes after the last element. -/
theorem le_getLast {l : List α} (hsorted : l.Pairwise (· < ·)) {c : α} (hc : c ∈ l.getLast?) :
    ∀ a ∈ l, a ≤ c := by
  have hne : l ≠ [] := by
    rintro rfl
    cases hc
  have hlast := List.dropLast_append_getLast? c hc
  intro a ha
  rw [← hlast] at ha hsorted
  rcases List.mem_append.mp ha with hinit | hlast'
  · exact ((List.pairwise_append.mp hsorted).2.2 a hinit c (List.mem_singleton_self c)).le
  · exact (List.mem_singleton.mp hlast').le

namespace Sweep

variable {cursor : Option α} {sets : List (Set α)} {met : List α} {complete : Bool}

/-- What a sweep has met is in order, and the cursor is the last of it. -/
theorem sorted (h : Sweep cursor sets met complete) :
    met.Pairwise (· < ·) ∧ cursor = met.getLast? := by
  induction h with
  | start => exact ⟨.nil, rfl⟩
  | @page cursor sets met page s complete _ hpage ih =>
    obtain ⟨hsorted, rfl⟩ := ih
    refine ⟨?_, ?_⟩
    · rw [List.pairwise_append]
      refine ⟨hsorted, hpage.sorted, ?_⟩
      intro a ha b hb
      -- The page is past the cursor, and what was met before is not.
      cases hlast : met.getLast? with
      | none =>
        rw [List.getLast?_eq_none_iff] at hlast
        subst hlast
        cases ha
      | some c => exact lt_of_le_of_lt (le_getLast hsorted hlast a ha) ((hpage.mem b hb).2 c hlast)
    · rw [List.getLast?_append, cursorAfter]

/-- Nothing is met twice. -/
theorem nodup (h : Sweep cursor sets met complete) : met.Nodup :=
  h.sorted.1.imp fun hlt => hlt.ne

/-- What is met was in the set at one of the pages. -/
theorem mem_sets (h : Sweep cursor sets met complete) {a : α} (ha : a ∈ met) :
    ∃ s ∈ sets, a ∈ s := by
  induction h with
  | start => cases ha
  | page _ hpage ih =>
    rcases List.mem_append.mp ha with ha | ha
    · obtain ⟨s, hs, hmem⟩ := ih ha
      exact ⟨s, List.mem_append_left _ hs, hmem⟩
    · exact ⟨_, List.mem_append_right _ (List.mem_singleton_self _), (hpage.mem a ha).1⟩

/-- What stays in the set is met, or lies ahead. -/
theorem mem_or_past (h : Sweep cursor sets met complete) {a : α} (ha : ∀ s ∈ sets, a ∈ s) :
    a ∈ met ∨ (complete = false ∧ Past cursor a) := by
  induction h with
  | start => exact .inr ⟨rfl, by simp [Past]⟩
  | @page cursor sets met page s complete _ hpage ih =>
    rcases ih fun s hs => ha s (List.mem_append_left _ hs) with hmet | ⟨_, hpast⟩
    · exact .inl (List.mem_append_left _ hmet)
    · have hs : a ∈ s := ha s (List.mem_append_right _ (List.mem_singleton_self s))
      rcases hpage.rest a hs hpast with hmem | ⟨hcomplete, hlater⟩
      · exact .inl (List.mem_append_right _ hmem)
      · refine .inr ⟨hcomplete, ?_⟩
        intro c hc
        unfold cursorAfter at hc
        cases hlast : page.getLast? with
        | none =>
          rw [hlast] at hc
          exact hpast c hc
        | some d =>
          rw [hlast] at hc
          cases hc
          exact hlater _ (List.mem_of_getLast? hlast)

/-- A sweep that is over has had a page. -/
theorem sets_ne_nil (h : Sweep cursor sets met true) : sets ≠ [] := by
  generalize hover : true = complete at h
  cases h with
  | start => cases hover
  | page _ _ => simp

/-- What stays in the set during the whole sweep is met exactly once. -/
theorem count_eq_one (h : Sweep cursor sets met true) {a : α} (ha : ∀ s ∈ sets, a ∈ s) :
    met.count a = 1 := by
  rcases h.mem_or_past ha with hmem | ⟨hfalse, _⟩
  · exact List.count_eq_one_of_mem h.nodup hmem
  · cases hfalse

/-- A sweep of a set that does not grow is over after as many pages as it has elements, and
    one more. -/
theorem length_le (h : Sweep cursor sets met complete) {s : Finset α}
    (hs : ∀ t ∈ sets, t ⊆ (s : Set α)) : sets.length ≤ s.card + 1 := by
  have hmet : sets.length ≤ met.length + 1 ∧ (complete = false → sets.length ≤ met.length) := by
    clear hs
    induction h with
    | start => simp
    | @page cursor sets met page s complete _ hpage ih =>
      have hlength := ih.2 rfl
      simp only [List.length_append, List.length_cons, List.length_nil]
      refine ⟨by omega, ?_⟩
      intro hcomplete
      have hpos := List.length_pos_iff.mpr (hpage.progress hcomplete)
      omega
  have hsubset : met ⊆ s.toList := by
    intro a ha
    obtain ⟨t, ht, hat⟩ := h.mem_sets ha
    exact Finset.mem_toList.mpr (hs t ht hat)
  have hcard := h.nodup.subperm hsubset |>.length_le
  rw [Finset.length_toList] at hcard
  omega

end Sweep

end Cirrove.Library
