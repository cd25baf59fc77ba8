import Cirrove.Package.Exactness

/-!
# Archives that are scanned without a refusal

The converse of the reading lemmas: readable entries of distinct safe paths within the limit
are scanned, and a fingerprint whose paths lie below a root is bound to it.
-/

namespace Cirrove.Package

open Cirrove.Library
open Std (ExtTreeMap)

/-! ## Entries -/

theorem readAll_total {declared limit size expanded : Nat} {hashed : Bytes} {reads : List Bytes}
    (hdeclared : size + reads.flatten.length ≤ declared)
    (hlimit : expanded + reads.flatten.length ≤ limit) :
    ∃ result, readAll declared limit size expanded hashed reads = .ok result := by
  induction reads generalizing size expanded hashed with
  | nil => exact ⟨_, rfl⟩
  | cons buffer rest ih =>
    simp only [List.flatten_cons, List.length_append] at hdeclared hlimit
    have hrest : ∃ result, readAll declared limit (size + buffer.length)
        (expanded + buffer.length) (hashed ++ buffer) rest = .ok result :=
      ih (by omega) (by omega)
    obtain ⟨result, hresult⟩ := hrest
    refine ⟨result, ?_⟩
    simp only [readAll, bind_eq_ok_iff, refuseIf_eq_ok, exists_const]
    exact ⟨by omega, hresult⟩

theorem sum_filter_isFile (items : List (Bytes × Node)) :
    ((items.filter (·.2.isFile)).map (·.2.size)).sum = (items.map (·.2.size)).sum := by
  induction items with
  | nil => rfl
  | cons x items ih =>
    obtain ⟨path, node⟩ := x
    cases node <;> simp [List.filter_cons, ih]

theorem scanEntry_total {sha : Sha256} {limit : Nat} {content : Fingerprint}
    {items : List (Bytes × Node)} {e : ZipEntry} (hholds : Holds sha items content)
    (he : Readable e) (hfresh : e.path ∉ items.map Prod.fst)
    (hlimit : (items.map (·.2.size)).sum + e.node.size ≤ limit) :
    ∃ content', scanEntry sha limit content (some e) = .ok content' := by
  have hnode : e.node.size = e.reads.flatten.length := by
    cases hdir : e.isDir with
    | false => simp [ZipEntry.node, hdir, Node.size]
    | true => simp [ZipEntry.node, hdir, Node.size, he.directory hdir]
  have hexpanded := hholds.expanded
  rw [sum_filter_isFile] at hexpanded
  have hreads : ∃ result, readAll e.size limit 0 content.expanded [] e.reads = .ok result :=
    readAll_total (by rw [he.size]; omega) (by omega)
  obtain ⟨result, hread⟩ := hreads
  have hparts := readAll_eq_ok hread
  simp only [scanEntry, bind_eq_ok_iff, refuseIf_eq_ok, orInvalid_eq_ok, pure_eq_ok,
    safeName_eq_ok, exists_const]
  refine ⟨_, e, rfl, ?_, e.path, he.safe, result, hread, ?_, ?_, ?_, rfl⟩
  · simp [he.encrypted, he.symlink, he.compression]
  · simp [he.broken]
  · rw [hparts, he.size]
    simp only [zero_add, not_true, ne_eq, false_or, not_and, not_not]
    intro hdir
    simp [he.directory hdir]
  · rw [contains_eq_false]
    intro b hb
    obtain ⟨node, hitem, -⟩ := (hholds.entries _ _).mp hb
    exact hfresh (List.mem_map.mpr ⟨_, hitem, rfl⟩)

/-- Readable entries of distinct paths are scanned. -/
theorem scanEntries_total {sha : Sha256} {limit : Nat} {content : Fingerprint}
    {items : List (Bytes × Node)} {es : List ZipEntry} (hholds : Holds sha items content)
    (hes : ∀ e ∈ es, Readable e)
    (hdistinct : ((items ++ es.map fun e => (e.path, e.node)).map Prod.fst).Nodup)
    (hlimit : ((items ++ es.map fun e => (e.path, e.node)).map (·.2.size)).sum ≤ limit) :
    ∃ content', (es.map some).foldlM (scanEntry sha limit) content = .ok content' := by
  induction es generalizing content items with
  | nil => exact ⟨content, rfl⟩
  | cons e es ih =>
    have hregroup : items ++ (e :: es).map (fun e => (e.path, e.node)) =
        (items ++ [(e.path, e.node)]) ++ es.map fun e => (e.path, e.node) := by simp
    rw [hregroup] at hdistinct hlimit
    have hfresh : e.path ∉ items.map Prod.fst := by
      have := hdistinct
      simp only [List.map_append, List.map_singleton] at this
      exact fun hmem => (List.nodup_append.mp (List.nodup_append.mp this).1).2.2 _ hmem _
        (List.mem_singleton.mpr rfl) rfl
    have hroom : (items.map (·.2.size)).sum + e.node.size ≤ limit := by
      simp only [List.map_append, List.sum_append, List.map_singleton, List.sum_singleton]
        at hlimit
      omega
    obtain ⟨content₁, hentry⟩ := scanEntry_total hholds (hes e List.mem_cons_self) hfresh hroom
    obtain ⟨_, heq, -, hholds₁⟩ := scanEntry_eq_ok hholds hentry
    obtain rfl := Option.some.inj heq
    obtain ⟨content', hrest⟩ := ih hholds₁ (fun x hx => hes x (List.mem_cons_of_mem _ hx))
      hdistinct hlimit
    refine ⟨content', ?_⟩
    rw [List.map_cons, List.foldlM_cons, hentry]
    exact hrest

/-! ## Roots -/

theorem bindEntries_total {root : Bytes} {list : List (Bytes × Entry)}
    {entries : ExtTreeMap Bytes Entry}
    (hall : ∀ x ∈ list, ∃ relative, relativeName root x.1 x.2 = .ok relative)
    (hdistinct : list.Pairwise fun x y => x.1 ≠ y.1)
    (hfresh : ∀ x ∈ list, ∀ relative, relativeName root x.1 x.2 = .ok relative →
      ∀ b, entries[relative]? ≠ some b) :
    ∃ result, list.foldlM (bindEntry root) entries = .ok result := by
  induction list generalizing entries with
  | nil => exact ⟨entries, rfl⟩
  | cons x list ih =>
    obtain ⟨relative, hrelative⟩ := hall x List.mem_cons_self
    obtain ⟨hne, hdistinct⟩ := List.pairwise_cons.mp hdistinct
    have hentry : bindEntry root entries x = .ok (entries.insert relative x.2) := by
      simp only [bindEntry, bind_eq_ok_iff, refuseIf_eq_ok, pure_eq_ok, exists_const]
      exact ⟨relative, hrelative,
        contains_eq_false.mpr (hfresh x List.mem_cons_self relative hrelative), rfl⟩
    have hfresh' : ∀ y ∈ list, ∀ relative', relativeName root y.1 y.2 = .ok relative' →
        ∀ b, (entries.insert relative x.2)[relative']? ≠ some b := by
      intro y hy relative' hrelative' b hb
      rcases getElem?_insert_eq_some.mp hb with ⟨rfl, -⟩ | ⟨-, hold⟩
      · -- two paths with one relative name are one path
        have hx := (relativeName_eq_ok.mp hrelative).1
        have hy' := (relativeName_eq_ok.mp hrelative').1
        exact hne y hy (hx.trans hy'.symm)
      · exact hfresh y (List.mem_cons_of_mem _ hy) relative' hrelative' b hold
    obtain ⟨result, hresult⟩ :=
      ih (fun y hy => hall y (List.mem_cons_of_mem _ hy)) hdistinct hfresh'
    refine ⟨result, ?_⟩
    rw [List.foldlM_cons, hentry]
    exact hresult

/-- A fingerprint whose paths all lie below a root is bound to it. -/
theorem bindRoot_total {sha : Sha256} {items : List (Bytes × Node)} {content : Fingerprint}
    {root : Bytes} (hholds : Holds sha items content) (hfiles : content.files ≠ 0)
    (hbelow : ∀ x ∈ items, ∃ relative, x.1 = below (some root) relative ∧
      (relative = [] → x.2 = .directory)) :
    ∃ content', bindRoot content root = .ok content' := by
  obtain ⟨entries, hfold⟩ : ∃ entries,
      content.entries.toList.foldlM (bindEntry root) ∅ = .ok entries := by
    refine bindEntries_total ?_ ?_ (by simp)
    · rintro ⟨path, entry⟩ hmem
      rw [ExtTreeMap.mem_toList_iff_getElem?_eq_some] at hmem
      obtain ⟨node, hitem, rfl⟩ := (hholds.entries path entry).mp hmem
      obtain ⟨relative, hpath, hnil⟩ := hbelow _ hitem
      refine ⟨relative, relativeName_eq_ok.mpr ⟨hpath, fun h => ?_⟩⟩
      have : node = .directory := hnil h
      simp [this, Node.isFile]
    · refine ExtTreeMap.distinct_keys_toList.imp ?_
      intro x y hne heq
      exact hne (Std.LawfulEqCmp.compare_eq_iff_eq.mpr heq)
  refine ⟨{ content with entries }, ?_⟩
  simp only [bindRoot, hfiles, if_false, bind_eq_ok_iff, pure_eq_ok]
  exact ⟨entries, hfold, rfl⟩

end Cirrove.Package
