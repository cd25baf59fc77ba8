import Cirrove.Package.Contents

/-!
# The content tree of a package

A source is an archive at one of the two entrances, flat or wrapped under an expected root.
Its tree (`Source.tree`) is stated without the scanner: the nodes of its entries at their
paths below the root, with the root and every implied directory. The identity the scanner
computes is this tree, up to collisions of the hash function.
-/

namespace Cirrove.Package

open Cirrove.Library
open Std (ExtTreeMap)

/-! ## Sources and their trees -/

/-- An archive at one of the two entrances: flat when there is no expected root. -/
structure Source where
  file : File
  receipt : PackageDownload
  root : Option Bytes

/-- Where a path of a document lies in the archive. -/
def below : Option Bytes → Bytes → Bytes
  | none, path => path
  | some root, [] => root
  | some root, path => root ++ slash :: path

namespace Source

variable (zip : Zip) (sha : Sha256)

def identity (s : Source) : Except ProviderError PackageSemanticIdentity :=
  match s.root with
  | none => packageFlatArchiveSemanticIdentityV2 zip sha s.file s.receipt
  | some root => packageArchiveSemanticIdentityVersioned zip sha s.file s.receipt root 2

/-- The entries the ZIP library finds. -/
def entries (s : Source) : List ZipEntry := ((zip s.file.bytes).getD []).filterMap id

variable {zip} in
theorem entries_eq {s : Source} {es : List ZipEntry}
    (h : zip s.file.bytes = some (es.map some)) : s.entries zip = es := by
  simp [entries, h, List.filterMap_map]

/-- The explicit nodes, at their paths below the root. -/
def listing (s : Source) : Set (Bytes × Node) :=
  {x | ∃ e ∈ s.entries zip, e.path = below s.root x.1 ∧ e.node = x.2}

/-- The directory-closed content tree. -/
def tree (s : Source) : Set (Bytes × Node) := pathClosure slash .directory (s.listing zip)

/-- Everything before the implied directories are added: what accepts the archive itself. -/
def scanned (s : Source) : Except ProviderError Fingerprint :=
  match s.root with
  | none => do
    let content ← fingerprintWithLocalSizeMirror zip sha s.file s.receipt maxExpanded true
    refuseIf (content.files = 0)
    pure content
  | some root => do
    validateRoot root
    bindRoot (← fingerprint zip sha s.file s.receipt maxExpanded) root

/-- The identity is computed from the scan in the same way at both entrances. -/
theorem identity_eq (s : Source) : s.identity zip sha =
    (s.scanned zip sha >>= fun content => directoryClosure sha content >>= fun closed =>
      semanticIdentity sha closed 2) := by
  unfold identity scanned
  cases s.root with
  | none => simp [packageFlatArchiveSemanticIdentityV2]
  | some root => simp [packageArchiveSemanticIdentityVersioned]

end Source

/-! ## Binding a root -/

theorem relativeName_eq_ok {root name relative : Bytes} {entry : Entry} :
    relativeName root name entry = .ok relative ↔
      name = below (some root) relative ∧ (relative = [] → entry.directory = true) := by
  unfold relativeName
  split
  · next hroot =>
    subst hroot
    cases relative with
    | nil => cases entry.directory <;> simp [below, pure_eq_ok, throw_ne_ok]
    | cons b rest =>
      have : name ≠ name ++ slash :: b :: rest := by simp
      cases entry.directory <;> simp [below, pure_eq_ok, throw_ne_ok]
  · next hroot =>
    cases relative with
    | nil =>
      simp only [below, hroot, false_and, iff_false]
      split
      · simp [pure_eq_ok]
      · exact throw_ne_ok
    | cons b rest =>
      simp only [below, reduceCtorEq, false_implies, and_true]
      have hdrop : name.dropPrefix? (root ++ [slash]) = some (b :: rest) ↔
          name = root ++ slash :: b :: rest := by
        simp [List.dropPrefix?_eq_some_iff]
      rw [← hdrop]
      split
      · next heq => simp [heq, pure_eq_ok]
      · next hne =>
        exact iff_of_false throw_ne_ok (hne b rest)

/-- The path below the root of a path that lies there. -/
def relativize (root path : Bytes) : Bytes :=
  if path = root then [] else path.drop (root.length + 1)

theorem relativize_below (root path : Bytes) : relativize root (below (some root) path) = path := by
  cases path with
  | nil => simp [below, relativize]
  | cons b rest => simp [below, relativize, List.drop_append]

theorem bindEntries_eq_ok {root : Bytes} {list : List (Bytes × Entry)}
    {entries result : ExtTreeMap Bytes Entry}
    (h : list.foldlM (bindEntry root) entries = .ok result) :
    (∀ x ∈ list, ∃ relative, relativeName root x.1 x.2 = .ok relative) ∧
      ∀ relative entry, result[relative]? = some entry ↔ entries[relative]? = some entry ∨
        ∃ name, (name, entry) ∈ list ∧ relativeName root name entry = .ok relative := by
  induction list generalizing entries with
  | nil =>
    simp only [List.foldlM_nil, pure_eq_ok] at h
    simp [h]
  | cons x rest ih =>
    simp only [List.foldlM_cons, bind_eq_ok_iff, bindEntry, refuseIf_eq_ok, pure_eq_ok,
      exists_const] at h
    obtain ⟨_, ⟨first, hfirst, hfresh, rfl⟩, hrest⟩ := h
    obtain ⟨hall, hlookup⟩ := ih hrest
    refine ⟨List.forall_mem_cons.mpr ⟨⟨first, hfirst⟩, hall⟩, ?_⟩
    intro relative entry
    rw [hlookup, getElem?_insert_eq_some]
    have hfresh' := contains_eq_false.mp hfresh
    constructor
    · rintro ((⟨rfl, rfl⟩ | ⟨-, hold⟩) | ⟨name, hname, hrelative⟩)
      · exact .inr ⟨x.1, List.mem_cons_self, hfirst⟩
      · exact .inl hold
      · exact .inr ⟨name, List.mem_cons_of_mem _ hname, hrelative⟩
    · rintro (hold | ⟨name, hname, hrelative⟩)
      · refine .inl (.inr ⟨?_, hold⟩)
        rintro rfl
        exact hfresh' _ hold
      · rcases List.mem_cons.mp hname with rfl | hname
        · have : first = relative := Except.ok.inj (hfirst.symm.trans hrelative)
          exact .inl (.inl ⟨this, rfl⟩)
        · exact .inr ⟨name, hname, hrelative⟩

/-- Binding moves every node to its path below the root, and loses none. -/
theorem bindRoot_eq_ok {sha : Sha256} {items : List (Bytes × Node)} {content content' : Fingerprint}
    {root : Bytes} (hholds : Holds sha items content) (h : bindRoot content root = .ok content') :
    (∀ x ∈ items, x.1 = below (some root) (relativize root x.1) ∧
      (relativize root x.1 = [] → x.2 = .directory)) ∧
      Holds sha (items.map fun x => (relativize root x.1, x.2)) content' := by
  unfold bindRoot at h
  split at h
  · exact absurd h throw_ne_ok
  · simp only [bind_eq_ok_iff, pure_eq_ok] at h
    obtain ⟨entries, hfold, rfl⟩ := h
    obtain ⟨hall, hlookup⟩ := bindEntries_eq_ok hfold
    have hbelow : ∀ x ∈ items, x.1 = below (some root) (relativize root x.1) ∧
        (relativize root x.1 = [] → x.2 = .directory) := by
      rintro ⟨path, node⟩ hitem
      have hmem : (path, node.entry sha) ∈ content.entries.toList := by
        rw [ExtTreeMap.mem_toList_iff_getElem?_eq_some]
        exact (hholds.entries path _).mpr ⟨node, hitem, rfl⟩
      obtain ⟨relative, hrelative⟩ := hall _ hmem
      obtain ⟨hpath, hdirectory⟩ := relativeName_eq_ok.mp hrelative
      dsimp only at hpath
      subst hpath
      rw [relativize_below]
      refine ⟨rfl, fun hnil => ?_⟩
      have := hdirectory hnil
      cases node with
      | directory => rfl
      | file => simp [Node.isFile] at this
    refine ⟨hbelow, ⟨?_, ?_, ?_, ?_⟩⟩
    · have hmap : (items.map fun x => (relativize root x.1, x.2)).map Prod.fst =
          (items.map Prod.fst).map (relativize root) := by
        simp [Function.comp_def]
      rw [hmap]
      -- what lies below the root is determined by its relative path
      refine hholds.distinct.map_on ?_
      intro a ha b hb heq
      obtain ⟨x, hx, rfl⟩ := List.mem_map.mp ha
      obtain ⟨y, hy, rfl⟩ := List.mem_map.mp hb
      rw [(hbelow x hx).1, (hbelow y hy).1, heq]
    · intro path entry
      dsimp only
      rw [hlookup]
      simp only [ExtTreeMap.mem_toList_iff_getElem?_eq_some, hholds.entries, List.mem_map,
        Prod.mk.injEq, ExtTreeMap.getElem?_empty, reduceCtorEq, false_or]
      constructor
      · rintro ⟨name, ⟨node, hitem, rfl⟩, hname⟩
        obtain ⟨rfl, -⟩ := relativeName_eq_ok.mp hname
        exact ⟨node, ⟨_, hitem, relativize_below root path, rfl⟩, rfl⟩
      · rintro ⟨node, ⟨x, hitem, rfl, rfl⟩, rfl⟩
        refine ⟨x.1, ⟨x.2, hitem, rfl⟩, relativeName_eq_ok.mpr ⟨(hbelow x hitem).1, fun hnil => ?_⟩⟩
        simp [(hbelow x hitem).2 hnil, Node.isFile]
    · simp [hholds.files, List.filter_map, Function.comp_def]
    · simp [hholds.expanded, List.filter_map, Function.comp_def]

/-! ## The scan of a source -/

/-- What the scanner relies on: an archive whose layout was accepted is opened as its central
    directory lists it, and an entry is a directory when its stored name ends in a slash. -/
def Zip.Lawful (zip : Zip) : Prop :=
  ∀ bytes limit mirror es, layout bytes limit mirror = .ok (List.length es) →
    zip bytes = some (es.map some) →
    centralNames bytes = .ok (es.map ZipEntry.nameRaw) ∧
      ∀ e ∈ es, e.isDir = endsInSlash e.nameRaw

/-- The explicit nodes of an accepted archive. -/
structure Listed (zip : Zip) (sha : Sha256) (s : Source) (items : List (Bytes × Node))
    (content : Fingerprint) : Prop where
  holds : Holds sha items content
  listing : ∀ x, x ∈ items ↔ x ∈ s.listing zip
  bounded : items.length ≤ maxEntries
  short : ∀ x ∈ items, x.1.length ≤ maxName
  interior : zip.Lawful → ∀ x ∈ items, ∀ y ∈ items,
    x.1 = [] ∨ Above slash x.1 y.1 → x.2 = .directory

/-- In an archive the ZIP library opens as it is stored, whatever is above an entry is a
    directory. -/
theorem directory_of_above {zip : Zip} {bytes : Bytes} {limit : Nat} {mirror : Bool}
    {es : List ZipEntry} (hlawful : zip.Lawful) (hzip : zip bytes = some (es.map some))
    (hlayout : layout bytes limit mirror = .ok es.length)
    (hreadable : ∀ e ∈ es, Readable e) {e e' : ZipEntry} (he : e ∈ es)
    (he' : e' ∈ es) (h : Above slash e.path e'.path) : e.node = .directory := by
  obtain ⟨hnames, hisDir⟩ := hlawful bytes limit mirror es hlayout hzip
  have hdir := (layout_eq_ok hlayout).2 _ hnames e.nameRaw (List.mem_map_of_mem he) e'.nameRaw
    (List.mem_map_of_mem he') e.path e'.path (hisDir e he ▸ (hreadable e he).safe)
    (hisDir e' he' ▸ (hreadable e' he').safe) h
  simp [ZipEntry.node, hisDir e he, hdir]

theorem above_below (root : Bytes) {q p : Bytes} (hq : q ≠ []) (h : Above slash q p) :
    Above slash (below (some root) q) (below (some root) p) := by
  obtain ⟨r, rfl⟩ := h
  cases q with
  | nil => exact absurd rfl hq
  | cons b rest => exact ⟨r, by simp [below]⟩

theorem Safe.path_length {e : ZipEntry} (h : Safe e.nameRaw e.isDir e.path) :
    e.path.length ≤ maxName := by
  refine le_trans ?_ h.length
  rw [h.raw_eq]
  split <;> simp

theorem scanned_eq_ok {zip : Zip} {sha : Sha256} {s : Source} {content : Fingerprint}
    (h : s.scanned zip sha = .ok content) : ∃ items, Listed zip sha s items content := by
  cases hroot : s.root with
  | none =>
    simp only [Source.scanned, hroot, bind_eq_ok_iff, refuseIf_eq_ok, pure_eq_ok, exists_const] at h
    obtain ⟨_, hscan, -, rfl⟩ := h
    obtain ⟨es, hzip, hlayout, hreadable, -, hholds⟩ := fingerprint_eq_ok hscan
    refine ⟨_, hholds, ?_, ?_, ?_, ?_⟩
    · rintro ⟨path, node⟩
      simp [Source.listing, Source.entries_eq hzip, hroot, below]
    · simpa using (layout_eq_ok hlayout).1
    · intro x hx
      obtain ⟨e, he, rfl⟩ := List.mem_map.mp hx
      exact (hreadable e he).safe.path_length
    · intro hlawful x hx y hy hxy
      obtain ⟨e, he, rfl⟩ := List.mem_map.mp hx
      obtain ⟨e', he', rfl⟩ := List.mem_map.mp hy
      rcases hxy with hnil | habove
      · exact absurd hnil (hreadable e he).safe.ne_nil
      · exact directory_of_above hlawful hzip hlayout hreadable he he' habove
  | some root =>
    simp only [Source.scanned, hroot, bind_eq_ok_iff] at h
    obtain ⟨_, -, scan, hscan, hbind⟩ := h
    obtain ⟨es, hzip, hlayout, hreadable, -, hholds⟩ := fingerprint_eq_ok hscan
    obtain ⟨hbelow, hholds'⟩ := bindRoot_eq_ok hholds hbind
    refine ⟨_, hholds', ?_, ?_, ?_, ?_⟩
    · rintro ⟨path, node⟩
      simp only [List.map_map, List.mem_map, Function.comp_apply, Prod.mk.injEq,
        Source.listing, Source.entries_eq hzip, hroot, Set.mem_ofPred_eq]
      constructor
      · rintro ⟨e, he, rfl, rfl⟩
        exact ⟨e, he, (hbelow _ (List.mem_map_of_mem he)).1, rfl⟩
      · rintro ⟨e, he, hpath, rfl⟩
        exact ⟨e, he, by rw [hpath, relativize_below], rfl⟩
    · simpa using (layout_eq_ok hlayout).1
    · intro x hx
      obtain ⟨_, hx', rfl⟩ := List.mem_map.mp hx
      obtain ⟨e, he, rfl⟩ := List.mem_map.mp hx'
      refine le_trans ?_ (hreadable e he).safe.path_length
      unfold relativize
      split <;> simp
    · intro hlawful x hx y hy hxy
      obtain ⟨x, hx', rfl⟩ := List.mem_map.mp hx
      obtain ⟨y, hy', rfl⟩ := List.mem_map.mp hy
      by_cases hnil : relativize root x.1 = []
      · exact (hbelow _ hx').2 hnil
      · have habove := above_below root hnil (hxy.resolve_left hnil)
        dsimp only at habove
        rw [← (hbelow _ hx').1, ← (hbelow _ hy').1] at habove
        obtain ⟨e, he, rfl⟩ := List.mem_map.mp hx'
        obtain ⟨e', he', rfl⟩ := List.mem_map.mp hy'
        exact directory_of_above hlawful hzip hlayout hreadable he he' habove

/-! ## Implied directories -/

/-- Including a path either finds it, adds it, or stops at the limit. -/
theorem includePath_cases (sha : Sha256) (content : Fingerprint) (path : Bytes)
    (hinterior : ∀ entry, content.entries[path]? = some entry → entry = directoryEntry sha) :
    (content.entries[path]? = some (directoryEntry sha) ∧
        includePath sha content path = .ok content) ∨
      (content.entries[path]? = none ∧ content.entries.size < maxEntries ∧
        includePath sha content path =
          .ok { content with entries := content.entries.insert path (directoryEntry sha) }) ∨
      (content.entries[path]? = none ∧ maxEntries ≤ content.entries.size ∧
        includePath sha content path = .error entryLimitExceeded) := by
  unfold includePath
  cases hentry : content.entries[path]? with
  | some entry =>
    obtain rfl := hinterior entry hentry
    exact .inl ⟨rfl, by simp [refuseIf, refuseWith]; rfl⟩
  | none =>
    by_cases hfull : maxEntries ≤ content.entries.size
    · exact .inr (.inr ⟨rfl, hfull, by simp [hfull]; rfl⟩)
    · exact .inr (.inl ⟨rfl, by omega, by simp [hfull]; rfl⟩)

theorem includePath_interior {sha : Sha256} {content content' : Fingerprint} {path : Bytes}
    (h : includePath sha content path = .ok content') :
    ∀ entry, content.entries[path]? = some entry → entry = directoryEntry sha := by
  intro entry hentry
  simp only [includePath, hentry, bind_eq_ok_iff, refuseIf_eq_ok, not_not] at h
  obtain ⟨-, hdirectory, -⟩ := h
  exact hdirectory

theorem includePath_eq_ok {sha : Sha256} {content content' : Fingerprint} {path : Bytes}
    (h : includePath sha content path = .ok content') :
    content'.files = content.files ∧ content'.expanded = content.expanded ∧
      ∀ p entry, content'.entries[p]? = some entry ↔
        content.entries[p]? = some entry ∨ (p = path ∧ entry = directoryEntry sha) := by
  rcases includePath_cases sha content path (includePath_interior h) with
    ⟨hfound, heq⟩ | ⟨hnone, -, heq⟩ | ⟨-, -, heq⟩
  · obtain rfl : content = content' := Except.ok.inj (heq.symm.trans h)
    refine ⟨rfl, rfl, fun p entry => ⟨.inl, ?_⟩⟩
    rintro (hold | ⟨rfl, rfl⟩)
    · exact hold
    · exact hfound
  · obtain rfl := Except.ok.inj (heq.symm.trans h)
    refine ⟨rfl, rfl, fun p entry => ?_⟩
    rw [getElem?_insert_eq_some]
    constructor
    · rintro (⟨rfl, rfl⟩ | ⟨-, hold⟩)
      · exact .inr ⟨rfl, rfl⟩
      · exact .inl hold
    · rintro (hold | ⟨rfl, rfl⟩)
      · refine .inr ⟨?_, hold⟩
        rintro rfl
        simp [hnone] at hold
      · exact .inl ⟨rfl, rfl⟩
  · exact absurd (heq.symm.trans h) (by simp)

/-- Including paths adds them as directories and changes nothing else. -/
theorem includePaths_eq_ok {sha : Sha256} {content content' : Fingerprint} {paths : List Bytes}
    (h : paths.foldlM (includePath sha) content = .ok content') :
    content'.files = content.files ∧ content'.expanded = content.expanded ∧
      ∀ p entry, content'.entries[p]? = some entry ↔
        content.entries[p]? = some entry ∨ (p ∈ paths ∧ entry = directoryEntry sha) := by
  induction paths generalizing content with
  | nil =>
    simp only [List.foldlM_nil, pure_eq_ok] at h
    simp [h]
  | cons path rest ih =>
    simp only [List.foldlM_cons, bind_eq_ok_iff] at h
    obtain ⟨content₁, hpath, hrest⟩ := h
    obtain ⟨hfiles₁, hexpanded₁, hentries₁⟩ := includePath_eq_ok hpath
    obtain ⟨hfiles, hexpanded, hentries⟩ := ih hrest
    refine ⟨hfiles.trans hfiles₁, hexpanded.trans hexpanded₁, fun p entry => ?_⟩
    rw [hentries, hentries₁, List.mem_cons]
    tauto

theorem size_eq_ncard {β : Type} (entries : ExtTreeMap Bytes β) :
    entries.size = {p | p ∈ entries}.ncard := by
  have hset : {p | p ∈ entries} = (entries.keys.toFinset : Set Bytes) := by
    ext p
    simp
  have hnodup : entries.keys.Nodup := by
    refine entries.distinct_keys.imp ?_
    intro a b hne heq
    exact hne (Std.LawfulEqCmp.compare_eq_iff_eq.mpr heq)
  rw [hset, Set.ncard_coe_finset, List.toFinset_card_of_nodup hnodup, ExtTreeMap.length_keys]

/-- A fingerprint has one entry for every node it describes. -/
theorem Holds.size_eq {sha : Sha256} {items : List (Bytes × Node)} {content : Fingerprint}
    (h : Holds sha items content) : content.entries.size = items.length := by
  have hset : {p | p ∈ content.entries} = ((items.map Prod.fst).toFinset : Set Bytes) := by
    ext p
    simp [mem_iff_exists, h.entries]
  rw [size_eq_ncard, hset, Set.ncard_coe_finset, List.toFinset_card_of_nodup h.distinct,
    List.length_map]

/-- Where nothing on the way is a file, including paths fails at the limit only. -/
theorem includePaths_total {sha : Sha256} {content : Fingerprint} {paths : List Bytes}
    (hinterior : ∀ p ∈ paths, ∀ entry, content.entries[p]? = some entry →
      entry = directoryEntry sha) (hsize : content.entries.size ≤ maxEntries) :
    (∃ content', paths.foldlM (includePath sha) content = .ok content' ∧
        content'.entries.size ≤ maxEntries) ∨
      paths.foldlM (includePath sha) content = .error entryLimitExceeded ∧
        maxEntries < {p | p ∈ content.entries ∨ p ∈ paths}.ncard := by
  induction paths generalizing content with
  | nil => exact .inl ⟨content, rfl, hsize⟩
  | cons path rest ih =>
    have hstep : ∀ content₁ : Fingerprint, includePath sha content path = .ok content₁ →
        content₁.entries.size ≤ maxEntries →
        (∃ content', (path :: rest).foldlM (includePath sha) content = .ok content' ∧
            content'.entries.size ≤ maxEntries) ∨
          (path :: rest).foldlM (includePath sha) content = .error entryLimitExceeded ∧
            maxEntries < {p | p ∈ content.entries ∨ p ∈ path :: rest}.ncard := by
      intro content₁ hpath hsize₁
      have hlookup := (includePath_eq_ok hpath).2.2
      have hset : {p | p ∈ content₁.entries ∨ p ∈ rest} =
          {p | p ∈ content.entries ∨ p ∈ path :: rest} := by
        ext p
        simp only [Set.mem_ofPred_eq, mem_iff_exists, hlookup, List.mem_cons, exists_or,
          exists_and_left, exists_eq, and_true]
        tauto
      have hfold : (path :: rest).foldlM (includePath sha) content =
          rest.foldlM (includePath sha) content₁ := by
        rw [List.foldlM_cons, hpath]
        rfl
      rw [hfold, ← hset]
      refine ih ?_ hsize₁
      intro p hp entry hentry
      rcases (hlookup p entry).mp hentry with hold | ⟨-, rfl⟩
      · exact hinterior p (List.mem_cons_of_mem _ hp) entry hold
      · rfl
    rcases includePath_cases sha content path (hinterior path List.mem_cons_self) with
      ⟨-, heq⟩ | ⟨hnone, hroom, heq⟩ | ⟨hnone, hfull, heq⟩
    · exact hstep content heq hsize
    · refine hstep _ heq ?_
      exact le_trans ExtTreeMap.size_insert_le hroom
    · refine .inr ⟨by rw [List.foldlM_cons, heq]; rfl, ?_⟩
      -- the entries there are, and the path that found no room
      have hnew : path ∉ {p | p ∈ content.entries} := by
        simp [mem_iff_exists, hnone]
      have hfinite : {p | p ∈ content.entries}.Finite :=
        (content.entries.keys.finite_toSet).subset fun p hp => ExtTreeMap.mem_keys.mpr hp
      calc maxEntries < {p | p ∈ content.entries}.ncard + 1 := by
            rw [← size_eq_ncard]
            omega
        _ = (insert path {p | p ∈ content.entries}).ncard :=
            (Set.ncard_insert_of_notMem hnew hfinite).symm
        _ ≤ {p | p ∈ content.entries ∨ p ∈ path :: rest}.ncard := by
            refine Set.ncard_le_ncard ?_ ?_
            · rintro p (rfl | hp)
              · exact .inr List.mem_cons_self
              · exact .inl hp
            · exact hfinite.union (List.finite_toSet (path :: rest))

/-! ## Closed contents -/

theorem mem_impliedPaths {sha : Sha256} {items : List (Bytes × Node)} {content : Fingerprint}
    (h : Holds sha items content) {path : Bytes} :
    path ∈ impliedPaths content ↔ path = [] ∨ ∃ y ∈ items, Above slash path y.1 := by
  simp only [impliedPaths, List.mem_cons, List.mem_flatMap, mem_ancestors, ExtTreeMap.mem_keys,
    mem_iff_exists, h.entries]
  constructor
  · rintro (hnil | ⟨key, ⟨_, node, hitem, -⟩, habove⟩)
    · exact .inl hnil
    · exact .inr ⟨_, hitem, habove⟩
  · rintro (hnil | ⟨⟨key, node⟩, hitem, habove⟩)
    · exact .inl hnil
    · exact .inr ⟨key, ⟨_, node, hitem, rfl⟩, habove⟩

variable {zip : Zip} {sha : Sha256} {s : Source} {items : List (Bytes × Node)}
  {content closed : Fingerprint}

/-- The tree, in terms of the explicit nodes. -/
theorem Listed.mem_tree (h : Listed zip sha s items content) {path : Bytes} {node : Node} :
    (path, node) ∈ s.tree zip ↔
      (path, node) ∈ items ∨ (node = .directory ∧ path ∈ impliedPaths content) := by
  simp only [Source.tree, pathClosure, Set.mem_union, ← h.listing, Set.mem_ofPred_eq,
    mem_impliedPaths h.holds]

/-- A closed content records the tree. -/
theorem directoryClosure_eq_ok (hlisted : Listed zip sha s items content)
    (h : directoryClosure sha content = .ok closed) :
    closed.files = content.files ∧ closed.expanded = content.expanded ∧
      ∀ path entry, closed.entries[path]? = some entry ↔
        ∃ node, (path, node) ∈ s.tree zip ∧ entry = node.entry sha := by
  obtain ⟨hfiles, hexpanded, hlookup⟩ := includePaths_eq_ok h
  refine ⟨hfiles, hexpanded, fun path entry => ?_⟩
  simp only [hlookup, hlisted.holds.entries, hlisted.mem_tree]
  constructor
  · rintro (⟨node, hitem, rfl⟩ | ⟨hpath, rfl⟩)
    · exact ⟨node, .inl hitem, rfl⟩
    · exact ⟨.directory, .inr ⟨rfl, hpath⟩, rfl⟩
  · rintro ⟨node, hitem | ⟨rfl, hpath⟩, rfl⟩
    · exact .inl ⟨node, hitem, rfl⟩
    · exact .inr ⟨hpath, rfl⟩

/-- The files of a tree are explicit. -/
theorem Listed.file_mem (h : Listed zip sha s items content) {path bytes : Bytes} :
    (path, .file bytes) ∈ s.tree zip ↔ (path, .file bytes) ∈ items := by
  simp [h.mem_tree]

/-- Sources of one tree hold the same files. -/
theorem Listed.files_perm {s' : Source} {items' : List (Bytes × Node)} {content' : Fingerprint}
    (h : Listed zip sha s items content) (h' : Listed zip sha s' items' content')
    (htree : s.tree zip = s'.tree zip) :
    (items.filter (·.2.isFile)).Perm (items'.filter (·.2.isFile)) := by
  refine (List.perm_ext_iff_of_nodup ?_ ?_).mpr ?_
  · exact (List.Nodup.of_map _ h.holds.distinct).filter _
  · exact (List.Nodup.of_map _ h'.holds.distinct).filter _
  · rintro ⟨path, node⟩
    cases node with
    | directory => simp [Node.isFile]
    | file bytes => simp [Node.isFile, ← h.file_mem, ← h'.file_mem, htree]

/-- The tree determines the closed content. -/
theorem closed_eq_of_tree_eq {s' : Source} {items' : List (Bytes × Node)}
    {content' closed' : Fingerprint} (h : Listed zip sha s items content)
    (h' : Listed zip sha s' items' content') (hclosed : directoryClosure sha content = .ok closed)
    (hclosed' : directoryClosure sha content' = .ok closed')
    (htree : s.tree zip = s'.tree zip) : closed = closed' := by
  obtain ⟨hfiles, hexpanded, hlookup⟩ := directoryClosure_eq_ok h hclosed
  obtain ⟨hfiles', hexpanded', hlookup'⟩ := directoryClosure_eq_ok h' hclosed'
  have hperm := h.files_perm h' htree
  have hentries : closed.entries = closed'.entries := by
    refine ExtTreeMap.ext_getElem? fun path => Option.ext fun entry => ?_
    rw [hlookup, hlookup', htree]
  have hcount : closed.files = closed'.files := by
    rw [hfiles, hfiles', h.holds.files, h'.holds.files, hperm.length_eq]
  have hsum : closed.expanded = closed'.expanded := by
    rw [hexpanded, hexpanded', h.holds.expanded, h'.holds.expanded]
    exact (hperm.map _).sum_eq
  cases closed
  cases closed'
  simp_all

end Cirrove.Package
