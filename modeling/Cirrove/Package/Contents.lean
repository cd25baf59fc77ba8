import Cirrove.Package.Identity

/-!
# What a scan returns

A `Node` is what an entry is in a document: a directory, or a file with its bytes. `Holds`
says that a fingerprint describes a list of nodes and nothing else; every step of the scan
keeps it. `safeName` and `layout` are read off here as well.
-/

namespace Cirrove.Package

open Cirrove.Library
open Std (ExtTreeMap)

/-! ## Refusals -/

theorem refuseWith_eq_ok {e : ProviderError} {p : Prop} [Decidable p] {u : Unit} :
    refuseWith e p = .ok u ↔ ¬ p := by
  unfold refuseWith
  split
  · next hp => simp [hp, throw, throwThe, MonadExceptOf.throw]
  · next hp => simp [hp, pure, Except.pure]

theorem orRefuse_eq_ok {α : Type} {e : ProviderError} {o : Option α} {a : α} :
    orRefuse e o = .ok a ↔ o = some a := by
  cases o <;> simp [orRefuse, pure, Except.pure, throw, throwThe, MonadExceptOf.throw]

@[simp]
theorem refuseIf_eq_ok {p : Prop} [Decidable p] {u : Unit} : refuseIf p = .ok u ↔ ¬ p :=
  refuseWith_eq_ok

@[simp]
theorem orInvalid_eq_ok {α : Type} {o : Option α} {a : α} :
    orInvalid o = .ok a ↔ o = some a :=
  orRefuse_eq_ok

theorem bind_eq_ok_iff {ε α β : Type} {x : Except ε α} {f : α → Except ε β} {b : β} :
    (x >>= f) = .ok b ↔ ∃ a, x = .ok a ∧ f a = .ok b :=
  ⟨bind_eq_ok, fun ⟨_, ha, hb⟩ => by rw [ha]; exact hb⟩

theorem pure_eq_ok {ε α : Type} {a b : α} : (pure a : Except ε α) = .ok b ↔ a = b := by
  simp [pure, Except.pure]

theorem throw_ne_ok {ε α : Type} {e : ε} {b : α} : (throw e : Except ε α) ≠ .ok b := by
  simp [throw, throwThe, MonadExceptOf.throw]

/-! ## Maps -/

theorem getElem?_insert_eq_some {β : Type} {entries : ExtTreeMap Bytes β} {k path : Bytes}
    {b b' : β} : (entries.insert k b)[path]? = some b' ↔
      (k = path ∧ b = b') ∨ (k ≠ path ∧ entries[path]? = some b') := by
  rw [ExtTreeMap.getElem?_insert]
  simp only [Std.LawfulEqCmp.compare_eq_iff_eq]
  split <;> simp_all

theorem contains_eq_false {β : Type} {entries : ExtTreeMap Bytes β} {path : Bytes} :
    ¬ entries.contains path = true ↔ ∀ b, entries[path]? ≠ some b := by
  rw [← Option.eq_none_iff_forall_ne_some, ExtTreeMap.contains_eq_isSome_getElem?]
  simp

theorem mem_iff_exists {β : Type} {entries : ExtTreeMap Bytes β} {p : Bytes} :
    p ∈ entries ↔ ∃ b, entries[p]? = some b := by
  rw [← ExtTreeMap.isSome_getElem?_iff_mem, Option.isSome_iff_exists]

/-! ## Nodes -/

/-- What an entry is. -/
inductive Node where
  | directory
  | file (bytes : Bytes)
  deriving DecidableEq, Repr

namespace Node

def isFile : Node → Bool
  | directory => false
  | file _ => true

def size : Node → Nat
  | directory => 0
  | file bytes => bytes.length

@[simp] theorem isFile_directory : isFile directory = false := rfl

@[simp] theorem isFile_file (bytes : Bytes) : isFile (file bytes) = true := rfl

@[simp] theorem size_directory : size directory = 0 := rfl

@[simp] theorem size_file (bytes : Bytes) : size (file bytes) = bytes.length := rfl

/-- How a fingerprint records the node. -/
def entry (sha : Sha256) : Node → Entry
  | directory => directoryEntry sha
  | file bytes =>
    { directory := false, size := bytes.length, sha256 := hexEncode (sha.digest bytes) }

@[simp]
theorem entry_directory (sha : Sha256) (node : Node) :
    (node.entry sha).directory = !node.isFile := by
  cases node <;> rfl

theorem entry_eq_directoryEntry {sha : Sha256} {node : Node} :
    node.entry sha = directoryEntry sha ↔ node = .directory := by
  cases node <;> simp [entry, directoryEntry]

end Node

namespace ZipEntry

/-- The path an entry stands for. -/
def path (e : ZipEntry) : Bytes := if e.isDir then e.nameRaw.dropLast else e.nameRaw

def node (e : ZipEntry) : Node := if e.isDir then .directory else .file e.reads.flatten

end ZipEntry

/-! ## Names -/

theorem stripSlash_eq_some {name key : Bytes} :
    stripSlash name = some key ↔ name = key ++ [slash] := by
  unfold stripSlash
  constructor
  · intro h
    split at h
    · next hlast =>
      obtain ⟨front, rfl⟩ := List.getLast?_eq_some_iff.mp hlast
      simpa using h
    · cases h
  · rintro rfl
    simp

/-- What `safeName` checks of a name. -/
structure Safe (raw : Bytes) (directory : Bool) (key : Bytes) : Prop where
  raw_eq : raw = if directory then key ++ [slash] else key
  length : raw.length ≤ maxName
  text : ∃ chars, utf8Chars raw = some chars ∧
    ∀ c ∈ chars, ¬ (isControl c ∨ c = '\\' ∨ c = ':')
  relative : raw.head? ≠ some slash
  components : ∀ part ∈ key.splitOn slash, part ≠ [] ∧ part ≠ [dot] ∧ part ≠ [dot, dot]

theorem Safe.ne_nil {raw key : Bytes} {directory : Bool} (h : Safe raw directory key) :
    key ≠ [] := by
  rintro rfl
  exact (h.components [] (by simp)).1 rfl

theorem Safe.key_eq {raw key key' : Bytes} {directory : Bool} (h : Safe raw directory key)
    (h' : Safe raw directory key') : key = key' := by
  have := h.raw_eq.symm.trans h'.raw_eq
  cases directory <;> simpa using this

theorem safeName_eq_ok {raw key : Bytes} {directory : Bool} :
    safeName raw directory = .ok key ↔ Safe raw directory key := by
  simp only [safeName, bind_eq_ok_iff, refuseIf_eq_ok, orInvalid_eq_ok, pure_eq_ok, not_or,
    List.any_eq_true, Bool.or_eq_true, beq_iff_eq, not_exists, not_and, exists_const, not_lt]
  constructor
  · rintro ⟨⟨-, hlength⟩, chars, hchars, ⟨hplain, hhead⟩, stripped, hstrip, hparts, rfl⟩
    refine ⟨?_, hlength, ⟨chars, hchars, ?_⟩, hhead, ?_⟩
    · cases directory with
      | false => simpa using hstrip
      | true => simpa [stripSlash_eq_some] using hstrip
    · intro c hc
      have := hplain c hc
      tauto
    · intro part hpart
      have := hparts part hpart
      tauto
  · intro h
    obtain ⟨chars, hchars, hplain⟩ := h.text
    have hraw : raw ≠ [] := by
      rintro rfl
      cases directory with
      | false => exact h.ne_nil h.raw_eq.symm
      | true => exact absurd h.raw_eq (by simp)
    refine ⟨⟨hraw, h.length⟩, chars, hchars, ⟨?_, h.relative⟩, key, ?_, ?_, rfl⟩
    · intro c hc
      have := hplain c hc
      tauto
    · cases directory with
      | false => simpa using h.raw_eq
      | true => simpa [stripSlash_eq_some] using h.raw_eq
    · intro part hpart
      have := h.components part hpart
      tauto

/-! ## The central directory -/

/-- The names of the records of a central directory, from an offset on. -/
def namesFrom (bytes : Bytes) : Nat → Nat → List Bytes
  | 0, _ => []
  | count + 1, i =>
    match u16At bytes (i + 28), u16At bytes (i + 30), u16At bytes (i + 32) with
    | .ok nameLen, .ok extra, .ok comment =>
      (bytes.drop (i + 46)).take nameLen ::
        namesFrom bytes count (i + (46 + nameLen + extra + comment))
    | _, _, _ => []

/-- The names an archive stores, in the order of its central directory. -/
def centralNames (bytes : Bytes) : Except ProviderError (List Bytes) := do
  let stop ← orInvalid (findEnd bytes)
  let count ← u16At bytes (stop + 10)
  let start ← u32At bytes (stop + 16)
  pure (namesFrom bytes count start)

/-- A stored name is a directory's exactly when it ends in a slash. -/
def endsInSlash (raw : Bytes) : Bool := raw.getLast? == some slash

theorem slice_eq_some {bytes part : Bytes} {i n : Nat} (h : slice bytes i n = some part) :
    part = (bytes.drop i).take n ∧ i + n ≤ bytes.length := by
  unfold slice at h
  split at h
  · next hle => exact ⟨(Option.some.inj h).symm, hle⟩
  · cases h

/-- One record names one new path. -/
theorem centralRecord_eq_ok {bytes : Bytes} {start stop limit : Nat} {mirror : Bool}
    {walk walk' : Walk} (h : centralRecord bytes start stop limit mirror walk = .ok walk') :
    ∃ nameLen extra comment key, u16At bytes (walk.position + 28) = .ok nameLen ∧
      u16At bytes (walk.position + 30) = .ok extra ∧
      u16At bytes (walk.position + 32) = .ok comment ∧
      walk'.position = walk.position + (46 + nameLen + extra + comment) ∧
      Safe ((bytes.drop (walk.position + 46)).take nameLen)
        (endsInSlash ((bytes.drop (walk.position + 46)).take nameLen)) key ∧
      (∀ b, walk.names[key]? ≠ some b) ∧
      walk'.names = walk.names.insert key
        (endsInSlash ((bytes.drop (walk.position + 46)).take nameLen)) := by
  simp only [centralRecord, bind_eq_ok_iff, refuseIf_eq_ok, orInvalid_eq_ok, pure_eq_ok,
    safeName_eq_ok, exists_const] at h
  obtain ⟨-, flags, -, method, -, compressed, -, uncompressed, -, nameLen, hname, extra, hextra,
    comment, hcomment, -, -, -, raw, hraw, key, hsafe, hfresh, -, -, -, -, -, -, range, -, rfl⟩ := h
  obtain ⟨rfl, -⟩ := slice_eq_some hraw
  exact ⟨nameLen, extra, comment, key, hname, hextra, hcomment, rfl, hsafe,
    contains_eq_false.mp hfresh, rfl⟩

/-- The walk over the records names every stored path once. -/
theorem centralRecords_eq_ok {bytes : Bytes} {start stop limit count : Nat} {mirror : Bool}
    {walk walk' : Walk}
    (h : centralRecords bytes start stop limit mirror count walk = .ok walk') :
    ∀ key, (∀ b, walk.names[key]? = some b → walk'.names[key]? = some b) ∧
      ∀ raw ∈ namesFrom bytes count walk.position, Safe raw (endsInSlash raw) key →
        walk'.names[key]? = some (endsInSlash raw) := by
  intro key
  induction count generalizing walk with
  | zero =>
    simp only [centralRecords, pure_eq_ok] at h
    subst h
    exact ⟨fun _ => id, fun _ hraw => by simp [namesFrom] at hraw⟩
  | succ count ih =>
    simp only [centralRecords, bind_eq_ok_iff] at h
    obtain ⟨walk₁, hrecord, hrest⟩ := h
    obtain ⟨nameLen, extra, comment, first, hname, hextra, hcomment, hposition, hsafe, hfresh,
      hnames⟩ := centralRecord_eq_ok hrecord
    obtain ⟨hkept, hlater⟩ := ih hrest
    refine ⟨?_, ?_⟩
    · intro b hb
      refine hkept b ?_
      rw [hnames, getElem?_insert_eq_some]
      refine .inr ⟨?_, hb⟩
      rintro rfl
      exact hfresh b hb
    · intro raw hraw hkey
      simp only [namesFrom, hname, hextra, hcomment, List.mem_cons, ← hposition] at hraw
      rcases hraw with rfl | hraw
      · refine hkept _ ?_
        rw [hnames, getElem?_insert_eq_some]
        exact .inl ⟨hsafe.key_eq hkey, rfl⟩
      · exact hlater raw hraw hkey

/-- What an accepted layout promises: not too many entries, and none below a file. -/
theorem layout_eq_ok {bytes : Bytes} {limit count : Nat} {mirror : Bool}
    (h : layout bytes limit mirror = .ok count) :
    count ≤ maxEntries ∧ ∀ names, centralNames bytes = .ok names →
      ∀ raw ∈ names, ∀ raw' ∈ names, ∀ key key', Safe raw (endsInSlash raw) key →
        Safe raw' (endsInSlash raw') key' → Above slash key key' → endsInSlash raw = true := by
  simp only [layout, bind_eq_ok_iff, refuseIf_eq_ok, orInvalid_eq_ok, pure_eq_ok,
    exists_const] at h
  obtain ⟨-, stop, hstop, n, hcount, size, -, start, hstart, disk, -, central, -, here, -,
    hlimits, walk, hwalk, -, -, habove, rfl⟩ := h
  have hbound : n ≤ maxEntries := by
    simp only [not_or, not_lt] at hlimits
    exact hlimits.2.2.2.2.1
  refine ⟨hbound, ?_⟩
  intro names hnames raw hraw raw' hraw' key key' hkey hkey' hunder
  simp only [centralNames, bind_eq_ok_iff, orInvalid_eq_ok, pure_eq_ok, hstop,
    Option.some.injEq, exists_eq_left', hcount, hstart, Except.ok.injEq] at hnames
  subst hnames
  have hdir := (centralRecords_eq_ok hwalk key).2 raw hraw hkey
  have hdir' := (centralRecords_eq_ok hwalk key').2 raw' hraw' hkey'
  by_contra hfile
  refine habove (List.any_eq_true.mpr ⟨key', ?_, List.any_eq_true.mpr ⟨key, ?_, ?_⟩⟩)
  · rw [ExtTreeMap.mem_keys, ← ExtTreeMap.isSome_getElem?_iff_mem, hdir']
    rfl
  · exact mem_ancestors.mpr hunder
  · simpa [hdir] using hfile

/-! ## Entries -/

/-- Reading to the end collects every buffer. -/
theorem readAll_eq_ok {declared limit size expanded : Nat} {hashed : Bytes} {reads : List Bytes}
    {result : Nat × Nat × Bytes}
    (h : readAll declared limit size expanded hashed reads = .ok result) :
    result = (size + reads.flatten.length, expanded + reads.flatten.length,
      hashed ++ reads.flatten) := by
  induction reads generalizing size expanded hashed with
  | nil =>
    simp only [readAll, pure_eq_ok] at h
    simp [← h]
  | cons buffer rest ih =>
    simp only [readAll, bind_eq_ok_iff, refuseIf_eq_ok, exists_const] at h
    rw [ih h.2]
    simp [Nat.add_assoc]

/-- Reading never passes the limit of the archive. -/
theorem readAll_expanded {declared limit size expanded : Nat} {hashed : Bytes}
    {reads : List Bytes} {result : Nat × Nat × Bytes}
    (h : readAll declared limit size expanded hashed reads = .ok result)
    (hexpanded : expanded ≤ limit) : result.2.1 ≤ limit := by
  induction reads generalizing size expanded hashed with
  | nil =>
    simp only [readAll, pure_eq_ok] at h
    simpa [← h] using hexpanded
  | cons buffer rest ih =>
    simp only [readAll, bind_eq_ok_iff, refuseIf_eq_ok, exists_const, not_or, not_lt] at h
    exact ih h.2 h.1.2

theorem scanEntries_expanded {sha : Sha256} {limit : Nat} {content content' : Fingerprint}
    {archive : List (Option ZipEntry)}
    (h : archive.foldlM (scanEntry sha limit) content = .ok content')
    (hexpanded : content.expanded ≤ limit) : content'.expanded ≤ limit := by
  induction archive generalizing content with
  | nil =>
    simp only [List.foldlM_nil, pure_eq_ok] at h
    exact h ▸ hexpanded
  | cons entry rest ih =>
    simp only [List.foldlM_cons, bind_eq_ok_iff] at h
    obtain ⟨content₁, hentry, hrest⟩ := h
    refine ih hrest ?_
    simp only [scanEntry, bind_eq_ok_iff, pure_eq_ok] at hentry
    obtain ⟨e, -, _, -, name, -, result, hread, _, -, _, -, _, -, rfl⟩ := hentry
    exact readAll_expanded hread hexpanded

/-- A fingerprint describes a list of nodes. -/
structure Holds (sha : Sha256) (items : List (Bytes × Node)) (content : Fingerprint) : Prop where
  distinct : (items.map Prod.fst).Nodup
  entries : ∀ path entry, content.entries[path]? = some entry ↔
    ∃ node, (path, node) ∈ items ∧ entry = node.entry sha
  files : content.files = (items.filter (·.2.isFile)).length
  expanded : content.expanded = ((items.filter (·.2.isFile)).map (·.2.size)).sum

theorem Holds.absent {sha : Sha256} {items : List (Bytes × Node)} {content : Fingerprint}
    {path : Bytes} (h : Holds sha items content) (hpath : ∀ b, content.entries[path]? ≠ some b) :
    path ∉ items.map Prod.fst := by
  intro hmem
  obtain ⟨⟨path, node⟩, hitem, rfl⟩ := List.mem_map.mp hmem
  exact hpath _ ((h.entries path _).mpr ⟨node, hitem, rfl⟩)

theorem holds_nil (sha : Sha256) : Holds sha [] { entries := ∅, expanded := 0, files := 0 } := by
  refine ⟨List.nodup_nil, ?_, rfl, rfl⟩
  simp

/-- An entry that can be read to its end and has a safe name. -/
structure Readable (e : ZipEntry) : Prop where
  encrypted : e.encrypted = false
  symlink : e.isSymlink = false
  compression : e.compression ≠ .other
  safe : Safe e.nameRaw e.isDir e.path
  size : e.size = e.reads.flatten.length
  directory : e.isDir = true → e.reads.flatten = []
  broken : e.broken = false

/-- One scanned entry. -/
theorem scanEntry_eq_ok {sha : Sha256} {limit : Nat} {content content' : Fingerprint}
    {items : List (Bytes × Node)} {entry : Option ZipEntry} (hholds : Holds sha items content)
    (h : scanEntry sha limit content entry = .ok content') :
    ∃ e, entry = some e ∧ Readable e ∧
      Holds sha (items ++ [(e.path, e.node)]) content' := by
  simp only [scanEntry, bind_eq_ok_iff, refuseIf_eq_ok, orInvalid_eq_ok, pure_eq_ok,
    safeName_eq_ok, exists_const] at h
  obtain ⟨e, rfl, hkind, name, hsafe, ⟨size, expanded, hashed⟩, hread, hbroken, hsize, hfresh,
    rfl⟩ := h
  obtain ⟨rfl, rfl, rfl⟩ : size = e.reads.flatten.length ∧
      expanded = content.expanded + e.reads.flatten.length ∧ hashed = e.reads.flatten := by
    simpa using readAll_eq_ok hread
  have hname : name = e.path := by
    have := hsafe.raw_eq
    unfold ZipEntry.path
    split at this <;> simp_all
  subst hname
  simp only [not_or, Bool.not_eq_true] at hkind
  have hempty : e.isDir = true → e.reads.flatten = [] := by
    intro hdir
    rw [← List.length_eq_zero_iff]
    by_contra hne
    exact hsize (.inr ⟨hdir, hne⟩)
  have hreadable : Readable e :=
    ⟨hkind.1, hkind.2.1, hkind.2.2, hsafe, by omega, hempty, by simpa using hbroken⟩
  have hnode : e.node.entry sha =
      { directory := e.isDir, size := e.reads.flatten.length,
        sha256 := hexEncode (sha.digest e.reads.flatten) } := by
    cases hdir : e.isDir with
    | false => simp [ZipEntry.node, hdir, Node.entry]
    | true =>
      simp [ZipEntry.node, hdir, Node.entry, directoryEntry, hempty hdir]
  refine ⟨e, rfl, hreadable, ⟨?_, ?_, ?_, ?_⟩⟩
  · have habsent := hholds.absent (contains_eq_false.mp hfresh)
    rw [List.map_append, List.map_singleton]
    refine List.nodup_append.mpr ⟨hholds.distinct, List.nodup_singleton _, ?_⟩
    rintro a ha b hb rfl
    obtain rfl : a = e.path := List.mem_singleton.mp hb
    exact habsent ha
  · intro path entry
    have hfresh' := contains_eq_false.mp hfresh
    simp only [getElem?_insert_eq_some, hholds.entries, List.mem_append, List.mem_singleton,
      Prod.mk.injEq]
    constructor
    · rintro (⟨rfl, rfl⟩ | ⟨-, node, hitem, rfl⟩)
      · exact ⟨e.node, .inr ⟨rfl, rfl⟩, hnode.symm⟩
      · exact ⟨node, .inl hitem, rfl⟩
    · rintro ⟨node, hitem | ⟨rfl, rfl⟩, rfl⟩
      · refine .inr ⟨?_, node, hitem, rfl⟩
        rintro rfl
        exact hfresh' _ ((hholds.entries _ _).mpr ⟨node, hitem, rfl⟩)
      · exact .inl ⟨rfl, hnode.symm⟩
  · cases hdir : e.isDir <;>
      simp [hholds.files, ZipEntry.node, hdir, Node.isFile, List.filter_append]
  · cases hdir : e.isDir with
    | false =>
      simp [hholds.expanded, ZipEntry.node, hdir, Node.isFile, Node.size, List.filter_append]
    | true =>
      simp only [hempty hdir, hholds.expanded, ZipEntry.node, hdir, List.filter_append]
      simp

/-- Scanning every entry of an archive. -/
theorem scanEntries_eq_ok {sha : Sha256} {limit : Nat} {content content' : Fingerprint}
    {items : List (Bytes × Node)} {archive : List (Option ZipEntry)}
    (hholds : Holds sha items content)
    (h : archive.foldlM (scanEntry sha limit) content = .ok content') :
    ∃ es : List ZipEntry, archive = es.map some ∧
      (∀ e ∈ es, Readable e) ∧
      Holds sha (items ++ es.map fun e => (e.path, e.node)) content' := by
  induction archive generalizing content items with
  | nil =>
    simp only [List.foldlM_nil, pure_eq_ok] at h
    exact ⟨[], rfl, by simp, by simpa [← h] using hholds⟩
  | cons entry rest ih =>
    simp only [List.foldlM_cons, bind_eq_ok_iff] at h
    obtain ⟨content₁, hentry, hrest⟩ := h
    obtain ⟨e, rfl, hreadable, hholds₁⟩ := scanEntry_eq_ok hholds hentry
    obtain ⟨es, rfl, hall, hholds'⟩ := ih hholds₁ hrest
    refine ⟨e :: es, rfl, ?_, by simpa using hholds'⟩
    simpa using ⟨hreadable, hall⟩

theorem snapshot_eq_ok {sha : Sha256} {file : File} {receipt : PackageDownload} {bytes : Bytes}
    (h : snapshot sha file receipt = .ok bytes) : bytes = file.bytes := by
  simp only [snapshot, bind_eq_ok_iff, refuseIf_eq_ok] at h
  obtain ⟨-, -, h⟩ := h
  split at h
  · exact absurd h throw_ne_ok
  · exact (pure_eq_ok.mp h).symm

/-- An accepted archive: the ZIP library has opened the bytes, every entry has a safe name,
    and the fingerprint describes exactly these entries. -/
theorem fingerprint_eq_ok {zip : Zip} {sha : Sha256} {file : File} {receipt : PackageDownload}
    {limit : Nat} {mirror : Bool} {content : Fingerprint}
    (h : fingerprintWithLocalSizeMirror zip sha file receipt limit mirror = .ok content) :
    ∃ es : List ZipEntry, zip file.bytes = some (es.map some) ∧
      layout file.bytes limit mirror = .ok es.length ∧
      (∀ e ∈ es, Readable e) ∧ content.expanded ≤ limit ∧
      Holds sha (es.map fun e => (e.path, e.node)) content := by
  simp only [fingerprintWithLocalSizeMirror, bind_eq_ok_iff, refuseIf_eq_ok, orInvalid_eq_ok,
    exists_const] at h
  obtain ⟨bytes, hsnapshot, count, hlayout, archive, hzip, hcount, hscan⟩ := h
  obtain rfl := snapshot_eq_ok hsnapshot
  obtain ⟨es, rfl, hreadable, hholds⟩ := scanEntries_eq_ok (holds_nil sha) hscan
  obtain rfl : es.length = count := by simpa using hcount
  exact ⟨es, hzip, hlayout, hreadable, scanEntries_expanded hscan (Nat.zero_le _),
    by simpa using hholds⟩

end Cirrove.Package
