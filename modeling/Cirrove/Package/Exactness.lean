import Cirrove.Package.Trees

/-!
# The identity is the tree

The hashed stream can be read back: every entry is framed by the length of its path, and all
other fields have a fixed width. So two accepted sources with one identity have one tree, if
the hash function has no collision among the strings hashed for them, and sources with one
tree have one identity. Whether an accepted archive has an identity is decided by the size of
its tree.
-/

namespace Cirrove.Package

open Cirrove.Library
open Std (ExtTreeMap)

/-! ## Frames -/

@[simp]
theorem toU32_eq_ok {n m : Nat} : toU32 n = .ok m ↔ n < 2 ^ 32 ∧ n = m := by
  unfold toU32
  split
  · next h => simp only [pure_eq_ok, h, true_and]
  · next h => simp only [throw_ne_ok, h, false_and]

/-- What the stream shows of an entry. -/
def shown (x : Bytes × Entry) : Bytes × Bool × Option Bytes :=
  (x.1, x.2.directory, hexDecode x.2.sha256)

theorem frame_eq_ok {x : Bytes × Entry} {bytes : Bytes} : frame x = .ok bytes ↔
    x.1.length < 2 ^ 32 ∧ ∃ digest, hexDecode x.2.sha256 = some digest ∧ digest.length = 32 ∧
      bytes = (if x.2.directory then 0x44 else 0x46) ::
        (bigEndian 4 x.1.length ++ (x.1 ++ (bigEndian 8 x.2.size ++ digest))) := by
  simp only [frame, bind_eq_ok_iff, toU32_eq_ok, orInvalid_eq_ok, refuseIf_eq_ok, pure_eq_ok,
    exists_const, not_not]
  constructor
  · rintro ⟨_, ⟨hlength, rfl⟩, digest, hdigest, hwidth, rfl⟩
    exact ⟨hlength, digest, hdigest, hwidth, rfl⟩
  · rintro ⟨hlength, digest, hdigest, hwidth, rfl⟩
    exact ⟨_, ⟨hlength, rfl⟩, digest, hdigest, hwidth, rfl⟩

/-- The first frame of a stream can be read back. -/
theorem frame_append_inj {x y : Bytes × Entry} {s t r r' : Bytes} (hx : frame x = .ok s)
    (hy : frame y = .ok t) (h : s ++ r = t ++ r') : shown x = shown y ∧ r = r' := by
  obtain ⟨hxlen, dx, hdx, hdxlen, rfl⟩ := frame_eq_ok.mp hx
  obtain ⟨hylen, dy, hdy, hdylen, rfl⟩ := frame_eq_ok.mp hy
  simp only [List.cons_append, List.append_assoc, List.cons.injEq] at h
  obtain ⟨htag, h⟩ := h
  obtain ⟨hlen, h⟩ := List.append_inj h (by simp)
  have hlength : x.1.length = y.1.length := bigEndian_inj hxlen hylen hlen
  obtain ⟨hpath, h⟩ := List.append_inj h hlength
  obtain ⟨-, h⟩ := List.append_inj h (by simp)
  obtain ⟨hdigest, hrest⟩ := List.append_inj h (by rw [hdxlen, hdylen])
  have hkind : x.2.directory = y.2.directory := by
    cases hxd : x.2.directory <;> cases hyd : y.2.directory <;> simp_all
  exact ⟨by simp only [shown, hpath, hkind, hdx, hdy, hdigest], hrest⟩

/-- A sequence of frames can be read back. -/
theorem frames_inj {l m : List (Bytes × Entry)} {fs gs : List Bytes}
    (hl : l.mapM frame = .ok fs) (hm : m.mapM frame = .ok gs) (h : fs.flatten = gs.flatten) :
    l.map shown = m.map shown := by
  induction l generalizing m fs gs with
  | nil =>
    obtain rfl : [] = fs := by simpa [pure_eq_ok] using hl
    cases m with
    | nil => rfl
    | cons y m =>
      simp only [List.mapM_cons, bind_eq_ok_iff, pure_eq_ok] at hm
      obtain ⟨g, hg, _, -, rfl⟩ := hm
      obtain ⟨-, _, -, -, rfl⟩ := frame_eq_ok.mp hg
      simp at h
  | cons x l ih =>
    simp only [List.mapM_cons, bind_eq_ok_iff, pure_eq_ok] at hl
    obtain ⟨f, hf, fs, hfs, rfl⟩ := hl
    cases m with
    | nil =>
      obtain rfl : [] = gs := by simpa [pure_eq_ok] using hm
      obtain ⟨-, _, -, -, rfl⟩ := frame_eq_ok.mp hf
      simp at h
    | cons y m =>
      simp only [List.mapM_cons, bind_eq_ok_iff, pure_eq_ok] at hm
      obtain ⟨g, hg, gs, hgs, rfl⟩ := hm
      obtain ⟨hsame, hrest⟩ := frame_append_inj hf hg h
      rw [List.map_cons, List.map_cons, hsame, ih hfs hgs hrest]

/-- The stream determines what it shows of the entries. -/
theorem identityStream_inj {content content' : Fingerprint} {domain stream : Bytes}
    {version : Nat} (h : identityStream content domain version = .ok stream)
    (h' : identityStream content' domain version = .ok stream) :
    content.entries.toList.map shown = content'.entries.toList.map shown := by
  simp only [identityStream, bind_eq_ok_iff, pure_eq_ok] at h h'
  obtain ⟨n, -, files, -, fs, hfs, rfl⟩ := h
  obtain ⟨n', -, files', -, gs, hgs, heq⟩ := h'
  obtain ⟨-, hframes⟩ := List.append_inj heq (by simp)
  exact frames_inj hfs hgs hframes.symm

/-! ## Equal identities -/

namespace Source

variable (zip : Zip) (sha : Sha256)

/-- The stream that is hashed for a source. -/
def stream (s : Source) : Except ProviderError Bytes := do
  let content ← s.scanned zip sha
  identityStream (← directoryClosure sha content) identityDomain 2

/-- Everything the identity of a source hashes: the stream and the bytes of every file. -/
def hashed (s : Source) : Set Bytes :=
  {bytes | s.stream zip sha = .ok bytes ∨ ∃ path, (path, .file bytes) ∈ s.tree zip}

end Source

variable {zip : Zip} {sha : Sha256}

/-- What there is behind an identity. -/
theorem identity_eq_ok {s : Source} {i : PackageSemanticIdentity}
    (h : s.identity zip sha = .ok i) : ∃ items content closed stream,
      Listed zip sha s items content ∧ directoryClosure sha content = .ok closed ∧
      identityStream closed identityDomain 2 = .ok stream ∧ s.stream zip sha = .ok stream ∧
      semanticIdentity sha closed 2 = .ok i ∧ i.sha256 = hexEncode (sha.digest stream) := by
  rw [Source.identity_eq] at h
  simp only [bind_eq_ok_iff] at h
  obtain ⟨content, hscan, closed, hclosed, hidentity⟩ := h
  obtain ⟨items, hlisted⟩ := scanned_eq_ok hscan
  have hparts := hidentity
  simp only [semanticIdentity, identityDigest, bind_eq_ok_iff, pure_eq_ok] at hparts
  obtain ⟨text, ⟨stream, hstream, rfl⟩, _, -, _, -, rfl⟩ := hparts
  have hwhole : s.stream zip sha = .ok stream := by
    simp only [Source.stream, bind_eq_ok_iff]
    exact ⟨content, hscan, closed, hclosed, hstream⟩
  exact ⟨items, content, closed, stream, hlisted, hclosed, hstream, hwhole, hidentity, rfl⟩

/-- A node is determined by what the stream shows of it, where the hash has no collision. -/
theorem node_eq_of_shown {a b : Node} {S : Set Bytes} (hsha : Set.InjOn sha.digest S)
    (ha : ∀ bytes, a = .file bytes → bytes ∈ S) (hb : ∀ bytes, b = .file bytes → bytes ∈ S)
    (hkind : (a.entry sha).directory = (b.entry sha).directory)
    (hdigest : hexDecode (a.entry sha).sha256 = hexDecode (b.entry sha).sha256) : a = b := by
  cases a with
  | directory =>
    cases b with
    | directory => rfl
    | file bytes => simp [Node.isFile] at hkind
  | file bytes =>
    cases b with
    | directory => simp [Node.isFile] at hkind
    | file bytes' =>
      simp only [Node.entry, hexDecode_hexEncode, Option.some.injEq] at hdigest
      rw [hsha (ha bytes rfl) (hb bytes' rfl) hdigest]

/-- One half of equal trees: what stands in the first stands in the second. -/
theorem tree_subset_of_shown {s s' : Source} {items items' : List (Bytes × Node)}
    {content content' closed closed' : Fingerprint} (h : Listed zip sha s items content)
    (h' : Listed zip sha s' items' content') (hclosed : directoryClosure sha content = .ok closed)
    (hclosed' : directoryClosure sha content' = .ok closed')
    (hsha : Set.InjOn sha.digest (s.hashed zip sha ∪ s'.hashed zip sha))
    (hshown : closed.entries.toList.map shown = closed'.entries.toList.map shown) :
    s.tree zip ⊆ s'.tree zip := by
  rintro ⟨path, node⟩ hnode
  obtain ⟨-, -, hlookup⟩ := directoryClosure_eq_ok h hclosed
  obtain ⟨-, -, hlookup'⟩ := directoryClosure_eq_ok h' hclosed'
  have hmem : shown (path, node.entry sha) ∈ closed'.entries.toList.map shown := by
    rw [← hshown]
    refine List.mem_map_of_mem ?_
    rw [ExtTreeMap.mem_toList_iff_getElem?_eq_some]
    exact (hlookup path _).mpr ⟨node, hnode, rfl⟩
  obtain ⟨⟨path', entry'⟩, hmem', hsame⟩ := List.mem_map.mp hmem
  rw [ExtTreeMap.mem_toList_iff_getElem?_eq_some] at hmem'
  obtain ⟨node', hnode', rfl⟩ := (hlookup' path' entry').mp hmem'
  simp only [shown, Prod.mk.injEq] at hsame
  obtain ⟨rfl, hkind, hdigest⟩ := hsame
  obtain rfl : node' = node := by
    refine node_eq_of_shown hsha ?_ ?_ hkind hdigest
    · rintro bytes rfl
      exact .inr (.inr ⟨path', hnode'⟩)
    · rintro bytes rfl
      exact .inl (.inr ⟨path', hnode⟩)
  exact hnode'

/-- Accepted sources of one tree have one identity. -/
theorem identity_eq_of_tree_eq {s s' : Source} {i i' : PackageSemanticIdentity}
    (h : s.identity zip sha = .ok i) (h' : s'.identity zip sha = .ok i')
    (htree : s.tree zip = s'.tree zip) : i = i' := by
  obtain ⟨items, content, closed, _, hlisted, hclosed, -, -, hi, -⟩ := identity_eq_ok h
  obtain ⟨items', content', closed', _, hlisted', hclosed', -, -, hi', -⟩ := identity_eq_ok h'
  obtain rfl := closed_eq_of_tree_eq hlisted hlisted' hclosed hclosed' htree
  exact Except.ok.inj (hi.symm.trans hi')

/-- Accepted sources have one identity exactly when they have one tree. -/
theorem identity_eq_iff {s s' : Source} {i i' : PackageSemanticIdentity}
    (h : s.identity zip sha = .ok i) (h' : s'.identity zip sha = .ok i')
    (hsha : Set.InjOn sha.digest (s.hashed zip sha ∪ s'.hashed zip sha)) :
    i = i' ↔ s.tree zip = s'.tree zip := by
  refine ⟨?_, identity_eq_of_tree_eq h h'⟩
  rintro rfl
  obtain ⟨items, content, closed, stream, hlisted, hclosed, hstream, hwhole, -, htext⟩ :=
    identity_eq_ok h
  obtain ⟨items', content', closed', stream', hlisted', hclosed', hstream', hwhole', -, htext'⟩ :=
    identity_eq_ok h'
  have hdigest : sha.digest stream = sha.digest stream' :=
    hexEncode_inj (htext.symm.trans htext')
  obtain rfl : stream = stream' := hsha (.inl (.inl hwhole)) (.inr (.inl hwhole')) hdigest
  have hshown := identityStream_inj hstream hstream'
  refine Set.Subset.antisymm ?_ ?_
  · exact tree_subset_of_shown hlisted hlisted' hclosed hclosed' hsha hshown
  · rw [Set.union_comm] at hsha
    exact tree_subset_of_shown hlisted' hlisted hclosed' hclosed hsha hshown.symm

/-! ## The entry limit -/

theorem frame_total {path : Bytes} (hpath : path.length ≤ maxName) (node : Node) :
    ∃ bytes, frame (path, node.entry sha) = .ok bytes := by
  have hlength : path.length < 2 ^ 32 := lt_of_le_of_lt hpath (by decide)
  cases node with
  | directory =>
    exact ⟨_, frame_eq_ok.mpr ⟨hlength, _, hexDecode_hexEncode _, sha.length_digest _, rfl⟩⟩
  | file bytes =>
    exact ⟨_, frame_eq_ok.mpr ⟨hlength, _, hexDecode_hexEncode _, sha.length_digest _, rfl⟩⟩

section Limit

variable {s : Source} {items : List (Bytes × Node)} {content closed : Fingerprint}

theorem Listed.path_length (h : Listed zip sha s items content) {path : Bytes} {node : Node}
    (hmem : (path, node) ∈ s.tree zip) : path.length ≤ maxName := by
  rcases h.mem_tree.mp hmem with hitem | ⟨-, himplied⟩
  · exact h.short _ hitem
  · rcases (mem_impliedPaths h.holds).mp himplied with rfl | ⟨y, hy, habove⟩
    · simp
    · exact le_trans habove.length_lt.le (h.short y hy)

/-- A closed content within the limit has an identity. -/
theorem semanticIdentity_total (h : Listed zip sha s items content)
    (hclosed : directoryClosure sha content = .ok closed)
    (hsize : closed.entries.size ≤ maxEntries) :
    ∃ i, semanticIdentity sha closed 2 = .ok i := by
  obtain ⟨hfiles, -, hlookup⟩ := directoryClosure_eq_ok h hclosed
  obtain ⟨frames, hframes⟩ : ∃ frames, closed.entries.toList.mapM frame = .ok frames := by
    refine mapM_total ?_
    rintro ⟨path, entry⟩ hmem
    rw [ExtTreeMap.mem_toList_iff_getElem?_eq_some] at hmem
    obtain ⟨node, hnode, rfl⟩ := (hlookup path entry).mp hmem
    exact frame_total (h.path_length hnode) node
  have hentries : closed.entries.size < 2 ^ 32 := lt_of_le_of_lt hsize (by decide)
  have hfiles : closed.files < 2 ^ 32 := by
    rw [hfiles, h.holds.files]
    exact lt_of_le_of_lt ((List.length_filter_le _ _).trans h.bounded) (by decide)
  simp only [semanticIdentity, identityDigest, identityStream, bind_eq_ok_iff, toU32_eq_ok,
    pure_eq_ok]
  exact ⟨_, _, ⟨_, ⟨_, ⟨hentries, rfl⟩, _, ⟨hfiles, rfl⟩, frames, hframes, rfl⟩, rfl⟩,
    _, ⟨hentries, rfl⟩, _, ⟨hfiles, rfl⟩, rfl⟩

theorem Listed.tree_finite (h : Listed zip sha s items content) : (s.tree zip).Finite := by
  refine (List.finite_toSet
    (items ++ (impliedPaths content).map fun path => (path, Node.directory))).subset ?_
  rintro ⟨path, node⟩ hmem
  rcases h.mem_tree.mp hmem with hitem | ⟨rfl, himplied⟩
  · exact List.mem_append_left _ hitem
  · exact List.mem_append_right _ (List.mem_map.mpr ⟨path, himplied, rfl⟩)

/-- The paths of the tree: those of the explicit nodes and the implied ones. -/
theorem Listed.image_fst_tree (h : Listed zip sha s items content) :
    Prod.fst '' s.tree zip = {p | p ∈ content.entries ∨ p ∈ impliedPaths content} := by
  ext p
  simp only [Set.mem_image, Prod.exists, exists_and_right, exists_eq_right, h.mem_tree,
    Set.mem_ofPred_eq, mem_iff_exists, h.holds.entries]
  constructor
  · rintro ⟨node, hitem | ⟨-, himplied⟩⟩
    · exact .inl ⟨_, node, hitem, rfl⟩
    · exact .inr himplied
  · rintro (⟨_, node, hitem, -⟩ | himplied)
    · exact ⟨node, .inl hitem⟩
    · exact ⟨.directory, .inr ⟨rfl, himplied⟩⟩

/-- A closed content has an entry for every node of the tree. -/
theorem Listed.ncard_tree (h : Listed zip sha s items content)
    (hclosed : directoryClosure sha content = .ok closed) :
    (s.tree zip).ncard = closed.entries.size := by
  obtain ⟨-, -, hlookup⟩ := directoryClosure_eq_ok h hclosed
  have himage : Prod.fst '' s.tree zip = {p | p ∈ closed.entries} := by
    ext p
    simp only [Set.mem_image, Prod.exists, exists_and_right, exists_eq_right, Set.mem_ofPred_eq,
      mem_iff_exists, hlookup]
    exact ⟨fun ⟨node, hnode⟩ => ⟨_, node, hnode, rfl⟩, fun ⟨_, node, hnode, _⟩ => ⟨node, hnode⟩⟩
  have hinj : Set.InjOn Prod.fst (s.tree zip) := by
    rintro ⟨path, a⟩ ha ⟨_, b⟩ hb rfl
    have hentry : a.entry sha = b.entry sha := by
      have hafound := (hlookup path (a.entry sha)).mpr ⟨a, ha, rfl⟩
      have hbfound := (hlookup path (b.entry sha)).mpr ⟨b, hb, rfl⟩
      exact Option.some.inj (hafound.symm.trans hbfound)
    cases a with
    | directory => rw [Node.entry_eq_directoryEntry.mp hentry.symm]
    | file bytes =>
      cases b with
      | directory => simp [Node.entry, directoryEntry] at hentry
      | file bytes' =>
        -- two files at one path are one explicit entry
        have hpair := List.inj_on_of_nodup_map h.holds.distinct (h.file_mem.mp ha)
          (h.file_mem.mp hb) rfl
        exact hpair
  rw [size_eq_ncard, ← himage, hinj.ncard_image]

/-- Once the archive itself is accepted, its tree decides whether it has an identity. -/
theorem identity_isOk_iff (hlawful : zip.Lawful) (h : s.scanned zip sha = .ok content) :
    (∃ i, s.identity zip sha = .ok i) ↔ (s.tree zip).ncard ≤ maxEntries := by
  obtain ⟨items, hlisted⟩ := scanned_eq_ok h
  have hinterior : ∀ p ∈ impliedPaths content, ∀ entry, content.entries[p]? = some entry →
      entry = directoryEntry sha := by
    intro p hp entry hentry
    obtain ⟨node, hitem, rfl⟩ := (hlisted.holds.entries p entry).mp hentry
    have hnode : node = .directory := by
      rcases (mem_impliedPaths hlisted.holds).mp hp with rfl | ⟨y, hy, habove⟩
      · exact hlisted.interior hlawful _ hitem _ hitem (.inl rfl)
      · exact hlisted.interior hlawful _ hitem _ hy (.inr habove)
    rw [hnode]
    rfl
  have hsize : content.entries.size ≤ maxEntries := by
    rw [hlisted.holds.size_eq]
    exact hlisted.bounded
  rw [Source.identity_eq, h]
  rcases includePaths_total hinterior hsize with ⟨closed, hclosed, hbound⟩ | ⟨herror, hfull⟩
  · obtain ⟨i, hi⟩ := semanticIdentity_total hlisted hclosed hbound
    refine iff_of_true ⟨i, ?_⟩ (by rw [hlisted.ncard_tree hclosed]; exact hbound)
    simp only [bind_eq_ok_iff, Except.ok.injEq, exists_eq_left']
    exact ⟨closed, hclosed, hi⟩
  · refine iff_of_false ?_ ?_
    · simp only [bind_eq_ok_iff, Except.ok.injEq, exists_eq_left', not_exists, not_and]
      intro i closed hclosed
      exact absurd (herror.symm.trans hclosed) (by simp)
    · rw [not_le]
      rw [← hlisted.image_fst_tree] at hfull
      exact lt_of_lt_of_le hfull (Set.ncard_image_le hlisted.tree_finite)

end Limit

/-! ## The identity as the tree -/

/-- Two accepted archives, flat or wrapped, have one identity if and only if they have one
    directory-closed tree, and an archive that is accepted itself passes the entry limit if
    and only if its tree does. -/
theorem identity_exact (zip : Zip) (sha : Sha256) (hlawful : zip.Lawful) :
    (∀ (s s' : Source) (i i' : PackageSemanticIdentity), s.identity zip sha = .ok i →
      s'.identity zip sha = .ok i' →
      Set.InjOn sha.digest (s.hashed zip sha ∪ s'.hashed zip sha) →
      (i = i' ↔ s.tree zip = s'.tree zip)) ∧
    ∀ (s : Source) (content : Fingerprint), s.scanned zip sha = .ok content →
      ((∃ i, s.identity zip sha = .ok i) ↔ (s.tree zip).ncard ≤ maxEntries) :=
  ⟨fun _ _ _ _ h h' hsha => identity_eq_iff h h' hsha,
    fun _ _ h => identity_isOk_iff hlawful h⟩

/-! A document with one file `x/y`: flat, and wrapped under `R` in another order with one of
its directories explicit. -/

def flatArchive : Bytes :=
  [80, 75, 3, 4, 20, 0, 0, 0, 0, 0, 0, 0, 33, 0, 172, 42, 147, 216, 2, 0, 0, 0, 2, 0, 0, 0, 3, 0,
   0, 0, 120, 47, 121, 104, 105, 80, 75, 1, 2, 20, 3, 20, 0, 0, 0, 0, 0, 0, 0, 33, 0, 172, 42,
   147, 216, 2, 0, 0, 0, 2, 0, 0, 0, 3, 0, 0, 0, 0, 0, 0, 0, 0, 0, 0, 0, 164, 129, 0, 0, 0, 0,
   120, 47, 121, 80, 75, 5, 6, 0, 0, 0, 0, 1, 0, 1, 0, 49, 0, 0, 0, 35, 0, 0, 0, 0, 0]

def wrappedArchive : Bytes :=
  [80, 75, 3, 4, 20, 0, 0, 0, 0, 0, 0, 0, 33, 0, 172, 42, 147, 216, 2, 0, 0, 0, 2, 0, 0, 0, 5, 0,
   0, 0, 82, 47, 120, 47, 121, 104, 105, 80, 75, 3, 4, 20, 0, 0, 0, 0, 0, 0, 0, 33, 0, 0, 0, 0,
   0, 0, 0, 0, 0, 0, 0, 0, 0, 4, 0, 0, 0, 82, 47, 120, 47, 80, 75, 1, 2, 20, 3, 20, 0, 0, 0, 0,
   0, 0, 0, 33, 0, 172, 42, 147, 216, 2, 0, 0, 0, 2, 0, 0, 0, 5, 0, 0, 0, 0, 0, 0, 0, 0, 0, 0, 0,
   164, 129, 0, 0, 0, 0, 82, 47, 120, 47, 121, 80, 75, 1, 2, 20, 3, 20, 0, 0, 0, 0, 0, 0, 0, 33,
   0, 0, 0, 0, 0, 0, 0, 0, 0, 0, 0, 0, 0, 4, 0, 0, 0, 0, 0, 0, 0, 0, 0, 0, 0, 237, 65, 37, 0, 0,
   0, 82, 47, 120, 47, 80, 75, 5, 6, 0, 0, 0, 0, 2, 0, 2, 0, 101, 0, 0, 0, 71, 0, 0, 0, 0, 0]

def storedEntry (name content : Bytes) : ZipEntry :=
  { nameRaw := name, name, isDir := endsInSlash name, encrypted := false, isSymlink := false,
    compression := .stored, size := content.length,
    reads := if content = [] then [] else [content], broken := false }

/-- The ZIP library on the two archives. -/
def sampleZip : Zip := fun bytes =>
  if bytes = flatArchive then some ([storedEntry (ascii "x/y") (ascii "hi")].map some)
  else if bytes = wrappedArchive then
    some ([storedEntry (ascii "R/x/y") (ascii "hi"), storedEntry (ascii "R/x/") []].map some)
  else none

/-- The stream of the document. -/
def sampleStream : Bytes :=
  [99, 105, 114, 114, 111, 118, 101, 46, 112, 97, 99, 107, 97, 103, 101, 46, 115, 101, 109, 97,
   110, 116, 105, 99, 46, 105, 100, 101, 110, 116, 105, 116, 121, 0, 0, 0, 0, 2, 0, 0, 0, 3, 0,
   0, 0, 1, 0, 0, 0, 0, 0, 0, 0, 2, 68, 0, 0, 0, 0, 0, 0, 0, 0, 0, 0, 0, 0, 227, 176, 196, 66,
   152, 252, 28, 20, 154, 251, 244, 200, 153, 111, 185, 36, 39, 174, 65, 228, 100, 155, 147, 76,
   164, 149, 153, 27, 120, 82, 184, 85, 68, 0, 0, 0, 1, 120, 0, 0, 0, 0, 0, 0, 0, 0, 227, 176,
   196, 66, 152, 252, 28, 20, 154, 251, 244, 200, 153, 111, 185, 36, 39, 174, 65, 228, 100, 155,
   147, 76, 164, 149, 153, 27, 120, 82, 184, 85, 70, 0, 0, 0, 3, 120, 47, 121, 0, 0, 0, 0, 0, 0,
   0, 2, 143, 67, 67, 70, 100, 143, 107, 150, 223, 137, 221, 169, 1, 197, 23, 107, 16, 166, 216,
   57, 97, 221, 60, 26, 200, 139, 89, 178, 220, 50, 122, 164]

/-- SHA-256 on what is hashed for the two archives. -/
def sampleDigest (bytes : Bytes) : Bytes :=
  if bytes = [] then
  [227, 176, 196, 66, 152, 252, 28, 20, 154, 251, 244, 200, 153, 111, 185, 36, 39, 174, 65, 228,
   100, 155, 147, 76, 164, 149, 153, 27, 120, 82, 184, 85]
  else if bytes = ascii "hi" then
  [143, 67, 67, 70, 100, 143, 107, 150, 223, 137, 221, 169, 1, 197, 23, 107, 16, 166, 216, 57,
   97, 221, 60, 26, 200, 139, 89, 178, 220, 50, 122, 164]
  else if bytes = flatArchive then
  [253, 30, 196, 5, 58, 93, 54, 191, 230, 134, 221, 156, 61, 39, 247, 196, 63, 111, 180, 171,
   245, 105, 194, 190, 52, 13, 185, 205, 203, 176, 58, 122]
  else if bytes = wrappedArchive then
  [79, 134, 144, 28, 79, 196, 154, 67, 193, 133, 72, 12, 136, 204, 174, 2, 180, 164, 49, 174,
   231, 199, 90, 126, 188, 143, 4, 81, 174, 176, 113, 88]
  else if bytes = sampleStream then
  [51, 79, 85, 64, 147, 230, 228, 184, 247, 32, 188, 3, 165, 76, 177, 230, 2, 7, 165, 238, 10,
   75, 225, 255, 37, 33, 14, 113, 177, 196, 134, 24]
  else List.replicate 32 0

def sampleSha : Sha256 where
  digest := sampleDigest
  length_digest bytes := by
    unfold sampleDigest
    split_ifs <;> rfl

def flatSource : Source where
  file := { isFile := true, bytes := flatArchive }
  receipt := { size := 106, sha256 := hexEncode (sampleDigest flatArchive) }
  root := none

def wrappedSource : Source where
  file := { isFile := true, bytes := wrappedArchive }
  receipt := { size := 194, sha256 := hexEncode (sampleDigest wrappedArchive) }
  root := some (ascii "R")

def sampleIdentity : PackageSemanticIdentity where
  version := 2
  sha256 := hexEncode (sampleDigest sampleStream)
  entries := 3
  files := 1
  expandedBytes := 2

theorem sampleZip_lawful : sampleZip.Lawful := by
  intro bytes limit mirror es _ hzip
  have hsome : Function.Injective (some : ZipEntry → Option ZipEntry) := Option.some_injective _
  unfold sampleZip at hzip
  split_ifs at hzip with hflat hwrapped
  · obtain rfl := (List.map_injective_iff.mpr hsome) (Option.some.inj hzip)
    subst hflat
    decide +kernel
  · obtain rfl := (List.map_injective_iff.mpr hsome) (Option.some.inj hzip)
    subst hwrapped
    decide +kernel

theorem flatSource_identity : flatSource.identity sampleZip sampleSha = .ok sampleIdentity := by
  decide +kernel

theorem wrappedSource_identity :
    wrappedSource.identity sampleZip sampleSha = .ok sampleIdentity := by
  decide +kernel

/-- What is hashed for a source whose files all hold one text. -/
theorem hashed_subset {s : Source} {stream text : Bytes} (hstream : s.stream zip sha = .ok stream)
    (htext : ∀ e ∈ s.entries zip, e.node = .directory ∨ e.node = .file text) :
    s.hashed zip sha ⊆ {stream, text} := by
  rintro bytes (hbytes | ⟨path, hfile⟩)
  · exact .inl (Except.ok.inj (hbytes.symm.trans hstream))
  · simp only [Source.tree, pathClosure, Set.mem_union, Set.mem_ofPred_eq, reduceCtorEq,
      false_and, or_false] at hfile
    obtain ⟨e, he, -, hnode⟩ := hfile
    rcases htext e he with hdir | htext
    · exact absurd (hdir.symm.trans hnode) (by simp)
    · exact .inr (Node.file.inj (hnode.symm.trans htext))

theorem sampleSha_injOn : Set.InjOn sampleSha.digest
    (flatSource.hashed sampleZip sampleSha ∪ wrappedSource.hashed sampleZip sampleSha) := by
  have hsubset : flatSource.hashed sampleZip sampleSha ∪ wrappedSource.hashed sampleZip sampleSha ⊆
      {sampleStream, ascii "hi"} :=
    Set.union_subset (hashed_subset (by decide +kernel) (by decide +kernel))
      (hashed_subset (by decide +kernel) (by decide +kernel))
  have hne : sampleSha.digest sampleStream ≠ sampleSha.digest (ascii "hi") := by decide +kernel
  refine Set.InjOn.mono hsubset ?_
  rintro a (rfl | rfl) b (rfl | rfl) heq
  · rfl
  · exact absurd heq hne
  · exact absurd heq.symm hne
  · rfl

/-- The two archives have one identity, hence one tree, and it passes the limit. -/
theorem identity_exact_wrapped :
    flatSource.identity sampleZip sampleSha = .ok sampleIdentity ∧
      wrappedSource.identity sampleZip sampleSha = .ok sampleIdentity ∧
      flatSource.tree sampleZip = wrappedSource.tree sampleZip ∧
      (flatSource.tree sampleZip).ncard ≤ maxEntries := by
  have hexact := identity_exact sampleZip sampleSha sampleZip_lawful
  have hscan := flatSource_identity
  rw [Source.identity_eq] at hscan
  obtain ⟨content, hscanned, -⟩ := bind_eq_ok_iff.mp hscan
  exact ⟨flatSource_identity, wrappedSource_identity,
    (hexact.1 _ _ _ _ flatSource_identity wrappedSource_identity sampleSha_injOn).mp rfl,
    (hexact.2 _ _ hscanned).mp ⟨_, flatSource_identity⟩⟩

end Cirrove.Package
