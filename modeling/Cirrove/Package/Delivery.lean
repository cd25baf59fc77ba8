import Cirrove.Package.Naming
import Cirrove.Package.Acceptance

/-!
# What arrives on the wire

Where the encoder reads every name as the scanner does, a flat document is delivered
unchanged: the wire archive is the stored archive of the root and the explicit entries in the
order of their names, and it has the identity of the source. The two readings agree on a name
that is ASCII or carries the UTF-8 flag; on any other name the encoder writes another path
than the scanner has admitted.
-/

namespace Cirrove.Package

open Cirrove.Library
open Std (ExtTreeMap)

/-! ## Unchanged deliveries -/

/-- The stored name of a node. -/
def rawName (x : Bytes × Node) : Bytes := if x.2.isFile then x.1 else x.1 ++ [slash]

/-- What a node holds. -/
def Node.content : Node → Bytes
  | directory => []
  | file bytes => bytes

/-- A node as it is put on the wire. -/
def wireEntry (root : Bytes) (x : Bytes × Node) : WireEntry :=
  { name := wireName root (rawName x), directory := !x.2.isFile, content := x.2.content }

def rootEntry (root : Bytes) : WireEntry :=
  { name := root ++ [slash], directory := true, content := [] }

/-- The order of the names of nodes on the wire. -/
def wireBefore (root : Bytes) (x y : Bytes × Node) : Prop :=
  compare (wireName root (rawName x)) (wireName root (rawName y)) = .lt

/-- The bytes of the archive that has the root and the listed nodes, stored in the order of
    their names. -/
def Delivers (writer : ZipWriter) (root : Bytes) (listing : Set (Bytes × Node)) (bytes : Bytes) :
    Prop :=
  ∃ list : List (Bytes × Node), (∀ x, x ∈ list ↔ x ∈ listing) ∧
    list.Pairwise (wireBefore root) ∧
    writer (rootEntry root :: list.map (wireEntry root)) = some bytes

/-! ## What a delivery has passed -/

@[simp]
theorem refuseWireIf_eq_ok {p : Prop} [Decidable p] {u : Unit} :
    refuseWireIf p = .ok u ↔ ¬ p :=
  refuseWith_eq_ok

@[simp]
theorem orInvalidWire_eq_ok {α : Type} {o : Option α} {a : α} :
    orInvalidWire o = .ok a ↔ o = some a :=
  orRefuse_eq_ok

@[simp]
theorem requireSame_eq_ok {a b : PackageSemanticIdentity} {u : Unit} :
    requireSame a b = .ok u ↔ a = b := by
  unfold requireSame
  split
  · next h => simp [throw_ne_ok, h]
  · next h => simpa [pure_eq_ok] using h

/-- The receipt of a wire archive. -/
def receiptOf (sha : Sha256) (root bytes : Bytes) : WireReceipt :=
  { version := 1, size := bytes.length, sha256 := hexEncode (sha.digest bytes), expectedRoot := root }

/-- The wire archive as a source. -/
def wireSource (sha : Sha256) (root bytes : Bytes) : Source :=
  { file := { isFile := true, bytes }
    receipt := { size := bytes.length, sha256 := hexEncode (sha.digest bytes) }
    root := some root }

/-- Everything a delivery has passed. -/
structure Delivered (zip : Zip) (writer : ZipWriter) (sha : Sha256) (source : WriteStagingFile)
    (original : PackageDownload) (root : Bytes) (semantic : PackageSemanticIdentity)
    (wire : WriteStagingFile) (archive : List (Option ZipEntry)) (entries : List (Bytes × ZipEntry))
    (copies : List WireEntry) (bytes : Bytes) : Prop where
  valid : validateWireRoot root = .ok ()
  empty : ¬ (wire.file.isFile = false ∨ wire.file.bytes.length ≠ 0 ∨
    (source.dev = wire.dev ∧ source.ino = wire.ino))
  scanned : packageFlatArchiveSemanticIdentityV2 zip sha source.file original = .ok semantic
  opened : zip source.file.bytes = some archive
  count : archive.length < maxEntries
  named : archive.mapM (nameEntry root) = .ok entries
  copied : (entries.insertionSort nameLE).mapM copyEntry = .ok copies
  written : writer (rootEntry root :: copies) = some bytes
  limit : bytes.length ≤ writeStagingFileLimit
  receipt : (receiptOf sha root bytes).validate root = .ok ()
  delivered : (wireSource sha root bytes).identity zip sha = .ok semantic

theorem flatNativeWire_eq_ok {zip : Zip} {writer : ZipWriter} {sha : Sha256}
    {source : WriteStagingFile} {original : PackageDownload} {root : Bytes}
    {semantic : PackageSemanticIdentity} {wire : WriteStagingFile} {receipt : WireReceipt}
    {bytes : Bytes} :
    flatNativeWire zip writer sha source original root semantic wire = .ok (receipt, bytes) ↔
      receipt = receiptOf sha root bytes ∧ ∃ archive entries copies,
        Delivered zip writer sha source original root semantic wire archive entries copies bytes := by
  simp only [flatNativeWire, bind_eq_ok_iff, refuseWireIf_eq_ok, orInvalidWire_eq_ok,
    requireSame_eq_ok, exists_const, pure_eq_ok]
  constructor
  · rintro ⟨_, hvalid, hempty, actual, hscanned, rfl, archive, hopened, hcount, entries, hnamed,
      copies, hcopied, _, hwritten, hlimit, _, hreceipt, _, hdelivered, rfl, -, -, -, hresult⟩
    obtain ⟨rfl, rfl⟩ := Prod.mk.inj hresult
    exact ⟨rfl, archive, entries, copies, hvalid, hempty, hscanned, hopened, by omega, hnamed,
      hcopied, hwritten, by omega, hreceipt, hdelivered⟩
  · rintro ⟨rfl, archive, entries, copies, h⟩
    exact ⟨(), h.valid, h.empty, semantic, h.scanned, rfl, archive, h.opened, not_le.mpr h.count,
      entries, h.named, copies, h.copied, bytes, h.written, not_lt.mpr h.limit, (), h.receipt,
      semantic, h.delivered, rfl, semantic, h.scanned, rfl, rfl⟩

/-! ## Names below a root -/

/-- What the wire accepts as a root: one safe component. -/
structure WireRoot (root : Bytes) : Prop where
  safe : Safe root false root
  component : slash ∉ root

theorem validateWireRoot_eq_ok {root : Bytes} (h : validateWireRoot root = .ok ()) :
    WireRoot root := by
  simp only [validateWireRoot, bind_eq_ok_iff, orInvalidWire_eq_ok, refuseWireIf_eq_ok, not_or,
    not_and_or, not_not, not_lt, List.any_eq_true, Bool.or_eq_true, beq_iff_eq] at h
  obtain ⟨chars, hchars, hlength, hsuffix, -, -, hplain⟩ := h
  have hslash : slash ∉ root := by
    intro hmem
    have hchar : '/' ∈ chars := mem_utf8Chars hchars hmem (by decide)
    exact hplain ⟨'/', hchar, by simp⟩
  -- a root that ends in a suffix is longer than a dot or two
  have hlong : root ≠ [] ∧ root ≠ [dot] ∧ root ≠ [dot, dot] := by
    refine ⟨?_, ?_, ?_⟩ <;> rintro rfl <;> revert hsuffix <;> decide
  refine ⟨⟨rfl, hlength, ⟨chars, hchars, ?_⟩, ?_, ?_⟩, hslash⟩
  · intro c hc hbad
    refine hplain ⟨c, hc, ?_⟩
    tauto
  · intro hhead
    exact hslash (List.mem_of_mem_head? hhead)
  · rw [List.splitOn_eq_singleton hslash]
    simpa using hlong

theorem WireRoot.validateRoot {root : Bytes} (h : WireRoot root) :
    Package.validateRoot root = .ok () := by
  simp only [Package.validateRoot, h.component, if_false, safeName_eq_ok.mpr h.safe]
  exact if_neg (not_not.mpr rfl)

theorem Safe.below_root {root raw key : Bytes} {directory : Bool} (hroot : WireRoot root)
    (h : Safe raw directory key) (hlength : (wireName root raw).length ≤ maxName) :
    Safe (wireName root raw) directory (root ++ slash :: key) := by
  obtain ⟨cs, hcs, hplain⟩ := hroot.safe.text
  obtain ⟨ds, hds, hplain'⟩ := h.text
  have hslash : utf8Chars [slash] = some ['/'] := by decide
  have htext : utf8Chars (wireName root raw) = some (cs ++ (['/'] ++ ds)) :=
    utf8Chars_append hcs (utf8Chars_append hslash hds)
  refine ⟨?_, hlength, ⟨_, htext, ?_⟩, ?_, ?_⟩
  · rw [wireName, h.raw_eq]
    cases directory <;> simp
  · intro c hc
    simp only [List.mem_append, List.mem_singleton] at hc
    rcases hc with hc | rfl | hc
    · exact hplain c hc
    · decide
    · exact hplain' c hc
  · rw [wireName]
    cases hr : root with
    | nil => exact absurd hr hroot.safe.ne_nil
    | cons b rest =>
      have := hroot.safe.relative
      simpa [hr] using this
  · rw [List.splitOn_append_cons_self_of_not_mem hroot.component]
    intro part hpart
    rcases List.mem_cons.mp hpart with rfl | hpart
    · refine hroot.safe.components part ?_
      rw [List.splitOn_eq_singleton hroot.component]
      exact List.mem_cons_self
    · exact h.components part hpart

theorem WireRoot.safe_entry {root : Bytes} (h : WireRoot root)
    (hlength : (root ++ [slash]).length ≤ maxName) : Safe (root ++ [slash]) true root := by
  obtain ⟨cs, hcs, hplain⟩ := h.safe.text
  have hslash : utf8Chars [slash] = some ['/'] := by decide
  refine ⟨rfl, hlength, ⟨_, utf8Chars_append hcs hslash, ?_⟩, ?_, h.safe.components⟩
  · intro c hc
    rcases List.mem_append.mp hc with hc | hc
    · exact hplain c hc
    · rw [List.mem_singleton.mp hc]
      decide
  · cases hr : root with
    | nil => exact absurd hr h.safe.ne_nil
    | cons b rest =>
      have := h.safe.relative
      simpa [hr] using this

/-- A safe name shows whether it is a directory's. -/
theorem Safe.endsInSlash_eq {raw key : Bytes} {directory : Bool} (h : Safe raw directory key) :
    endsInSlash raw = directory := by
  cases directory with
  | true => simp [h.raw_eq, endsInSlash]
  | false =>
    have hraw : raw = key := h.raw_eq
    by_contra hends
    obtain ⟨front, hfront⟩ : ∃ front, key = front ++ [slash] := by
      refine List.getLast?_eq_some_iff.mp ?_
      simpa [endsInSlash, hraw] using hends
    -- behind a last slash there is an empty component
    refine (h.components [] ?_).1 rfl
    rw [hfront, List.splitOn_append_cons_self]
    simp

/-! ## The archive of a listing -/

/-- A listing that can be put on the wire below a root. -/
structure Deliverable (root : Bytes) (list : List (Bytes × Node)) : Prop where
  valid : WireRoot root
  safe : ∀ x ∈ list, Safe (rawName x) (!x.2.isFile) x.1
  short : ∀ x ∈ list, (wireName root (rawName x)).length ≤ maxName
  distinct : (list.map Prod.fst).Nodup
  interior : ∀ x ∈ list, ∀ y ∈ list, Above slash x.1 y.1 → x.2 = .directory
  files : ∃ x ∈ list, x.2.isFile = true
  count : list.length < maxEntries
  expanded : (list.map (·.2.size)).sum ≤ maxExpanded
  fits : storedSize (rootEntry root :: list.map (wireEntry root)) ≤ writeStagingFileLimit

/-- The path of a stored name. -/
def namePath (name : Bytes) : Bytes := if endsInSlash name then name.dropLast else name

theorem Safe.namePath_eq {raw key : Bytes} {directory : Bool} (h : Safe raw directory key) :
    namePath raw = key := by
  rw [namePath, h.endsInSlash_eq, h.raw_eq]
  cases directory <;> simp

namespace Deliverable

variable {root : Bytes} {list : List (Bytes × Node)}

/-- Every entry of the archive is safe, at a path below the root. -/
theorem safe_entry (h : Deliverable root list) {w : WireEntry}
    (hw : w ∈ rootEntry root :: list.map (wireEntry root)) :
    Safe w.name w.directory (namePath w.name) ∧
      (w = rootEntry root ∧ namePath w.name = root ∨
        ∃ x ∈ list, w = wireEntry root x ∧ namePath w.name = root ++ slash :: x.1) := by
  rcases List.mem_cons.mp hw with rfl | hw
  · obtain ⟨x, hx, -⟩ := h.files
    have hlength : (root ++ [slash]).length ≤ maxName := by
      have := h.short x hx
      simp only [wireName, List.length_append, List.length_cons] at this
      simp only [List.length_append, List.length_singleton]
      omega
    have hsafe : Safe (rootEntry root).name (rootEntry root).directory root :=
      h.valid.safe_entry hlength
    refine ⟨?_, .inl ⟨rfl, hsafe.namePath_eq⟩⟩
    rw [hsafe.namePath_eq]
    exact hsafe
  · obtain ⟨x, hx, rfl⟩ := List.mem_map.mp hw
    have hsafe : Safe (wireEntry root x).name (wireEntry root x).directory (root ++ slash :: x.1) :=
      (h.safe x hx).below_root h.valid (h.short x hx)
    refine ⟨?_, .inr ⟨x, hx, rfl, hsafe.namePath_eq⟩⟩
    rw [hsafe.namePath_eq]
    exact hsafe

theorem shape (h : Deliverable root list) {w : WireEntry}
    (hw : w ∈ rootEntry root :: list.map (wireEntry root)) :
    w.Shape ∧ w.name.length ≤ maxName := by
  obtain ⟨hsafe, hwhich⟩ := h.safe_entry hw
  obtain ⟨chars, hchars, -⟩ := hsafe.text
  refine ⟨⟨by simp [hchars], hsafe.endsInSlash_eq.symm, ?_⟩, hsafe.length⟩
  rcases hwhich with ⟨rfl, -⟩ | ⟨⟨path, node⟩, -, rfl, -⟩
  · exact fun _ => rfl
  · cases node with
    | directory => exact fun _ => rfl
    | file bytes => intro hdir; simp [wireEntry] at hdir

/-- The paths of the archive are distinct. -/
theorem distinct_paths (h : Deliverable root list) :
    ((rootEntry root :: list.map (wireEntry root)).map fun w => namePath w.name).Nodup := by
  have hpaths : (list.map (wireEntry root)).map (fun w => namePath w.name) =
      (list.map Prod.fst).map fun path => root ++ slash :: path := by
    rw [List.map_map, List.map_map]
    refine List.map_congr_left fun x hx => ?_
    exact ((h.safe x hx).below_root h.valid (h.short x hx)).namePath_eq
  have hroot : namePath (rootEntry root).name = root := by
    simp [namePath, rootEntry, endsInSlash]
  rw [List.map_cons, hpaths, hroot]
  refine List.nodup_cons.mpr ⟨?_, h.distinct.map ?_⟩
  · intro hmem
    obtain ⟨path, -, heq⟩ := List.mem_map.mp hmem
    have := congrArg List.length heq
    simp at this
  · intro a b heq
    simpa using heq

theorem distinct_names (h : Deliverable root list) :
    ((rootEntry root :: list.map (wireEntry root)).map WireEntry.name).Nodup := by
  have hpaths := h.distinct_paths
  rw [show (fun w : WireEntry => namePath w.name) = namePath ∘ WireEntry.name from rfl,
    ← List.map_map] at hpaths
  exact List.Nodup.of_map _ hpaths

end Deliverable

theorem stores_map {rs : List StoredRecord} {ws : List WireEntry} (h : List.Forall₂ Stores rs ws) :
    rs.map (fun r => (r.name, r.content)) = ws.map fun w => (w.name, w.content) := by
  induction h with
  | nil => rfl
  | cons hr _ ih => simp [ih, hr.1, hr.2.1]

/-- A statistic of names and contents is the same for records and entries. -/
theorem stores_map_eq {γ : Type} {rs : List StoredRecord} {ws : List WireEntry}
    (h : List.Forall₂ Stores rs ws) (f : Bytes → Bytes → γ) :
    rs.map (fun r => f r.name r.content) = ws.map fun w => f w.name w.content := by
  have hpairs := congrArg (List.map fun p : Bytes × Bytes => f p.1 p.2) (stores_map h)
  simpa [Function.comp_def] using hpairs

theorem stores_mem {rs : List StoredRecord} {ws : List WireEntry} (h : List.Forall₂ Stores rs ws)
    {r : StoredRecord} (hr : r ∈ rs) : ∃ w ∈ ws, Stores r w := by
  induction h with
  | nil => simp at hr
  | cons hr' _ ih =>
    rcases List.mem_cons.mp hr with rfl | hr
    · exact ⟨_, List.mem_cons_self, hr'⟩
    · obtain ⟨w, hw, hstores⟩ := ih hr
      exact ⟨w, List.mem_cons_of_mem _ hw, hstores⟩

theorem length_storedArchive {rs : List StoredRecord} {ws : List WireEntry}
    (h : List.Forall₂ Stores rs ws) : (storedArchive rs).length = storedSize ws := by
  have hsum : (rs.map fun r => 76 + 2 * r.name.length + r.content.length).sum =
      (rs.map fun r => 30 + r.name.length + r.content.length).sum +
        (rs.map fun r => 46 + r.name.length).sum := by
    rw [← List.sum_map_add]
    congr 1
    refine List.map_congr_left fun r _ => ?_
    omega
  rw [storedSize, ← stores_map_eq h fun name content => 76 + 2 * name.length + content.length,
    hsum, storedArchive]
  simp only [List.length_append, length_endBytes, length_localsOf, length_centralsOf]
  omega

namespace Deliverable

variable {root : Bytes} {list : List (Bytes × Node)} {rs : List StoredRecord}

theorem storable (h : Deliverable root list)
    (hrs : List.Forall₂ Stores rs (rootEntry root :: list.map (wireEntry root))) :
    Storable rs := by
  refine ⟨?_, ?_, ?_⟩
  · intro r hr
    obtain ⟨w, -, hstores⟩ := stores_mem hrs hr
    exact hstores.2.2
  · intro r hr
    obtain ⟨w, hw, hname, -⟩ := stores_mem hrs hr
    have hsafe := (h.safe_entry hw).1
    rw [← hname] at hsafe
    exact hsafe.endsInSlash_eq.symm ▸ hsafe
  · have hpaths : rs.map StoredRecord.path = _ := stores_map_eq hrs fun name _ => namePath name
    rw [hpaths]
    exact h.distinct_paths

/-- The archive of the listing is accepted. -/
theorem layout_eq_ok (h : Deliverable root list)
    (hrs : List.Forall₂ Stores rs (rootEntry root :: list.map (wireEntry root))) :
    layout (storedArchive rs) maxExpanded false = .ok rs.length := by
  have hlength : rs.length = list.length + 1 := by simpa using hrs.length_eq
  have hcount : rs.length ≤ maxEntries := by
    have := h.count
    omega
  refine layout_storedArchive false (h.storable hrs) ?_ hcount ?_ ?_ ?_ ?_
  · rintro rfl
    simp at hlength
  · intro r hr r' hr' habove
    obtain ⟨w, hw, hname, -⟩ := stores_mem hrs hr
    obtain ⟨w', hw', hname', -⟩ := stores_mem hrs hr'
    have habove' : Above slash (namePath w.name) (namePath w'.name) := hname ▸ hname' ▸ habove
    rw [hname]
    obtain ⟨hsafe, hwhich⟩ := h.safe_entry hw
    obtain ⟨-, hwhich'⟩ := h.safe_entry hw'
    rw [hsafe.endsInSlash_eq]
    rcases hwhich with ⟨rfl, -⟩ | ⟨x, hx, rfl, hpath⟩
    · rfl
    · rw [hpath] at habove'
      rcases hwhich' with ⟨-, hpath'⟩ | ⟨y, hy, -, hpath'⟩
      · -- nothing below the root is above it
        rw [hpath'] at habove'
        have := habove'.length_lt
        simp at this
      · rw [hpath'] at habove'
        obtain ⟨rest, hrest⟩ := habove'
        have hxy : Above slash x.1 y.1 := ⟨rest, by simpa using hrest⟩
        simp [wireEntry, h.interior x hx y hy hxy]
  · rw [length_centralsOf, stores_map_eq hrs fun name _ => 46 + name.length]
    refine le_trans (List.sum_le_card_nsmul _ (46 + maxName) ?_) ?_
    · intro n hn
      obtain ⟨w, hw, rfl⟩ := List.mem_map.mp hn
      have := (h.shape hw).2
      omega
    · rw [List.length_map, ← hrs.length_eq, smul_eq_mul]
      calc rs.length * (46 + maxName) ≤ maxEntries * (46 + maxName) :=
            Nat.mul_le_mul_right _ hcount
        _ ≤ maxCentral := by decide
  · rw [length_storedArchive hrs]
    exact lt_of_le_of_lt h.fits (by decide)
  · rw [stores_map_eq hrs fun _ content => content.length]
    refine le_trans (le_of_eq ?_) h.expanded
    rw [List.map_cons, List.sum_cons, List.map_map]
    have hsizes : (fun w : WireEntry => w.content.length) ∘ wireEntry root = fun x => x.2.size := by
      funext x
      obtain ⟨path, node⟩ := x
      cases node <;> rfl
    rw [hsizes]
    exact Nat.zero_add _

end Deliverable

/-! ## Reading the archive back -/

/-- The node an entry of the wire stands for. -/
def WireEntry.node (w : WireEntry) : Node := if w.directory then .directory else .file w.content

theorem Opens.path_eq {e : ZipEntry} {w : WireEntry} (h : Opens e w) (hw : w.Shape) :
    e.path = namePath w.name := by
  rw [ZipEntry.path, namePath, h.isDir, h.nameRaw, hw.directory]

theorem Opens.node_eq {e : ZipEntry} {w : WireEntry} (h : Opens e w) : e.node = w.node := by
  rw [ZipEntry.node, WireEntry.node, h.isDir, h.content]

theorem opens_map {es : List ZipEntry} {ws : List WireEntry} (h : List.Forall₂ Opens es ws)
    (hws : ∀ w ∈ ws, w.Shape) :
    es.map (fun e => (e.path, e.node)) = ws.map fun w => (namePath w.name, w.node) := by
  induction h with
  | nil => rfl
  | cons he _ ih =>
    rw [List.map_cons, List.map_cons, ih fun w hw => hws w (List.mem_cons_of_mem _ hw),
      he.path_eq (hws _ List.mem_cons_self), he.node_eq]

theorem opens_names {es : List ZipEntry} {ws : List WireEntry} (h : List.Forall₂ Opens es ws) :
    es.map ZipEntry.nameRaw = ws.map WireEntry.name := by
  induction h with
  | nil => rfl
  | cons he _ ih => rw [List.map_cons, List.map_cons, ih, he.nameRaw]

theorem opens_mem {es : List ZipEntry} {ws : List WireEntry} (h : List.Forall₂ Opens es ws)
    {e : ZipEntry} (he : e ∈ es) : ∃ w ∈ ws, Opens e w := by
  induction h with
  | nil => simp at he
  | cons he' _ ih =>
    rcases List.mem_cons.mp he with rfl | he
    · exact ⟨_, List.mem_cons_self, he'⟩
    · obtain ⟨w, hw, hopens⟩ := ih he
      exact ⟨w, List.mem_cons_of_mem _ hw, hopens⟩

namespace Deliverable

variable {root : Bytes} {list : List (Bytes × Node)} {es : List ZipEntry} {zip : Zip}
  {sha : Sha256} {bytes : Bytes}

/-- What is read back: the root, and the listing below it. -/
theorem opened_items (h : Deliverable root list)
    (hopens : List.Forall₂ Opens es (rootEntry root :: list.map (wireEntry root))) :
    es.map (fun e => (e.path, e.node)) =
      (root, .directory) :: list.map fun x => (root ++ slash :: x.1, x.2) := by
  rw [opens_map hopens fun w hw => (h.shape hw).1, List.map_cons, List.map_map]
  have hroot : (namePath (rootEntry root).name, (rootEntry root).node) =
      (root, Node.directory) := by
    simp [namePath, rootEntry, endsInSlash, WireEntry.node]
  rw [hroot]
  congr 1
  refine List.map_congr_left fun x hx => ?_
  have hpath := ((h.safe x hx).below_root h.valid (h.short x hx)).namePath_eq
  obtain ⟨path, node⟩ := x
  refine Prod.ext hpath ?_
  cases node <;> rfl

theorem readable (h : Deliverable root list)
    (hopens : List.Forall₂ Opens es (rootEntry root :: list.map (wireEntry root))) :
    ∀ e ∈ es, Readable e := by
  intro e he
  obtain ⟨w, hw, hopen⟩ := opens_mem hopens he
  have hshape := (h.shape hw).1
  have hsafe := (h.safe_entry hw).1
  refine ⟨hopen.encrypted, hopen.symlink, by simp [hopen.compression], ?_,
    by rw [hopen.size, hopen.content], ?_, hopen.broken⟩
  · rw [hopen.path_eq hshape, hopen.nameRaw, hopen.isDir]
    exact hsafe
  · intro hdir
    rw [hopen.content]
    exact hshape.empty (hopen.isDir ▸ hdir)

/-- The scan of the wire archive. -/
theorem scanned (h : Deliverable root list) (hzip : zip bytes = some (es.map some))
    (hopens : List.Forall₂ Opens es (rootEntry root :: list.map (wireEntry root)))
    (hlayout : layout bytes maxExpanded false = .ok es.length) (hpos : bytes ≠ [])
    (hlimit : bytes.length ≤ writeStagingFileLimit) :
    ∃ content, (wireSource sha root bytes).scanned zip sha = .ok content := by
  have hitems := h.opened_items hopens
  have hsnapshot : snapshot sha { isFile := true, bytes }
      { size := bytes.length, sha256 := hexEncode (sha.digest bytes) } = .ok bytes := by
    have hnonzero : bytes.length ≠ 0 := by simpa using hpos
    have hfits : ¬ maxArchive < bytes.length := not_lt.mpr hlimit
    simp only [snapshot, bind_eq_ok_iff, refuseIf_eq_ok, hnonzero, hfits, ne_eq, not_true,
      reduceCtorEq, or_self, not_false_eq_true, if_false, true_and, exists_const]
    rfl
  have hdistinct : ((es.map fun e => (e.path, e.node)).map Prod.fst).Nodup := by
    rw [opens_map hopens fun w hw => (h.shape hw).1, List.map_map]
    exact h.distinct_paths
  have hsizes : ((es.map fun e => (e.path, e.node)).map (·.2.size)).sum ≤ maxExpanded := by
    rw [hitems]
    simpa [Function.comp_def] using h.expanded
  obtain ⟨content, hscan⟩ := scanEntries_total (holds_nil sha) (h.readable hopens)
    (by simpa using hdistinct) (by simpa using hsizes)
  have hfingerprint : fingerprint zip sha { isFile := true, bytes }
      { size := bytes.length, sha256 := hexEncode (sha.digest bytes) } maxExpanded =
        .ok content := by
    simp only [fingerprint, fingerprintWithLocalSizeMirror, bind_eq_ok_iff, refuseIf_eq_ok,
      orInvalid_eq_ok, exists_const]
    exact ⟨bytes, hsnapshot, es.length, hlayout, es.map some, hzip, by simp, hscan⟩
  obtain ⟨es', hes', -, hholds⟩ := scanEntries_eq_ok (holds_nil sha) hscan
  obtain rfl : es = es' := (List.map_injective_iff.mpr (Option.some_injective _)) hes'
  rw [List.nil_append, hitems] at hholds
  have hfiles : content.files ≠ 0 := by
    obtain ⟨x, hx, hfile⟩ := h.files
    rw [hholds.files]
    refine ne_of_gt (List.length_pos_of_mem (a := (root ++ slash :: x.1, x.2)) ?_)
    refine List.mem_filter.mpr ⟨List.mem_cons_of_mem _ ?_, hfile⟩
    exact List.mem_map.mpr ⟨x, hx, rfl⟩
  obtain ⟨bound, hbound⟩ : ∃ bound, bindRoot _ root = .ok bound := bindRoot_total hholds hfiles (by
    intro y hy
    rcases List.mem_cons.mp hy with rfl | hy
    · exact ⟨[], rfl, fun _ => rfl⟩
    · obtain ⟨x, hx, rfl⟩ := List.mem_map.mp hy
      have hne : x.1 ≠ [] := (h.safe x hx).ne_nil
      refine ⟨x.1, ?_, fun hnil => absurd hnil hne⟩
      cases hx1 : x.1 with
      | nil => exact absurd hx1 hne
      | cons b rest => rfl)
  refine ⟨bound, ?_⟩
  simp only [Source.scanned, wireSource, bind_eq_ok_iff]
  exact ⟨(), h.valid.validateRoot, content, hfingerprint, hbound⟩

/-- Below the root, the wire archive lists what was put on the wire. -/
theorem mem_listing (h : Deliverable root list) (hzip : zip bytes = some (es.map some))
    (hopens : List.Forall₂ Opens es (rootEntry root :: list.map (wireEntry root)))
    {x : Bytes × Node} :
    x ∈ (wireSource sha root bytes).listing zip ↔ x = ([], .directory) ∨ x ∈ list := by
  have hentries : (wireSource sha root bytes).entries zip = es := Source.entries_eq hzip
  have hitem : x ∈ (wireSource sha root bytes).listing zip ↔
      (below (some root) x.1, x.2) ∈ es.map fun e => (e.path, e.node) := by
    simp only [Source.listing, hentries, Set.mem_ofPred_eq, List.mem_map, Prod.mk.injEq]
    rfl
  rw [hitem, h.opened_items hopens, List.mem_cons]
  obtain ⟨path, node⟩ := x
  cases path with
  | nil =>
    have hnone : ([], node) ∉ list := fun hmem => (h.safe _ hmem).ne_nil rfl
    simp only [below, Prod.mk.injEq, true_and, hnone, or_false, List.mem_map, or_iff_left_iff_imp]
    rintro ⟨y, -, heq, -⟩
    have := congrArg List.length heq
    simp at this
  | cons b rest =>
    simp only [below, Prod.mk.injEq, List.mem_map, reduceCtorEq, false_and, false_or]
    constructor
    · rintro (⟨heq, -⟩ | ⟨y, hy, heq, rfl⟩)
      · have := congrArg List.length heq
        simp at this
      · have hpath : y.1 = b :: rest := by simpa using heq
        exact hpath ▸ hy
    · intro hmem
      exact .inr ⟨_, hmem, rfl, rfl⟩

/-- The wire archive has the tree of the listing. -/
theorem tree_eq (h : Deliverable root list) (hzip : zip bytes = some (es.map some))
    (hopens : List.Forall₂ Opens es (rootEntry root :: list.map (wireEntry root))) {s : Source}
    (hlist : ∀ x, x ∈ list ↔ x ∈ s.listing zip) :
    (wireSource sha root bytes).tree zip = s.tree zip := by
  ext ⟨path, node⟩
  simp only [Source.tree, pathClosure, Set.mem_union, Set.mem_ofPred_eq,
    h.mem_listing hzip hopens, ← hlist, Prod.mk.injEq]
  constructor
  · rintro ((⟨rfl, rfl⟩ | hmem) | ⟨rfl, rfl | ⟨y, rfl | hy, habove⟩⟩)
    · exact .inr ⟨rfl, .inl rfl⟩
    · exact .inl hmem
    · exact .inr ⟨rfl, .inl rfl⟩
    · exact absurd habove.length_lt (by simp)
    · exact .inr ⟨rfl, .inr ⟨y, hy, habove⟩⟩
  · rintro (hmem | ⟨rfl, rfl | ⟨y, hy, habove⟩⟩)
    · exact .inl (.inr hmem)
    · exact .inl (.inl ⟨rfl, rfl⟩)
    · exact .inr ⟨rfl, .inr ⟨y, .inr hy, habove⟩⟩

/-- The wire archive of an accepted source has its identity. -/
theorem identity_eq (h : Deliverable root list) (hlawful : zip.Lawful)
    (hzip : zip bytes = some (es.map some))
    (hopens : List.Forall₂ Opens es (rootEntry root :: list.map (wireEntry root)))
    (hlayout : layout bytes maxExpanded false = .ok es.length) (hpos : bytes ≠ [])
    (hlimit : bytes.length ≤ writeStagingFileLimit) {s : Source} {i : PackageSemanticIdentity}
    (hs : s.identity zip sha = .ok i) (hlist : ∀ x, x ∈ list ↔ x ∈ s.listing zip) :
    (wireSource sha root bytes).identity zip sha = .ok i := by
  have htree : (wireSource sha root bytes).tree zip = s.tree zip := h.tree_eq hzip hopens hlist
  have hscan := hs
  rw [Source.identity_eq] at hscan
  obtain ⟨content, hcontent, -⟩ := bind_eq_ok_iff.mp hscan
  obtain ⟨content', hcontent'⟩ : ∃ content', (wireSource sha root bytes).scanned zip sha = .ok content' :=
    h.scanned hzip hopens hlayout hpos hlimit
  obtain ⟨i', hi'⟩ : ∃ i', (wireSource sha root bytes).identity zip sha = .ok i' := by
    rw [identity_isOk_iff hlawful hcontent', htree]
    exact (identity_isOk_iff hlawful hcontent).mp ⟨i, hs⟩
  rw [hi', identity_eq_of_tree_eq hi' hs htree]

end Deliverable

/-! ## The order on the wire -/

instance : IsTrans (Bytes × ZipEntry) nameLE where
  trans _ _ _ hab hbc := Std.TransCmp.isLE_trans hab hbc

instance : Std.Total nameLE where
  total a b := by
    unfold nameLE
    rw [show compare b.1 a.1 = (compare a.1 b.1).swap from Std.OrientedCmp.eq_swap]
    cases compare a.1 b.1 <;> simp

theorem wireBefore_irrefl {root : Bytes} {x : Bytes × Node} : ¬ wireBefore root x x := by
  simp [wireBefore]

/-- An ordered listing is determined by what it lists. -/
theorem ordered_unique {root : Bytes} {list list' : List (Bytes × Node)}
    (h : list.Pairwise (wireBefore root)) (h' : list'.Pairwise (wireBefore root))
    (hmem : ∀ x, x ∈ list ↔ x ∈ list') : list = list' := by
  have hnodup : ∀ l : List (Bytes × Node), l.Pairwise (wireBefore root) → l.Nodup := by
    intro l hl
    refine hl.imp ?_
    rintro x _ hlt rfl
    exact wireBefore_irrefl hlt
  have hperm : list.Perm list' :=
    (List.perm_ext_iff_of_nodup (hnodup _ h) (hnodup _ h')).mpr hmem
  refine hperm.eq_of_pairwise ?_ h h'
  intro x y _ _ hxy hyx
  unfold wireBefore at hxy hyx
  rw [Std.OrientedOrd.eq_swap, hxy] at hyx
  cases hyx

end Cirrove.Package
