import Cirrove.Package.Delivery

/-!
# Which documents are delivered unchanged

The encoder takes names from `name`, the scanner from `name_raw`. A flat document is put on
the wire unchanged if and only if the two agree on every entry, that is, if every name is
ASCII or flagged as UTF-8.
-/

namespace Cirrove.Package

open Cirrove.Library

variable {zip : Zip} {writer : ZipWriter} {sha : Sha256} {root : Bytes}

/-! ## The entries the encoder hands over -/

/-- An entry under the name it gets on the wire. -/
def copyOf (item : Bytes × ZipEntry) : WireEntry :=
  { name := item.1, directory := item.2.isDir, content := item.2.node.content }

/-- The entries in the order of their names on the wire, where `name` says how a name is
    read. -/
def orderedBy (name : ZipEntry → Bytes) (root : Bytes) (es : List ZipEntry) :
    List (Bytes × ZipEntry) :=
  (es.map fun e => (wireName root (name e), e)).insertionSort nameLE

def writtenBy (name : ZipEntry → Bytes) (root : Bytes) (es : List ZipEntry) : List WireEntry :=
  rootEntry root :: (orderedBy name root es).map copyOf

theorem named_eq {es : List ZipEntry} {entries : List (Bytes × ZipEntry)}
    (h : (es.map some).mapM (nameEntry root) = .ok entries) :
    entries = es.map fun e => (wireName root e.name, e) := by
  induction es generalizing entries with
  | nil =>
    simp only [List.map_nil, List.mapM_nil, pure_eq_ok] at h
    exact h.symm
  | cons e es ih =>
    simp only [List.map_cons, List.mapM_cons, bind_eq_ok_iff, nameEntry, orInvalidWire_eq_ok,
      refuseWireIf_eq_ok, pure_eq_ok, exists_const, Option.some.injEq, exists_eq_left'] at h
    obtain ⟨_, ⟨-, rfl⟩, rest, hrest, rfl⟩ := h
    rw [ih hrest, List.map_cons]

theorem named_total {es : List ZipEntry}
    (h : ∀ e ∈ es, (wireName root e.name).length ≤ maxName) :
    (es.map some).mapM (nameEntry root) = .ok (es.map fun e => (wireName root e.name, e)) := by
  induction es with
  | nil => rfl
  | cons e es ih =>
    have hlength : ¬ 1024 < (wireName root e.name).length := not_lt.mpr (h e List.mem_cons_self)
    simp only [List.map_cons, List.mapM_cons, bind_eq_ok_iff, nameEntry, orInvalidWire_eq_ok,
      refuseWireIf_eq_ok, pure_eq_ok, exists_const, Option.some.injEq, exists_eq_left']
    exact ⟨_, ⟨hlength, rfl⟩, _, ih fun x hx => h x (List.mem_cons_of_mem _ hx), rfl⟩

theorem copyEntry_eq_ok {item : Bytes × ZipEntry} {w : WireEntry}
    (h : copyEntry item = .ok w) : w = copyOf item := by
  unfold copyEntry at h
  split at h
  · next hdir => simp [← pure_eq_ok.mp h, copyOf, hdir, ZipEntry.node, Node.content]
  · next hdir =>
    simp only [bind_eq_ok_iff, refuseWireIf_eq_ok, pure_eq_ok, exists_const] at h
    rw [← h.2]
    simp [copyOf, hdir, ZipEntry.node, Node.content]

theorem copyEntry_total {item : Bytes × ZipEntry} (h : Readable item.2) :
    copyEntry item = .ok (copyOf item) := by
  obtain ⟨w, hw⟩ : ∃ w, copyEntry item = .ok w := by
    unfold copyEntry
    split
    · exact ⟨_, rfl⟩
    · simp only [bind_eq_ok_iff, refuseWireIf_eq_ok, pure_eq_ok, exists_const, h.broken]
      exact ⟨_, by simp, rfl⟩
  rw [hw, copyEntry_eq_ok hw]

theorem orderedBy_perm (name : ZipEntry → Bytes) (root : Bytes) (es : List ZipEntry) :
    (orderedBy name root es).Perm (es.map fun e => (wireName root (name e), e)) :=
  List.perm_insertionSort _ _

theorem mem_orderedBy {name : ZipEntry → Bytes} {es : List ZipEntry} {item : Bytes × ZipEntry} :
    item ∈ orderedBy name root es ↔ item.2 ∈ es ∧ item.1 = wireName root (name item.2) := by
  rw [(orderedBy_perm name root es).mem_iff, List.mem_map]
  constructor
  · rintro ⟨e, he, rfl⟩
    exact ⟨he, rfl⟩
  · rintro ⟨he, hname⟩
    exact ⟨item.2, he, Prod.ext hname.symm rfl⟩

/-! ## Names read as they are stored -/

theorem Readable.rawName_eq {e : ZipEntry} (h : Readable e) : rawName (e.path, e.node) = e.nameRaw := by
  rw [h.safe.raw_eq]
  cases hdir : e.isDir <;> simp [rawName, ZipEntry.node, hdir]

theorem node_isFile (e : ZipEntry) : e.node.isFile = !e.isDir := by
  cases hdir : e.isDir <;> simp [ZipEntry.node, hdir]

/-- The listing in the order of the wire. -/
def orderedListing (root : Bytes) (es : List ZipEntry) : List (Bytes × Node) :=
  (orderedBy ZipEntry.nameRaw root es).map fun item => (item.2.path, item.2.node)

theorem orderedListing_perm (root : Bytes) (es : List ZipEntry) :
    (orderedListing root es).Perm (es.map fun e => (e.path, e.node)) := by
  have := (orderedBy_perm ZipEntry.nameRaw root es).map fun item => (item.2.path, item.2.node)
  simpa [orderedListing, Function.comp_def] using this

theorem writtenBy_nameRaw {es : List ZipEntry} (hes : ∀ e ∈ es, Readable e) :
    writtenBy ZipEntry.nameRaw root es =
      rootEntry root :: (orderedListing root es).map (wireEntry root) := by
  rw [writtenBy, orderedListing, List.map_map]
  congr 1
  refine List.map_congr_left fun item hitem => ?_
  obtain ⟨he, hname⟩ := mem_orderedBy.mp hitem
  simp [copyOf, wireEntry, hname, (hes _ he).rawName_eq, node_isFile]

theorem orderedListing_pairwise {es : List ZipEntry} (hes : ∀ e ∈ es, Readable e)
    (hdistinct : (es.map ZipEntry.path).Nodup) :
    (orderedListing root es).Pairwise (wireBefore root) := by
  have hsorted : (orderedBy ZipEntry.nameRaw root es).Pairwise nameLE :=
    List.pairwise_insertionSort _ _
  have hnames : ((orderedBy ZipEntry.nameRaw root es).map fun item => item.2.path).Nodup := by
    have hperm := (orderedBy_perm ZipEntry.nameRaw root es).map fun item => item.2.path
    refine hperm.nodup_iff.mpr ?_
    simpa [Function.comp_def] using hdistinct
  rw [orderedListing, List.pairwise_map]
  have hboth := hsorted.and (List.pairwise_map.mp hnames)
  refine hboth.imp_of_mem ?_
  intro x y hx hy hxy
  obtain ⟨hle, hne⟩ := hxy
  obtain ⟨hex, hxname⟩ := mem_orderedBy.mp hx
  obtain ⟨hey, hyname⟩ := mem_orderedBy.mp hy
  unfold nameLE at hle
  unfold wireBefore
  rw [(hes _ hex).rawName_eq, (hes _ hey).rawName_eq, ← hxname, ← hyname]
  cases hcompare : compare x.1 y.1 with
  | lt => rfl
  | gt => simp [hcompare] at hle
  | eq =>
    -- equal names are names of one path
    have heq : x.1 = y.1 := Std.LawfulEqCmp.compare_eq_iff_eq.mp hcompare
    rw [hxname, hyname] at heq
    have hraw : x.2.nameRaw = y.2.nameRaw := by simpa [wireName] using heq
    refine absurd ?_ hne
    rw [← (hes _ hex).safe.namePath_eq, ← (hes _ hey).safe.namePath_eq, hraw]

/-! ## Deliveries -/

/-- A staged file at the flat entrance. -/
def flatEntrance (source : WriteStagingFile) (original : PackageDownload) : Source :=
  { file := source.file, receipt := original, root := none }

/-- Every name is ASCII or carries the UTF-8 flag. -/
def Flagged (zip : Zip) (bytes : Bytes) : Prop :=
  ∀ es flags, zip bytes = some (es.map some) → centralFlags bytes = .ok flags →
    List.Forall₂ (fun e f => isAscii e.nameRaw = true ∨ utf8Flag f = true) es flags

/-- The encoder succeeds, what it wrote has the identity of the source, and it is the stored
    archive of the root and the explicit entries in the order of their names. -/
def DeliversUnchanged (zip : Zip) (writer : ZipWriter) (sha : Sha256) (source : WriteStagingFile)
    (original : PackageDownload) (root : Bytes) (semantic : PackageSemanticIdentity)
    (wire : WriteStagingFile) : Prop :=
  ∃ receipt bytes,
    flatNativeWire zip writer sha source original root semantic wire = .ok (receipt, bytes) ∧
    (wireSource sha root bytes).identity zip sha = .ok semantic ∧
    Delivers writer root ((flatEntrance source original).listing zip) bytes

/-- Equal total lengths leave no room for a name that is decoded differently. -/
theorem flagged_of_lengths {es : List ZipEntry} {flags : List Nat}
    (h : List.Forall₂ (fun e f => e.name = decodedName f e.nameRaw) es flags) :
    (es.map (·.nameRaw.length)).sum ≤ (es.map (·.name.length)).sum ∧
      ((es.map (·.name.length)).sum ≤ (es.map (·.nameRaw.length)).sum →
        List.Forall₂ (fun e f => isAscii e.nameRaw = true ∨ utf8Flag f = true) es flags) := by
  induction h with
  | nil => exact ⟨le_rfl, fun _ => .nil⟩
  | @cons e f es flags hname _ ih =>
    have hle : e.nameRaw.length ≤ e.name.length := hname ▸ length_le_decodedName f e.nameRaw
    simp only [List.map_cons, List.sum_cons]
    refine ⟨by omega, fun htotal => .cons ?_ (ih.2 (by omega))⟩
    have hlength : e.name.length = e.nameRaw.length := by omega
    rw [hname] at hlength
    exact decodedName_eq_iff.mp hlength

theorem names_of_flagged {es : List ZipEntry} {flags : List Nat}
    (h : List.Forall₂ (fun e f => e.name = decodedName f e.nameRaw) es flags)
    (hflag : List.Forall₂ (fun e f => isAscii e.nameRaw = true ∨ utf8Flag f = true) es flags) :
    ∀ e ∈ es, e.name = e.nameRaw := by
  induction h with
  | nil => simp
  | cons hname _ ih =>
    obtain ⟨hfirst, hrest⟩ := List.forall₂_cons.mp hflag
    refine List.forall_mem_cons.mpr ⟨?_, ih hrest⟩
    rw [hname, decodedName_eq hfirst]

theorem names_decoded {es : List ZipEntry} {flags : List Nat}
    (h : List.Forall₂ (fun e f => e.name = decodedName f e.nameRaw) es flags) :
    ∀ e ∈ es, ∃ f, e.name = decodedName f e.nameRaw := by
  induction h with
  | nil => simp
  | cons hname _ ih => exact List.forall_mem_cons.mpr ⟨⟨_, hname⟩, ih⟩

/-- What the scanner found in a flat source. -/
structure FlatScan (zip : Zip) (sha : Sha256) (source : WriteStagingFile)
    (original : PackageDownload) (es : List ZipEntry) : Prop where
  opened : zip source.file.bytes = some (es.map some)
  layout : layout source.file.bytes maxExpanded true = .ok es.length
  readable : ∀ e ∈ es, Readable e
  distinct : (es.map ZipEntry.path).Nodup
  files : ∃ e ∈ es, e.node.isFile = true
  expanded : ((es.map fun e => (e.path, e.node)).map (·.2.size)).sum ≤ maxExpanded

theorem flatScan_of_identity {source : WriteStagingFile} {original : PackageDownload}
    {semantic : PackageSemanticIdentity}
    (h : packageFlatArchiveSemanticIdentityV2 zip sha source.file original = .ok semantic) :
    ∃ es, FlatScan zip sha source original es := by
  simp only [packageFlatArchiveSemanticIdentityV2, bind_eq_ok_iff, refuseIf_eq_ok,
    exists_const] at h
  obtain ⟨content, hscan, hfiles, -⟩ := h
  obtain ⟨es, hzip, hlayout, hreadable, hexpanded, hholds⟩ := fingerprint_eq_ok hscan
  refine ⟨es, hzip, hlayout, hreadable, ?_, ?_, ?_⟩
  · simpa [Function.comp_def] using hholds.distinct
  · rw [hholds.files, List.length_eq_zero_iff] at hfiles
    obtain ⟨x, hx⟩ := List.exists_mem_of_ne_nil _ hfiles
    obtain ⟨hitem, hfile⟩ := List.mem_filter.mp hx
    obtain ⟨e, he, rfl⟩ := List.mem_map.mp hitem
    exact ⟨e, he, hfile⟩
  · rw [← sum_filter_isFile, ← hholds.expanded]
    exact hexpanded

theorem listing_flat {source : WriteStagingFile} {original : PackageDownload} {es : List ZipEntry}
    (h : FlatScan zip sha source original es) (x : Bytes × Node) :
    x ∈ (flatEntrance source original).listing zip ↔ x ∈ es.map fun e => (e.path, e.node) := by
  have hentries : (flatEntrance source original).entries zip = es := Source.entries_eq h.opened
  obtain ⟨path, node⟩ := x
  simp only [Source.listing, hentries, Set.mem_ofPred_eq, List.mem_map, Prod.mk.injEq]
  rfl

theorem length_hexDigits (bytes : Bytes) : (hexDigits bytes).length = 2 * bytes.length := by
  induction bytes with
  | nil => rfl
  | cons b rest ih =>
    have : hexDigits (b :: rest) = Nat.digitChar (b.toNat / 16) ::
        Nat.digitChar (b.toNat % 16) :: hexDigits rest := rfl
    rw [this, List.length_cons, List.length_cons, ih, List.length_cons]
    omega

theorem hexDigits_lower (bytes : Bytes) :
    (hexDigits bytes).all (fun c => ('0' ≤ c && c ≤ '9') || ('a' ≤ c && c ≤ 'f')) = true := by
  have hdigit : ∀ n < 16, (fun c : Char => ('0' ≤ c && c ≤ '9') || ('a' ≤ c && c ≤ 'f'))
      (Nat.digitChar n) = true := by
    decide
  rw [List.all_eq_true]
  intro c hc
  obtain ⟨b, -, hb⟩ := List.mem_flatMap.mp hc
  have hlt := b.toNat_lt
  simp only [List.mem_cons, List.not_mem_nil, or_false] at hb
  rcases hb with rfl | rfl
  · exact hdigit _ (by omega)
  · exact hdigit _ (by omega)

/-- A receipt of a file within the limit is valid. -/
theorem receiptOf_validate {bytes : Bytes} (hroot : validateWireRoot root = .ok ())
    (hpos : bytes ≠ []) (hlimit : bytes.length ≤ writeStagingFileLimit) :
    (receiptOf sha root bytes).validate root = .ok () := by
  have hsize : bytes.length ≠ 0 := by simpa using hpos
  have htext : (hexEncode (sha.digest bytes)).toList = hexDigits (sha.digest bytes) := by
    simp [hexEncode]
  simp only [WireReceipt.validate, receiptOf, bind_eq_ok_iff, refuseWireIf_eq_ok, htext,
    length_hexDigits, sha.length_digest, hexDigits_lower]
  exact ⟨(), hroot, by simp [hsize, hlimit]⟩

/-- What is delivered is determined by the listing. -/
theorem delivers_unique {listing : Set (Bytes × Node)} {bytes bytes' : Bytes}
    (h : Delivers writer root listing bytes) (h' : Delivers writer root listing bytes') :
    bytes = bytes' := by
  obtain ⟨list, hlist, hsorted, hwritten⟩ := h
  obtain ⟨list', hlist', hsorted', hwritten'⟩ := h'
  obtain rfl := ordered_unique hsorted hsorted' fun x => (hlist x).trans (hlist' x).symm
  exact Option.some.inj (hwritten.symm.trans hwritten')

section Delivery

variable {source wire : WriteStagingFile} {original : PackageDownload}
  {semantic : PackageSemanticIdentity} {es : List ZipEntry}

/-- The entries of an accepted source can be put on the wire under their stored names. -/
theorem deliverable_of_scan (hlawful : zip.Lawful) (h : FlatScan zip sha source original es)
    (hroot : validateWireRoot root = .ok ()) (hcount : es.length < maxEntries)
    (hnames : ∀ e ∈ es, (wireName root e.nameRaw).length ≤ maxName)
    (hfits : storedSize (writtenBy ZipEntry.nameRaw root es) ≤ writeStagingFileLimit) :
    Deliverable root (orderedListing root es) := by
  have hperm := orderedListing_perm root es
  have hmem : ∀ x ∈ orderedListing root es, ∃ e ∈ es, (e.path, e.node) = x :=
    fun x hx => List.mem_map.mp (hperm.mem_iff.mp hx)
  refine ⟨validateWireRoot_eq_ok hroot, ?_, ?_, ?_, ?_, ?_, ?_, ?_, ?_⟩
  · intro x hx
    obtain ⟨e, he, rfl⟩ := hmem x hx
    rw [(h.readable e he).rawName_eq, node_isFile, Bool.not_not]
    exact (h.readable e he).safe
  · intro x hx
    obtain ⟨e, he, rfl⟩ := hmem x hx
    rw [(h.readable e he).rawName_eq]
    exact hnames e he
  · refine (hperm.map Prod.fst).nodup_iff.mpr ?_
    simpa [Function.comp_def] using h.distinct
  · intro x hx y hy habove
    obtain ⟨e, he, rfl⟩ := hmem x hx
    obtain ⟨e', he', rfl⟩ := hmem y hy
    exact directory_of_above hlawful h.opened h.layout h.readable he he' habove
  · obtain ⟨e, he, hfile⟩ := h.files
    exact ⟨(e.path, e.node), hperm.mem_iff.mpr (List.mem_map.mpr ⟨e, he, rfl⟩), hfile⟩
  · rw [hperm.length_eq, List.length_map]
    exact hcount
  · rw [(hperm.map _).sum_eq]
    exact h.expanded
  · rw [← writtenBy_nameRaw h.readable]
    exact hfits

/-- Names that are read as they are stored are delivered unchanged. -/
theorem delivers_of_names
    (hcrate : ZipCrate zip writer
      {writtenBy ZipEntry.name root es, writtenBy ZipEntry.nameRaw root es})
    (h : FlatScan zip sha source original es)
    (hsemantic : packageFlatArchiveSemanticIdentityV2 zip sha source.file original = .ok semantic)
    (hroot : validateWireRoot root = .ok ())
    (hempty : wire.file = { isFile := true, bytes := [] })
    (hother : ¬ (source.dev = wire.dev ∧ source.ino = wire.ino)) (hcount : es.length < maxEntries)
    (hnames : ∀ e ∈ es, (wireName root e.nameRaw).length ≤ maxName)
    (hfits : storedSize (writtenBy ZipEntry.nameRaw root es) ≤ writeStagingFileLimit)
    (hsame : ∀ e ∈ es, e.name = e.nameRaw) :
    DeliversUnchanged zip writer sha source original root semantic wire := by
  have hdeliverable := deliverable_of_scan hcrate.lawful h hroot hcount hnames hfits
  have hwritten : writtenBy ZipEntry.nameRaw root _ = _ := writtenBy_nameRaw h.readable
  obtain ⟨rs, hwriter, hstores⟩ := hcrate.writes _ (.inr rfl)
    (fun w hw => hdeliverable.shape (hwritten ▸ hw)) (hwritten ▸ hdeliverable.distinct_names)
    (by
      rw [writtenBy, List.length_cons, List.length_map, (orderedBy_perm _ _ _).length_eq,
        List.length_map]
      exact lt_of_le_of_lt (Nat.succ_le_of_lt hcount) (by decide))
    (lt_of_le_of_lt hfits (by decide))
  obtain ⟨es', hopened, hopens⟩ := hcrate.reads _ (.inr rfl) _
    (fun w hw => (hdeliverable.shape (hwritten ▸ hw)).1) hwriter
  have hlength : (storedArchive rs).length ≤ writeStagingFileLimit := by
    rw [length_storedArchive hstores]
    exact hfits
  rw [hwritten] at hwriter hstores hopens
  have hlayout : layout (storedArchive rs) maxExpanded false = .ok es'.length := by
    rw [hdeliverable.layout_eq_ok hstores, hopens.length_eq, hstores.length_eq]
  have hpos : storedArchive rs ≠ [] := by
    intro hnil
    have := length_storedArchive hstores
    rw [hnil, storedSize] at this
    simp at this
  have hlisting : ∀ x, x ∈ orderedListing root es ↔
      x ∈ (flatEntrance source original).listing zip := by
    intro x
    rw [listing_flat h, (orderedListing_perm root es).mem_iff]
  have hidentity : (wireSource sha root (storedArchive rs)).identity zip sha = .ok semantic :=
    hdeliverable.identity_eq hcrate.lawful hopened hopens hlayout hpos hlength
      (s := flatEntrance source original) hsemantic hlisting
  have hordered : orderedBy ZipEntry.name root es = orderedBy ZipEntry.nameRaw root es := by
    unfold orderedBy
    congr 1
    exact List.map_congr_left fun e he => by rw [hsame e he]
  have hcopied : (orderedBy ZipEntry.nameRaw root es).mapM copyEntry =
      .ok ((orderedBy ZipEntry.nameRaw root es).map copyOf) :=
    mapM_eq_ok_map fun item hitem => copyEntry_total (h.readable _ (mem_orderedBy.mp hitem).1)
  have hwritten' : rootEntry root :: (orderedBy ZipEntry.nameRaw root es).map copyOf =
      rootEntry root :: (orderedListing root es).map (wireEntry root) := hwritten
  refine ⟨receiptOf sha root (storedArchive rs), storedArchive rs,
    flatNativeWire_eq_ok.mpr ⟨rfl, es.map some, es.map fun e => (wireName root e.name, e),
      (orderedBy ZipEntry.nameRaw root es).map copyOf, hroot, ?_, hsemantic, h.opened, ?_,
      named_total ?_, ?_, ?_, hlength, receiptOf_validate hroot hpos hlength, hidentity⟩,
    hidentity, orderedListing root es, hlisting, ?_, hwriter⟩
  · simp [hempty, hother]
  · simpa using hcount
  · intro e he
    rw [hsame e he]
    exact hnames e he
  · exact (congrArg (List.mapM copyEntry) hordered).trans hcopied
  · rw [hwritten']
    exact hwriter
  · exact orderedListing_pairwise h.readable h.distinct

/-- Whatever flags a name is decoded by, it can be handed to the ZIP library. -/
theorem shape_writtenBy {name : ZipEntry → Bytes} (hroot : WireRoot root)
    (hreadable : ∀ e ∈ es, Readable e)
    (hname : ∀ e ∈ es, ∃ flags, name e = decodedName flags e.nameRaw) :
    ∀ w ∈ writtenBy name root es, w.Shape := by
  obtain ⟨cs, hcs, -⟩ := hroot.safe.text
  have hslash : utf8Chars [slash] = some ['/'] := by decide
  intro w hw
  rcases List.mem_cons.mp hw with rfl | hw
  · refine ⟨?_, ?_, fun _ => rfl⟩
    · simp [rootEntry, utf8Chars_append hcs hslash]
    · simp [rootEntry, endsInSlash]
  · obtain ⟨item, hitem, rfl⟩ := List.mem_map.mp hw
    obtain ⟨he, hitemName⟩ := mem_orderedBy.mp hitem
    obtain ⟨flags, hflags⟩ := hname _ he
    have hsafe := (hreadable _ he).safe
    obtain ⟨ds, hds, -⟩ := hsafe.text
    obtain ⟨xs, hxs⟩ := Option.isSome_iff_exists.mp
      (show (utf8Chars (decodedName flags item.2.nameRaw)).isSome from
        utf8Chars_decodedName (by simp [hds]))
    have hne : name item.2 ≠ [] := by
      intro hnil
      have hle := length_le_decodedName flags item.2.nameRaw
      rw [← hflags, hnil] at hle
      have hraw : item.2.nameRaw = [] := List.eq_nil_of_length_eq_zero (by simpa using hle)
      have hkey := hsafe.raw_eq
      rw [hraw] at hkey
      cases hdir : item.2.isDir with
      | true => simp [hdir] at hkey
      | false => exact hsafe.ne_nil (by simpa [hdir] using hkey.symm)
    refine ⟨?_, ?_, ?_⟩
    · show (utf8Chars item.1).isSome = true
      have htext : utf8Chars (wireName root (name item.2)) = some (cs ++ (['/'] ++ xs)) := by
        rw [hflags]
        exact utf8Chars_append hcs (utf8Chars_append hslash hxs)
      rw [hitemName, htext]
      rfl
    · show item.2.isDir = endsInSlash item.1
      have hends : endsInSlash (root ++ [slash] ++ name item.2) = endsInSlash (name item.2) :=
        endsInSlash_append hne
      rw [hitemName, wireName, ← hsafe.endsInSlash_eq, ← endsInSlash_decodedName flags, ← hflags,
        ← hends, List.append_assoc, List.singleton_append]
    · intro hdir
      have hdir' : item.2.isDir = true := hdir
      simp [copyOf, ZipEntry.node, hdir', Node.content]

theorem sum_writtenBy (name : ZipEntry → Bytes) (root : Bytes) (es : List ZipEntry) :
    ((writtenBy name root es).map (·.name.length)).sum =
      root.length + 1 + (es.length * (root.length + 1) + (es.map fun e => (name e).length).sum) := by
  have hperm := (orderedBy_perm name root es).map fun item => item.1.length
  rw [writtenBy, List.map_cons, List.sum_cons, List.map_map]
  have hlengths : (fun w : WireEntry => w.name.length) ∘ copyOf = fun item => item.1.length := rfl
  rw [hlengths, hperm.sum_eq, List.map_map]
  have hwire : ∀ e : ZipEntry, ((fun item : Bytes × ZipEntry => item.1.length) ∘
      fun e => (wireName root (name e), e)) e = (root.length + 1) + (name e).length := by
    intro e
    simp [wireName]
    omega
  rw [List.map_congr_left fun e _ => hwire e, List.sum_map_add]
  simp [rootEntry]

/-- An unchanged delivery leaves no name that is read in two ways. -/
theorem flagged_of_delivers
    (hcrate : ZipCrate zip writer
      {writtenBy ZipEntry.name root es, writtenBy ZipEntry.nameRaw root es})
    (h : FlatScan zip sha source original es) (hroot : validateWireRoot root = .ok ())
    (hdelivers : DeliversUnchanged zip writer sha source original root semantic wire) :
    Flagged zip source.file.bytes := by
  obtain ⟨receipt, bytes, hflat, -, list, hlist, hsorted, hwritten⟩ := hdelivers
  obtain ⟨-, archive, entries, copies, d⟩ := flatNativeWire_eq_ok.mp hflat
  -- what the encoder has written, and what an unchanged delivery is
  obtain rfl : archive = es.map some := Option.some.inj (d.opened.symm.trans h.opened)
  obtain rfl := named_eq d.named
  obtain rfl := eq_map_of_mapM_eq_ok d.copied fun _ _ _ => copyEntry_eq_ok
  have hdecoded : writer (writtenBy ZipEntry.name root es) = some bytes := d.written
  have hordered : list = orderedListing root es := by
    refine ordered_unique hsorted (orderedListing_pairwise h.readable h.distinct) fun x => ?_
    rw [hlist, listing_flat h, (orderedListing_perm root es).mem_iff]
  have hraw : writer (writtenBy ZipEntry.nameRaw root es) = some bytes := by
    rw [writtenBy_nameRaw h.readable, ← hordered]
    exact hwritten
  obtain ⟨flags, hflags, hnames⟩ := hcrate.names _ _ _ _ h.layout h.opened
  have hvalid := validateWireRoot_eq_ok hroot
  -- both are read back as the same entries
  obtain ⟨es₁, hzip₁, hopens₁⟩ := hcrate.reads _ (.inl rfl) _
    (shape_writtenBy hvalid h.readable (names_decoded hnames))
    hdecoded
  obtain ⟨es₂, hzip₂, hopens₂⟩ := hcrate.reads _ (.inr rfl) _
    (shape_writtenBy hvalid h.readable fun e _ => ⟨0x0800, rfl⟩) hraw
  obtain rfl : es₁ = es₂ :=
    (List.map_injective_iff.mpr (Option.some_injective _)) (Option.some.inj (hzip₁.symm.trans hzip₂))
  have hsame : (writtenBy ZipEntry.name root es).map WireEntry.name =
      (writtenBy ZipEntry.nameRaw root es).map WireEntry.name :=
    (opens_names hopens₁).symm.trans (opens_names hopens₂)
  have hlengths := congrArg (fun names => (names.map List.length).sum) hsame
  simp only [List.map_map, Function.comp_def] at hlengths
  rw [sum_writtenBy, sum_writtenBy] at hlengths
  intro es' flags' hopened' hflags'
  obtain rfl : es = es' :=
    (List.map_injective_iff.mpr (Option.some_injective _))
      (Option.some.inj (h.opened.symm.trans hopened'))
  obtain rfl : flags = flags' := Except.ok.inj (hflags.symm.trans hflags')
  exact (flagged_of_lengths hnames).2 (by omega)

theorem names_eq_of_flagged
    (hcrate : ZipCrate zip writer
      {writtenBy ZipEntry.name root es, writtenBy ZipEntry.nameRaw root es})
    (h : FlatScan zip sha source original es) (hflagged : Flagged zip source.file.bytes) :
    ∀ e ∈ es, e.name = e.nameRaw := by
  obtain ⟨flags, hflags, hnames⟩ := hcrate.names _ _ _ _ h.layout h.opened
  exact names_of_flagged hnames (hflagged es flags h.opened hflags)

/-- An accepted document is put on the wire unchanged if and only if every name that is not
    ASCII carries the UTF-8 flag, and two sources with the same entries that are put on the
    wire unchanged become the same bytes. -/
theorem unchanged_iff_flagged (hopened : zip source.file.bytes = some (es.map some))
    (hcrate : ZipCrate zip writer
      {writtenBy ZipEntry.name root es, writtenBy ZipEntry.nameRaw root es})
    (hsemantic : packageFlatArchiveSemanticIdentityV2 zip sha source.file original = .ok semantic)
    (hroot : validateWireRoot root = .ok ())
    (hempty : wire.file = { isFile := true, bytes := [] })
    (hother : ¬ (source.dev = wire.dev ∧ source.ino = wire.ino)) (hcount : es.length < maxEntries)
    (hnames : ∀ e ∈ es, (wireName root e.nameRaw).length ≤ maxName)
    (hfits : storedSize (writtenBy ZipEntry.nameRaw root es) ≤ writeStagingFileLimit) :
    (DeliversUnchanged zip writer sha source original root semantic wire ↔
      Flagged zip source.file.bytes) ∧
    ∀ (source' wire' : WriteStagingFile) (original' : PackageDownload)
      (semantic' : PackageSemanticIdentity),
      (flatEntrance source' original').listing zip = (flatEntrance source original).listing zip →
      DeliversUnchanged zip writer sha source original root semantic wire →
      DeliversUnchanged zip writer sha source' original' root semantic' wire' →
      ∃ delivery, flatNativeWire zip writer sha source original root semantic wire = .ok delivery ∧
        flatNativeWire zip writer sha source' original' root semantic' wire' = .ok delivery := by
  obtain ⟨es', hscan⟩ := flatScan_of_identity hsemantic
  obtain rfl : es = es' :=
    (List.map_injective_iff.mpr (Option.some_injective _))
      (Option.some.inj (hopened.symm.trans hscan.opened))
  refine ⟨⟨flagged_of_delivers hcrate hscan hroot, fun hflagged => ?_⟩, ?_⟩
  · exact delivers_of_names hcrate hscan hsemantic hroot hempty hother hcount hnames hfits
      (names_eq_of_flagged hcrate hscan hflagged)
  · rintro source' wire' original' semantic' hlisting ⟨receipt, bytes, hflat, -, hbytes⟩
      ⟨receipt', bytes', hflat', -, hbytes'⟩
    rw [hlisting] at hbytes'
    obtain rfl := delivers_unique hbytes hbytes'
    obtain ⟨rfl, -⟩ := flatNativeWire_eq_ok.mp hflat
    obtain ⟨rfl, -⟩ := flatNativeWire_eq_ok.mp hflat'
    exact ⟨_, hflat, hflat'⟩

end Delivery

/-! A document with one file `é`, with and without the UTF-8 flag. Without it, the encoder reads
the name as `├⌐`. -/

def flaggedArchive : Bytes :=
  [80, 75, 3, 4, 20, 0, 0, 8, 0, 0, 0, 0, 33, 0, 172, 42, 147, 216, 2, 0, 0, 0, 2, 0, 0, 0, 2, 0,
   0, 0, 195, 169, 104, 105, 80, 75, 1, 2, 20, 3, 20, 0, 0, 8, 0, 0, 0, 0, 33, 0, 172, 42, 147,
   216, 2, 0, 0, 0, 2, 0, 0, 0, 2, 0, 0, 0, 0, 0, 0, 0, 0, 0, 0, 0, 164, 129, 0, 0, 0, 0, 195,
   169, 80, 75, 5, 6, 0, 0, 0, 0, 1, 0, 1, 0, 48, 0, 0, 0, 34, 0, 0, 0, 0, 0]

def unflaggedArchive : Bytes :=
  [80, 75, 3, 4, 20, 0, 0, 0, 0, 0, 0, 0, 33, 0, 172, 42, 147, 216, 2, 0, 0, 0, 2, 0, 0, 0, 2, 0,
   0, 0, 195, 169, 104, 105, 80, 75, 1, 2, 20, 3, 20, 0, 0, 0, 0, 0, 0, 0, 33, 0, 172, 42, 147,
   216, 2, 0, 0, 0, 2, 0, 0, 0, 2, 0, 0, 0, 0, 0, 0, 0, 0, 0, 0, 0, 164, 129, 0, 0, 0, 0, 195,
   169, 80, 75, 5, 6, 0, 0, 0, 0, 1, 0, 1, 0, 48, 0, 0, 0, 34, 0, 0, 0, 0, 0]

def wireArchive : Bytes :=
  [80, 75, 3, 4, 20, 0, 0, 0, 0, 0, 0, 0, 33, 0, 0, 0, 0, 0, 0, 0, 0, 0, 0, 0, 0, 0, 10, 0, 0, 0,
   82, 46, 110, 117, 109, 98, 101, 114, 115, 47, 80, 75, 3, 4, 10, 0, 0, 8, 0, 0, 0, 0, 33, 0, 172,
   42, 147, 216, 2, 0, 0, 0, 2, 0, 0, 0, 12, 0, 0, 0, 82, 46, 110, 117, 109, 98, 101, 114, 115, 47,
   195, 169, 104, 105, 80, 75, 1, 2, 20, 3, 20, 0, 0, 0, 0, 0, 0, 0, 33, 0, 0, 0, 0, 0, 0, 0, 0, 0,
   0, 0, 0, 0, 10, 0, 0, 0, 0, 0, 0, 0, 0, 0, 0, 0, 237, 65, 0, 0, 0, 0, 82, 46, 110, 117, 109, 98,
   101, 114, 115, 47, 80, 75, 1, 2, 10, 3, 10, 0, 0, 8, 0, 0, 0, 0, 33, 0, 172, 42, 147, 216, 2, 0,
   0, 0, 2, 0, 0, 0, 12, 0, 0, 0, 0, 0, 0, 0, 0, 0, 0, 0, 164, 129, 40, 0, 0, 0, 82, 46, 110, 117,
   109, 98, 101, 114, 115, 47, 195, 169, 80, 75, 5, 6, 0, 0, 0, 0, 2, 0, 2, 0, 114, 0, 0, 0, 84, 0,
   0, 0, 0, 0]

def misreadArchive : Bytes :=
  [80, 75, 3, 4, 20, 0, 0, 0, 0, 0, 0, 0, 33, 0, 0, 0, 0, 0, 0, 0, 0, 0, 0, 0, 0, 0, 10, 0, 0, 0,
   82, 46, 110, 117, 109, 98, 101, 114, 115, 47, 80, 75, 3, 4, 10, 0, 0, 8, 0, 0, 0, 0, 33, 0, 172,
   42, 147, 216, 2, 0, 0, 0, 2, 0, 0, 0, 16, 0, 0, 0, 82, 46, 110, 117, 109, 98, 101, 114, 115, 47,
   226, 148, 156, 226, 140, 144, 104, 105, 80, 75, 1, 2, 20, 3, 20, 0, 0, 0, 0, 0, 0, 0, 33, 0, 0,
   0, 0, 0, 0, 0, 0, 0, 0, 0, 0, 0, 10, 0, 0, 0, 0, 0, 0, 0, 0, 0, 0, 0, 237, 65, 0, 0, 0, 0, 82,
   46, 110, 117, 109, 98, 101, 114, 115, 47, 80, 75, 1, 2, 10, 3, 10, 0, 0, 8, 0, 0, 0, 0, 33, 0,
   172, 42, 147, 216, 2, 0, 0, 0, 2, 0, 0, 0, 16, 0, 0, 0, 0, 0, 0, 0, 0, 0, 0, 0, 164, 129, 40, 0,
   0, 0, 82, 46, 110, 117, 109, 98, 101, 114, 115, 47, 226, 148, 156, 226, 140, 144, 80, 75, 5, 6,
   0, 0, 0, 0, 2, 0, 2, 0, 118, 0, 0, 0, 88, 0, 0, 0, 0, 0]

def accentStream : Bytes :=
  [99, 105, 114, 114, 111, 118, 101, 46, 112, 97, 99, 107, 97, 103, 101, 46, 115, 101, 109, 97,
   110, 116, 105, 99, 46, 105, 100, 101, 110, 116, 105, 116, 121, 0, 0, 0, 0, 2, 0, 0, 0, 2, 0,
   0, 0, 1, 0, 0, 0, 0, 0, 0, 0, 2, 68, 0, 0, 0, 0, 0, 0, 0, 0, 0, 0, 0, 0, 227, 176, 196, 66,
   152, 252, 28, 20, 154, 251, 244, 200, 153, 111, 185, 36, 39, 174, 65, 228, 100, 155, 147, 76,
   164, 149, 153, 27, 120, 82, 184, 85, 70, 0, 0, 0, 2, 195, 169, 0, 0, 0, 0, 0, 0, 0, 2, 143,
   67, 67, 70, 100, 143, 107, 150, 223, 137, 221, 169, 1, 197, 23, 107, 16, 166, 216, 57, 97,
   221, 60, 26, 200, 139, 89, 178, 220, 50, 122, 164]

def misreadStream : Bytes :=
  [99, 105, 114, 114, 111, 118, 101, 46, 112, 97, 99, 107, 97, 103, 101, 46, 115, 101, 109, 97,
   110, 116, 105, 99, 46, 105, 100, 101, 110, 116, 105, 116, 121, 0, 0, 0, 0, 2, 0, 0, 0, 2, 0,
   0, 0, 1, 0, 0, 0, 0, 0, 0, 0, 2, 68, 0, 0, 0, 0, 0, 0, 0, 0, 0, 0, 0, 0, 227, 176, 196, 66,
   152, 252, 28, 20, 154, 251, 244, 200, 153, 111, 185, 36, 39, 174, 65, 228, 100, 155, 147, 76,
   164, 149, 153, 27, 120, 82, 184, 85, 70, 0, 0, 0, 6, 226, 148, 156, 226, 140, 144, 0, 0, 0, 0,
   0, 0, 0, 2, 143, 67, 67, 70, 100, 143, 107, 150, 223, 137, 221, 169, 1, 197, 23, 107, 16, 166,
   216, 57, 97, 221, 60, 26, 200, 139, 89, 178, 220, 50, 122, 164]

def accentDigest (bytes : Bytes) : Bytes :=
  if bytes = [] then
  [227, 176, 196, 66, 152, 252, 28, 20, 154, 251, 244, 200, 153, 111, 185, 36, 39, 174, 65, 228,
   100, 155, 147, 76, 164, 149, 153, 27, 120, 82, 184, 85]
  else if bytes = ascii "hi" then
  [143, 67, 67, 70, 100, 143, 107, 150, 223, 137, 221, 169, 1, 197, 23, 107, 16, 166, 216, 57,
   97, 221, 60, 26, 200, 139, 89, 178, 220, 50, 122, 164]
  else if bytes = flaggedArchive then
  [121, 52, 76, 244, 241, 184, 95, 169, 74, 122, 25, 100, 116, 11, 78, 69, 76, 224, 125, 88, 79,
   231, 148, 179, 71, 10, 52, 75, 207, 172, 145, 19]
  else if bytes = unflaggedArchive then
  [7, 188, 189, 142, 183, 233, 26, 191, 253, 110, 25, 90, 82, 149, 75, 26, 85, 100, 41, 229, 58,
   129, 113, 200, 254, 113, 107, 204, 137, 150, 250, 2]
  else if bytes = wireArchive then
  [64, 82, 89, 251, 205, 92, 155, 227, 134, 254, 131, 212, 171, 96, 101, 176, 239, 190, 95, 203,
   242, 141, 189, 67, 3, 0, 92, 166, 34, 120, 230, 229]
  else if bytes = misreadArchive then
  [136, 59, 174, 14, 1, 178, 243, 153, 250, 158, 208, 104, 143, 113, 7, 129, 37, 122, 166, 235,
   142, 215, 110, 116, 54, 64, 26, 206, 146, 206, 43, 157]
  else if bytes = accentStream then
  [16, 138, 139, 206, 229, 240, 230, 124, 100, 43, 228, 40, 22, 160, 181, 242, 78, 176, 191, 121,
   124, 222, 229, 47, 245, 160, 175, 131, 150, 244, 252, 86]
  else if bytes = misreadStream then
  [91, 243, 131, 117, 166, 27, 50, 15, 225, 7, 254, 28, 254, 205, 67, 216, 50, 158, 241, 137,
   181, 133, 125, 11, 151, 183, 13, 107, 189, 109, 218, 211]
  else List.replicate 32 0

def accentSha : Sha256 where
  digest := accentDigest
  length_digest bytes := by
    unfold accentDigest
    split_ifs <;> rfl

def accent : Bytes := [0xc3, 0xa9]

def numbersRoot : Bytes := ascii "R.numbers"

/-- The entry of the document, under the name the encoder reads. -/
def accentEntry (name : Bytes) : ZipEntry := { storedEntry accent (ascii "hi") with name }

/-- What the archive of the document holds when its file was read under a name. -/
def accentOpened (name : Bytes) : List ZipEntry :=
  [storedEntry (numbersRoot ++ [slash]) [], storedEntry (wireName numbersRoot name) (ascii "hi")]

/-- The ZIP library on the archives of the document. -/
def accentZip : Zip := fun bytes =>
  if bytes = flaggedArchive then some ([accentEntry accent].map some)
  else if bytes = unflaggedArchive then some ([accentEntry (cp437 accent)].map some)
  else if bytes = wireArchive then some ((accentOpened accent).map some)
  else if bytes = misreadArchive then some ((accentOpened (cp437 accent)).map some)
  else none

/-- The entries of the document when its file is read under a name. -/
def accentEntries (name : Bytes) : List WireEntry :=
  [rootEntry numbersRoot,
    { name := wireName numbersRoot name, directory := false, content := ascii "hi" }]

def accentRecords (name : Bytes) : List StoredRecord :=
  [{ name := numbersRoot ++ [slash], content := [], flags := 0, crc := 0,
     attributes := 0x41ed0000, madeBy := 0x0314, needed := 20, time := 0x210000 },
   { name := wireName numbersRoot name, content := ascii "hi", flags := 0x0800,
     crc := 0xd8932aac, attributes := 0x81a40000, madeBy := 0x030a, needed := 10,
     time := 0x210000 }]

def accentWriter : ZipWriter := fun entries =>
  if entries = accentEntries accent then some wireArchive
  else if entries = accentEntries (cp437 accent) then some misreadArchive
  else none

def stagedAccent (bytes : Bytes) : WriteStagingFile :=
  { file := { isFile := true, bytes }, dev := 1, ino := 1 }

def emptyWire : WriteStagingFile :=
  { file := { isFile := true, bytes := [] }, dev := 1, ino := 2 }

def accentReceipt (bytes : Bytes) : PackageDownload :=
  { size := bytes.length, sha256 := hexEncode (accentDigest bytes) }

def accentIdentity : PackageSemanticIdentity where
  version := 2
  sha256 := hexEncode (accentDigest accentStream)
  entries := 2
  files := 1
  expandedBytes := 2

/-- An archive is read as it is stored, its names decoded by its flags. -/
abbrev ReadAs (bytes : Bytes) (es : List ZipEntry) (flags : List Nat) : Prop :=
  accentZip bytes = some (es.map some) ∧ centralNames bytes = .ok (es.map ZipEntry.nameRaw) ∧
    (∀ e ∈ es, e.isDir = endsInSlash e.nameRaw) ∧ centralFlags bytes = .ok flags ∧
    List.Forall₂ (fun e f => e.name = decodedName f e.nameRaw) es flags

theorem accent_archives :
    ReadAs flaggedArchive [accentEntry accent] [0x0800] ∧
      ReadAs unflaggedArchive [accentEntry (cp437 accent)] [0] ∧
      ReadAs wireArchive (accentOpened accent) [0, 0x0800] ∧
      ReadAs misreadArchive (accentOpened (cp437 accent)) [0, 0x0800] := by
  decide +kernel

theorem accent_written :
    accentWriter (accentEntries accent) = some (storedArchive (accentRecords accent)) ∧
      accentWriter (accentEntries (cp437 accent)) =
        some (storedArchive (accentRecords (cp437 accent))) ∧
      storedArchive (accentRecords accent) = wireArchive ∧
      storedArchive (accentRecords (cp437 accent)) = misreadArchive := by
  decide +kernel

/-- The names on the wire are short names of files below a directory. -/
theorem accent_names :
    endsInSlash (numbersRoot ++ [slash]) = true ∧ (numbersRoot ++ [slash]).length ≤ maxName ∧
      (endsInSlash (wireName numbersRoot accent) = false ∧
        (wireName numbersRoot accent).length ≤ maxName) ∧
      (endsInSlash (wireName numbersRoot (cp437 accent)) = false ∧
        (wireName numbersRoot (cp437 accent)).length ≤ maxName) ∧
      validateWireRoot numbersRoot = .ok () ∧
      storedSize (accentEntries accent) ≤ writeStagingFileLimit := by
  decide +kernel

theorem accent_identity :
    packageFlatArchiveSemanticIdentityV2 accentZip accentSha (stagedAccent flaggedArchive).file
        (accentReceipt flaggedArchive) = .ok accentIdentity ∧
      packageFlatArchiveSemanticIdentityV2 accentZip accentSha (stagedAccent unflaggedArchive).file
        (accentReceipt unflaggedArchive) = .ok accentIdentity := by
  decide +kernel

theorem accentEntry_name (read : Bytes) : (accentEntry read).name = read := rfl

theorem accentEntry_nameRaw (read : Bytes) : (accentEntry read).nameRaw = accent := rfl

theorem accentRecords_stored {name : Bytes}
    (hname : endsInSlash (wireName numbersRoot name) = false ∧
      (wireName numbersRoot name).length ≤ maxName) :
    List.Forall₂ Stores (accentRecords name) (accentEntries name) := by
  obtain ⟨hroot, hshort, -⟩ := accent_names
  have hdirectory : (0x41ed0000 >>> 16 &&& 0xf000) = 0x4000 := by decide
  have hfile : (0x81a40000 >>> 16 &&& 0xf000) = 0x8000 := by decide
  have hcontent : (ascii "hi").length < 2 ^ 32 := by decide
  have hcrc : 0xd8932aac < 2 ^ 32 := by decide
  have hattributes : 0x81a40000 < 2 ^ 32 := by decide
  refine .cons ⟨rfl, rfl, ?_⟩ (.cons ⟨rfl, rfl, ?_⟩ .nil)
  · exact ⟨.inl rfl, by decide, by decide, by rw [hroot]; exact hdirectory, hshort, by decide,
      fun _ => rfl⟩
  · exact ⟨.inr rfl, hcrc, hattributes, by rw [hname.1]; exact hfile, hname.2, hcontent,
      fun hdir => absurd (hname.1.symm.trans hdir) (by simp)⟩

/-- The entry that stores a name and a text is read back as they are. -/
theorem opens_storedEntry {name content : Bytes} {directory : Bool}
    (h : directory = endsInSlash name) :
    Opens (storedEntry name content) { name, directory, content } := by
  refine ⟨rfl, h.symm, rfl, rfl, rfl, rfl, ?_, rfl⟩
  by_cases hnil : content = [] <;> simp [storedEntry, hnil]

theorem accentOpened_opens {name : Bytes}
    (hname : endsInSlash (wireName numbersRoot name) = false) :
    List.Forall₂ Opens (accentOpened name) (accentEntries name) :=
  .cons (opens_storedEntry accent_names.1.symm) (.cons (opens_storedEntry hname.symm) .nil)

/-- Every archive the ZIP library opens here is read as it is stored. -/
theorem accentZip_readAs {bytes : Bytes} {es : List ZipEntry}
    (h : accentZip bytes = some (es.map some)) : ∃ flags, ReadAs bytes es flags := by
  have hsome : Function.Injective (List.map (some : ZipEntry → Option ZipEntry)) :=
    List.map_injective_iff.mpr (Option.some_injective _)
  have hread : ∀ es', some (es'.map some) = some (es.map some) → es' = es :=
    fun _ heq => hsome (Option.some.inj heq)
  obtain ⟨hflagged, hunflagged, hwire, hmisread⟩ := accent_archives
  unfold accentZip at h
  split_ifs at h with h₁ h₂ h₃ h₄
  · exact ⟨_, h₁ ▸ hread _ h ▸ hflagged⟩
  · exact ⟨_, h₂ ▸ hread _ h ▸ hunflagged⟩
  · exact ⟨_, h₃ ▸ hread _ h ▸ hwire⟩
  · exact ⟨_, h₄ ▸ hread _ h ▸ hmisread⟩

theorem accentCrate : ZipCrate accentZip accentWriter
    {accentEntries (cp437 accent), accentEntries accent} where
  lawful bytes limit mirror es _ hzip := by
    obtain ⟨flags, -, hnames, hdirs, -⟩ := accentZip_readAs hzip
    exact ⟨hnames, hdirs⟩
  names bytes limit mirror es _ hzip := by
    obtain ⟨flags, -, -, -, hflags, hnames⟩ := accentZip_readAs hzip
    exact ⟨flags, hflags, hnames⟩
  writes := by
    obtain ⟨haccent, hmisread, -⟩ := accent_written
    obtain ⟨-, -, hname, hmisreadName, -⟩ := accent_names
    rintro entries (rfl | rfl) _ _ _ _
    · exact ⟨_, hmisread, accentRecords_stored hmisreadName⟩
    · exact ⟨_, haccent, accentRecords_stored hname⟩
  reads := by
    obtain ⟨haccent, hmisread, hwire, hmisreadWire⟩ := accent_written
    obtain ⟨-, -, hwireRead, hmisreadRead⟩ := accent_archives
    obtain ⟨-, -, hname, hmisreadName, -⟩ := accent_names
    rintro entries (rfl | rfl) bytes _ hwritten
    · obtain rfl := Option.some.inj (hmisread.symm.trans hwritten)
      exact ⟨_, hmisreadWire ▸ hmisreadRead.1, accentOpened_opens hmisreadName.1⟩
    · obtain rfl := Option.some.inj (haccent.symm.trans hwritten)
      exact ⟨_, hwire ▸ hwireRead.1, accentOpened_opens hname.1⟩

theorem ZipCrate.mono {zip : Zip} {writer : ZipWriter} {s t : Set (List WireEntry)}
    (h : ZipCrate zip writer t) (hst : s ⊆ t) : ZipCrate zip writer s :=
  ⟨h.lawful, h.names, fun entries he => h.writes entries (hst he),
    fun entries he => h.reads entries (hst he)⟩

theorem writtenBy_accent (name : ZipEntry → Bytes) (read : Bytes) :
    writtenBy name numbersRoot [accentEntry read] = accentEntries (name (accentEntry read)) := by
  have hdir : (accentEntry read).isDir = false := by
    show endsInSlash accent = false
    decide
  have hcontent : (accentEntry read).node.content = ascii "hi" := by
    rw [ZipEntry.node, hdir]
    show (storedEntry accent (ascii "hi")).reads.flatten = ascii "hi"
    decide
  simp [writtenBy, orderedBy, accentEntries, copyOf, hdir, hcontent]

/-- The provisos of a delivery hold for the document. -/
theorem accent_provisos (read : Bytes) :
    [accentEntry read].length < maxEntries ∧
      (∀ e ∈ [accentEntry read], (wireName numbersRoot e.nameRaw).length ≤ maxName) ∧
      storedSize (writtenBy ZipEntry.nameRaw numbersRoot [accentEntry read]) ≤
        writeStagingFileLimit := by
  obtain ⟨-, -, hname, -, -, hsize⟩ := accent_names
  refine ⟨?_, ?_, ?_⟩
  · show 1 < maxEntries
    decide
  · intro e he
    rw [List.mem_singleton.mp he]
    exact hname.2
  · rw [writtenBy_accent]
    exact hsize

theorem flagged_flaggedArchive : Flagged accentZip flaggedArchive := by
  obtain ⟨hes', -, -, hflags', -⟩ := accent_archives.1
  intro es flags hes hflags
  obtain rfl := Except.ok.inj (hflags'.symm.trans hflags)
  obtain rfl : [accentEntry accent] = es :=
    (List.map_injective_iff.mpr (Option.some_injective _))
      (Option.some.inj (hes'.symm.trans hes))
  exact .cons (.inr (by decide)) .nil

/-- With the flag the document is put on the wire unchanged. -/
theorem unchanged_flagged :
    DeliversUnchanged accentZip accentWriter accentSha (stagedAccent flaggedArchive)
      (accentReceipt flaggedArchive) numbersRoot accentIdentity emptyWire := by
  have hcrate : ZipCrate accentZip accentWriter
      {writtenBy ZipEntry.name numbersRoot [accentEntry accent],
        writtenBy ZipEntry.nameRaw numbersRoot [accentEntry accent]} := by
    rw [writtenBy_accent, writtenBy_accent]
    refine accentCrate.mono ?_
    rintro _ (rfl | rfl) <;> exact .inr rfl
  obtain ⟨-, -, -, -, hroot, -⟩ := accent_names
  obtain ⟨hcount, hnames, hfits⟩ := accent_provisos accent
  exact (unchanged_iff_flagged accent_archives.1.1 hcrate accent_identity.1 hroot rfl
    (by simp [stagedAccent, emptyWire]) hcount hnames hfits).1.mpr flagged_flaggedArchive

theorem not_flagged_unflaggedArchive : ¬ Flagged accentZip unflaggedArchive := by
  obtain ⟨hes, -, -, hflags, -⟩ := accent_archives.2.1
  intro hflagged
  obtain ⟨hentry, -⟩ := List.forall₂_cons.mp (hflagged _ _ hes hflags)
  rw [accentEntry_nameRaw] at hentry
  exact absurd hentry (by decide)

/-- Without the flag the document is not delivered, though its identity is known and every
    other condition is met. -/
theorem unflagged_refused :
    accentZip (stagedAccent unflaggedArchive).file.bytes =
        some ([accentEntry (cp437 accent)].map some) ∧
      ZipCrate accentZip accentWriter
        {writtenBy ZipEntry.name numbersRoot [accentEntry (cp437 accent)],
          writtenBy ZipEntry.nameRaw numbersRoot [accentEntry (cp437 accent)]} ∧
      packageFlatArchiveSemanticIdentityV2 accentZip accentSha
        (stagedAccent unflaggedArchive).file (accentReceipt unflaggedArchive) =
          .ok accentIdentity ∧
      validateWireRoot numbersRoot = .ok () ∧
      [accentEntry (cp437 accent)].length < maxEntries ∧
      (∀ e ∈ [accentEntry (cp437 accent)],
        (wireName numbersRoot e.nameRaw).length ≤ maxName) ∧
      storedSize (writtenBy ZipEntry.nameRaw numbersRoot [accentEntry (cp437 accent)]) ≤
        writeStagingFileLimit ∧
      ¬ DeliversUnchanged accentZip accentWriter accentSha (stagedAccent unflaggedArchive)
        (accentReceipt unflaggedArchive) numbersRoot accentIdentity emptyWire := by
  have hcrate : ZipCrate accentZip accentWriter
      {writtenBy ZipEntry.name numbersRoot [accentEntry (cp437 accent)],
        writtenBy ZipEntry.nameRaw numbersRoot [accentEntry (cp437 accent)]} := by
    rw [writtenBy_accent, writtenBy_accent, accentEntry_name, accentEntry_nameRaw]
    exact accentCrate
  obtain ⟨-, -, -, -, hroot, -⟩ := accent_names
  obtain ⟨hopened, -⟩ := accent_archives.2.1
  obtain ⟨hcount, hnames, hfits⟩ := accent_provisos (cp437 accent)
  refine ⟨hopened, hcrate, accent_identity.2, hroot, hcount, hnames, hfits, fun hdelivers => ?_⟩
  obtain ⟨es, hscan⟩ := flatScan_of_identity accent_identity.2
  obtain rfl : [accentEntry (cp437 accent)] = es :=
    (List.map_injective_iff.mpr (Option.some_injective _))
      (Option.some.inj (hopened.symm.trans hscan.opened))
  exact not_flagged_unflaggedArchive (flagged_of_delivers hcrate hscan hroot hdelivers)

end Cirrove.Package
