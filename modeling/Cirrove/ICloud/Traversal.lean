import Cirrove.ICloud.Walk
import Cirrove.Library.Runs
import Cirrove.Library.Traversal
import Mathlib.Data.String.Basic
import Mathlib.Logic.Relation

/-!
# The walk is a traversal
-/

namespace Cirrove.ICloud

open Cirrove.Library
open Cirrove.Upload (scope_append_inj)
open Cirrove.Google (ProviderError)

/-! ## Cursors are read back -/

theorem Frame.encoded_append_inj {a b : Frame} {r r' : List Char}
    (h : a.encoded ++ r = b.encoded ++ r') : a = b ∧ r = r' := by
  simp only [Frame.encoded, List.cons_append, List.append_assoc, List.cons.injEq, true_and,
    List.append_cancel_left_eq] at h
  obtain ⟨hfolder, h⟩ := Json.quoted_append_inj h
  simp only [List.cons.injEq, true_and, List.append_cancel_left_eq] at h
  obtain ⟨hnext, h⟩ := Json.number_append_inj (by decide) (by decide) h
  simp only [List.cons.injEq, true_and, List.append_cancel_left_eq] at h
  obtain ⟨hfingerprint, h⟩ := Json.quoted_append_inj h
  refine ⟨?_, (List.cons.inj h).2⟩
  cases a
  cases b
  simp only [Frame.mk.injEq]
  exact ⟨String.toList_injective hfolder, hnext, String.toList_injective hfingerprint⟩

theorem Walk.encoded_injective : Function.Injective Walk.encoded := by
  intro a b h
  have h := String.ofList_injective h
  simp only [List.cons.injEq, true_and, List.append_cancel_left_eq] at h
  obtain ⟨hscope, h⟩ := scope_append_inj h
  simp only [List.cons.injEq, true_and, List.append_cancel_left_eq] at h
  have hbegin : ∀ (f : Frame) (r r' : List Char), f.encoded ++ r ≠ ']' :: r' := by
    intro f r r' heq
    exact absurd (List.cons.inj heq).1 (by decide)
  obtain ⟨hframes, -⟩ := Json.array_append_inj Frame.encoded_append_inj hbegin h
  cases a
  cases b
  simp only [Walk.mk.injEq]
  exact ⟨hscope, hframes⟩

open Classical in
/-- A reader that knows nothing but the text walks are written as. -/
noncomputable def WalkReader.canonical : WalkReader where
  fromStr text := if h : ∃ w : Walk, w.encoded = text then some h.choose else none
  reads w := by
    have hsome : ∃ w' : Walk, w'.encoded = w.encoded := ⟨w, rfl⟩
    rw [dif_pos hsome, Walk.encoded_injective hsome.choose_spec]

/-! ## Listings in any order -/

/-- The node an entry that can be shown is shown as. -/
def nodeOf (parent : String) (e : DriveEntry) : Node where
  id := e.drivewsid
  parentId := some parent
  name := e.displayName
  kind := if e.isFolder then .folder else .file
  size := e.size
  modifiedUnix := 0
  etag := if e.etag = "" then none else some e.etag
  contentVersion := none
  target := none
  package := e.kind ∈ ["APP_CONTAINER", "APP_LIBRARY"]

/-- An entry with a known kind and a usable name. -/
def DriveEntry.Showable (e : DriveEntry) : Prop :=
  (e.isFolder = true ∨ e.kind = "FILE") ∧ e.displayName ≠ "" ∧ '/' ∉ e.displayName.toList

instance (e : DriveEntry) : Decidable e.Showable := inferInstanceAs (Decidable (_ ∧ _))

/-- Entries that can be shown together, each under its own id. -/
structure Showable (items : List DriveEntry) : Prop where
  entries : ∀ e ∈ items, e.Showable ∧ e.drivewsid ≠ rootId
  distinct : (items.map DriveEntry.drivewsid).Nodup

theorem entryNode_eq_ok (parent : String) {e : DriveEntry} (h : e.Showable) :
    entryNode parent e = .ok (nodeOf parent e) := by
  obtain ⟨hkind, hname, hslash⟩ := h
  unfold entryNode nodeOf
  by_cases hfolder : e.isFolder = true
  · simp [hfolder, hname, hslash]
  · have hfile := hkind.resolve_left hfolder
    simp [hfolder, hfile, hname, hslash]

theorem entryNode_error (parent : String) {e : DriveEntry} (h : ¬ e.Showable) :
    ∃ message, entryNode parent e = .error (.protocol message) := by
  unfold entryNode
  by_cases hfolder : e.isFolder = true
  · simp only [hfolder, if_true]
    split
    · exact ⟨_, rfl⟩
    · next hname => exact absurd ⟨.inl hfolder, not_or.mp hname⟩ h
  · by_cases hfile : e.kind = "FILE"
    · simp only [hfolder, hfile, if_true, if_false, Bool.false_eq_true]
      split
      · exact ⟨_, rfl⟩
      · next hname => exact absurd ⟨.inr hfile, not_or.mp hname⟩ h
    · exact ⟨"unsupported iCloud item kind", by simp [hfolder, hfile]⟩

/-- The loop shows entries that can be shown, and ends with a protocol error on others. -/
theorem directoryNodes_cases (parent : String) (seen : List String) (items : List DriveEntry) :
    ((Showable items ∧ ∀ e ∈ items, e.drivewsid ∉ seen) ∧
      directoryNodes parent seen items = .ok (items.map (nodeOf parent))) ∨
    (¬ (Showable items ∧ ∀ e ∈ items, e.drivewsid ∉ seen) ∧
      ∃ message, directoryNodes parent seen items = .error (.protocol message)) := by
  induction items generalizing seen with
  | nil => exact .inl ⟨⟨⟨by simp, by simp⟩, by simp⟩, rfl⟩
  | cons e rest ih =>
    rw [directoryNodes]
    by_cases hid : e.drivewsid ∈ seen ∨ e.drivewsid = rootId
    · rw [if_pos hid]
      refine .inr ⟨?_, _, rfl⟩
      rintro ⟨hshow, hseen⟩
      rcases hid with hid | hid
      · exact hseen e List.mem_cons_self hid
      · exact (hshow.entries e List.mem_cons_self).2 hid
    · rw [if_neg hid]
      rw [not_or] at hid
      by_cases hshow : e.Showable
      · rw [entryNode_eq_ok parent hshow]
        have hiff : (Showable (e :: rest) ∧ ∀ x ∈ e :: rest, x.drivewsid ∉ seen) ↔
            Showable rest ∧ ∀ x ∈ rest, x.drivewsid ∉ e.drivewsid :: seen := by
          constructor
          · rintro ⟨⟨hentries, hdistinct⟩, hseen⟩
            rw [List.map_cons, List.nodup_cons] at hdistinct
            refine ⟨⟨fun x hx => hentries x (List.mem_cons_of_mem _ hx), hdistinct.2⟩, ?_⟩
            intro x hx hmem
            rcases List.mem_cons.mp hmem with heq | hmem
            · exact hdistinct.1 (heq ▸ List.mem_map_of_mem hx)
            · exact hseen x (List.mem_cons_of_mem _ hx) hmem
          · rintro ⟨⟨hentries, hdistinct⟩, hseen⟩
            refine ⟨⟨?_, ?_⟩, ?_⟩
            · intro x hx
              rcases List.mem_cons.mp hx with rfl | hx
              · exact ⟨hshow, hid.2⟩
              · exact hentries x hx
            · rw [List.map_cons, List.nodup_cons]
              refine ⟨?_, hdistinct⟩
              intro hmem
              obtain ⟨x, hx, heq⟩ := List.mem_map.mp hmem
              exact hseen x hx (heq ▸ List.mem_cons_self)
            · intro x hx
              rcases List.mem_cons.mp hx with rfl | hx
              · exact hid.1
              · exact fun hmem => hseen x hx (List.mem_cons_of_mem _ hmem)
        rw [hiff]
        rcases ih (e.drivewsid :: seen) with ⟨hrest, heq⟩ | ⟨hrest, message, heq⟩
        · exact .inl ⟨hrest, by simp [heq, bind, Except.bind]⟩
        · exact .inr ⟨hrest, message, by simp [heq, bind, Except.bind]⟩
      · obtain ⟨message, hmessage⟩ := entryNode_error parent hshow
        rw [hmessage]
        exact .inr ⟨fun h => hshow (h.1.entries e List.mem_cons_self).1, message, rfl⟩

theorem nodes_cases (parent : String) (items : List DriveEntry) :
    (Showable items ∧ nodes parent items = .ok (items.map fun e => .upsert (nodeOf parent e))) ∨
    (¬ Showable items ∧ ∃ message, nodes parent items = .error (.protocol message)) := by
  have hnil : (Showable items ∧ ∀ e ∈ items, e.drivewsid ∉ ([] : List String)) ↔
      Showable items := by simp
  rcases directoryNodes_cases parent [] items with ⟨hshow, heq⟩ | ⟨hshow, message, heq⟩
  · rw [hnil] at hshow
    exact .inl ⟨hshow, by simp [nodes, heq, Except.map]⟩
  · rw [hnil] at hshow
    exact .inr ⟨hshow, message, by simp [nodes, heq, Except.map]⟩

section

variable {items items' : List DriveEntry}

theorem Showable.of_perm (h : Showable items) (hperm : items'.Perm items) : Showable items' where
  entries e he := h.entries e (hperm.mem_iff.mp he)
  distinct := (hperm.map DriveEntry.drivewsid).nodup_iff.mpr h.distinct

theorem entryLe_trans (a b c : DriveEntry) (hab : entryLe a b = true) (hbc : entryLe b c = true) :
    entryLe a c = true := by
  simp only [entryLe, decide_eq_true_eq] at *
  exact le_trans hab hbc

theorem entryLe_total (a b : DriveEntry) : (entryLe a b || entryLe b a) = true := by
  simp only [entryLe, Bool.or_eq_true, decide_eq_true_eq]
  exact le_total _ _

/-- Entries with ids of their own have one order. -/
theorem mergeSort_eq_of_perm (hdistinct : (items.map DriveEntry.drivewsid).Nodup)
    (hperm : items'.Perm items) : items'.mergeSort entryLe = items.mergeSort entryLe := by
  have hsorted := (List.mergeSort_perm items' entryLe).trans
    (hperm.trans (List.mergeSort_perm items entryLe).symm)
  refine List.Perm.eq_of_pairwise ?_ (List.pairwise_mergeSort entryLe_trans entryLe_total _)
    (List.pairwise_mergeSort entryLe_trans entryLe_total _) hsorted
  intro a b ha hb hab hba
  simp only [entryLe, decide_eq_true_eq] at hab hba
  rw [List.mem_mergeSort] at ha hb
  exact List.inj_on_of_nodup_map hdistinct (hperm.mem_iff.mp ha) hb (le_antisymm hab hba)

theorem subfolders_eq_of_perm (hdistinct : (items.map DriveEntry.drivewsid).Nodup)
    (hperm : items'.Perm items) : subfolders items' = subfolders items := by
  unfold subfolders
  have hsub : (items.filter DriveEntry.isFolder).Sublist items := List.filter_sublist
  rw [mergeSort_eq_of_perm ((hsub.map _).nodup hdistinct) (hperm.filter _)]

theorem fingerprint_eq_of_perm (drive : ICloudDrive)
    (hdistinct : (items.map DriveEntry.drivewsid).Nodup) (hperm : items'.Perm items) :
    drive.fingerprint items' = drive.fingerprint items := by
  unfold ICloudDrive.fingerprint
  rw [mergeSort_eq_of_perm hdistinct hperm]

end

/-! ## Paths and cursors -/

section

variable (drive : ICloudDrive) (tree : String → List DriveEntry)

/-- The folders of a folder, in order. -/
def children (folder : String) : List String := subfolders (tree folder)

/-- A folder of the tree. -/
def Reached : String → Prop := Relation.ReflTransGen (fun f g => g ∈ children tree f) rootId

/-- The frames of a path. -/
def ICloudDrive.frames (path : List (Place String)) : List Frame :=
  path.map fun p => ⟨p.node, p.entered, drive.fingerprint (tree p.node)⟩

/-- The walk that stands at a path. -/
def ICloudDrive.walk (path : List (Place String)) : Walk := ⟨drive.scope, drive.frames tree path⟩

/-- The cursor of a path. -/
def ICloudDrive.cursor (path : List (Place String)) : Cursor := ⟨(drive.walk tree path).encoded⟩

/-- The cursor of a path is short enough. -/
def ICloudDrive.Fits (path : List (Place String)) : Prop :=
  (drive.walk tree path).encoded.utf8ByteSize ≤ maxCursor

/-- An id the walk and the session take. -/
structure ListableId (folder : String) : Prop where
  tagged : "FOLDER::".toList.isPrefixOf folder.toList = true
  short : folder.utf8ByteSize ≤ 512
  plain : '/' ∉ folder.toList

/-- A path the walk can go on from. -/
structure ICloudDrive.Sound (path : List (Place String)) : Prop where
  root : (path.map Place.node).head? = some rootId
  distinct : (path.map Place.node).Nodup
  ids : ∀ p ∈ path, ListableId p.node
  showable : ∀ p ∈ path, Showable (tree p.node)
  depth : path.length ≤ maxDepth
  fits : drive.Fits tree path

end

section

variable {drive : ICloudDrive} {tree : String → List DriveEntry} {path pre : List (Place String)}

theorem checkFrames_ok (hids : ∀ p ∈ path, ListableId p.node) (seen : List String)
    (hdistinct : (path.map Place.node).Nodup) (hseen : ∀ p ∈ path, p.node ∉ seen) :
    checkFrames seen (drive.frames tree path) = .ok () := by
  induction path generalizing seen with
  | nil => rfl
  | cons p path ih =>
    rw [List.map_cons, List.nodup_cons] at hdistinct
    obtain ⟨htagged, hshort, -⟩ := hids p List.mem_cons_self
    have haccepted : Frame.accepted ⟨p.node, p.entered, drive.fingerprint (tree p.node)⟩ seen =
        true := by
      have hlength : (drive.fingerprint (tree p.node)).utf8ByteSize = 64 :=
        drive.sha.length_digest _
      have hfresh : seen.contains p.node = false := by simpa using hseen p List.mem_cons_self
      rw [Frame.accepted, htagged, hlength, hfresh, decide_eq_true hshort]
      rfl
    show (if Frame.accepted _ seen = true then _ else _) = _
    rw [if_pos haccepted]
    apply ih (fun q hq => hids q (List.mem_cons_of_mem _ hq)) _ hdistinct.2
    intro q hq hmem
    rcases List.mem_cons.mp hmem with heq | hmem
    · exact hdistinct.1 (List.mem_map.mpr ⟨q, hq, heq⟩)
    · exact hseen q (List.mem_cons_of_mem _ hq) hmem

/-- The cursor of a path is accepted for the scope it was made for. -/
theorem decode_cursor (h : drive.Sound tree path) :
    drive.decode (drive.cursor tree path) drive.scope = .ok (drive.walk tree path) := by
  have hshort : ¬ maxCursor < (drive.cursor tree path).value.utf8ByteSize :=
    Nat.not_lt.mpr h.fits
  have hread : drive.reader.fromStr (drive.cursor tree path).value = some (drive.walk tree path) :=
    drive.reader.reads _
  have hroot : (drive.frames tree path).head?.map Frame.folder = some rootId := by
    rw [← h.root, ICloudDrive.frames, List.head?_map, List.head?_map, Option.map_map]
    rfl
  have hnil : drive.frames tree path ≠ [] := by
    intro hnil
    rw [hnil] at hroot
    cases hroot
  have hdepth : ¬ maxDepth < (drive.frames tree path).length := by
    rw [ICloudDrive.frames, List.length_map]
    exact Nat.not_lt.mpr h.depth
  have hcheck := @checkFrames_ok drive tree path h.ids [] h.distinct (by simp)
  unfold ICloudDrive.decode
  rw [if_neg hshort, hread]
  simp only [ICloudDrive.walk, hnil, hdepth, hroot, hcheck, ne_eq, not_true, or_self, if_false]
  rfl

/-- It is refused for every other scope. -/
theorem decode_other (h : drive.Fits tree path) {scope : Scope} (hscope : scope ≠ drive.scope) :
    drive.decode (drive.cursor tree path) scope =
      .error (.protocol "invalid iCloud continuation scope") := by
  have hread : drive.reader.fromStr (drive.cursor tree path).value = some (drive.walk tree path) :=
    drive.reader.reads _
  have hshort : ¬ maxCursor < (drive.cursor tree path).value.utf8ByteSize := Nat.not_lt.mpr h
  unfold ICloudDrive.decode
  rw [if_neg hshort, hread]
  exact if_pos (.inl (Ne.symm hscope))

theorem listFolder_eq (service : Listing) {folder : String} (h : ListableId folder) :
    listFolder service folder = service folder := by
  have hne : folder ≠ "" := by
    rintro rfl
    exact absurd h.tagged (by decide)
  unfold listFolder
  rw [if_neg]
  rintro (hempty | hlong | hslash)
  · exact hne hempty
  · exact absurd h.short (Nat.not_le.mpr hlong)
  · exact h.plain hslash

theorem continuePage_fits (changes : List Change) (h : drive.Fits tree path) :
    continuePage changes (drive.walk tree path) =
      .ok ⟨changes, .continue (drive.cursor tree path)⟩ := by
  have hshort : ¬ maxCursor < (drive.walk tree path).encoded.utf8ByteSize := Nat.not_lt.mpr h
  simp [continuePage, Walk.encode, hshort, bind, Except.bind, ICloudDrive.cursor]

theorem continuePage_long (changes : List Change) (h : ¬ drive.Fits tree path) :
    continuePage changes (drive.walk tree path) =
      .error (.protocol "iCloud continuation exceeds limit") := by
  have hlong : maxCursor < (drive.walk tree path).encoded.utf8ByteSize := Nat.lt_of_not_le h
  simp [continuePage, Walk.encode, hlong, bind, Except.bind]

/-! ## One call -/

/-- What one request is answered with. -/
def Answers (tree : String → List DriveEntry) (service : Listing) (folder : String) : Prop :=
  ∃ items, service folder = .ok items ∧ items.Perm (tree folder)

/-- The changes a folder is shown as. -/
def shown (tree : String → List DriveEntry) (folder : String) : List Change :=
  (tree folder).map fun e => .upsert (nodeOf folder e)

/-- The walk of a path whose top has entered another folder. -/
theorem nextFolder_child {f g : String} {i : Nat} {items : List DriveEntry}
    (hshow : Showable (tree f)) (hperm : items.Perm (tree f))
    (hchild : (children tree f)[i]? = some g) :
    drive.nextFolder (drive.walk tree (pre ++ [⟨f, i⟩])) items =
      .ok (drive.walk tree (pre ++ [⟨f, i + 1⟩]), some g) := by
  have hlast : (drive.walk tree (pre ++ [⟨f, i⟩])).frames.getLast? =
      some ⟨f, i, drive.fingerprint (tree f)⟩ := by
    simp [ICloudDrive.walk, ICloudDrive.frames]
  have hfront : (drive.walk tree (pre ++ [⟨f, i⟩])).frames.dropLast = drive.frames tree pre := by
    simp [ICloudDrive.walk, ICloudDrive.frames]
  have hsame := fingerprint_eq_of_perm drive hshow.distinct hperm
  have hfolders := subfolders_eq_of_perm hshow.distinct hperm
  have hchild : (subfolders (tree f))[i]? = some g := hchild
  have hlt : ¬ (subfolders (tree f)).length < i := by
    have hlt := (List.getElem?_eq_some_iff.mp hchild).1
    omega
  simp only [ICloudDrive.nextFolder, hlast, hsame, hfolders, hlt, hchild, ne_eq, not_true,
    if_false, hfront]
  simp [ICloudDrive.walk, ICloudDrive.frames]

theorem nextFolder_done {f : String} {i : Nat} {items : List DriveEntry}
    (hshow : Showable (tree f)) (hperm : items.Perm (tree f))
    (hdone : (children tree f).length = i) :
    drive.nextFolder (drive.walk tree (pre ++ [⟨f, i⟩])) items =
      .ok (drive.walk tree (pre ++ [⟨f, i⟩]), none) := by
  have hlast : (drive.walk tree (pre ++ [⟨f, i⟩])).frames.getLast? =
      some ⟨f, i, drive.fingerprint (tree f)⟩ := by
    simp [ICloudDrive.walk, ICloudDrive.frames]
  have hsame := fingerprint_eq_of_perm drive hshow.distinct hperm
  have hfolders := subfolders_eq_of_perm hshow.distinct hperm
  have hdone : (subfolders (tree f)).length = i := hdone
  have hnone : (subfolders (tree f))[i]? = none := List.getElem?_eq_none (by omega)
  have hlt : ¬ (subfolders (tree f)).length < i := by omega
  simp only [ICloudDrive.nextFolder, hlast, hsame, hfolders, hlt, hnone, ne_eq, not_true, if_false]

theorem changes_next {scope : Scope} {cursor : Cursor} {first second : Listing} {w w' : Walk}
    {top : Frame} {items : List DriveEntry} {next : Option String} (hscope : scope = drive.scope)
    (hdecode : drive.decode cursor scope = .ok w) (hlast : w.frames.getLast? = some top)
    (hlist : listFolder first top.folder = .ok items)
    (hnext : drive.nextFolder w items = .ok (w', next)) :
    drive.changes scope (some cursor) first second =
      match next with
      | some folder => do
        let children ← listFolder second folder
        let walk ← drive.descend w' folder children
        let shown ← nodes folder children
        continuePage shown walk
      | none =>
        if w'.frames.dropLast = [] then .ok ⟨[], .complete ⟨"snapshot-complete"⟩⟩
        else continuePage [] { w' with frames := w'.frames.dropLast } := by
  unfold ICloudDrive.changes
  rw [if_neg (not_not_intro hscope)]
  cases next with
  | none => simp only [hdecode, hlast, hlist, hnext, bind, Except.bind]
  | some folder => simp only [hdecode, hlast, hlist, hnext, bind, Except.bind]

/-- What a sound path that enters another folder needs to be sound again. -/
theorem sound_enter_iff {f g : String} {i : Nat} (h : drive.Sound tree (pre ++ [⟨f, i⟩]))
    (hid : ListableId g) :
    drive.Sound tree (pre ++ [⟨f, i + 1⟩] ++ [⟨g, 0⟩]) ↔
      (pre.length + 1 < maxDepth ∧ g ∉ pre.map Place.node ++ [f]) ∧ Showable (tree g) ∧
        drive.Fits tree (pre ++ [⟨f, i + 1⟩] ++ [⟨g, 0⟩]) := by
  have hnodes : List.map Place.node (pre ++ [⟨f, i + 1⟩] ++ [⟨g, 0⟩]) =
      pre.map Place.node ++ [f] ++ [g] := by simp
  have hdistinct : (pre.map Place.node ++ [f]).Nodup := by simpa using h.distinct
  constructor
  · intro hthere
    refine ⟨⟨?_, ?_⟩, hthere.showable ⟨g, 0⟩ (by simp), hthere.fits⟩
    · have hdepth := hthere.depth
      simp only [List.length_append, List.length_singleton] at hdepth
      omega
    · have hdistinct := hthere.distinct
      rw [hnodes, List.nodup_append] at hdistinct
      exact fun hmem => hdistinct.2.2 g hmem g (by simp) rfl
  · rintro ⟨⟨hdepth, hfresh⟩, hshow, hfits⟩
    refine ⟨?_, ?_, ?_, ?_, ?_, hfits⟩
    · rw [← h.root]
      cases pre <;> rfl
    · rw [hnodes, List.nodup_append]
      refine ⟨hdistinct, List.nodup_singleton g, ?_⟩
      intro a ha b hb heq
      rw [List.mem_singleton] at hb
      exact hfresh (hb ▸ heq ▸ ha)
    · intro p hp
      simp only [List.mem_append, List.mem_singleton] at hp
      rcases hp with (hp | rfl) | rfl
      · exact h.ids p (by simp [hp])
      · exact h.ids ⟨f, i⟩ (by simp)
      · exact hid
    · intro p hp
      simp only [List.mem_append, List.mem_singleton] at hp
      rcases hp with (hp | rfl) | rfl
      · exact h.showable p (by simp [hp])
      · exact h.showable ⟨f, i⟩ (by simp)
      · exact hshow
    · simp only [List.length_append, List.length_singleton]
      omega

/-- A path that counts on is sound where its cursor is short enough. -/
theorem ICloudDrive.Sound.leave {f g : String} {i j : Nat}
    (h : drive.Sound tree (pre ++ [⟨f, i⟩] ++ [⟨g, j⟩])) (hfits : drive.Fits tree (pre ++ [⟨f, i⟩])) :
    drive.Sound tree (pre ++ [⟨f, i⟩]) where
  root := by
    rw [← h.root]
    cases pre <;> rfl
  distinct := by
    have hdistinct := h.distinct
    rw [List.map_append, List.nodup_append] at hdistinct
    exact hdistinct.1
  ids p hp := h.ids p (List.mem_append_left _ hp)
  showable p hp := h.showable p (List.mem_append_left _ hp)
  depth := by
    have hdepth := h.depth
    simp only [List.length_append, List.length_singleton] at hdepth ⊢
    omega
  fits := hfits

theorem descend_path {f g : String} {i : Nat} {items : List DriveEntry}
    (hshow : Showable (tree g)) (hperm : items.Perm (tree g))
    (hfree : pre.length + 1 < maxDepth ∧ g ∉ pre.map Place.node ++ [f]) :
    drive.descend (drive.walk tree (pre ++ [⟨f, i⟩])) g items =
      .ok (drive.walk tree (pre ++ [⟨f, i⟩] ++ [⟨g, 0⟩])) := by
  have hsame := fingerprint_eq_of_perm drive hshow.distinct hperm
  have hframes : (drive.walk tree (pre ++ [⟨f, i⟩])).frames.length = pre.length + 1 := by
    simp [ICloudDrive.walk, ICloudDrive.frames]
  have hnone : ¬ (maxDepth ≤ pre.length + 1 ∨
      ∃ frame ∈ (drive.walk tree (pre ++ [⟨f, i⟩])).frames, frame.folder = g) := by
    rw [not_or]
    refine ⟨Nat.not_le.mpr hfree.1, ?_⟩
    rintro ⟨frame, hframe, rfl⟩
    obtain ⟨p, hp, rfl⟩ := List.mem_map.mp hframe
    apply hfree.2
    simpa using List.mem_map_of_mem (f := Place.node) hp
  rw [ICloudDrive.descend, hframes, if_neg hnone]
  simp [ICloudDrive.walk, ICloudDrive.frames, hsame]

theorem descend_refused {f g : String} {i : Nat} {items : List DriveEntry}
    (hbusy : ¬ (pre.length + 1 < maxDepth ∧ g ∉ pre.map Place.node ++ [f])) :
    drive.descend (drive.walk tree (pre ++ [⟨f, i⟩])) g items =
      .error (.protocol "iCloud folder ancestry is cyclic or too deep") := by
  have hframes : (drive.walk tree (pre ++ [⟨f, i⟩])).frames.length = pre.length + 1 := by
    simp [ICloudDrive.walk, ICloudDrive.frames]
  rw [ICloudDrive.descend, hframes, if_pos]
  rw [not_and_or, Nat.not_lt, not_not] at hbusy
  refine hbusy.imp_right fun hmem => ?_
  simp only [List.mem_append, List.mem_map, List.mem_singleton] at hmem
  rcases hmem with ⟨p, hp, rfl⟩ | rfl
  · exact ⟨⟨p.node, p.entered, drive.fingerprint (tree p.node)⟩,
      by simp [ICloudDrive.walk, ICloudDrive.frames]; exact .inl ⟨p, hp, rfl, rfl, rfl⟩, rfl⟩
  · exact ⟨⟨g, i, drive.fingerprint (tree g)⟩, by simp [ICloudDrive.walk, ICloudDrive.frames], rfl⟩

/-- A call that enters a folder. -/
theorem changes_enter {f g : String} {i : Nat} {first second : Listing}
    (h : drive.Sound tree (pre ++ [⟨f, i⟩])) (hid : ListableId g)
    (hfirst : Answers tree first f) (hsecond : Answers tree second g)
    (hchild : (children tree f)[i]? = some g) :
    (drive.Sound tree (pre ++ [⟨f, i + 1⟩] ++ [⟨g, 0⟩]) ∧ ∃ changes, changes.Perm (shown tree g) ∧
        drive.changes drive.scope (some (drive.cursor tree (pre ++ [⟨f, i⟩]))) first second =
          .ok ⟨changes, .continue (drive.cursor tree (pre ++ [⟨f, i + 1⟩] ++ [⟨g, 0⟩]))⟩) ∨
    (¬ drive.Sound tree (pre ++ [⟨f, i + 1⟩] ++ [⟨g, 0⟩]) ∧ ∃ message,
        drive.changes drive.scope (some (drive.cursor tree (pre ++ [⟨f, i⟩]))) first second =
          .error (.protocol message)) := by
  obtain ⟨items, hitems, hperm⟩ := hfirst
  obtain ⟨below, hbelow, hbelowPerm⟩ := hsecond
  have hlast : (drive.walk tree (pre ++ [⟨f, i⟩])).frames.getLast? =
      some ⟨f, i, drive.fingerprint (tree f)⟩ := by
    simp [ICloudDrive.walk, ICloudDrive.frames]
  have hf : (⟨f, i⟩ : Place String) ∈ pre ++ [⟨f, i⟩] := by simp
  have hlist : listFolder first f = .ok items := by rw [listFolder_eq _ (h.ids _ hf), hitems]
  have hlistBelow : listFolder second g = .ok below := by rw [listFolder_eq _ hid, hbelow]
  have hnext := @nextFolder_child drive tree pre f g i items (h.showable _ hf) hperm hchild
  rw [sound_enter_iff h hid, changes_next rfl (decode_cursor h) hlast hlist hnext]
  simp only [hlistBelow, bind, Except.bind]
  by_cases hfree : pre.length + 1 < maxDepth ∧ g ∉ pre.map Place.node ++ [f]
  · rcases nodes_cases g below with ⟨hshow, hnodes⟩ | ⟨hshow, message, hnodes⟩
    · have hshow : Showable (tree g) := hshow.of_perm hbelowPerm.symm
      simp only [descend_path hshow hbelowPerm hfree, hnodes]
      by_cases hfits : drive.Fits tree (pre ++ [⟨f, i + 1⟩] ++ [⟨g, 0⟩])
      · refine .inl ⟨⟨hfree, hshow, hfits⟩, _, ?_, continuePage_fits _ hfits⟩
        exact hbelowPerm.map _
      · exact .inr ⟨fun hgood => hfits hgood.2.2, _, continuePage_long _ hfits⟩
    · refine .inr ⟨fun hgood => hshow (hgood.2.1.of_perm hbelowPerm), ?_⟩
      cases hdescend : drive.descend (drive.walk tree (pre ++ [⟨f, i + 1⟩])) g below with
      | error e =>
        rw [ICloudDrive.descend] at hdescend
        split at hdescend
        · cases hdescend
          exact ⟨_, rfl⟩
        · cases hdescend
      | ok walk =>
        simp only [hnodes]
        exact ⟨_, rfl⟩
  · refine .inr ⟨fun hgood => hfree hgood.1, "iCloud folder ancestry is cyclic or too deep", ?_⟩
    simp only [descend_refused hfree]

/-- A call that leaves a folder. -/
theorem changes_leave {f : String} {i : Nat} {first second : Listing}
    (h : drive.Sound tree (pre ++ [⟨f, i⟩])) (hfirst : Answers tree first f)
    (hdone : (children tree f).length = i) :
    drive.changes drive.scope (some (drive.cursor tree (pre ++ [⟨f, i⟩]))) first second =
      if pre = [] then .ok ⟨[], .complete ⟨"snapshot-complete"⟩⟩
      else continuePage [] (drive.walk tree pre) := by
  obtain ⟨items, hitems, hperm⟩ := hfirst
  have hlast : (drive.walk tree (pre ++ [⟨f, i⟩])).frames.getLast? =
      some ⟨f, i, drive.fingerprint (tree f)⟩ := by
    simp [ICloudDrive.walk, ICloudDrive.frames]
  have hfront : (drive.walk tree (pre ++ [⟨f, i⟩])).frames.dropLast = drive.frames tree pre := by
    simp [ICloudDrive.walk, ICloudDrive.frames]
  have hf : (⟨f, i⟩ : Place String) ∈ pre ++ [⟨f, i⟩] := by simp
  have hlist : listFolder first f = .ok items := by rw [listFolder_eq _ (h.ids _ hf), hitems]
  have hnext := @nextFolder_done drive tree pre f i items (h.showable _ hf) hperm hdone
  have hnil : drive.frames tree pre = [] ↔ pre = [] := List.map_eq_nil_iff
  rw [changes_next rfl (decode_cursor h) hlast hlist hnext]
  simp only [hfront, hnil]
  rfl

end

end Cirrove.ICloud
