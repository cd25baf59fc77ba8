import Cirrove.ICloud.Resuming

/-!
# The feed

A snapshot of a tree of folders shows every item once, in two pages a folder, with a cursor of its
own on every page. A folder that changed while it was on the path, or that is below itself, ends the
snapshot before it is complete (`snapshot_walks`).
-/

namespace Cirrove.ICloud

open Cirrove.Library
open Cirrove.Google (ProviderError)

/-! ## Trees -/

/-- A finite tree of folders with ids of their own, all of them listable, below the depth limit and
with cursors below the length limit. -/
structure ICloudDrive.IsTree (drive : ICloudDrive) (tree : String → List DriveEntry) : Prop where
  ids : ∀ f, Reached tree f → ListableId f
  showable : ∀ f, Reached tree f → Showable (tree f)
  shallow : Shallow (children tree) 127 rootId
  unique : (rootId :: below (children tree) 127 rootId).Nodup
  start : drive.Fits tree [⟨rootId, 0⟩]
  fits : ∀ v ∈ visits (children tree) 127 [] rootId, drive.Fits tree v.1

section

variable {drive : ICloudDrive} {tree : String → List DriveEntry}

theorem ICloudDrive.IsTree.traversable (h : drive.IsTree tree) : drive.Traversable tree where
  start :=
    { root := rfl
      distinct := by simp
      ids := by simpa using h.ids rootId .refl
      showable := by simpa using h.showable rootId .refl
      depth := by decide
      fits := h.start }
  good :=
    { shallow := h.shallow
      sound := by
        intro v hv
        have hsub := visits_sublist (children tree) 127 [] rootId v hv
        have hreached : ∀ p ∈ v.1, Reached tree p.node := by
          intro p hp
          rcases List.mem_cons.mp (hsub.subset (List.mem_map_of_mem hp)) with heq | hbelow
          · exact heq ▸ .refl
          · exact (mem_below (children tree) hbelow).to_reflTransGen
        refine ⟨?_, hsub.nodup h.unique, fun p hp => h.ids _ (hreached p hp),
          fun p hp => h.showable _ (hreached p hp), ?_, h.fits v hv⟩
        · obtain ⟨entered, rest, hpath⟩ := visits_under (children tree) 127 [] rootId v hv
          rw [hpath]
          rfl
        · exact visits_length_le (children tree) 127 [] rootId v hv }

/-- Cursors of different paths differ. -/
theorem cursor_injective : Function.Injective (drive.cursor tree) := by
  intro a b h
  have hwalk := Walk.encoded_injective (Cursor.mk.inj h)
  have hframes : drive.frames tree a = drive.frames tree b := congrArg Walk.frames hwalk
  refine List.map_injective_iff.mpr ?_ hframes
  intro p q hpq
  cases p
  cases q
  simp only [Frame.mk.injEq] at hpq
  obtain ⟨rfl, rfl, -⟩ := hpq
  rfl

/-- The cursor of a complete snapshot is none of them. -/
theorem cursor_ne_complete (path : List (Place String)) :
    drive.cursor tree path ≠ ⟨"snapshot-complete"⟩ := by
  intro h
  have hfirst := congrArg (fun c : Cursor => c.value.toList.head?) h
  simp [ICloudDrive.cursor, Walk.encoded] at hfirst

section

variable {more : List ChangePage} {vs : List (List (Place String) × Option String)}

theorem checkpoints_of_shows (h : List.Forall₂ (drive.Shows tree) more vs) :
    more.map ChangePage.checkpoint = vs.map fun v => .continue (drive.cursor tree v.1) := by
  induction h with
  | nil => rfl
  | cons hpage _ ih => rw [List.map_cons, List.map_cons, hpage.checkpoint, ih]

theorem changes_of_shows (h : List.Forall₂ (drive.Shows tree) more vs) :
    (more.flatMap ChangePage.changes).Perm ((vs.filterMap Prod.snd).flatMap (shown tree)) := by
  induction h with
  | nil => exact .nil
  | @cons page v more vs hpage _ ih =>
    rw [List.flatMap_cons, List.filterMap_cons]
    have hchanges := hpage.changes
    cases hentered : v.2 with
    | none =>
      rw [hentered] at hchanges
      rw [hchanges.eq_nil]
      exact ih
    | some g =>
      rw [hentered] at hchanges
      exact hchanges.append ih

end

end

section

variable (drive : ICloudDrive)

/-- What the pages of a whole traversal are. -/
structure ICloudDrive.Walks (tree : String → List DriveEntry) (pages : List ChangePage) : Prop where
  length : pages.length = 2 * (below (children tree) 127 rootId).length + 2
  emits : ∃ rest, pages.flatMap ChangePage.changes = .upsert rootNode :: rest ∧
    rest.Perm ((rootId :: below (children tree) 127 rootId).flatMap (shown tree))
  distinct : (pages.map fun page => page.checkpoint.cursor).Nodup
  decodes : ∀ page ∈ pages, ∀ cursor, page.checkpoint = .continue cursor →
    (∃ walk, drive.decode cursor drive.scope = .ok walk) ∧
    ∀ scope ≠ drive.scope, ∃ message, drive.decode cursor scope = .error (.protocol message)

theorem walks_of_shows {tree : String → List DriveEntry} (htree : drive.Traversable tree)
    {changes : List Change} {more : List ChangePage}
    (hroot : changes.Perm (shown tree rootId))
    (hmore : List.Forall₂ (drive.Shows tree) more (visits (children tree) 127 [] rootId)) :
    drive.Walks tree (⟨.upsert rootNode :: changes,
      .continue (drive.cursor tree [⟨rootId, 0⟩])⟩ ::
        (more ++ [⟨[], .complete ⟨"snapshot-complete"⟩⟩])) := by
  have hcheckpoints := checkpoints_of_shows hmore
  refine ⟨?_, ?_, ?_, ?_⟩
  · rw [List.length_cons, List.length_append, hmore.length_eq, length_visits]
    rfl
  · refine ⟨changes ++ more.flatMap ChangePage.changes, by simp, ?_⟩
    rw [List.flatMap_cons, ← opened_visits (children tree) 127 [] rootId]
    exact hroot.append (changes_of_shows hmore)
  · have hcursors : more.map (fun page => page.checkpoint.cursor) =
        ((visits (children tree) 127 [] rootId).map Prod.fst).map (drive.cursor tree) := by
      have hread := congrArg (List.map Checkpoint.cursor) hcheckpoints
      simpa [Function.comp_def, Checkpoint.cursor] using hread
    rw [List.map_cons, List.map_append, hcursors, List.nodup_cons, List.nodup_append]
    refine ⟨?_, (visits_nodup (children tree) 127 [] rootId).map cursor_injective, ?_, ?_⟩
    · -- the traversal does not come back to its start
      intro hmem
      rcases List.mem_append.mp hmem with hmem | hmem
      · obtain ⟨path, hpath, heq⟩ := List.mem_map.mp hmem
        obtain ⟨v, hv, rfl⟩ := List.mem_map.mp hpath
        obtain ⟨entered, rest, hunder⟩ := visits_under (children tree) 127 [] rootId v hv
        have hstart := cursor_injective heq
        rw [hunder] at hstart
        simp at hstart
      · rw [List.map_singleton, List.mem_singleton] at hmem
        exact cursor_ne_complete _ hmem
    · exact List.nodup_singleton _
    · rintro cursor hcursor cursor' hcursor' rfl
      obtain ⟨path, -, rfl⟩ := List.mem_map.mp hcursor
      rw [List.map_singleton, List.mem_singleton] at hcursor'
      exact cursor_ne_complete _ hcursor'
  · have hstate : ∀ path, drive.Sound tree path →
        (∃ walk, drive.decode (drive.cursor tree path) drive.scope = .ok walk) ∧
        ∀ scope ≠ drive.scope, ∃ message,
          drive.decode (drive.cursor tree path) scope = .error (.protocol message) := by
      intro path hsound
      exact ⟨⟨_, decode_cursor hsound⟩, fun scope hscope => ⟨_, decode_other hsound.fits hscope⟩⟩
    intro page hpage cursor hcursor
    rcases List.mem_cons.mp hpage with rfl | hpage
    · rw [← Checkpoint.continue.inj hcursor]
      exact hstate _ htree.start
    rcases List.mem_append.mp hpage with hpage | hpage
    · have hmem := List.mem_map_of_mem (f := ChangePage.checkpoint) hpage
      rw [hcheckpoints] at hmem
      obtain ⟨v, hv, heq⟩ := List.mem_map.mp hmem
      rw [hcursor] at heq
      rw [← Checkpoint.continue.inj heq]
      exact hstate _ (htree.good.sound v hv)
    · rw [List.mem_singleton.mp hpage] at hcursor
      exact nomatch hcursor

/-- A snapshot of a tree walks it. One whose path changes, or leads back to itself, ends. -/
theorem snapshot_walks :
    (∀ tree calls, drive.IsTree tree → Serves tree calls →
      ∃ pages, drive.snapshot calls (2 * (below (children tree) 127 rootId).length + 2) =
        (pages, .complete) ∧ drive.Walks tree pages) ∧
    (∀ calls n pages cursor, drive.snapshot calls n = (pages, .waiting (some cursor)) →
      (∃ path o, drive.Stands calls n (path ++ [o])) ∧
      ∀ path o, drive.Stands calls n (path ++ [o]) →
        cursor = ⟨(drive.walkOf (path ++ [o])).encoded⟩ ∧
        ∀ items, listFolder (calls n).1 o.folder = .ok items → ¬ items.Perm o.listing →
          drive.sha.Separates (items.mergeSort entryLe) (o.listing.mergeSort entryLe) →
          (∃ e, drive.snapshot calls (n + 1) = (pages, .failed e) ∧
            (e = .cursorExpired ∨ ∃ message, e = .protocol message)) ∧
          ∀ m, (drive.snapshot calls m).2 ≠ .complete) ∧
    (∀ tree calls f, Serves tree calls → (∀ g, Reached tree g → ListableId g) → Reached tree f →
      Relation.TransGen (Child tree) f f →
      drive.Breaks calls ∧ ∀ m, (drive.snapshot calls m).2 ≠ .complete) := by
  refine ⟨?_, ?_, ?_⟩
  · intro tree calls htree hserves
    rcases snapshot_cases hserves htree.ids with ⟨-, changes, more, hroot, hmore, hrun⟩ | ⟨h, -⟩
    · exact ⟨_, hrun, walks_of_shows drive htree.traversable hroot hmore⟩
    · exact absurd htree.traversable h
  · intro calls n pages cursor hrun
    have hwaiting : (drive.snapshot calls n).2 = .waiting (some cursor) := by rw [hrun]
    refine ⟨exists_stands hwaiting, ?_⟩
    intro path o hstands
    have hcursor := stands_cursor hstands hwaiting
    refine ⟨hcursor, ?_⟩
    intro items hitems hdiffers hdigest
    obtain ⟨e, hcall, he⟩ := @changes_expired drive path o items (calls n).1
      (calls n).2 hitems hdiffers hdigest
    rw [← hcursor] at hcall
    have hfailed := snapshot_failed hrun hcall
    exact ⟨⟨e, hfailed, he⟩, failed_ne_complete hfailed⟩
  · intro tree calls f hserves hids hf hcycle
    rcases @snapshot_cases drive tree calls hserves hids with ⟨htree, -⟩ | ⟨-, hbreaks⟩
    · obtain ⟨depth, hshallow⟩ := shallow_of_reached (children tree) htree.good.shallow hf
      exact absurd hshallow (not_shallow_of_cycle (children tree) hcycle depth)
    · obtain ⟨n, pages, message, hfailed⟩ := hbreaks
      exact ⟨⟨n, pages, message, hfailed⟩, failed_ne_complete hfailed⟩

end

/-! ## Small trees -/

def sampleEntry (id name extension kind : String) (size : Nat) : DriveEntry where
  drivewsid := id
  docwsid := ""
  itemId := ""
  zone := ""
  name := name
  extension := extension
  parentId := ""
  etag := "e1"
  kind := kind
  size := size
  items := []
  numberOfItems := none

def folderA : DriveEntry := sampleEntry "FOLDER::zone::a" "A" "" "FOLDER" 0
def fileB : DriveEntry := sampleEntry "FILE::zone::b" "b" "txt" "FILE" 3
def folderSlash : DriveEntry := sampleEntry "FOLDER::zone::a/b" "A" "" "FOLDER" 0

/-- The digests of the listings below. -/
def sampleDigest (ids : List String) : String :=
  if ids = [] then "4f53cda18c2baa0c0354bb5f9a3ecbe5ed12ab4d8e11ba873c2f11161202b945"
  else if ids = ["FOLDER::zone::a"] then
    "90a93d6584d9c4222f0ca4797c4e90143a70a27d4186c39095f92096651b0acd"
  else if ids = ["FILE::zone::b"] then
    "cf97cde39621f98bc8e0bd49181137d96711391ff01c9b737b84ba9639991ec0"
  else "562e28e258aeaf73671fa685833ab3056543d60db790076ed6576fe7feb6696a"

noncomputable def sampleDrive : ICloudDrive where
  scope := ⟨"account", "icloud", "drive"⟩
  reader := .canonical
  sha :=
    { digest := fun items => sampleDigest (items.map DriveEntry.drivewsid)
      length_digest := by
        intro items
        unfold sampleDigest
        split_ifs <;> decide }

/-- A folder with a file. -/
def sampleTree (folder : String) : List DriveEntry :=
  if folder = rootId then [folderA] else if folder = "FOLDER::zone::a" then [fileB] else []

/-- A folder in itself. -/
def cyclicTree (folder : String) : List DriveEntry :=
  if folder = rootId then [folderA] else if folder = "FOLDER::zone::a" then [folderA] else []

/-- A folder the session does not list. -/
def slashTree (folder : String) : List DriveEntry :=
  if folder = rootId then [folderSlash] else []

def serving (tree : String → List DriveEntry) : Answer :=
  (fun folder => .ok (tree folder), fun folder => .ok (tree folder))

theorem serves_serving (tree : String → List DriveEntry) : Serves tree fun _ => serving tree :=
  fun _ _ _ => ⟨⟨_, rfl, .refl _⟩, ⟨_, rfl, .refl _⟩⟩

theorem subfolders_single {e : DriveEntry} :
    subfolders [e] = if e.isFolder then [e.drivewsid] else [] := by
  unfold subfolders
  by_cases h : e.isFolder = true
  · simp [h]
  · simp [h]

theorem showable_single {e : DriveEntry} (h : e.Showable ∧ e.drivewsid ≠ rootId) : Showable [e] where
  entries x hx := by
    rw [List.mem_singleton.mp hx]
    exact h
  distinct := List.nodup_singleton _

theorem rootId_listable : ListableId rootId := ⟨by decide, by decide, by decide⟩

theorem a_listable : ListableId "FOLDER::zone::a" := ⟨by decide, by decide, by decide⟩

section

variable {tree : String → List DriveEntry} {a : String}

/-- The folders of a tree with one folder, and with nothing else below it but itself. -/
theorem reached_single (hroot : children tree rootId = [a]) (ha : ∀ g ∈ children tree a, g = a) :
    ∀ f, Reached tree f → f = rootId ∨ f = a := by
  intro f hf
  induction hf with
  | refl => exact .inl rfl
  | tail _ hstep ih =>
    rcases ih with rfl | rfl
    · rw [hroot, List.mem_singleton] at hstep
      exact .inr hstep
    · exact .inr (ha _ hstep)

theorem visits_single (hroot : children tree rootId = [a]) (ha : children tree a = []) :
    visits (children tree) 127 [] rootId =
      [([⟨rootId, 1⟩, ⟨a, 0⟩], some a), ([⟨rootId, 1⟩], none)] := by
  rw [visits, hroot, turns, turns, visits_leaf ha]
  rfl

theorem below_single (hroot : children tree rootId = [a]) (ha : children tree a = []) :
    below (children tree) 127 rootId = [a] := by
  rw [below, hroot, List.flatMap_singleton, below_leaf ha]

theorem shallow_single (hroot : children tree rootId = [a]) (ha : children tree a = []) :
    Shallow (children tree) 127 rootId := by
  rw [Shallow, hroot]
  intro c hc
  rw [List.mem_singleton.mp hc]
  exact shallow_leaf ha _

end

theorem sampleTree_root : children sampleTree rootId = ["FOLDER::zone::a"] := by
  have hlist : sampleTree rootId = [folderA] := if_pos rfl
  rw [children, hlist, subfolders_single]
  rfl

theorem sampleTree_a : children sampleTree "FOLDER::zone::a" = [] := by
  have hlist : sampleTree "FOLDER::zone::a" = [fileB] := rfl
  rw [children, hlist, subfolders_single]
  rfl

theorem sampleDrive_folderA : sampleDrive.fingerprint [folderA] =
    "90a93d6584d9c4222f0ca4797c4e90143a70a27d4186c39095f92096651b0acd" := by
  rw [ICloudDrive.fingerprint, List.mergeSort_singleton]
  rfl

theorem sampleDrive_fileB : sampleDrive.fingerprint [fileB] =
    "cf97cde39621f98bc8e0bd49181137d96711391ff01c9b737b84ba9639991ec0" := by
  rw [ICloudDrive.fingerprint, List.mergeSort_singleton]
  rfl

theorem sampleTree_isTree : sampleDrive.IsTree sampleTree where
  ids f hf := by
    rcases reached_single sampleTree_root (by simp [sampleTree_a]) f hf with rfl | rfl
    · exact rootId_listable
    · exact a_listable
  showable f hf := by
    rcases reached_single sampleTree_root (by simp [sampleTree_a]) f hf with rfl | rfl
    · exact @showable_single folderA (by decide)
    · exact @showable_single fileB (by decide)
  shallow := shallow_single sampleTree_root sampleTree_a
  unique := by
    rw [below_single sampleTree_root sampleTree_a]
    decide
  start := by
    have hframes : sampleDrive.frames sampleTree [⟨rootId, 0⟩] = [⟨rootId, 0, _⟩] :=
      congrArg (fun digest => [Frame.mk rootId 0 digest]) sampleDrive_folderA
    rw [ICloudDrive.Fits, ICloudDrive.walk, hframes]
    decide +kernel
  fits := by
    have hframes : sampleDrive.frames sampleTree [⟨rootId, 1⟩, ⟨"FOLDER::zone::a", 0⟩] =
        [⟨rootId, 1, _⟩, ⟨"FOLDER::zone::a", 0, _⟩] :=
      congrArg₂ (fun first second => [Frame.mk rootId 1 first, ⟨"FOLDER::zone::a", 0, second⟩])
        sampleDrive_folderA sampleDrive_fileB
    have hback : sampleDrive.frames sampleTree [⟨rootId, 1⟩] = [⟨rootId, 1, _⟩] :=
      congrArg (fun digest => [Frame.mk rootId 1 digest]) sampleDrive_folderA
    rw [visits_single sampleTree_root sampleTree_a]
    intro v hv
    simp only [List.mem_cons, List.not_mem_nil, or_false] at hv
    rcases hv with rfl | rfl
    · rw [ICloudDrive.Fits, ICloudDrive.walk, hframes]
      decide +kernel
    · rw [ICloudDrive.Fits, ICloudDrive.walk, hback]
      decide +kernel

theorem cyclicTree_root : children cyclicTree rootId = ["FOLDER::zone::a"] := by
  have hlist : cyclicTree rootId = [folderA] := if_pos rfl
  rw [children, hlist, subfolders_single]
  rfl

theorem cyclicTree_a : children cyclicTree "FOLDER::zone::a" = ["FOLDER::zone::a"] := by
  have hlist : cyclicTree "FOLDER::zone::a" = [folderA] := rfl
  rw [children, hlist, subfolders_single]
  rfl

/-- The listings of a tree, and from the second call on of another. -/
def changing (tree tree' : String → List DriveEntry) (n : Nat) : Answer :=
  if n = 0 then serving tree else serving tree'

/-- A folder with a file is walked in four pages; emptied after the first page, or in itself, it is
not. -/
theorem sampleTree_walked :
    (∃ pages, sampleDrive.snapshot (fun _ => serving sampleTree) 4 = (pages, .complete) ∧
      sampleDrive.Walks sampleTree pages) ∧
    (∀ m, (sampleDrive.snapshot (changing sampleTree fun _ => []) m).2 ≠ .complete) ∧
    (∀ m, (sampleDrive.snapshot (fun _ => serving cyclicTree) m).2 ≠ .complete) := by
  refine ⟨?_, ?_, ?_⟩
  · have hwalk := (snapshot_walks sampleDrive).1 sampleTree _ sampleTree_isTree
      (serves_serving sampleTree)
    rw [below_single sampleTree_root sampleTree_a] at hwalk
    exact hwalk
  · rcases @first_cases sampleDrive sampleTree (changing sampleTree fun _ => [])
      ⟨_, rfl, .refl _⟩ rootId_listable with ⟨-, changes, -, hfirst⟩ | ⟨hbad, -⟩
    · have hroot : listFolder (changing sampleTree (fun _ => []) 0).1 rootId = .ok [folderA] := by
        rw [listFolder_eq _ rootId_listable]
        rfl
      have hlater : listFolder (changing sampleTree (fun _ => []) 1).1 rootId = .ok [] := by
        rw [listFolder_eq _ rootId_listable]
        rfl
      have hstands := ICloudDrive.Stands.root (congrArg Prod.snd hfirst) hroot
      refine (((snapshot_walks sampleDrive).2.1 _ 1 _ _ hfirst).2 [] _ hstands).2 [] hlater ?_ ?_ |>.2
      · exact fun hperm => absurd hperm.length_eq (by decide)
      · intro hsame
        rw [List.mergeSort_nil, List.mergeSort_singleton] at hsame
        exact absurd hsame (by decide)
    · exact absurd sampleTree_isTree.traversable.start hbad
  · have hcycle : Relation.TransGen (Child cyclicTree) "FOLDER::zone::a" "FOLDER::zone::a" :=
      .single (by rw [Child, cyclicTree_a]; exact List.mem_singleton_self _)
    refine ((snapshot_walks sampleDrive).2.2 cyclicTree _ _ (serves_serving cyclicTree) ?_ ?_
      hcycle).2
    · intro g hg
      rcases reached_single cyclicTree_root (by simp [cyclicTree_a]) g hg with rfl | rfl
      · exact rootId_listable
      · exact a_listable
    · exact .single (by rw [cyclicTree_root]; exact List.mem_singleton_self _)

theorem slashTree_root : children slashTree rootId = ["FOLDER::zone::a/b"] := by
  have hlist : slashTree rootId = [folderSlash] := if_pos rfl
  rw [children, hlist, subfolders_single]
  rfl

theorem slashTree_slash : children slashTree "FOLDER::zone::a/b" = [] := by
  have hlist : slashTree "FOLDER::zone::a/b" = [] := rfl
  rw [children, hlist, subfolders]
  simp

/-- A folder whose id has a slash is not walked. -/
theorem slashTree_unwalked :
    (∀ f, Reached slashTree f → "FOLDER::".toList.isPrefixOf f.toList = true ∧
      f.utf8ByteSize ≤ 512 ∧ Showable (slashTree f)) ∧
    Shallow (children slashTree) 127 rootId ∧
    (rootId :: below (children slashTree) 127 rootId).Nodup ∧
    Serves slashTree (fun _ => serving slashTree) ∧
    ∀ m, (sampleDrive.snapshot (fun _ => serving slashTree) m).2 ≠ .complete := by
  refine ⟨?_, shallow_single slashTree_root slashTree_slash, ?_, serves_serving slashTree, ?_⟩
  · intro f hf
    rcases reached_single slashTree_root (by simp [slashTree_slash]) f hf with rfl | rfl
    · exact ⟨by decide, by decide, @showable_single folderSlash (by decide)⟩
    · exact ⟨by decide, by decide, ⟨by simp [slashTree, rootId], by simp [slashTree, rootId]⟩⟩
  · rw [below_single slashTree_root slashTree_slash]
    decide
  · rcases @first_cases sampleDrive slashTree (fun _ => serving slashTree)
      ⟨_, rfl, .refl _⟩ rootId_listable with ⟨hstart, changes, -, hfirst⟩ | ⟨-, hbreaks⟩
    · have hstart : sampleDrive.Sound slashTree ([] ++ [⟨rootId, 0⟩]) := hstart
      have hlist : listFolder (serving slashTree).1 rootId = .ok (slashTree rootId) :=
        listFolder_eq _ rootId_listable
      have hnext := @nextFolder_child sampleDrive slashTree [] rootId _ 0 _
        (hstart.showable ⟨rootId, 0⟩ (by simp)) (.refl _) (by rw [slashTree_root]; rfl)
      have hcall := @changes_next sampleDrive sampleDrive.scope _ (serving slashTree).1
        (serving slashTree).2 _ _ ⟨rootId, 0, _⟩ _ _ rfl (decode_cursor hstart) rfl hlist hnext
      have hrefused : listFolder (serving slashTree).2 "FOLDER::zone::a/b" = .error .unavailable :=
        if_pos (by decide)
      simp only [hrefused, bind, Except.bind] at hcall
      exact failed_ne_complete (snapshot_failed hfirst hcall)
    · obtain ⟨n, pages, message, hfailed⟩ := hbreaks
      exact failed_ne_complete hfailed

end Cirrove.ICloud
