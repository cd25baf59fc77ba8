import Cirrove.ICloud.Snapshot

/-!
# Snapshots that are resumed

What a cursor stands for whatever the service answers: the folders on the path, each with the
listing it had when it was entered. Where the top folder is listed differently, the snapshot ends.
-/

namespace Cirrove.ICloud

open Cirrove.Library
open Cirrove.Google (ProviderError)

/-! ## Paths with listings -/

/-- A folder on the path, with the listing it had when it was entered. -/
structure Opened where
  folder : String
  nextFolder : Nat
  listing : List DriveEntry

def Opened.frame (drive : ICloudDrive) (o : Opened) : Frame :=
  ⟨o.folder, o.nextFolder, drive.fingerprint o.listing⟩

/-- The walk of a path. -/
def ICloudDrive.walkOf (drive : ICloudDrive) (path : List Opened) : Walk :=
  ⟨drive.scope, path.map (Opened.frame drive)⟩

/-- The path of a snapshot that waits after some calls, told from what the calls were answered. -/
inductive ICloudDrive.Stands (drive : ICloudDrive) (calls : Nat → Answer) :
    Nat → List Opened → Prop where
  | root {cursor : Cursor} {items : List DriveEntry} :
      (drive.snapshot calls 1).2 = .waiting (some cursor) →
      listFolder (calls 0).1 rootId = .ok items →
      drive.Stands calls 1 [⟨rootId, 0, items⟩]
  | enter {n : Nat} {cursor : Cursor} {path : List Opened} {o : Opened}
      {items below : List DriveEntry} {g : String} :
      drive.Stands calls n (path ++ [o]) →
      (drive.snapshot calls (n + 1)).2 = .waiting (some cursor) →
      listFolder (calls n).1 o.folder = .ok items →
      (subfolders items)[o.nextFolder]? = some g →
      listFolder (calls n).2 g = .ok below →
      drive.Stands calls (n + 1) (path ++ [{ o with nextFolder := o.nextFolder + 1 }, ⟨g, 0, below⟩])
  | leave {n : Nat} {cursor : Cursor} {path : List Opened} {o : Opened}
      {items : List DriveEntry} :
      drive.Stands calls n (path ++ [o]) →
      (drive.snapshot calls (n + 1)).2 = .waiting (some cursor) →
      listFolder (calls n).1 o.folder = .ok items →
      (subfolders items)[o.nextFolder]? = none →
      drive.Stands calls (n + 1) path

/-- Two ordered listings the digest tells apart when they differ. -/
def Digest.Separates (sha : Digest) (a b : List DriveEntry) : Prop :=
  sha.digest a = sha.digest b → a = b

/-! ## What a call did -/

section

variable {drive : ICloudDrive} {calls : Nat → Answer} {n : Nat} {pages : List ChangePage}

theorem checkFrames_error {seen : List String} {frames : List Frame} {e : ProviderError}
    (h : checkFrames seen frames = .error e) : ∃ message, e = .protocol message := by
  induction frames generalizing seen with
  | nil => cases h
  | cons f rest ih =>
    rw [checkFrames] at h
    split at h
    · exact ih h
    · cases h
      exact ⟨_, rfl⟩

theorem decode_error {cursor : Cursor} {scope : Scope} {e : ProviderError}
    (h : drive.decode cursor scope = .error e) : ∃ message, e = .protocol message := by
  unfold ICloudDrive.decode at h
  split at h
  · cases h
    exact ⟨_, rfl⟩
  split at h
  · cases h
    exact ⟨_, rfl⟩
  next walk _ =>
    split at h
    · cases h
      exact ⟨_, rfl⟩
    · cases hcheck : checkFrames [] walk.frames with
      | error e' =>
        rw [hcheck] at h
        cases h
        exact checkFrames_error hcheck
      | ok _ =>
        rw [hcheck] at h
        cases h

/-- A cursor is read as the walk that was written. -/
theorem decode_encoded {w w' : Walk} {scope : Scope}
    (h : drive.decode ⟨w.encoded⟩ scope = .ok w') : w' = w := by
  unfold ICloudDrive.decode at h
  rw [drive.reader.reads w] at h
  split at h
  · cases h
  simp only at h
  split at h
  · cases h
  cases hcheck : checkFrames [] w.frames with
  | error e =>
    rw [hcheck] at h
    cases h
  | ok _ =>
    rw [hcheck] at h
    cases h
    rfl

theorem continuePage_ok {changes : List Change} {w : Walk} {page : ChangePage}
    (h : continuePage changes w = .ok page) : page = ⟨changes, .continue ⟨w.encoded⟩⟩ := by
  obtain ⟨cursor, hcursor, h⟩ := bind_eq_ok h
  have hwritten : cursor = ⟨w.encoded⟩ := by
    unfold Walk.encode at hcursor
    split at hcursor
    · exact nomatch hcursor
    · exact (Except.ok.inj hcursor).symm
  rw [← Except.ok.inj h, hwritten]

/-- What a call that made a page went through. -/
theorem changes_ok {path : List Opened} {o : Opened} {first second : Listing} {page : ChangePage}
    (h : drive.changes drive.scope (some ⟨(drive.walkOf (path ++ [o])).encoded⟩) first second =
      .ok page) :
    ∃ items, listFolder first o.folder = .ok items ∧
      drive.fingerprint items = drive.fingerprint o.listing ∧
      ((∃ g below, (subfolders items)[o.nextFolder]? = some g ∧ listFolder second g = .ok below ∧
          page.checkpoint = .continue ⟨(drive.walkOf
            (path ++ [{ o with nextFolder := o.nextFolder + 1 }, ⟨g, 0, below⟩])).encoded⟩) ∨
        ((subfolders items)[o.nextFolder]? = none ∧
          (path = [] ∧ page.checkpoint = .complete ⟨"snapshot-complete"⟩ ∨
            path ≠ [] ∧ page.checkpoint = .continue ⟨(drive.walkOf path).encoded⟩))) := by
  have hlast : (drive.walkOf (path ++ [o])).frames.getLast? = some (o.frame drive) := by
    simp [ICloudDrive.walkOf]
  have hfront : (drive.walkOf (path ++ [o])).frames.dropLast = path.map (Opened.frame drive) := by
    simp [ICloudDrive.walkOf]
  unfold ICloudDrive.changes at h
  rw [if_neg (not_not_intro rfl)] at h
  obtain ⟨w, hdecode, h⟩ := bind_eq_ok h
  cases decode_encoded hdecode
  simp only [hlast] at h
  obtain ⟨items, hitems, h⟩ := bind_eq_ok h
  obtain ⟨⟨w', next⟩, hnext, h⟩ := bind_eq_ok h
  unfold ICloudDrive.nextFolder at hnext
  simp only [hlast] at hnext
  split at hnext
  · cases hnext
  next hsame =>
  refine ⟨items, hitems, not_not.mp hsame, ?_⟩
  split at hnext
  · cases hnext
  split at hnext
  · next hnone =>
    cases hnext
    simp only [hfront] at h
    refine .inr ⟨hnone, ?_⟩
    split at h
    · next hnil =>
      cases h
      exact .inl ⟨List.map_eq_nil_iff.mp hnil, rfl⟩
    · next hnil =>
      rw [continuePage_ok h]
      exact .inr ⟨fun heq => hnil (List.map_eq_nil_iff.mpr heq), rfl⟩
  · next g hg =>
    cases hnext
    obtain ⟨below, hbelow, h⟩ := bind_eq_ok h
    obtain ⟨w', hdescend, h⟩ := bind_eq_ok h
    obtain ⟨shown, -, h⟩ := bind_eq_ok h
    rw [continuePage_ok h]
    unfold ICloudDrive.descend at hdescend
    split at hdescend
    · cases hdescend
    · cases hdescend
      refine .inl ⟨g, below, hg, hbelow, ?_⟩
      simp [ICloudDrive.walkOf, Opened.frame]

/-- The call before a page. -/
theorem snapshot_waiting {cursor : Option Cursor}
    (h : (drive.snapshot calls (n + 1)).2 = .waiting cursor) :
    ∃ pages before page next, drive.snapshot calls n = (pages, .waiting before) ∧
      drive.changes drive.scope before (calls n).1 (calls n).2 = .ok page ∧
      cursor = some next ∧ page.checkpoint = .continue next := by
  rw [ICloudDrive.snapshot] at h
  rcases hbefore : drive.snapshot calls n with ⟨pages, progress⟩
  cases progress with
  | complete =>
    rw [hbefore] at h
    cases h
  | failed e =>
    rw [hbefore] at h
    cases h
  | waiting before =>
    rw [hbefore] at h
    simp only [ICloudDrive.call] at h
    split at h
    · cases h
    next page hpage =>
    split at h
    · next next hnext =>
      cases h
      exact ⟨pages, before, page, next, rfl, hpage, rfl, hnext⟩
    · cases h

/-! ## Where a snapshot stands -/

theorem ICloudDrive.Stands.waiting {path : List Opened} (h : drive.Stands calls n path) :
    ∃ cursor, (drive.snapshot calls n).2 = .waiting (some cursor) := by
  cases h with
  | root hnow _ => exact ⟨_, hnow⟩
  | enter _ hnow _ _ _ => exact ⟨_, hnow⟩
  | leave _ hnow _ _ => exact ⟨_, hnow⟩

/-- The cursor of a snapshot that stands at a path. -/
theorem stands_cursor {path : List Opened} (h : drive.Stands calls n path) {cursor : Cursor}
    (hwaiting : (drive.snapshot calls n).2 = .waiting (some cursor)) :
    cursor = ⟨(drive.walkOf path).encoded⟩ := by
  induction h generalizing cursor with
  | @root _ items _ hitems =>
    obtain ⟨pages, before, page, next, hbefore, hpage, heq, hnext⟩ := snapshot_waiting hwaiting
    have hnone : none = before := Standing.waiting.inj (congrArg Prod.snd hbefore)
    subst hnone
    rw [changes_first hitems] at hpage
    obtain ⟨shown, -, hpage⟩ := bind_eq_ok hpage
    rw [continuePage_ok hpage] at hnext
    rw [Option.some.inj heq, ← Checkpoint.continue.inj hnext]
    rfl
  | @enter n _ path o items below g hstands _ hitems hg hbelow ih =>
    obtain ⟨pages, before, page, next, hbefore, hpage, heq, hnext⟩ := snapshot_waiting hwaiting
    obtain ⟨last, hlast⟩ := hstands.waiting
    have hcursor := ih hlast
    rw [hbefore] at hlast
    rw [Standing.waiting.inj hlast, hcursor] at hpage
    obtain ⟨items', hitems', -, ⟨g', below', hg', hbelow', hcheckpoint⟩ | ⟨hnone, -⟩⟩ :=
      changes_ok hpage
    · rw [hitems] at hitems'
      rw [← Except.ok.inj hitems', hg] at hg'
      rw [← Option.some.inj hg', hbelow] at hbelow'
      rw [hnext, ← Option.some.inj hg', ← Except.ok.inj hbelow'] at hcheckpoint
      rw [Option.some.inj heq, Checkpoint.continue.inj hcheckpoint]
    · rw [hitems] at hitems'
      rw [← Except.ok.inj hitems', hg] at hnone
      exact nomatch hnone
  | @leave n _ path o items hstands _ hitems hnone ih =>
    obtain ⟨pages, before, page, next, hbefore, hpage, heq, hnext⟩ := snapshot_waiting hwaiting
    obtain ⟨last, hlast⟩ := hstands.waiting
    have hcursor := ih hlast
    rw [hbefore] at hlast
    rw [Standing.waiting.inj hlast, hcursor] at hpage
    obtain ⟨items', hitems', -, ⟨g, below, hg, -⟩ | ⟨-, ⟨-, hcheckpoint⟩ | ⟨-, hcheckpoint⟩⟩⟩ :=
      changes_ok hpage
    · rw [hitems] at hitems'
      rw [← Except.ok.inj hitems', hnone] at hg
      exact nomatch hg
    · rw [hnext] at hcheckpoint
      exact nomatch hcheckpoint
    · rw [hnext] at hcheckpoint
      rw [Option.some.inj heq, Checkpoint.continue.inj hcheckpoint]

/-- A snapshot that waits with a cursor stands somewhere. -/
theorem exists_stands {cursor : Cursor}
    (hwaiting : (drive.snapshot calls n).2 = .waiting (some cursor)) :
    ∃ path o, drive.Stands calls n (path ++ [o]) := by
  induction n generalizing cursor with
  | zero => exact nomatch Standing.waiting.inj hwaiting
  | succ n ih =>
    obtain ⟨pages, before, page, next, hbefore, hpage, heq, hnext⟩ := snapshot_waiting hwaiting
    cases before with
    | none =>
      have hzero : n = 0 := by
        cases n with
        | zero => rfl
        | succ n =>
          obtain ⟨_, _, _, _, -, -, hsome, -⟩ := snapshot_waiting (congrArg Prod.snd hbefore)
          exact nomatch hsome
      subst hzero
      unfold ICloudDrive.changes at hpage
      rw [if_neg (not_not_intro rfl)] at hpage
      obtain ⟨items, hitems, -⟩ := bind_eq_ok hpage
      exact ⟨[], _, .root hwaiting hitems⟩
    | some before =>
      have hlast : (drive.snapshot calls n).2 = .waiting (some before) := by rw [hbefore]
      obtain ⟨path, o, hstands⟩ := ih hlast
      rw [stands_cursor hstands hlast] at hpage
      obtain ⟨items, hitems, -, ⟨g, below, hg, hbelow, -⟩ |
        ⟨hnone, ⟨-, hcheckpoint⟩ | ⟨hpath, -⟩⟩⟩ := changes_ok hpage
      · exact ⟨path ++ [_], _, by
          rw [List.append_assoc]
          exact .enter hstands hwaiting hitems hg hbelow⟩
      · rw [hnext] at hcheckpoint
        exact nomatch hcheckpoint
      · have hstands := hstands.leave hwaiting hitems hnone
        rw [← List.dropLast_append_getLast hpath] at hstands
        exact ⟨_, _, hstands⟩

/-- The call after the top folder changed. -/
theorem changes_expired {path : List Opened} {o : Opened} {items : List DriveEntry}
    {first second : Listing} (hitems : listFolder first o.folder = .ok items)
    (hdiffers : ¬ items.Perm o.listing)
    (hdigest : drive.sha.Separates (items.mergeSort entryLe) (o.listing.mergeSort entryLe)) :
    ∃ e, drive.changes drive.scope (some ⟨(drive.walkOf (path ++ [o])).encoded⟩) first second =
        .error e ∧ (e = .cursorExpired ∨ ∃ message, e = .protocol message) := by
  have hlast : (drive.walkOf (path ++ [o])).frames.getLast? = some (o.frame drive) := by
    simp [ICloudDrive.walkOf]
  have hchanged : drive.fingerprint items ≠ (o.frame drive).fingerprint := by
    intro hsame
    apply hdiffers
    have hsorted := hdigest hsame
    exact (List.mergeSort_perm items entryLe).symm.trans
      (hsorted ▸ List.mergeSort_perm o.listing entryLe)
  unfold ICloudDrive.changes
  rw [if_neg (not_not_intro rfl)]
  cases hdecode : drive.decode ⟨(drive.walkOf (path ++ [o])).encoded⟩ drive.scope with
  | error e =>
    exact ⟨e, by simp only [hdecode, bind, Except.bind], .inr (decode_error hdecode)⟩
  | ok w =>
    cases decode_encoded hdecode
    have hnext : drive.nextFolder (drive.walkOf (path ++ [o])) items = .error .cursorExpired := by
      rw [ICloudDrive.nextFolder, hlast]
      exact if_pos hchanged
    have hlist : listFolder first (o.frame drive).folder = .ok items := hitems
    refine ⟨.cursorExpired, ?_, .inl rfl⟩
    simp only [hdecode, bind, Except.bind, hlast, hlist, hnext]

end

end Cirrove.ICloud
