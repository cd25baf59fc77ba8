import Cirrove.ICloud.Sealed
import Cirrove.Library.Runs

/-!
# What survives an interruption

A key in the keyring always has its file: the first save writes the file before the key, a removal
takes the key first, and a later save replaces the file under the key that is there (`Holds`). The
owner of a session knows every content its file can have (`ExistingSession.Holds`).

Each operation has one rule (`ends_…`) that says where it may end, `step_sound` is one call of a
run, and `sealed_survives` is about every run.
-/

namespace Cirrove.ICloud.Sealed

open Cirrove.Library
open Cirrove.Library.Faulty

variable {Key : Type} {v : Vault Key} {w w' : World Key}

/-- The file opens under a key, and has this value. -/
structure Readable (v : Vault Key) (w : World Key) (key : Key) (value : String) : Prop where
  file : w.file = some ⟨key, v.aad, value⟩
  size : (⟨key, v.aad, value⟩ : SealedFile Key).size ≤ maxSealedBytes

/-- What a load returns, failures apart. -/
def Holds (v : Vault Key) (w : World Key) (value : Option String) : Prop :=
  match w.keyring with
  | none => value = none
  | some saved =>
    match v.key saved with
    | .error _ => False
    | .ok none => value = some saved
    | .ok (some key) => ∃ text, Readable v w key text ∧ value = some text

/-- What a session remembers fits its file. -/
structure ExistingSession.Holds (v : Vault Key) (w : World Key) (b : ExistingSession Key)
    (value : String) : Prop where
  keyring : ∃ saved, w.keyring = some saved ∧ v.key saved = .ok (some b.key)
  directory : w.directory = some b.directory
  file : Readable v w b.key value
  known : value = b.expected ∨ b.attempted = some value

/-! ## Keys -/

theorem stripPrefix_append (start s : String) : stripPrefix start (start ++ s) = some s := by
  rw [stripPrefix, String.toList_append, if_pos (List.prefix_append _ _), List.drop_left,
    String.ofList_toList]

theorem key_sealedKey (v : Vault Key) (key : Key) : v.key (v.sealedKey key) = .ok (some key) := by
  rw [Vault.key, Vault.sealedKey, stripPrefix_append]
  dsimp only
  rw [v.text.decode_encode]

/-! ## Steps -/

section Steps

variable {α : Type} {key : Key} {value : String}

theorem ends_touch {post : Ended SealError Unit → World Key → Prop} (hok : post (.ok ()) w)
    (hio : post (.error .io) w) (hdied : post .died w) : (touch : Op Key Unit).Ends w post :=
  ends_read hok hio hdied

theorem ends_keyringLoad {post : Ended SealError (Option String) → World Key → Prop}
    (hok : post (.ok w.keyring) w) (hio : post (.error .io) w) (hdied : post .died w) :
    (keyringLoad : Op Key (Option String)).Ends w post :=
  ends_read hok hio hdied

theorem ends_existingDirectory {post : Ended SealError Nat → World Key → Prop}
    (hok : ∀ directory, w.directory = some directory → post (.ok directory) w)
    (hio : post (.error .io) w) (hdied : post .died w) :
    (Vault.existingDirectory : Op Key Nat).Ends w post := by
  apply ends_bind
  refine ends_read ?_ hio hdied
  show Ends _ w post
  cases hdirectory : w.directory with
  | none => exact ends_fail hio
  | some directory => exact ends_pure (hok directory hdirectory)

theorem ends_readSealed [DecidableEq Key] {post : Ended SealError String → World Key → Prop}
    (h : Readable v w key value) (hok : post (.ok value) w) (hio : post (.error .io) w)
    (hdied : post .died w) : (v.readSealed key).Ends w post := by
  apply ends_bind
  refine ends_read ?_ hio hdied
  show Ends _ w post
  simp only [h.file, Nat.not_lt.mpr h.size, if_false, and_self, if_true]
  exact ends_pure hok

theorem ends_loadWith [DecidableEq Key] {r : Option String}
    {post : Ended SealError (Option String) → World Key → Prop}
    (h : Holds v w r) (hok : post (.ok r) w) (hio : post (.error .io) w) (hdied : post .died w) :
    v.loadWith.Ends w post := by
  rw [Holds] at h
  apply ends_bind
  refine ends_keyringLoad ?_ hio hdied
  show Ends _ w post
  split at h
  · next hkeyring =>
    rw [hkeyring]
    subst h
    exact ends_pure hok
  · next saved hkeyring =>
    rw [hkeyring]
    split at h
    · exact h.elim
    · next hkey =>
      subst h
      apply ends_bind
      rw [hkey]
      exact ends_pure (ends_pure hok)
    · next key hkey =>
      obtain ⟨text, hfile, rfl⟩ := h
      apply ends_bind
      rw [hkey]
      apply ends_pure
      apply ends_bind
      exact ends_readSealed hfile (ends_pure hok) hio hdied

/-! ## Writing the file -/

/-- The keyring, the directory and what the session knows are as they were. -/
structure Beside (w w' : World Key) : Prop where
  keyring : w'.keyring = w.keyring
  directory : ∀ directory, w.directory = some directory → w'.directory = some directory
  bound : w'.bound = w.bound

/-- A write has not taken effect. An occupied slot stays so. -/
structure Unpublished (w w' : World Key) : Prop extends Beside w w' where
  file : w'.file = w.file
  pending : w.pending = true → w'.pending = true

/-- The file has its new content. The slot was free. -/
structure Published (v : Vault Key) (key : Key) (value : String) (w w' : World Key) : Prop
    extends Beside w w' where
  readable : Readable v w' key value
  free : w.pending = false

/-- How a write ends. Only these errors come from it. -/
def Written (v : Vault Key) (key : Key) (value : String) (w : World Key) :
    Ended SealError Unit → World Key → Prop
  | .ok _, w' => Published v key value w w'
  | .error e, w' => (e = .io ∨ e = .tooLarge ∨ e = .occupied) ∧
      (Unpublished w w' ∨ Published v key value w w')
  | .died, w' => Unpublished w w' ∨ Published v key value w w'

theorem Beside.refl : Beside w w := ⟨rfl, fun _ h => h, rfl⟩

theorem Beside.trans {u : World Key} (h : Beside w u) (h' : Beside u w') : Beside w w' :=
  ⟨h'.keyring.trans h.keyring, fun d hd => h'.directory d (h.directory d hd),
    h'.bound.trans h.bound⟩

theorem Unpublished.refl : Unpublished w w := ⟨Beside.refl, rfl, fun h => h⟩

/-- Giving the slot the file's name is all or nothing. -/
theorem ends_publish {file : SealedFile Key} {post : Ended SealError Unit → World Key → Prop}
    (hok : post (.ok ()) { w with file := some file, pending := false })
    (hsame : ∀ r, r = .error .io ∨ r = .died → post r w)
    (hdone : ∀ r, r = .error .io ∨ r = .died → post r { w with file := some file, pending := false }) :
    (Vault.publish file).Ends w post := by
  have hio := hsame _ (.inl rfl)
  have hdied := hsame _ (.inr rfl)
  apply ends_bind
  refine ends_touch ?_ hio hdied
  apply ends_bind
  refine ends_touch ?_ hio hdied
  apply ends_bind
  refine ends_touch ?_ hio hdied
  apply ends_bind
  refine ends_touch ?_ hio hdied
  show Ends _ w post
  refine ends_step hok ?_ ?_
  · rintro t (rfl | rfl)
    · exact hio
    · exact hdone _ (.inl rfl)
  · rintro t (rfl | rfl)
    · exact hdied
    · exact hdone _ (.inr rfl)

/-- The slot is given up, if that can be done. -/
theorem ends_free {u : World Key} (h : Unpublished w u ∨ Published v key value w u)
    (h' : Unpublished w { u with pending := false } ∨
      Published v key value w { u with pending := false }) :
    Ends (do
      let _ ← attempt (step SealError.io fun w : World Key => ((), { w with pending := false }))
      fail .io) u (Written v key value w) := by
  have hboth : ∀ t, t = u ∨ t = { u with pending := false } →
      Unpublished w t ∨ Published v key value w t := by
    rintro t (rfl | rfl)
    · exact h
    · exact h'
  apply ends_bind
  apply ends_attempt
  refine ends_step ?_ (fun t ht => ?_) hboth
  · exact ends_fail ⟨.inl rfl, h'⟩
  · exact ends_fail ⟨.inl rfl, hboth t ht⟩

theorem ends_writeExisting : (v.writeExisting key value).Ends w (Written v key value w) := by
  have hsame : ∀ e, e = .io ∨ e = .tooLarge ∨ e = .occupied →
      Written v key value w (.error e) w := fun e he => ⟨he, .inl Unpublished.refl⟩
  have hio := hsame .io (.inl rfl)
  have hdied : Written v key value w .died w := .inl Unpublished.refl
  apply ends_bind
  refine ends_existingDirectory (fun directory _ => ?_) hio hdied
  apply ends_bind
  refine ends_touch ?_ hio hdied
  show Ends _ w _
  dsimp only
  split
  · exact ends_fail (hsame _ (.inr (.inl rfl)))
  next hsize =>
  apply ends_bind
  -- what the slot is like once it has been asked for
  have hoccupied : Unpublished w { w with pending := true } :=
    ⟨⟨rfl, fun _ h => h, rfl⟩, rfl, fun _ => rfl⟩
  apply ends_bind
  refine ends_step ?_ ?_ ?_
  · show Ends _ _ _
    by_cases hpending : w.pending = true
    · rw [hpending]
      exact ends_fail ⟨.inr (.inr rfl), .inl hoccupied⟩
    have hfree : w.pending = false := Bool.eq_false_iff.mpr hpending
    rw [hfree]
    apply ends_pure
    show Ends _ _ _
    apply ends_bind
    have hdone : Published v key value w
        { w with file := some ⟨key, v.aad, value⟩, pending := false } :=
      ⟨⟨rfl, fun _ h => h, rfl⟩, ⟨rfl, Nat.not_lt.mp hsize⟩, hfree⟩
    apply ends_attempt
    apply ends_publish
    · exact ends_touch hdone ⟨.inl rfl, .inr hdone⟩ (.inr hdone)
    · rintro r (rfl | rfl)
      · exact ends_free (.inl hoccupied) (.inl ⟨⟨rfl, fun _ h => h, rfl⟩, rfl, fun h => by
          rw [hfree] at h
          cases h⟩)
      · exact .inl hoccupied
    · rintro r (rfl | rfl)
      · exact ends_free (.inr hdone) (.inr hdone)
      · exact .inr hdone
  · rintro t (rfl | rfl)
    · exact hio
    · exact ⟨.inl rfl, .inl hoccupied⟩
  · rintro t (rfl | rfl)
    · exact hdied
    · exact .inl hoccupied

theorem Unpublished.beside {u : World Key} (h : Unpublished u w') (hbeside : Unpublished w u) :
    Unpublished w w' :=
  ⟨hbeside.toBeside.trans h.toBeside, h.file.trans hbeside.file,
    fun hp => h.pending (hbeside.pending hp)⟩

theorem Published.beside {u : World Key} (h : Published v key value u w')
    (hbeside : Beside w u) (hpending : u.pending = w.pending) : Published v key value w w' :=
  ⟨hbeside.trans h.toBeside, h.readable, hpending ▸ h.free⟩

theorem ends_writeSealed : (v.writeSealed key value).Ends w (Written v key value w) := by
  have hcreated : Unpublished w { w with directory := some (w.directory.getD v.directory) } := by
    refine ⟨⟨rfl, fun directory hdirectory => ?_, rfl⟩, rfl, fun h => h⟩
    rw [hdirectory]
    rfl
  apply ends_bind
  refine ends_step ?_ ?_ ?_
  · show Ends _ _ _
    apply ends_writeExisting.mono
    intro r t ht
    have hends : ∀ t, (Unpublished { w with directory := some (w.directory.getD v.directory) } t ∨
        Published v key value { w with directory := some (w.directory.getD v.directory) } t) →
        Unpublished w t ∨ Published v key value w t := by
      rintro t (h | h)
      · exact .inl (h.beside hcreated)
      · exact .inr (h.beside hcreated.toBeside rfl)
    cases r with
    | ok a => exact ht.beside hcreated.toBeside rfl
    | error e => exact ⟨ht.1, hends t ht.2⟩
    | died => exact hends t ht
  · rintro t (rfl | rfl)
    · exact ⟨.inl rfl, .inl Unpublished.refl⟩
    · exact ⟨.inl rfl, .inl hcreated⟩
  · rintro t (rfl | rfl)
    · exact .inl Unpublished.refl
    · exact .inl hcreated

/-! ## Saving and removing -/

theorem Holds.congr {r : Option String} (h : Holds v w r) (hkeyring : w'.keyring = w.keyring)
    (hfile : w'.file = w.file) : Holds v w' r := by
  rw [Holds, hkeyring]
  rw [Holds] at h
  split at h
  · exact h
  · split at h
    · exact h.elim
    · exact h
    · obtain ⟨text, hreadable, rfl⟩ := h
      exact ⟨text, ⟨hfile.trans hreadable.file, hreadable.size⟩, rfl⟩

/-- There is one value to load. -/
theorem Holds.unique {r r' : Option String} (h : Holds v w r) (h' : Holds v w r') : r = r' := by
  rw [Holds] at h h'
  split at h
  · next hkeyring =>
    rw [hkeyring] at h'
    exact h.trans h'.symm
  · next saved hkeyring =>
    rw [hkeyring] at h'
    split at h
    · exact h.elim
    · next hkey =>
      simp only [hkey] at h'
      exact h.trans h'.symm
    · next key hkey =>
      simp only [hkey] at h'
      obtain ⟨text, hfile, rfl⟩ := h
      obtain ⟨text', hfile', rfl⟩ := h'
      have hsame := hfile.file.symm.trans hfile'.file
      cases hsame
      rfl

theorem holds_sealed {saved : String} (hkeyring : w.keyring = some saved)
    (hkey : v.key saved = .ok (some key)) (h : Readable v w key value) :
    Holds v w (some value) := by
  rw [Holds, hkeyring]
  dsimp only
  rw [hkey]
  exact ⟨value, h, rfl⟩

/-- A save has taken effect, which takes a free slot. -/
structure Saved (v : Vault Key) (value : String) (w w' : World Key) : Prop where
  holds : Holds v w' (some value)
  free : w.pending = false
  bound : w'.bound = w.bound

/-- A save has not taken effect. Where the slot was occupied nothing has changed. -/
structure Unsaved (v : Vault Key) (r : Option String) (w w' : World Key) : Prop where
  holds : Holds v w' r
  occupied : w.pending = true →
    w'.keyring = w.keyring ∧ w'.file = w.file ∧ w'.pending = true
  bound : w'.bound = w.bound

def SaveEnds (v : Vault Key) (r : Option String) (value : String) (w : World Key) :
    Ended SealError Unit → World Key → Prop
  | .ok _, w' => Saved v value w w'
  | _, w' => Saved v value w w' ∨ Unsaved v r w w'

section Saving

variable {r : Option String}

theorem Unsaved.refl (h : Holds v w r) : Unsaved v r w w := ⟨h, fun hp => ⟨rfl, rfl, hp⟩, rfl⟩

theorem Unsaved.of_unpublished (h : Holds v w r) (hw : Unpublished w w') : Unsaved v r w w' :=
  ⟨h.congr hw.keyring hw.file, fun hp => ⟨hw.keyring, hw.file, hw.pending hp⟩, hw.bound⟩

/-- What was saved is read back. -/
theorem ends_readback [DecidableEq Key] {u : World Key} (h : Saved v value w u) :
    (v.readback value).Ends u (SaveEnds v r value w) := by
  apply ends_bind
  refine ends_loadWith h.holds ?_ (.inl h) (.inl h)
  show Ends _ u _
  simp only [ne_eq, not_true_eq_false, if_false]
  exact ends_pure h

/-- Under the key there is, the file is replaced at once. -/
theorem ends_writeWith_some {text : String} {saved : String} (fresh : Key)
    (hkeyring : w.keyring = some saved) (hkey : v.key saved = .ok (some key))
    (h : Readable v w key text) :
    (v.writeWith value fresh (some key)).Ends w (SaveEnds v (some text) value w) := by
  have hpublished : ∀ u, Published v key value w u → Saved v value w u := fun u hu =>
    ⟨holds_sealed (hu.keyring.trans hkeyring) hkey hu.readable, hu.free, hu.bound⟩
  have hwritten : ∀ u, Unpublished w u ∨ Published v key value w u →
      Saved v value w u ∨ Unsaved v (some text) w u := by
    rintro u (hu | hu)
    · exact .inr (Unsaved.of_unpublished (holds_sealed hkeyring hkey h) hu)
    · exact .inl (hpublished u hu)
  apply ends_writeSealed.mono
  intro ended u hu
  cases ended with
  | ok a => exact hpublished u hu
  | error e => exact hwritten u hu.2
  | died => exact hwritten u hu

/-- Without a key the file does not matter, until the key is saved. -/
theorem ends_writeWith_none (h : Holds v w r) (fresh : Key)
    (hnone : ∀ saved, w.keyring = some saved → v.key saved = .ok none) :
    (v.writeWith value fresh none).Ends w (SaveEnds v r value w) := by
  have hany : ∀ u, Beside w u → Holds v u r := by
    intro u hu
    rw [Holds] at h ⊢
    rw [hu.keyring]
    split at h
    · exact h
    · next saved hkeyring =>
      rw [hnone saved hkeyring] at h ⊢
      exact h
  have hpublished : ∀ u, Published v fresh value w u → Unsaved v r w u := by
    intro u hu
    refine ⟨hany u hu.toBeside, fun hp => ?_, hu.bound⟩
    rw [hu.free] at hp
    cases hp
  have hwritten : ∀ u, Unpublished w u ∨ Published v fresh value w u → Unsaved v r w u := by
    rintro u (hu | hu)
    · exact Unsaved.of_unpublished h hu
    · exact hpublished u hu
  have hrefl := Unsaved.refl h
  apply ends_bind
  refine ends_touch ?_ (.inr hrefl) (.inr hrefl)
  apply ends_bind
  apply ends_writeSealed.mono
  intro ended u hu
  cases ended with
  | ok a =>
    have hsaved : Saved v value w { u with keyring := some (v.sealedKey fresh) } :=
      ⟨holds_sealed rfl (key_sealedKey v fresh) ⟨hu.readable.file, hu.readable.size⟩, hu.free,
        hu.bound⟩
    have hboth : ∀ t, t = u ∨ t = { u with keyring := some (v.sealedKey fresh) } →
        Saved v value w t ∨ Unsaved v r w t := by
      rintro t (rfl | rfl)
      · exact .inr (hpublished _ hu)
      · exact .inl hsaved
    exact ends_step hsaved hboth hboth
  | error e => exact .inr (hwritten u hu.2)
  | died => exact .inr (hwritten u hu)

/-- A save leaves the old value or the new one. -/
theorem ends_saveWith [DecidableEq Key] (value : String) (h : Holds v w r) (fresh : Key) :
    (v.saveWith value fresh).Ends w (SaveEnds v r value w) := by
  have hrefl := Unsaved.refl h
  -- the end of it, once the file has been written
  have hrest : ∀ existingKey, (v.writeWith value fresh existingKey).Ends w
      (SaveEnds v r value w) → Ends (do
        v.writeWith value fresh existingKey
        v.readback value) w (SaveEnds v r value w) := by
    intro existingKey hends
    apply ends_bind
    apply hends.mono
    intro ended u hu
    cases ended with
    | ok a => exact ends_readback hu
    | error e => exact hu
    | died => exact hu
  have hholds := h
  rw [Holds] at h
  apply ends_bind
  refine ends_keyringLoad ?_ (.inr hrefl) (.inr hrefl)
  show Ends _ w _
  apply ends_bind
  split at h
  · next hkeyring =>
    rw [hkeyring]
    refine ends_pure (hrest none (ends_writeWith_none hholds fresh ?_))
    intro saved hsaved
    rw [hkeyring] at hsaved
    cases hsaved
  · next saved hkeyring =>
    rw [hkeyring]
    split at h
    · exact h.elim
    · next hkey =>
      rw [Vault.existingKey, hkey]
      refine ends_pure (hrest none (ends_writeWith_none hholds fresh ?_))
      intro saved' hsaved
      rw [hkeyring] at hsaved
      cases hsaved
      exact hkey
    · next key hkey =>
      obtain ⟨text, hfile, rfl⟩ := h
      rw [Vault.existingKey, hkey]
      exact ends_pure (hrest (some key) (ends_writeWith_some fresh hkeyring hkey hfile))

/-- A removal leaves the old value or none. -/
def RemoveEnds (v : Vault Key) (r : Option String) (w : World Key) :
    Ended SealError Unit → World Key → Prop
  | .ok _, w' => Holds v w' none ∧ w'.bound = w.bound
  | _, w' => (Holds v w' r ∨ Holds v w' none) ∧ w'.bound = w.bound

theorem ends_removeWith (h : Holds v w r) :
    (Vault.removeWith : Op Key Unit).Ends w (RemoveEnds v r w) := by
  -- without a key the file does not matter
  have hgone : ∀ u : World Key, u.keyring = none → Holds v u none := by
    intro u hu
    rw [Holds, hu]
  have hremoved : ∀ t, t = w ∨ t = { w with keyring := none } →
      (Holds v t r ∨ Holds v t none) ∧ t.bound = w.bound := by
    rintro t (rfl | rfl)
    · exact ⟨.inl h, rfl⟩
    · exact ⟨.inr (hgone _ rfl), rfl⟩
  apply ends_bind
  refine ends_step ?_ hremoved hremoved
  show Ends _ _ _
  refine ends_step ⟨hgone _ rfl, rfl⟩ ?_ ?_
  · rintro t (rfl | rfl) <;> exact ⟨.inr (hgone _ rfl), rfl⟩
  · rintro t (rfl | rfl) <;> exact ⟨.inr (hgone _ rfl), rfl⟩

end Saving

/-! ## The owner of a session -/

/-- The session is bound to its file, which has this value. -/
structure Owned (v : Vault Key) (w : World Key) (b : ExistingSession Key) (text : String) :
    Prop where
  bound : w.bound = some b
  holds : b.Holds v w text

/-- Where the slot is occupied nothing has changed. -/
def Spared (w w' : World Key) : Prop :=
  w.pending = true → w'.keyring = w.keyring ∧ w'.file = w.file ∧ w'.pending = true

/-- How a load of the owner ends. It returns the credential, and binds the session to the sealed file
    unless the credential is in the keyring itself or there is none. -/
def LoadEnds (v : Vault Key) (r : Option String) (w : World Key) :
    Ended SealError (Option String) → World Key → Prop
  | .ok r', w' => r' = r ∧
      (w' = w ∧ (∀ saved, w.keyring = some saved → v.key saved = .ok none) ∨
        ∃ b text, r = some text ∧ w' = { w with bound := some b } ∧ b.expected = text ∧
          b.attempted = none ∧ b.acknowledged = 0 ∧ Owned v w' b text)
  | .error e, w' => e = .io ∧ w' = w
  | .died, w' => w' = w

section Owner

variable {r : Option String} {b : ExistingSession Key} {text : String}

theorem Owned.loads (h : Owned v w b text) : Holds v w (some text) := by
  obtain ⟨saved, hkeyring, hkey⟩ := h.holds.keyring
  exact holds_sealed hkeyring hkey h.holds.file

/-- What a session remembers only has to fit its file. -/
theorem Owned.rebind (h : Owned v w b text) {b' : ExistingSession Key} (hkey : b'.key = b.key)
    (hdirectory : b'.directory = b.directory)
    (hknown : text = b'.expected ∨ b'.attempted = some text) :
    Owned v { w with bound := some b' } b' text := by
  refine ⟨rfl, ?_, ?_, ?_, hknown⟩
  · rw [hkey]
    exact h.holds.keyring
  · rw [hdirectory]
    exact h.holds.directory
  · rw [hkey]
    exact ⟨h.holds.file.file, h.holds.file.size⟩

theorem ends_setBound {f : ExistingSession Key → ExistingSession Key}
    {post : Ended SealError Unit → World Key → Prop} (hbound : w.bound = some b)
    (h : post (.ok ()) { w with bound := some (f b) }) :
    (Vault.setBound f : Op Key Unit).Ends w post := by
  apply ends_assign
  rw [hbound]
  exact h

/-- A load binds the session to its file, unless the credential is in the keyring itself. -/
theorem ends_load [DecidableEq Key] (h : Holds v w r) : v.load.Ends w (LoadEnds v r w) := by
  have hio : LoadEnds v r w (.error .io) w := ⟨rfl, rfl⟩
  have hdied : LoadEnds v r w .died w := rfl
  rw [Holds] at h
  apply ends_bind
  refine ends_existingDirectory (fun directory hdirectory => ?_) hio hdied
  apply ends_bind
  refine ends_keyringLoad ?_ hio hdied
  show Ends _ w _
  split at h
  · next hkeyring =>
    rw [hkeyring]
    subst h
    refine ends_pure ⟨rfl, .inl ⟨rfl, fun saved hsaved => ?_⟩⟩
    rw [hkeyring] at hsaved
    cases hsaved
  · next saved hkeyring =>
    rw [hkeyring]
    apply ends_bind
    refine ends_existingDirectory (fun directory' hdirectory' => ?_) hio hdied
    obtain rfl : directory = directory' := Option.some.inj (hdirectory.symm.trans hdirectory')
    show Ends _ w _
    simp only [ne_eq, not_true_eq_false, if_false]
    split at h
    · exact h.elim
    · next hkey =>
      subst h
      apply ends_bind
      rw [hkey]
      refine ends_pure (ends_pure ⟨rfl, .inl ⟨rfl, fun saved' hsaved => ?_⟩⟩)
      rw [hkeyring] at hsaved
      cases hsaved
      exact hkey
    · next key hkey =>
      obtain ⟨text, hfile, rfl⟩ := h
      apply ends_bind
      rw [hkey]
      apply ends_pure
      apply ends_bind
      refine ends_readSealed hfile ?_ hio hdied
      show Ends _ w _
      apply ends_bind
      apply ends_assign
      refine ends_pure ⟨rfl, .inr ⟨_, text, rfl, rfl, rfl, rfl, rfl, rfl, ?_⟩⟩
      exact ⟨⟨saved, hkeyring, hkey⟩, hdirectory, ⟨hfile.file, hfile.size⟩, .inl rfl⟩

theorem ends_checkBinding [DecidableEq Key] {post : Ended SealError Unit → World Key → Prop}
    (h : Owned v w b text) (hok : post (.ok ()) w) (hio : post (.error .io) w)
    (hdied : post .died w) : (v.checkBinding b).Ends w post := by
  obtain ⟨saved, hkeyring, hkey⟩ := h.holds.keyring
  apply ends_bind
  refine ends_keyringLoad ?_ hio hdied
  show Ends _ w _
  rw [hkeyring]
  apply ends_bind
  rw [hkey]
  apply ends_pure
  show Ends _ w _
  simp only [ne_eq, not_true_eq_false, if_false]
  apply ends_bind
  refine ends_existingDirectory (fun directory hdirectory => ?_) hio hdied
  obtain rfl : b.directory = directory :=
    Option.some.inj (h.holds.directory.symm.trans hdirectory)
  show Ends _ w _
  simp only [not_true_eq_false, if_false]
  exact ends_pure hok

/-- The content of the file is always one the session expects or tried to write. -/
theorem ends_reconcile {post : Ended SealError Unit → World Key → Prop} (h : Owned v w b text)
    (hok : ∀ b', b'.key = b.key → b'.acknowledged = b.acknowledged → b'.expected = text →
      Owned v { w with bound := some b' } b' text →
      post (.ok ()) { w with bound := some b' })
    (hio : post (.error .io) w) (hdied : post .died w) :
    (Vault.reconcile b text : Op Key Unit).Ends w post := by
  rw [Vault.reconcile]
  split
  · next hne =>
    have hattempted : b.attempted = some text := h.holds.known.resolve_left hne
    rw [if_neg (not_not_intro hattempted)]
    apply ends_bind
    refine ends_touch ?_ hio hdied
    show Ends _ w _
    apply ends_setBound h.bound
    exact hok _ rfl rfl rfl (h.rebind rfl rfl (.inl rfl))
  · next heq =>
    have hsame : { w with bound := some b } = w := by
      rw [← h.bound]
    have hexpected := (not_not.mp heq).symm
    have hdone := hok b rfl rfl hexpected (by rw [hsame]; exact h)
    rw [hsame] at hdone
    exact ends_pure hdone

/-- How a store ends that has a new revision. -/
def StoreEnds (v : Vault Key) (b : ExistingSession Key) (text value : String) (w : World Key) :
    Ended SealError Unit → World Key → Prop
  | .ok _, w' => Spared w w' ∧
      ∃ b', Owned v w' b' value ∧ b'.key = b.key ∧ b'.acknowledged = b.acknowledged
  | .error e, w' => Spared w w' ∧ (e = .io ∨ e = .tooLarge ∨ e = .occupied) ∧
      ∃ b' text', Owned v w' b' text' ∧ b'.acknowledged = b.acknowledged ∧
        (text' = text ∨ text' = value)
  | .died, w' => Spared w w' ∧ ∃ b' text', Owned v w' b' text' ∧ (text' = text ∨ text' = value)

theorem Spared.refl : Spared w w := fun h => ⟨rfl, rfl, h⟩

theorem ends_storeValue [DecidableEq Key] {value : String} (h : Owned v w b text)
    (hexpected : b.expected = text) :
    (v.storeValue b.key value).Ends w (StoreEnds v b text value w) := by
  apply ends_bind
  apply ends_look
  show Ends _ w _
  rw [h.bound]
  beta_reduce
  rw [Option.map_some, hexpected]
  split
  · next heq =>
    obtain rfl := Option.some.inj heq
    exact ends_pure ⟨Spared.refl, b, h, rfl, rfl⟩
  next hne =>
  apply ends_bind
  apply ends_setBound h.bound
  show Ends _ _ _
  -- from here on the session knows the new value
  have hold : ∀ u, Unpublished { w with bound := some { b with attempted := some value } } u →
      Spared w u ∧ Owned v u { b with attempted := some value } text := by
    intro u hu
    obtain ⟨saved, hkeyring, hkey⟩ := h.holds.keyring
    refine ⟨fun hp => ⟨hu.keyring, hu.file, hu.pending hp⟩, hu.bound, ?_⟩
    exact ⟨⟨saved, hu.keyring.trans hkeyring, hkey⟩, hu.directory _ h.holds.directory,
      ⟨hu.file.trans h.holds.file.file, h.holds.file.size⟩, .inl hexpected.symm⟩
  have hnew : ∀ u, Published v b.key value { w with bound := some { b with attempted := some value } }
      u → Spared w u ∧ Owned v u { b with attempted := some value } value := by
    intro u hu
    obtain ⟨saved, hkeyring, hkey⟩ := h.holds.keyring
    refine ⟨fun hp => ?_, hu.bound, ?_⟩
    · have hfree : w.pending = false := hu.free
      rw [hfree] at hp
      cases hp
    · exact ⟨⟨saved, hu.keyring.trans hkeyring, hkey⟩, hu.directory _ h.holds.directory,
        hu.readable, .inr rfl⟩
  have hwritten : ∀ u, (Unpublished { w with bound := some { b with attempted := some value } } u ∨
      Published v b.key value { w with bound := some { b with attempted := some value } } u) →
      Spared w u ∧ ∃ text', Owned v u { b with attempted := some value } text' ∧
        (text' = text ∨ text' = value) := by
    rintro u (hu | hu)
    · exact ⟨(hold u hu).1, text, (hold u hu).2, .inl rfl⟩
    · exact ⟨(hnew u hu).1, value, (hnew u hu).2, .inr rfl⟩
  apply ends_bind
  apply ends_writeExisting.mono
  intro ended u hu
  cases ended with
  | ok a =>
    obtain ⟨hspared, howned⟩ := hnew u hu
    apply ends_bind
    refine ends_readSealed hu.readable ?_ ⟨hspared, .inl rfl, _, value, howned, rfl, .inr rfl⟩
      ⟨hspared, _, value, howned, .inr rfl⟩
    show Ends _ u _
    simp only [ne_eq, not_true_eq_false, if_false]
    apply ends_setBound howned.bound
    exact ⟨hspared, _, howned.rebind rfl rfl (.inl rfl), rfl, rfl⟩
  | error e =>
    obtain ⟨hspared, text', howned, htext⟩ := hwritten u hu.2
    exact ⟨hspared, hu.1, _, text', howned, rfl, htext⟩
  | died =>
    obtain ⟨hspared, text', howned, htext⟩ := hwritten u hu
    exact ⟨hspared, _, text', howned, htext⟩

/-- A revision that was acknowledged before changes nothing. -/
theorem ends_store_acknowledged [DecidableEq Key] {value : String} {revision : Nat}
    {post : Ended SealError Unit → World Key → Prop} (hbound : w.bound = some b)
    (hrevision : revision ≤ b.acknowledged) (h : post (.ok ()) w) :
    (v.store value revision).Ends w post := by
  apply ends_bind
  apply ends_look
  show Ends _ w _
  rw [hbound]
  simp only [hrevision, if_true]
  exact ends_pure h

theorem ends_store_unbound [DecidableEq Key] {value : String} {revision : Nat}
    {post : Ended SealError Unit → World Key → Prop} (hbound : w.bound = none)
    (h : post (.ok ()) w) : (v.store value revision).Ends w post := by
  apply ends_bind
  apply ends_look
  show Ends _ w _
  rw [hbound]
  exact ends_pure h

/-- How a store of a new revision ends: acknowledged, with its value in the file, or not. -/
def NewRevision (v : Vault Key) (b : ExistingSession Key) (text value : String) (revision : Nat)
    (w : World Key) : Ended SealError Unit → World Key → Prop
  | .ok _, w' => Spared w w' ∧ ∃ b', Owned v w' b' value ∧ b'.key = b.key ∧ b'.acknowledged = revision
  | ended, w' => StoreEnds v b text value w ended w'

theorem ends_store [DecidableEq Key] (value : String) {revision : Nat} (h : Owned v w b text)
    (hrevision : b.acknowledged < revision) :
    (v.store value revision).Ends w (NewRevision v b text value revision w) := by
  have hio : StoreEnds v b text value w (.error .io) w :=
    ⟨Spared.refl, .inl rfl, b, text, h, rfl, .inl rfl⟩
  have hdied : StoreEnds v b text value w .died w := ⟨Spared.refl, b, text, h, .inl rfl⟩
  apply ends_bind
  apply ends_look
  show Ends _ w _
  rw [h.bound]
  simp only [Nat.not_le.mpr hrevision, if_false]
  apply ends_bind
  refine ends_checkBinding h ?_ hio hdied
  show Ends _ w _
  apply ends_bind
  refine ends_readSealed h.holds.file ?_ hio hdied
  show Ends _ w _
  apply ends_bind
  refine ends_reconcile h (fun b₁ hkey hacknowledged hexpected howned => ?_) hio hdied
  show Ends _ _ _
  apply ends_bind
  rw [← hkey]
  apply (ends_storeValue howned hexpected).mono
  intro ended u hu
  cases ended with
  | ok a =>
    obtain ⟨hspared, b₂, howned₂, hkey₂, -⟩ := hu
    apply ends_setBound howned₂.bound
    exact ⟨hspared, _, howned₂.rebind rfl rfl howned₂.holds.known, hkey₂.trans hkey, rfl⟩
  | error e =>
    obtain ⟨hspared, he, b₂, text', howned₂, hacknowledged₂, htext⟩ := hu
    exact ⟨hspared, he, b₂, text', howned₂, hacknowledged₂.trans hacknowledged, htext⟩
  | died => exact hu

end Owner

end Steps

/-! ## Runs -/

/-- What is owned is in step with what was acknowledged. Where the file is ahead, a later revision
    was passed. -/
def Acknowledges (v : Vault Key) (s : State Key) : Prop :=
  match s.world.bound with
  | none => s.acknowledged = none
  | some b => ∃ text value, b.Holds v s.world text ∧
      s.acknowledged = some (b.acknowledged, value) ∧ b.acknowledged ≤ s.passed ∧
      (text = value ∨ b.acknowledged < s.passed)

structure State.Sound (v : Vault Key) (s : State Key) : Prop where
  holds : ∃ r ∈ s.possible, Holds v s.world r
  acknowledges : Acknowledges v s

section Runs

variable {s : State Key}

theorem State.Sound.unbound (h : s.Sound v) (hbound : s.world.bound = none) :
    s.acknowledged = none := by
  have hack := h.acknowledges
  rw [Acknowledges, hbound] at hack
  exact hack

theorem State.Sound.owned {b : ExistingSession Key} (h : s.Sound v)
    (hbound : s.world.bound = some b) :
    ∃ text value, Owned v s.world b text ∧ s.acknowledged = some (b.acknowledged, value) ∧
      b.acknowledged ≤ s.passed ∧ (text = value ∨ b.acknowledged < s.passed) := by
  have hack := h.acknowledges
  rw [Acknowledges, hbound] at hack
  obtain ⟨text, value, hholds, hrest⟩ := hack
  exact ⟨text, value, ⟨hbound, hholds⟩, hrest⟩

theorem sound_of_unbound {r : Option String} (hmem : r ∈ s.possible) (h : Holds v s.world r)
    (hbound : s.world.bound = none) (hacknowledged : s.acknowledged = none) : s.Sound v := by
  refine ⟨⟨r, hmem, h⟩, ?_⟩
  rw [Acknowledges, hbound]
  exact hacknowledged

theorem sound_of_owned {b : ExistingSession Key} {text : String} (value : String)
    (hmem : some text ∈ s.possible) (h : Owned v s.world b text)
    (hacknowledged : s.acknowledged = some (b.acknowledged, value))
    (hpassed : b.acknowledged ≤ s.passed) (hvalue : text = value ∨ b.acknowledged < s.passed) :
    s.Sound v := by
  refine ⟨⟨some text, hmem, h.loads⟩, ?_⟩
  rw [Acknowledges, h.bound]
  exact ⟨text, value, h.holds, hacknowledged, hpassed, hvalue⟩

/-- A call that has changed nothing. -/
theorem after_sound {α : Type} {ended : Ended SealError α} (h : s.Sound v)
    (hworld : w' = s.world) : (s.after ended w').Sound v := by
  subst hworld
  cases ended with
  | died =>
    obtain ⟨r, hmem, hr⟩ := h.holds
    refine sound_of_unbound (r := r) hmem ?_ rfl rfl
    exact Holds.congr hr rfl rfl
  | _ => exact h

/-- A call of a process that owns no session. -/
theorem after_unbound {α : Type} {ended : Ended SealError α} {possible : List (Option String)}
    {r : Option String} (hmem : r ∈ possible) (h : Holds v w' r) (hbound : w'.bound = none)
    (hacknowledged : s.acknowledged = none) :
    (({ s with possible } : State Key).after ended w').Sound v := by
  cases ended with
  | died => exact sound_of_unbound (r := r) hmem (Holds.congr h rfl rfl) rfl rfl
  | _ => exact sound_of_unbound hmem h hbound hacknowledged

variable [DecidableEq Key]

theorem saveWith_sound {value : String} {fresh : Key} {faults : List Fault} (h : s.Sound v)
    (hbound : s.world.bound = none) :
    (s.step v ⟨.saveWith value fresh, faults⟩).Sound v := by
  obtain ⟨r, hmem, hr⟩ := h.holds
  have hends := (ends_saveWith value hr fresh).run faults
  show State.Sound v (State.after _ _ _)
  generalize v.saveWith value fresh faults s.world = result at hends ⊢
  obtain ⟨ended, rest, w'⟩ := result
  have hnone := h.unbound hbound
  cases ended with
  | ok a => exact after_unbound List.mem_cons_self hends.holds (hends.bound.trans hbound) hnone
  | error e | died =>
    rcases hends with hsaved | hunsaved
    · exact after_unbound List.mem_cons_self hsaved.holds (hsaved.bound.trans hbound) hnone
    · exact after_unbound (List.mem_cons_of_mem _ hmem) hunsaved.holds
        (hunsaved.bound.trans hbound) hnone

theorem removeWith_sound {faults : List Fault} (h : s.Sound v) (hbound : s.world.bound = none) :
    (s.step v ⟨.removeWith, faults⟩).Sound v := by
  obtain ⟨r, hmem, hr⟩ := h.holds
  have hends := (ends_removeWith hr).run faults
  show State.Sound v (State.after _ _ _)
  generalize (Vault.removeWith : Op Key Unit) faults s.world = result at hends ⊢
  obtain ⟨ended, rest, w'⟩ := result
  have hnone := h.unbound hbound
  cases ended with
  | ok a => exact after_unbound List.mem_cons_self hends.1 (hends.2.trans hbound) hnone
  | error e | died =>
    obtain ⟨hkept | hremoved, hbound'⟩ := hends
    · exact after_unbound (List.mem_cons_of_mem _ hmem) hkept (hbound'.trans hbound) hnone
    · exact after_unbound List.mem_cons_self hremoved (hbound'.trans hbound) hnone

theorem loadWith_sound {faults : List Fault} (h : s.Sound v) :
    (s.step v ⟨.loadWith, faults⟩).Sound v := by
  obtain ⟨r, -, hr⟩ := h.holds
  apply after_sound h
  have hends : v.loadWith.Ends s.world fun _ w' => w' = s.world := ends_loadWith hr rfl rfl rfl
  exact hends.run faults

theorem load_sound {faults : List Fault} (h : s.Sound v) :
    (s.step v ⟨.load, faults⟩).Sound v := by
  obtain ⟨r, hmem, hr⟩ := h.holds
  have hends := (ends_load hr).run faults
  show State.Sound v (State.loaded (State.after _ _ _) _)
  generalize v.load faults s.world = result at hends ⊢
  obtain ⟨ended, rest, w'⟩ := result
  cases ended with
  | ok r' =>
    obtain ⟨rfl, ⟨rfl, hdirect⟩ | ⟨b, text, rfl, rfl, -, -, hzero, howned⟩⟩ := hends
    · -- a credential in the keyring itself is never bound
      have hunbound : s.world.bound = none := by
        cases hbound : s.world.bound with
        | none => rfl
        | some b =>
          obtain ⟨text, value, howned, -⟩ := h.owned hbound
          obtain ⟨saved, hkeyring, hkey⟩ := howned.holds.keyring
          rw [hdirect saved hkeyring] at hkey
          cases hkey
      have hsame : (s.after (Ended.ok r' : Ended SealError (Option String)) s.world).loaded
          (.ok r') = s := by
        show State.loaded s (.ok r') = s
        unfold State.loaded
        split
        · next hsome =>
          rw [hunbound] at hsome
          cases hsome
        · rfl
      dsimp only
      rw [hsame]
      exact h
    · refine sound_of_owned text hmem howned ?_ ?_ (.inl rfl)
      · show some (0, text) = some (b.acknowledged, text)
        rw [hzero]
      · show b.acknowledged ≤ 0
        exact Nat.le_of_eq hzero
  | error e =>
    obtain ⟨-, rfl⟩ := hends
    exact h
  | died =>
    obtain rfl : w' = s.world := hends
    show State.Sound v (s.after (Ended.died : Ended SealError (Option String)) s.world)
    exact after_sound h rfl

theorem store_sound {value : String} {revision : Nat} {faults : List Fault} (h : s.Sound v)
    (hpassed : s.passed ≤ revision) : (s.step v ⟨.store value revision, faults⟩).Sound v := by
  show State.Sound v (State.after (State.stored _ _ _ _) _ _)
  cases hbound : s.world.bound with
  | none =>
    -- nothing is bound, and nothing is written
    have hends : (v.store value revision).Ends s.world fun _ w' => w' = s.world :=
      ends_store_unbound hbound rfl
    have hsame := hends.run faults
    unfold State.stored
    rw [h.unbound hbound]
    exact after_sound h hsame
  | some b =>
    obtain ⟨text, top, howned, hacknowledged, hle, htop⟩ := h.owned hbound
    obtain ⟨r, hmem, hr⟩ := h.holds
    obtain rfl := hr.unique howned.loads
    unfold State.stored
    rw [hacknowledged]
    dsimp only
    by_cases hrevision : revision ≤ b.acknowledged
    · rw [if_pos hrevision]
      have hends : (v.store value revision).Ends s.world fun _ w' => w' = s.world :=
        ends_store_acknowledged hbound hrevision rfl
      have hsame := hends.run faults
      exact after_sound h hsame
    rw [if_neg hrevision]
    have hnew := Nat.not_le.mp hrevision
    have hends := (ends_store value howned hnew).run faults
    generalize v.store value revision faults s.world = result at hends ⊢
    obtain ⟨ended, rest, w'⟩ := result
    have hmax : max s.passed revision = revision := Nat.max_eq_right hpassed
    -- the file has the old value or the new one
    have hone : ∀ text', text' = text ∨ text' = value →
        some text' ∈ some value :: s.possible := by
      rintro text' (rfl | rfl)
      · exact List.mem_cons_of_mem _ hmem
      · exact List.mem_cons_self
    cases ended with
    | ok a =>
      obtain ⟨-, b', howned', -, hacknowledged'⟩ := hends
      refine sound_of_owned value List.mem_cons_self howned' ?_ ?_ (.inl rfl)
      · show some (revision, value) = some (b'.acknowledged, value)
        rw [hacknowledged']
      · show b'.acknowledged ≤ max s.passed revision
        exact Nat.le_of_eq (hacknowledged'.trans hmax.symm)
    | error e =>
      obtain ⟨-, -, b', text', howned', hacknowledged', htext⟩ := hends
      refine sound_of_owned top (hone text' htext) howned' ?_ ?_ (.inr ?_)
      · show some (b.acknowledged, top) = some (b'.acknowledged, top)
        rw [hacknowledged']
      · show b'.acknowledged ≤ max s.passed revision
        omega
      · show b'.acknowledged < max s.passed revision
        omega
    | died =>
      obtain ⟨-, b', text', howned', htext⟩ := hends
      exact sound_of_unbound (hone text' htext) (Holds.congr howned'.loads rfl rfl) rfl rfl

/-- One call keeps what may be loaded, and what is owned. -/
theorem step_sound (e : Event Key) (h : s.Sound v) (hallowed : Allowed s e) :
    (s.step v e).Sound v := by
  obtain ⟨call, faults⟩ := e
  cases call with
  | loadWith => exact loadWith_sound h
  | saveWith value fresh => exact saveWith_sound h (Option.isNone_iff_eq_none.mp hallowed)
  | removeWith => exact removeWith_sound h (Option.isNone_iff_eq_none.mp hallowed)
  | load => exact load_sound h
  | store value revision => exact store_sound h hallowed

theorem run_sound {events : List (Event Key)} {w₀ : World Key} {r : Option String}
    (h : Run (State.step v) Allowed { world := w₀, possible := [r] } events s)
    (hholds : Holds v w₀ r) (hbound : w₀.bound = none) : s.Sound v := by
  apply h.invariant (State.Sound v)
  · exact sound_of_unbound List.mem_cons_self hholds hbound rfl
  · intro s e hs hallowed
    exact step_sound e hs hallowed

end Runs

/-! ## A session that is loaded and stored -/

/-- Keys that are their own text. -/
def sampleVault : Vault String := ⟨⟨id, some, fun _ => rfl⟩, "icloud-session", 0⟩

def sampleStart : State String := { world := {}, possible := [none] }

def sampleEvents : List (Event String) := [⟨.saveWith "a" "k", []⟩, ⟨.load, []⟩]

/-- The file has a value, and what the session remembers of it. -/
def sampleState (text : String) (b : ExistingSession String) : State String where
  world :=
    { keyring := some (sampleVault.sealedKey "k")
      directory := some 0
      file := some ⟨"k", "icloud-session", text⟩
      bound := some b }
  possible := [some text]
  acknowledged := some (b.acknowledged, text)
  passed := b.acknowledged

theorem sample_loaded : Run (State.step sampleVault) Allowed sampleStart sampleEvents
    (sampleState "a" ⟨0, "k", "a", none, 0⟩) :=
  Run.start.extend ⟨rfl, trivial, trivial⟩

end Cirrove.ICloud.Sealed
