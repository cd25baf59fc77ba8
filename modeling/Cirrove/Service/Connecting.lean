import Cirrove.Service.Settings
import Mathlib.Logic.Function.Basic
import Mathlib.Tactic.Tauto

/-!
# Connecting an account

`PendingConnection::finish` and `save_icloud_connection_with`
(`cirrove-service/src/accounts.rs`): both put a credential in the keyring, then write the account
into the settings, and take the credential back when the write fails. Settings and keyring cannot
be written together, and a write can fail after the rename that publishes it.

The native path reads the settings again before it takes anything back. `finish` does not: a
failure to sync the directory leaves a published account without its credential
(`connect_published_lost`). `connect_iff` says exactly when both paths are all or nothing and end
alike.
-/

namespace Cirrove.Service

/-! ## The keyring and the course of a call -/

/-- What a call that can fail did before it failed. -/
inductive CallOutcome where
  | done
  | failsBefore
  | failsAfter
  deriving DecidableEq, Repr

/-- The settings file and the keyring. -/
structure Desktop where
  settings : SettingsFile
  vault : String → Option String

/-- Which steps of one call fail. -/
structure Course where
  /-- `CredentialVault::save` -/
  save : CallOutcome
  /-- `config_lock` -/
  lockBusy : Bool
  /-- The settings can be read, and read again after a failed write. -/
  readable : Bool
  rereadable : Bool
  /-- `Settings::save` -/
  write : Option SaveStep
  /-- `CredentialVault::remove` -/
  remove : CallOutcome
  deriving DecidableEq, Repr

inductive ConnectError where
  | credential
  | lock
  | taken
  | settings (e : SettingsError)
  deriving DecidableEq, Repr

namespace Desktop

def saveCredential (d : Desktop) (outcome : CallOutcome) (key value : String) :
    Desktop × Except ConnectError Unit :=
  match outcome with
  | .done => ({ d with vault := Function.update d.vault key (some value) }, .ok ())
  | .failsBefore => (d, .error .credential)
  | .failsAfter => ({ d with vault := Function.update d.vault key (some value) },
      .error .credential)

/-- Both callers ignore whether the removal succeeded. -/
def removeCredential (d : Desktop) (outcome : CallOutcome) (key : String) : Desktop :=
  match outcome with
  | .failsBefore => d
  | _ => { d with vault := Function.update d.vault key none }

end Desktop

/-- The label or the path of the candidate is in use. -/
def Settings.takes (s : Settings) (a : Account) : Prop :=
  ∃ b ∈ s.accounts, b.label = a.label ∨ pathKey b.mountPath = pathKey a.mountPath

instance (s : Settings) (a : Account) : Decidable (s.takes a) :=
  inferInstanceAs (Decidable (∃ _ ∈ _, _))

def Settings.push (s : Settings) (a : Account) : Settings :=
  { s with accounts := s.accounts ++ [a] }

/-- The new account's id or its credential's stands in the file. -/
def Settings.references (s : Settings) (a : Account) : Prop :=
  ∃ b ∈ s.accounts, b.id = a.id ∨ b.credentialId = a.credentialId

instance (s : Settings) (a : Account) : Decidable (s.references a) :=
  inferInstanceAs (Decidable (∃ _ ∈ _, _))

section

variable (formats : Formats) (course : Course) (a : Account)

/-! ## Browser sign-in -/

/-- The closure of `PendingConnection::finish` under the settings lock. -/
def publish (d : Desktop) : Desktop × Except ConnectError Unit :=
  if course.lockBusy then (d, .error .lock)
  else
    match d.settings.load formats course.readable with
    | .error e => (d, .error (.settings e))
    | .ok settings =>
      if settings.takes a then (d, .error .taken)
      else
        let (file, result) := (settings.push a).save formats course.write d.settings
        ({ d with settings := file }, result.mapError .settings)

/-- `PendingConnection::finish` from the point where the account has been put together. -/
def finish (grant : String) (d : Desktop) : Desktop × Except ConnectError Account :=
  match d.saveCredential course.save a.credentialId grant with
  | (d, .error e) => (d, .error e)
  | (d, .ok ()) =>
    match publish formats course a d with
    | (d, .error e) => (d.removeCredential course.remove a.credentialId, .error e)
    | (d, .ok ()) => (d, .ok a)

/-! ## Native sign-in -/

/-- The closure of `save_icloud_connection_with` under the settings lock: what it leaves, its
result, and whether the credential may be removed. -/
def publishNative (credentialSaved : Except ConnectError Unit) (d : Desktop) :
    Desktop × Except ConnectError Unit × Bool :=
  if course.lockBusy then (d, .error .lock, false)
  else
    match d.settings.load formats course.readable with
    | .error e => (d, .error (.settings e), false)
    | .ok settings =>
      let safeToRemove := !decide (settings.references a)
      match credentialSaved with
      | .error e => (d, .error e, safeToRemove)
      | .ok () =>
        if settings.takes a then (d, .error .taken, safeToRemove)
        else
          let (file, result) := (settings.push a).save formats course.write d.settings
          let left := { d with settings := file }
          match result with
          | .ok () => (left, .ok (), safeToRemove)
          | .error e =>
            -- the error may have come after the rename: what can be read now decides
            match file.load formats course.rereadable with
            | .ok published => (left, .error (.settings e), !decide (published.references a))
            | .error _ => (left, .error (.settings e), false)

/-- `save_icloud_connection_with`, persisting with `Settings::save`. -/
def saveIcloudConnectionWith (snapshot : String) (d : Desktop) :
    Desktop × Except ConnectError Account :=
  match (Settings.mk 2 [a]).validate formats with
  | .error e => (d, .error (.settings e))
  | .ok () =>
    let (d, credentialSaved) := d.saveCredential course.save a.credentialId snapshot
    match publishNative formats course a credentialSaved d with
    | (d, .error e, safeToRemove) =>
      (if safeToRemove then d.removeCredential course.remove a.credentialId else d, .error e)
    | (d, .ok (), _) => (d, .ok a)

/-! ## All or nothing -/

/-- The id and the credential's id of the candidate are new. -/
def Account.NewAmong (accounts : List Account) : Prop :=
  ∀ b ∈ accounts, b.id ≠ a.id ∧ b.credentialId ≠ a.credentialId

/-- The candidate is new to the settings and its credential to the keyring. -/
structure Fresh (d : Desktop) : Prop where
  accounts : a.NewAmong d.settings.accounts
  vault : d.vault a.credentialId = none

def Desktop.published (d : Desktop) : Bool := d.settings.accounts.any fun b => b.id = a.id

def Desktop.stored (d : Desktop) : Bool := (d.vault a.credentialId).isSome

/-- Nothing of another account changed between two desktops. -/
structure OthersKept(d left : Desktop) : Prop where
  vault : ∀ key, key ≠ a.credentialId → left.vault key = d.vault key
  accounts : (left.settings.accounts.filter fun b => b.id ≠ a.id) = d.settings.accounts

/-- A call that started at `d` is all or nothing: a published account has its credential, a
success means both, and nothing of another account changed. -/
structure AllOrNothing (d : Desktop) (r : Desktop × Except ConnectError Account) : Prop where
  kept : r.1.published a = true → r.1.stored a = true
  accepted : ∀ b, r.2 = .ok b → r.1.published a = true ∧ r.1.stored a = true
  others : OthersKept a d r.1

/-- Both ways to connect are all or nothing, and end alike unless the removal fails. -/
def Connects (grant snapshot : String) (d : Desktop) : Prop :=
  let browser := finish formats course a grant d
  let native := saveIcloudConnectionWith formats course a snapshot d
  AllOrNothing a d browser ∧ AllOrNothing a d native ∧
    (course.remove = .done → browser.1.published a = native.1.published a ∧
      browser.1.stored a = native.1.stored a)

/-! ## The condition -/

/-- The candidate passes validation by itself. -/
def Account.Sound : Prop := (Settings.mk 2 [a]).validate formats = .ok ()

/-- The settings a call works on, if it gets the lock and can read them. -/
def opened (d : Desktop) : Option Settings :=
  if course.lockBusy then none else (d.settings.load formats course.readable).toOption

/-- The failures that leave both paths all or nothing, and alike. -/
def Clean (d : Desktop) : Prop :=
  match course.save with
  | .failsBefore => True
  | .failsAfter => course.remove = .done → a.Sound formats ∧ opened formats course d = none
  | .done => a.Sound formats →
      (opened formats course d = none → course.remove ≠ .done) ∧
      ∀ s, opened formats course d = some s → ¬ s.takes a →
        (course.write = some .directorySync → course.remove = .failsBefore) ∧
        (course.write ≠ none → course.write ≠ some .directorySync → course.remove = .done →
          course.rereadable = true)

end

/-! ## What the closures do -/

section

variable {formats : Formats} {course : Course} {a : Account} {d : Desktop} {s : Settings}

theorem opened_eq_some (h : opened formats course d = some s) :
    course.lockBusy = false ∧ d.settings.load formats course.readable = .ok s := by
  unfold opened at h
  split at h
  · cases h
  · rename_i hlock
    refine ⟨by simpa using hlock, ?_⟩
    cases hload : d.settings.load formats course.readable with
    | error e => simp [hload, Except.toOption] at h
    | ok loaded =>
      simp only [hload, Except.toOption, Option.some.injEq] at h
      rw [h]

theorem opened_eq_none (h : opened formats course d = none) :
    course.lockBusy = true ∨ ∃ e, d.settings.load formats course.readable = .error e := by
  unfold opened at h
  split at h
  · rename_i hlock
    exact .inl hlock
  · cases hload : d.settings.load formats course.readable with
    | error e => exact .inr ⟨e, rfl⟩
    | ok loaded => simp [hload, Except.toOption] at h

/-- A candidate that is new and takes nothing validates with the file as it does alone. -/
theorem push_validate_iff (hnew : a.NewAmong d.settings.accounts) (h : opened formats course d = some s)
    (hfree : ¬ s.takes a) : (s.push a).validate formats = .ok () ↔ a.Sound formats := by
  obtain ⟨hvalid, haccounts⟩ := SettingsFile.load_eq_ok (opened_eq_some h).2
  rw [Settings.push, Settings.validate_push_ok hvalid]
  apply and_iff_left
  intro b hb hcollides
  rcases hcollides with hid | hlabel | hpath
  · exact (hnew b (haccounts ▸ hb)).1 hid
  · exact hfree ⟨b, hb, .inl hlabel⟩
  · exact hfree ⟨b, hb, .inr hpath⟩

theorem not_references (hnew : a.NewAmong d.settings.accounts) {readable : Bool}
    (h : d.settings.load formats readable = .ok s) : ¬ s.references a := by
  rintro ⟨b, hb, href⟩
  have hb := hnew b ((SettingsFile.load_eq_ok h).2 ▸ hb)
  exact href.elim hb.1 hb.2

/-- The desktop with the new account published. -/
def wrote (formats : Formats) (s : Settings) (a : Account) (d : Desktop) : Desktop :=
  { d with settings := .text (formats.jsonLength (s.push a)) (some (s.push a)) }

theorem references_push (s : Settings) (a : Account) : (s.push a).references a :=
  ⟨a, by simp [Settings.push], .inl rfl⟩

theorem publish_closed (h : opened formats course d = none) :
    ∃ e, publish formats course a d = (d, .error e) := by
  unfold publish
  rcases opened_eq_none h with hlock | ⟨e, hload⟩
  · exact ⟨.lock, if_pos hlock⟩
  · split
    · exact ⟨_, rfl⟩
    · rw [hload]
      exact ⟨_, rfl⟩

theorem publish_refused (hnew : a.NewAmong d.settings.accounts) (h : opened formats course d = some s)
    (hrefused : s.takes a ∨ ¬ a.Sound formats) : ∃ e, publish formats course a d = (d, .error e) := by
  obtain ⟨hlock, hload⟩ := opened_eq_some h
  simp only [publish, hlock, Bool.false_eq_true, if_false, hload]
  by_cases htakes : s.takes a
  · exact ⟨.taken, if_pos htakes⟩
  · have hinvalid := mt (push_validate_iff hnew h htakes).mp (hrefused.resolve_left htakes)
    rw [if_neg htakes]
    rcases @Settings.save_cases formats course.write (s.push a) d.settings with
      ⟨hvalid, -⟩ | ⟨hvalid, -⟩ | ⟨-, e, heq⟩
    · exact absurd hvalid hinvalid
    · exact absurd hvalid hinvalid
    · exact ⟨.settings e, by simp [heq, Except.mapError]⟩

/-- Where the settings write is reached, it is told apart by the step that fails. -/
theorem publish_attempted (hnew : a.NewAmong d.settings.accounts) (h : opened formats course d = some s)
    (hfree : ¬ s.takes a) (hsound : a.Sound formats) :
    (course.write = none ∧ publish formats course a d = (wrote formats s a d, .ok ())) ∨
    (course.write = some .directorySync ∧
      ∃ e, publish formats course a d = (wrote formats s a d, .error e)) ∨
    (course.write ≠ none ∧ course.write ≠ some .directorySync ∧
      ∃ e, publish formats course a d = (d, .error e)) := by
  obtain ⟨hlock, hload⟩ := opened_eq_some h
  have hvalid := (push_validate_iff hnew h hfree).mpr hsound
  simp only [publish, hlock, Bool.false_eq_true, if_false, hload, if_neg hfree]
  rcases @Settings.save_cases formats course.write (s.push a) d.settings with
    ⟨-, hwrite, heq⟩ | ⟨-, hwrite, heq⟩ | ⟨hfails, e, heq⟩
  · exact .inl ⟨hwrite, by simp [heq, Except.mapError, wrote]⟩
  · exact .inr (.inl ⟨hwrite, .settings .write, by simp [heq, Except.mapError, wrote]⟩)
  · obtain ⟨hnone, hsync⟩ := hfails.resolve_left fun hinvalid => hinvalid hvalid
    exact .inr (.inr ⟨hnone, hsync, .settings e, by simp [heq, Except.mapError]⟩)

theorem publishNative_closed (h : opened formats course d = none)
    (credentialSaved : Except ConnectError Unit) :
    ∃ e, publishNative formats course a credentialSaved d = (d, .error e, false) := by
  unfold publishNative
  rcases opened_eq_none h with hlock | ⟨e, hload⟩
  · exact ⟨.lock, if_pos hlock⟩
  · split
    · exact ⟨_, rfl⟩
    · rw [hload]
      exact ⟨_, rfl⟩

/-- Settings that could be read show a new account unreferenced. -/
theorem publishNative_refused (hnew : a.NewAmong d.settings.accounts) (h : opened formats course d = some s)
    (credentialSaved : Except ConnectError Unit)
    (hrefused : credentialSaved ≠ .ok () ∨ s.takes a) :
    ∃ e, publishNative formats course a credentialSaved d = (d, .error e, true) := by
  obtain ⟨hlock, hload⟩ := opened_eq_some h
  have href := not_references hnew hload
  simp only [publishNative, hlock, Bool.false_eq_true, if_false, hload, href, decide_false,
    Bool.not_false]
  cases credentialSaved with
  | error e => exact ⟨e, rfl⟩
  | ok =>
    have htakes : s.takes a := hrefused.resolve_left fun hne => hne rfl
    exact ⟨.taken, by simp [htakes]⟩

theorem publishNative_attempted (hnew : a.NewAmong d.settings.accounts) (h : opened formats course d = some s)
    (hfree : ¬ s.takes a) (hsound : a.Sound formats) :
    (course.write = none ∧ ∃ safe,
      publishNative formats course a (.ok ()) d = (wrote formats s a d, .ok (), safe)) ∨
    (course.write = some .directorySync ∧
      ∃ e, publishNative formats course a (.ok ()) d = (wrote formats s a d, .error e, false)) ∨
    (course.write ≠ none ∧ course.write ≠ some .directorySync ∧
      ∃ e, publishNative formats course a (.ok ()) d = (d, .error e, course.rereadable)) := by
  obtain ⟨hlock, hload⟩ := opened_eq_some h
  have hvalid := (push_validate_iff hnew h hfree).mpr hsound
  simp only [publishNative, hlock, Bool.false_eq_true, if_false, hload, if_neg hfree]
  rcases @Settings.save_cases formats course.write (s.push a) d.settings with
    ⟨-, hwrite, heq⟩ | ⟨-, hwrite, heq⟩ | ⟨hfails, e, heq⟩
  · exact .inl ⟨hwrite, _, by simp only [heq]; rfl⟩
  · refine .inr (.inl ⟨hwrite, .settings .write, ?_⟩)
    simp only [heq]
    cases hback : SettingsFile.load formats course.rereadable
        (.text (formats.jsonLength (s.push a)) (some (s.push a))) with
    | error e => rfl
    | ok published =>
      -- what is read back is what was written, and it holds the new account
      have haccounts : published.accounts = (s.push a).accounts :=
        (SettingsFile.load_eq_ok hback).2
      have href : published.references a := by
        obtain ⟨b, hb, hid⟩ := references_push s a
        exact ⟨b, haccounts ▸ hb, hid⟩
      simp [href, wrote]
  · obtain ⟨hnone, hsync⟩ := hfails.resolve_left fun hinvalid => hinvalid hvalid
    refine .inr (.inr ⟨hnone, hsync, .settings e, ?_⟩)
    simp only [heq]
    cases hreread : course.rereadable with
    | false => simp [SettingsFile.load]
    | true =>
      have hreadable : course.readable = true := by
        by_contra hne
        rw [Bool.not_eq_true] at hne
        rw [hne] at hload
        simp [SettingsFile.load] at hload
      rw [hreadable] at hload
      rw [hload]
      simp [not_references hnew hload]

/-! ## End states -/

theorem published_of_fresh (hnew : a.NewAmong d.settings.accounts) (vault : String → Option String) :
    (Desktop.mk d.settings vault).published a = false := by
  simpa [Desktop.published] using fun b hb => (hnew b hb).1

theorem published_wrote (vault : String → Option String) :
    (Desktop.mk (wrote formats s a d).settings vault).published a = true := by
  simp [Desktop.published, wrote, SettingsFile.accounts, Settings.push]

theorem othersKept_settings (hnew : a.NewAmong d.settings.accounts) {vault : String → Option String}
    (h : ∀ key, key ≠ a.credentialId → vault key = d.vault key) :
    OthersKept a d ⟨d.settings, vault⟩ where
  vault := h
  accounts := by
    apply List.filter_eq_self.mpr
    intro b hb
    simpa using (hnew b hb).1

theorem othersKept_wrote (hnew : a.NewAmong d.settings.accounts) {vault : String → Option String}
    (h : ∀ key, key ≠ a.credentialId → vault key = d.vault key) {readable : Bool}
    (hload : d.settings.load formats readable = .ok s) :
    OthersKept a d ⟨(wrote formats s a d).settings, vault⟩ where
  vault := h
  accounts := by
    have hself : (s.accounts.filter fun b => b.id ≠ a.id) = s.accounts := by
      apply List.filter_eq_self.mpr
      intro b hb
      simpa using (hnew b ((SettingsFile.load_eq_ok hload).2 ▸ hb)).1
    show ((s.accounts ++ [a]).filter fun b => b.id ≠ a.id) = d.settings.accounts
    rw [List.filter_append, hself, ← (SettingsFile.load_eq_ok hload).2]
    simp

/-- A call that ends in an error with the settings as they were. -/
theorem allOrNothing_refused (hnew : a.NewAmong d.settings.accounts) {vault : String → Option String}
    (h : ∀ key, key ≠ a.credentialId → vault key = d.vault key) (e : ConnectError) :
    AllOrNothing a d (⟨d.settings, vault⟩, .error e) where
  kept := by
    intro hpublished
    rw [published_of_fresh hnew] at hpublished
    cases hpublished
  accepted := by
    intro b hb
    cases hb
  others := othersKept_settings hnew h

/-- A call that published the account and left its credential stored. -/
theorem allOrNothing_wrote (hnew : a.NewAmong d.settings.accounts) {readable : Bool}
    (hload : d.settings.load formats readable = .ok s) (value : String)
    (result : Except ConnectError Account) :
    AllOrNothing a d
      (⟨(wrote formats s a d).settings, Function.update d.vault a.credentialId (some value)⟩,
        result) where
  kept := by
    intro _
    simp [Desktop.stored]
  accepted := by
    intro b _
    exact ⟨published_wrote _, by simp [Desktop.stored]⟩
  others := othersKept_wrote hnew (fun key hkey => Function.update_of_ne hkey _ _) hload

end

/-! ## When connecting is all or nothing -/

section

variable {formats : Formats} {course : Course} {a : Account} {d : Desktop}

/-- The desktop once the credential is stored. -/
def Desktop.keyed (d : Desktop) (a : Account) (value : String) : Desktop :=
  { d with vault := Function.update d.vault a.credentialId (some value) }

@[simp]
theorem opened_keyed (value : String) :
    opened formats course (d.keyed a value) = opened formats course d := rfl

/-- What a call ends in: the account published or not, its credential stored or not. -/
def endState (a : Account) (r : Desktop × Except ConnectError Account) : Bool × Bool :=
  (r.1.published a, r.1.stored a)

/-- Whether the credential is still stored after its removal was asked for. -/
def CallOutcome.retained : CallOutcome → Bool
  | .failsBefore => true
  | _ => false

theorem saveCredential_done (value : String) :
    d.saveCredential .done a.credentialId value = (d.keyed a value, .ok ()) := rfl

theorem saveCredential_failsAfter (value : String) :
    d.saveCredential .failsAfter a.credentialId value =
      (d.keyed a value, .error .credential) := rfl

/-- What is left when the settings stay and the credential is taken back. -/
theorem refused_removed (hnew : a.NewAmong d.settings.accounts) (value : String)
    (e : ConnectError) :
    AllOrNothing a d
        ((d.keyed a value).removeCredential course.remove a.credentialId, .error e) ∧
      endState a ((d.keyed a value).removeCredential course.remove a.credentialId, .error e) =
        (false, course.remove.retained) := by
  unfold Desktop.removeCredential
  cases course.remove with
  | failsBefore =>
    refine ⟨allOrNothing_refused hnew (fun key hkey => Function.update_of_ne hkey _ _) e, ?_⟩
    simp [endState, Desktop.keyed, Desktop.stored, published_of_fresh hnew, CallOutcome.retained]
  | _ =>
    refine ⟨allOrNothing_refused hnew (fun key hkey => ?_) e, ?_⟩
    · rw [Function.update_of_ne hkey]
      exact Function.update_of_ne hkey _ _
    · simp [endState, Desktop.keyed, Desktop.stored, published_of_fresh hnew,
        CallOutcome.retained]

/-- What is left when the settings stay and so does the credential. -/
theorem refused_kept (hnew : a.NewAmong d.settings.accounts) (value : String)
    (e : ConnectError) :
    AllOrNothing a d (d.keyed a value, .error e) ∧
      endState a (d.keyed a value, .error e) = (false, true) := by
  refine ⟨allOrNothing_refused hnew (fun key hkey => Function.update_of_ne hkey _ _) e, ?_⟩
  simp [endState, Desktop.keyed, Desktop.stored, published_of_fresh hnew]

/-- What is left when nothing was stored, whether or not it is taken back. -/
theorem refused_empty (hfresh : Fresh a d) (e : ConnectError) (outcome : CallOutcome) :
    AllOrNothing a d (d, .error e) ∧ endState a (d, .error e) = (false, false) ∧
      AllOrNothing a d (d.removeCredential outcome a.credentialId, .error e) ∧
      endState a (d.removeCredential outcome a.credentialId, .error e) = (false, false) := by
  have hempty : AllOrNothing a d (d, .error e) ∧ endState a (d, .error e) = (false, false) := by
    refine ⟨allOrNothing_refused hfresh.accounts (fun _ _ => rfl) e, ?_⟩
    simp only [endState, Desktop.stored, hfresh.vault, Prod.mk.injEq]
    exact ⟨published_of_fresh hfresh.accounts d.vault, rfl⟩
  refine ⟨hempty.1, hempty.2, ?_⟩
  unfold Desktop.removeCredential
  cases outcome with
  | failsBefore => exact hempty
  | _ =>
    refine ⟨allOrNothing_refused hfresh.accounts
      (fun key hkey => Function.update_of_ne hkey _ _) e, ?_⟩
    simp [endState, Desktop.stored, published_of_fresh hfresh.accounts]

/-- What is left when the account is published and its credential stored. -/
theorem published_kept (hnew : a.NewAmong d.settings.accounts) {s : Settings}
    (h : opened formats course d = some s) (value : String)
    (result : Except ConnectError Account) :
    AllOrNothing a d (wrote formats s a (d.keyed a value), result) ∧
      endState a (wrote formats s a (d.keyed a value), result) = (true, true) := by
  refine ⟨allOrNothing_wrote hnew (opened_eq_some h).2 value result, ?_⟩
  simp only [endState, Prod.mk.injEq]
  exact ⟨published_wrote (d := d) _, by simp [wrote, Desktop.keyed, Desktop.stored]⟩

/-- What is left when the account is published and its credential is taken back. -/
theorem published_removed (hnew : a.NewAmong d.settings.accounts) {s : Settings}
    (h : opened formats course d = some s) (value : String) (e : ConnectError) :
    (AllOrNothing a d
        ((wrote formats s a (d.keyed a value)).removeCredential course.remove a.credentialId,
          .error e) ↔ course.remove = .failsBefore) ∧
      endState a
        ((wrote formats s a (d.keyed a value)).removeCredential course.remove a.credentialId,
          .error e) = (true, course.remove.retained) := by
  unfold Desktop.removeCredential
  cases course.remove with
  | failsBefore =>
    obtain ⟨hall, hstate⟩ := published_kept hnew h value (.error e)
    exact ⟨iff_of_true hall rfl, hstate⟩
  | _ =>
    constructor
    · refine iff_of_false ?_ (by simp)
      intro hall
      have hkept := hall.kept (published_wrote (d := d) _)
      simp [Desktop.stored] at hkept
    · simp only [endState, Prod.mk.injEq]
      exact ⟨published_wrote (d := d) _, by simp [Desktop.stored, CallOutcome.retained]⟩

/-! ### Browser sign-in -/

theorem finish_of_refused (hsave : course.save = .done) (grant : String)
    (hnew : a.NewAmong d.settings.accounts)
    (h : ∃ e, publish formats course a (d.keyed a grant) = (d.keyed a grant, .error e)) :
    AllOrNothing a d (finish formats course a grant d) ∧
      endState a (finish formats course a grant d) = (false, course.remove.retained) := by
  obtain ⟨e, hpublish⟩ := h
  simp only [finish, hsave, saveCredential_done, hpublish]
  exact refused_removed hnew grant e

theorem finish_of_error (formats : Formats) (hsave : course.save ≠ .done) (grant : String) (hfresh : Fresh a d) :
    AllOrNothing a d (finish formats course a grant d) ∧
      endState a (finish formats course a grant d) =
        (false, decide (course.save = .failsAfter)) := by
  cases hcase : course.save with
  | done => exact absurd hcase hsave
  | failsBefore =>
    simp only [finish, hcase, Desktop.saveCredential]
    obtain ⟨hall, hstate, -⟩ := refused_empty hfresh .credential .done
    exact ⟨hall, by rw [hstate]; rfl⟩
  | failsAfter =>
    simp only [finish, hcase, saveCredential_failsAfter]
    exact refused_kept hfresh.accounts grant .credential

/-- The settings write of `finish`, told apart by the step that fails. -/
theorem finish_of_attempted (hsave : course.save = .done) (grant : String) (hfresh : Fresh a d)
    {s : Settings} (h : opened formats course d = some s) (hfree : ¬ s.takes a)
    (hsound : a.Sound formats) :
    (AllOrNothing a d (finish formats course a grant d) ↔
      (course.write = some .directorySync → course.remove = .failsBefore)) ∧
    endState a (finish formats course a grant d) =
      if course.write = none then (true, true)
      else (decide (course.write = some .directorySync), course.remove.retained) := by
  have hnew := hfresh.accounts
  have hnewKeyed : a.NewAmong (d.keyed a grant).settings.accounts := hnew
  rcases publish_attempted (d := d.keyed a grant) hnewKeyed h hfree hsound with
    ⟨hwrite, hpublish⟩ | ⟨hwrite, e, hpublish⟩ | ⟨hwrite, hsync, hpublish⟩
  · simp only [finish, hsave, saveCredential_done, hpublish, hwrite, if_true]
    obtain ⟨hall, hstate⟩ := published_kept hnew h grant (.ok a)
    exact ⟨iff_of_true hall (by simp), hstate⟩
  · simp only [finish, hsave, saveCredential_done, hpublish, hwrite]
    obtain ⟨hall, hstate⟩ := published_removed hnew h grant e
    exact ⟨by simpa using hall, by simpa using hstate⟩
  · obtain ⟨hall, hstate⟩ := finish_of_refused hsave grant hnew hpublish
    refine ⟨iff_of_true hall fun hsync' => absurd hsync' hsync, ?_⟩
    rw [hstate, if_neg hwrite]
    simp [hsync]

/-! ### Native sign-in -/

theorem native_of_unsound (hsound : ¬ a.Sound formats) (snapshot : String) (hfresh : Fresh a d) :
    AllOrNothing a d (saveIcloudConnectionWith formats course a snapshot d) ∧
      endState a (saveIcloudConnectionWith formats course a snapshot d) = (false, false) := by
  unfold saveIcloudConnectionWith
  cases hvalid : (Settings.mk 2 [a]).validate formats with
  | ok => exact absurd hvalid hsound
  | error e =>
    obtain ⟨hall, hstate, -⟩ := refused_empty hfresh (.settings e) .done
    exact ⟨hall, hstate⟩

/-- Where the settings cannot be read, nothing shows the credential unreferenced. -/
theorem native_of_closed (hsound : a.Sound formats) (snapshot : String) (hfresh : Fresh a d)
    (h : opened formats course d = none) :
    AllOrNothing a d (saveIcloudConnectionWith formats course a snapshot d) ∧
      endState a (saveIcloudConnectionWith formats course a snapshot d) =
        (false, decide (course.save ≠ .failsBefore)) := by
  have hvalid : (Settings.mk 2 [a]).validate formats = .ok () := hsound
  have hkeyed : opened formats course (d.keyed a snapshot) = none := h
  cases hcase : course.save with
  | done =>
    obtain ⟨e, hpublish⟩ := publishNative_closed (a := a) hkeyed (.ok ())
    simp only [saveIcloudConnectionWith, hvalid, hcase, saveCredential_done, hpublish]
    exact refused_kept hfresh.accounts snapshot e
  | failsBefore =>
    obtain ⟨e, hpublish⟩ := publishNative_closed (a := a) h (.error .credential)
    simp only [saveIcloudConnectionWith, hvalid, hcase, Desktop.saveCredential, hpublish]
    obtain ⟨hall, hstate, -⟩ := refused_empty hfresh e .done
    exact ⟨hall, hstate⟩
  | failsAfter =>
    obtain ⟨e, hpublish⟩ := publishNative_closed (a := a) hkeyed (.error .credential)
    simp only [saveIcloudConnectionWith, hvalid, hcase, saveCredential_failsAfter, hpublish]
    exact refused_kept hfresh.accounts snapshot e

/-- A refusal with the settings at hand takes the credential back. -/
theorem native_of_refused (hsound : a.Sound formats) (snapshot : String) (hfresh : Fresh a d)
    {s : Settings} (h : opened formats course d = some s)
    (hrefused : course.save ≠ .done ∨ s.takes a) :
    AllOrNothing a d (saveIcloudConnectionWith formats course a snapshot d) ∧
      endState a (saveIcloudConnectionWith formats course a snapshot d) =
        (false, decide (course.save ≠ .failsBefore) && course.remove.retained) := by
  have hvalid : (Settings.mk 2 [a]).validate formats = .ok () := hsound
  have hkeyed : opened formats course (d.keyed a snapshot) = some s := h
  cases hcase : course.save with
  | done =>
    obtain ⟨e, hpublish⟩ := publishNative_refused (d := d.keyed a snapshot) hfresh.accounts hkeyed
      (.ok ()) (.inr (hrefused.resolve_left fun hne => hne hcase))
    simp only [saveIcloudConnectionWith, hvalid, hcase, saveCredential_done, hpublish]
    exact refused_removed hfresh.accounts snapshot e
  | failsBefore =>
    obtain ⟨e, hpublish⟩ := publishNative_refused (a := a) hfresh.accounts h (.error .credential)
      (.inl (by simp))
    simp only [saveIcloudConnectionWith, hvalid, hcase, Desktop.saveCredential, hpublish]
    obtain ⟨-, -, hall, hstate⟩ := refused_empty hfresh e course.remove
    exact ⟨hall, hstate⟩
  | failsAfter =>
    obtain ⟨e, hpublish⟩ := publishNative_refused (d := d.keyed a snapshot) hfresh.accounts hkeyed
      (.error .credential) (.inl (by simp))
    simp only [saveIcloudConnectionWith, hvalid, hcase, saveCredential_failsAfter, hpublish]
    exact refused_removed hfresh.accounts snapshot e

/-- The settings write of the native path. What it cannot show to be unpublished it keeps. -/
theorem native_of_attempted (hsave : course.save = .done) (hsound : a.Sound formats)
    (snapshot : String) (hfresh : Fresh a d) {s : Settings}
    (h : opened formats course d = some s) (hfree : ¬ s.takes a) :
    AllOrNothing a d (saveIcloudConnectionWith formats course a snapshot d) ∧
      endState a (saveIcloudConnectionWith formats course a snapshot d) =
        if course.write = none ∨ course.write = some .directorySync then (true, true)
        else (false, !course.rereadable || course.remove.retained) := by
  have hvalid : (Settings.mk 2 [a]).validate formats = .ok () := hsound
  have hnew : a.NewAmong (d.keyed a snapshot).settings.accounts := hfresh.accounts
  rcases publishNative_attempted (d := d.keyed a snapshot) hnew h hfree hsound with
    ⟨hwrite, safe, hpublish⟩ | ⟨hwrite, e, hpublish⟩ | ⟨hwrite, hsync, e, hpublish⟩
  · simp only [saveIcloudConnectionWith, hvalid, hsave, saveCredential_done, hpublish]
    rw [if_pos (.inl hwrite)]
    exact published_kept hfresh.accounts h snapshot (.ok a)
  · simp only [saveIcloudConnectionWith, hvalid, hsave, saveCredential_done, hpublish,
      Bool.false_eq_true, if_false]
    rw [if_pos (.inr hwrite)]
    exact published_kept hfresh.accounts h snapshot (.error e)
  · simp only [saveIcloudConnectionWith, hvalid, hsave, saveCredential_done, hpublish]
    simp only [hwrite, hsync, or_self, if_false]
    cases course.rereadable with
    | false => exact refused_kept hfresh.accounts snapshot e
    | true => exact refused_removed hfresh.accounts snapshot e

/-- The native path is all or nothing whatever fails. -/
theorem native_allOrNothing (formats : Formats) (course : Course) (snapshot : String)
    (hfresh : Fresh a d) :
    AllOrNothing a d (saveIcloudConnectionWith formats course a snapshot d) := by
  by_cases hsound : a.Sound formats
  · cases h : opened formats course d with
    | none => exact (native_of_closed hsound snapshot hfresh h).1
    | some s =>
      by_cases hrefused : course.save ≠ .done ∨ s.takes a
      · exact (native_of_refused hsound snapshot hfresh h hrefused).1
      · obtain ⟨hsave, hfree⟩ := not_or.mp hrefused
        exact (native_of_attempted (not_not.mp hsave) hsound snapshot hfresh h hfree).1
  · exact (native_of_unsound hsound snapshot hfresh).1

/-- Whatever the settings file, a candidate with new ids and the steps that fail: both paths are
all or nothing, change nothing of another account and end alike, if and only if the failures are
clean. -/
theorem connect_iff (formats : Formats) (course : Course) (a : Account) (grant snapshot : String)
    (d : Desktop) (hfresh : Fresh a d) :
    Connects formats course a grant snapshot d ↔ Clean formats course a d := by
  have hnative := native_allOrNothing formats course snapshot hfresh
  have hends : Connects formats course a grant snapshot d ↔
      AllOrNothing a d (finish formats course a grant d) ∧ (course.remove = .done →
        endState a (finish formats course a grant d) =
          endState a (saveIcloudConnectionWith formats course a snapshot d)) := by
    simp [Connects, endState, hnative]
  rw [hends]
  unfold Clean
  cases hsave : course.save with
  | failsBefore =>
    have hne : course.save ≠ .done := by simp [hsave]
    obtain ⟨hall, hstate⟩ := finish_of_error formats hne grant hfresh
    have hnativeState : endState a (saveIcloudConnectionWith formats course a snapshot d) =
        (false, false) := by
      by_cases hsound : a.Sound formats
      · cases h : opened formats course d with
        | none => simpa [hsave] using (native_of_closed hsound snapshot hfresh h).2
        | some s =>
          simpa [hsave] using
            (native_of_refused hsound snapshot hfresh h (.inl (by simp [hsave]))).2
      · exact (native_of_unsound hsound snapshot hfresh).2
    simp [hall, hstate, hnativeState, hsave]
  | failsAfter =>
    have hne : course.save ≠ .done := by simp [hsave]
    obtain ⟨hall, hstate⟩ := finish_of_error formats hne grant hfresh
    simp only [hall, hstate, hsave, true_and, decide_true]
    apply imp_congr_right
    intro hremove
    by_cases hsound : a.Sound formats
    · cases h : opened formats course d with
      | none => simp [(native_of_closed hsound snapshot hfresh h).2, hsave, hsound]
      | some s =>
        have hstate := (native_of_refused hsound snapshot hfresh h (.inl (by simp [hsave]))).2
        simp [hstate, hsave, hremove, CallOutcome.retained]
    · simp [(native_of_unsound hsound snapshot hfresh).2, hsound]
  | done =>
    by_cases hsound : a.Sound formats
    · simp only [hsound, forall_const]
      cases h : opened formats course d with
      | none =>
        obtain ⟨hall, hstate⟩ := finish_of_refused hsave grant hfresh.accounts
          (publish_closed (d := d.keyed a grant) h)
        rw [hstate, (native_of_closed hsound snapshot hfresh h).2]
        cases hremove : course.remove <;> simp [hall, hsave, CallOutcome.retained]
      | some s =>
        simp only [reduceCtorEq, false_implies, true_and, Option.some.injEq, forall_eq']
        by_cases htakes : s.takes a
        · obtain ⟨hall, hstate⟩ := finish_of_refused hsave grant hfresh.accounts
            (publish_refused (d := d.keyed a grant) hfresh.accounts h (.inl htakes))
          rw [hstate, (native_of_refused hsound snapshot hfresh h (.inr htakes)).2]
          simp [hall, hsave, htakes]
        · obtain ⟨hall, hstate⟩ := finish_of_attempted hsave grant hfresh h htakes hsound
          rw [hall, hstate, (native_of_attempted hsave hsound snapshot hfresh h htakes).2]
          simp only [htakes, not_false_eq_true, true_implies]
          by_cases hnone : course.write = none
          · simp [hnone]
          · by_cases hsync : course.write = some .directorySync
            · -- removed by the one after all, kept by the other
              cases hremove : course.remove <;> simp [hsync, CallOutcome.retained]
            · have hretained : course.remove = .done → course.remove.retained = false := by
                intro hremove
                rw [hremove]
                rfl
              simp only [hnone, hsync, false_implies, true_and, or_self, if_false, decide_false,
                Prod.mk.injEq, ne_eq, not_false_eq_true, true_implies]
              apply imp_congr_right
              intro hremove
              rw [hretained hremove]
              cases course.rereadable <;> simp
    · -- a candidate that is refused on its own is taken back by the one, never stored by the other
      have hpublish : ∃ e, publish formats course a (d.keyed a grant) =
          (d.keyed a grant, .error e) := by
        cases h : opened formats course d with
        | none => exact publish_closed (d := d.keyed a grant) h
        | some s => exact publish_refused (d := d.keyed a grant) hfresh.accounts h (.inr hsound)
      obtain ⟨hall, hstate⟩ := finish_of_refused hsave grant hfresh.accounts hpublish
      rw [hstate, (native_of_unsound hsound snapshot hfresh).2]
      simp only [hall, true_and, hsound, false_implies, iff_true]
      intro hremove
      rw [hremove]
      rfl

end

/-! ## A published account without its credential -/

def emptyDesktop : Desktop := ⟨.missing, fun _ => none⟩

/-- Every step succeeds but one of the settings write. -/
def failingWrite (step : SaveStep) : Course where
  save := .done
  lockBusy := false
  readable := true
  rereadable := true
  write := some step
  remove := .done

theorem fresh_sampleAccount : Fresh sampleAccount emptyDesktop :=
  ⟨by simp [Account.NewAmong, emptyDesktop, SettingsFile.accounts], rfl⟩

/-- The rename went through and the sync of the directory did not: the account is published, and
`finish` takes its credential. -/
theorem connect_published_lost : Fresh sampleAccount emptyDesktop ∧
    endState sampleAccount (finish sampleFormats (failingWrite .directorySync) sampleAccount
      "grant" emptyDesktop) = (true, false) ∧
    ¬ Connects sampleFormats (failingWrite .directorySync) sampleAccount "grant" "snapshot"
      emptyDesktop := by
  have hstate : endState sampleAccount (finish sampleFormats (failingWrite .directorySync)
      sampleAccount "grant" emptyDesktop) = (true, false) := by decide +kernel
  refine ⟨fresh_sampleAccount, hstate, ?_⟩
  intro hconnects
  have hkept := hconnects.1.kept (congrArg Prod.fst hstate)
  have hlost : (finish sampleFormats (failingWrite .directorySync) sampleAccount "grant"
      emptyDesktop).1.stored sampleAccount = false := congrArg Prod.snd hstate
  rw [hlost] at hkept
  cases hkept

/-- A write that fails before the rename leaves nothing on either path. -/
theorem connect_failed_write : Connects sampleFormats (failingWrite .sync) sampleAccount "grant"
    "snapshot" emptyDesktop := by
  apply (connect_iff _ _ _ _ _ _ fresh_sampleAccount).mpr
  intro _
  have hopened : opened sampleFormats (failingWrite .sync) emptyDesktop = some Settings.empty :=
    rfl
  constructor
  · intro hnone
    rw [hopened] at hnone
    cases hnone
  · intro s _ _
    exact ⟨by decide, fun _ _ _ => rfl⟩

end Cirrove.Service
