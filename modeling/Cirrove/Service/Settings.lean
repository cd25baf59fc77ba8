import Mathlib.Data.List.Basic

/-!
# Account settings

`accounts.json` of `cirrove-service/src/accounts.rs`: the accounts a person has connected, what
`Settings::validate` demands of them, and `Settings::load` and `Settings::save`. The file is
replaced by a rename; a write can therefore fail after it has become visible.

Reading a UUID and the length of the written text are third-party code and stay parameters.
-/

namespace Cirrove.Service

/-! ## Accounts -/

/-- `AppRegistration` -/
inductive AppRegistration where
  | microsoft (clientId authority : String)
  | google (clientId : String)
  | icloud
  deriving DecidableEq, Repr

/-- `Identity` -/
structure Identity where
  tenantId : String
  subject : String
  username : String
  graphUserId : String
  displayName : String
  deriving DecidableEq, Repr

/-- `CollectionInfo` -/
structure DriveInfo where
  id : String
  name : String
  driveType : String
  webUrl : String
  deriving DecidableEq, Repr

inductive AccessMode where
  | readOnly
  | readWrite
  deriving DecidableEq, Repr

structure Account where
  id : String
  label : String
  registration : AppRegistration
  identity : Identity
  credentialId : String
  access : AccessMode
  drive : DriveInfo
  rootId : String
  mountPath : String
  enabled : Bool
  pollSeconds : Nat
  cacheBytes : Nat
  deriving DecidableEq, Repr

structure Settings where
  version : Nat
  accounts : List Account
  deriving DecidableEq, Repr

/-- `Settings::default` -/
def Settings.empty : Settings := ⟨2, []⟩

inductive SettingsError where
  | registration
  | selectedDrive
  | icloudDrive
  | configuration
  | duplicate
  | version
  | tooLarge
  | unreadable
  | write
  deriving DecidableEq, Repr

/-- What third-party code decides: which texts are UUIDs, and how long settings are as JSON. -/
structure Formats where
  isUuid : String → Bool
  jsonLength : Settings → Nat

/-! ## Mount paths -/

/-- The components of a path below its root; a leading dot counts in a relative path only. -/
def pathComponents (path : String) : List (List Char) :=
  let parts := path.toList.splitOn '/'
  (if parts.head? = some ['.'] then [['.']] else []) ++ parts.filter fun c => c ≠ [] ∧ c ≠ ['.']

def isAbsolute (path : String) : Bool := path.toList.head? = some '/'

/-- What comparing two paths compares. -/
def pathKey (path : String) : Bool × List (List Char) := (isAbsolute path, pathComponents path)

/-- An absolute path put together again from its components. -/
def rebuilt (path : String) : List Char := '/' :: List.intercalate ['/'] (pathComponents path)

/-! ## Validation -/

def isAsciiWord (c : Char) : Bool := c.isAlphanum || c = '-' || c = '_'

/-- `valid_label` -/
def validLabel (label : String) : Bool :=
  label ≠ "" && label.utf8ByteSize ≤ 48 && label.toList.all isAsciiWord

def googleSuffix : List Char := ".apps.googleusercontent.com".toList

/-- `AppRegistration::validate` -/
def AppRegistration.validate (formats : Formats) : AppRegistration → Except SettingsError Unit
  | .microsoft clientId authority =>
    if !formats.isUuid clientId then .error .registration
    else if authority ∉ ["common", "organizations", "consumers"] ∧ !formats.isUuid authority then
      .error .registration
    else .ok ()
  | .google clientId =>
    let text := clientId.toList
    if !googleSuffix.isSuffixOf text then .error .registration
    else
      let front := text.take (text.length - googleSuffix.length)
      if front = [] ∨ (String.ofList front).utf8ByteSize > 200 ∨
          !front.all (fun c => c.isAlphanum || c = '-') then
        .error .registration
      else .ok ()
  | .icloud => .ok ()

/-- The checks of one account. -/
def Account.validate (formats : Formats) (a : Account) : Except SettingsError Unit := do
  a.registration.validate formats
  if (a.registration matches .google _) ∧
      (a.drive.id ≠ a.rootId ∨ a.drive.driveType ∉ ["my_drive", "shared_drive"] ∨
        a.identity.subject = "" ∨ a.identity.tenantId ≠ "") then
    .error .selectedDrive
  else if (a.registration matches .icloud) ∧
      (a.drive.id ≠ "drive" ∨ a.drive.driveType ≠ "icloud_drive" ∨
        a.rootId ≠ "FOLDER::com.apple.CloudDocs::root" ∨ a.identity.username = "" ∨
        a.identity.tenantId ≠ "" ∨ a.identity.graphUserId ≠ "") then
    .error .icloudDrive
  else if !validLabel a.label ∨ !formats.isUuid a.id ∨ !formats.isUuid a.credentialId ∨
      a.drive.id = "" ∨ a.rootId = "" ∨ !isAbsolute a.mountPath ∨
      ['.', '.'] ∈ pathComponents a.mountPath ∨ rebuilt a.mountPath ≠ a.mountPath.toList ∨
      a.pollSeconds < 10 ∨ a.cacheBytes < 8 * 1024 * 1024 then
    .error .configuration
  else .ok ()

/-- Two accounts that cannot stand in one file. -/
def Account.collides (a b : Account) : Prop :=
  a.id = b.id ∨ a.label = b.label ∨ pathKey a.mountPath = pathKey b.mountPath

instance (a b : Account) : Decidable (a.collides b) :=
  inferInstanceAs (Decidable (_ ∨ _))

/-- The loop of `Settings::validate`, with the accounts it has passed. -/
def validateAccounts (formats : Formats) (seen : List Account) :
    List Account → Except SettingsError Unit
  | [] => .ok ()
  | a :: rest => do
    a.validate formats
    if ∃ b ∈ seen, b.collides a then .error .duplicate
    else validateAccounts formats (a :: seen) rest

/-- `Settings::validate` -/
def Settings.validate (formats : Formats) (s : Settings) : Except SettingsError Unit :=
  if s.version ≠ 2 then .error .version else validateAccounts formats [] s.accounts

/-! ## The file -/

/-- `accounts.json`: absent, or a text of some length and the settings it reads as, an old version
already brought up to date. -/
inductive SettingsFile where
  | missing
  | text (length : Nat) (parsed : Option Settings)
  deriving DecidableEq, Repr

namespace SettingsFile

/-- The accounts the file contains. -/
def accounts : SettingsFile → List Account
  | .text _ (some s) => s.accounts
  | _ => []

/-- `Settings::load`; the file may turn out unreadable. -/
def load (formats : Formats) (readable : Bool) (file : SettingsFile) :
    Except SettingsError Settings :=
  if !readable then .error .unreadable
  else match file with
    | .missing => .ok Settings.empty
    | .text length parsed =>
      if length > 1024 * 1024 then .error .tooLarge
      else match parsed with
        | none => .error .unreadable
        | some s => do
          s.validate formats
          .ok s

end SettingsFile

/-- The steps of `Settings::save` that can fail. -/
inductive SaveStep where
  | create
  | write
  | sync
  | rename
  | directorySync
  deriving DecidableEq, Repr

/-- `Settings::save`, stopped by an error at a step or not. The temporary file is removed and the
settings file is a new one from the rename on. -/
def Settings.save (formats : Formats) (failing : Option SaveStep) (s : Settings)
    (file : SettingsFile) : SettingsFile × Except SettingsError Unit :=
  match s.validate formats with
  | .error e => (file, .error e)
  | .ok () =>
    match failing with
    | none => (.text (formats.jsonLength s) (some s), .ok ())
    | some .directorySync => (.text (formats.jsonLength s) (some s), .error .write)
    | some _ => (file, .error .write)

/-! ## What validation means -/

section

variable {formats : Formats}

/-- The loop passes accounts that are valid one by one, collide with none it has seen and with none
before them. -/
theorem validateAccounts_ok_iff (seen accounts : List Account) :
    validateAccounts formats seen accounts = .ok () ↔
      (∀ a ∈ accounts, a.validate formats = .ok () ∧ ∀ b ∈ seen, ¬ b.collides a) ∧
        accounts.Pairwise fun b a => ¬ b.collides a := by
  induction accounts generalizing seen with
  | nil => simp [validateAccounts]
  | cons first rest ih =>
    simp only [validateAccounts, List.mem_cons, forall_eq_or_imp, List.pairwise_cons]
    cases first.validate formats with
    | error e => simp [bind, Except.bind]
    | ok =>
      by_cases hseen : ∃ b ∈ seen, b.collides first
      · simp only [bind, Except.bind, if_pos hseen, reduceCtorEq, true_and, false_iff]
        rintro ⟨⟨hnone, -⟩, -⟩
        obtain ⟨b, hb, hcollides⟩ := hseen
        exact hnone b hb hcollides
      · have hnone : ∀ b ∈ seen, ¬ b.collides first := by simpa using hseen
        simp only [bind, Except.bind, if_neg hseen, ih, List.mem_cons, forall_eq_or_imp, true_and]
        constructor
        · rintro ⟨hall, hrest⟩
          exact ⟨⟨hnone, fun a ha => ⟨(hall a ha).1, (hall a ha).2.2⟩⟩,
            fun a ha => (hall a ha).2.1, hrest⟩
        · rintro ⟨⟨-, hall⟩, hfirst, hrest⟩
          exact ⟨fun a ha => ⟨(hall a ha).1, hfirst a ha, (hall a ha).2⟩, hrest⟩

theorem Settings.validate_ok_iff {s : Settings} : s.validate formats = .ok () ↔
    s.version = 2 ∧ (∀ a ∈ s.accounts, a.validate formats = .ok ()) ∧
      s.accounts.Pairwise fun b a => ¬ b.collides a := by
  unfold Settings.validate
  by_cases hversion : s.version = 2
  · simp [hversion, validateAccounts_ok_iff]
  · simp [hversion]

/-- Settings stay valid when accounts are taken out of them. -/
theorem Settings.validate_sublist {s : Settings} (h : s.validate formats = .ok ())
    {accounts : List Account} (hsub : accounts.Sublist s.accounts) :
    ({ s with accounts := accounts } : Settings).validate formats = .ok () := by
  obtain ⟨hversion, hall, hpairs⟩ := validate_ok_iff.mp h
  exact validate_ok_iff.mpr
    ⟨hversion, fun a ha => hall a (hsub.subset ha), hpairs.sublist hsub⟩

/-- One more account validates with settings that do exactly when it validates alone and collides
with none of them. -/
theorem Settings.validate_push_ok {s : Settings} (h : s.validate formats = .ok ()) (a : Account) :
    ({ s with accounts := s.accounts ++ [a] } : Settings).validate formats = .ok () ↔
      (Settings.mk 2 [a]).validate formats = .ok () ∧ ∀ b ∈ s.accounts, ¬ b.collides a := by
  obtain ⟨hversion, hall, hpairs⟩ := validate_ok_iff.mp h
  rw [validate_ok_iff, validate_ok_iff]
  simp only [hversion, List.mem_append, List.mem_singleton, List.pairwise_append, hpairs,
    List.pairwise_singleton, forall_eq, true_and, and_true, or_imp, forall_and, forall_eq,
    and_congr_left_iff, and_iff_right_iff_imp]
  exact fun _ _ => hall

theorem SettingsFile.load_eq_ok {file : SettingsFile} {readable : Bool} {s : Settings}
    (h : file.load formats readable = .ok s) :
    s.validate formats = .ok () ∧ s.accounts = file.accounts := by
  cases readable with
  | false => simp [SettingsFile.load] at h
  | true =>
    cases file with
    | missing =>
      simp only [SettingsFile.load, Bool.not_true, Bool.false_eq_true, if_false,
        Except.ok.injEq] at h
      subst h
      exact ⟨rfl, rfl⟩
    | text length parsed =>
      simp only [SettingsFile.load, Bool.not_true, Bool.false_eq_true, if_false] at h
      split at h
      · cases h
      · cases parsed with
        | none => cases h
        | some stored =>
          cases hvalid : stored.validate formats with
          | error e => simp [hvalid, bind, Except.bind] at h
          | ok =>
            simp only [hvalid, bind, Except.bind, Except.ok.injEq] at h
            subst h
            exact ⟨hvalid, rfl⟩

/-- The file after a write: as it was, or the new settings, the latter whenever the write reports
success. -/
theorem Settings.save_cases (failing : Option SaveStep) (s : Settings) (file : SettingsFile) :
    (s.validate formats = .ok () ∧ failing = none ∧
        s.save formats failing file = (.text (formats.jsonLength s) (some s), .ok ())) ∨
    (s.validate formats = .ok () ∧ failing = some .directorySync ∧
        s.save formats failing file = (.text (formats.jsonLength s) (some s), .error .write)) ∨
    ((s.validate formats ≠ .ok () ∨ failing ≠ none ∧ failing ≠ some .directorySync) ∧
        ∃ e, s.save formats failing file = (file, .error e)) := by
  unfold Settings.save
  cases hvalid : s.validate formats with
  | error e => exact .inr (.inr ⟨.inl (by simp), e, rfl⟩)
  | ok =>
    cases failing with
    | none => exact .inl ⟨rfl, rfl, rfl⟩
    | some step =>
      cases step with
      | directorySync => exact .inr (.inl ⟨rfl, rfl, rfl⟩)
      | _ => exact .inr (.inr ⟨.inr ⟨by simp, by simp⟩, .write, rfl⟩)

end

/-- Texts of the length of a UUID, in hexadecimal digits and hyphens; a thousand bytes an
account. -/
def sampleFormats : Formats where
  isUuid text := text.toList.length = 36 &&
    text.toList.all fun c => c.isDigit || c = '-' || ('a' ≤ c && c ≤ 'f')
  jsonLength s := 1000 * s.accounts.length

def sampleAccount : Account where
  id := "00000000-0000-4000-8000-000000000001"
  label := "work"
  registration := .microsoft "00000000-0000-4000-8000-000000000002" "common"
  identity := ⟨"tenant", "subject", "user", "user", "User"⟩
  credentialId := "00000000-0000-4000-8000-000000000003"
  access := .readOnly
  drive := ⟨"drive", "Documents", "business", "https://drive"⟩
  rootId := "root"
  mountPath := "/m"
  enabled := true
  pollSeconds := 30
  cacheBytes := 5 * 1024 * 1024 * 1024

end Cirrove.Service
