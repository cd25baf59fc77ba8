import Cirrove.Journal.Unsent
import Cirrove.Journal.Folders
import Cirrove.Service.Settings

/-!
# Removing a connection

`forget` and `unsent_changes` of `cirrove-service/src/accounts.rs`. `forget` refuses an account
that is enabled and one whose journal still counts uploads; it then moves the account's directory
to `removed/` and takes the account out of the settings, two durable steps.

The count is of the first thousand uploads, not of the changes and the unsealed files, and passes
over the failed ones. `forget_iff` says exactly when the refusal means what the connection still
holds and when a call that fails leaves settings and directory together.
-/

namespace Cirrove.Service

open Cirrove.Library
open Cirrove.Journal (UploadJournal Uuid)

/-! ## Directories -/

/-- The journal of an account. `leftovers` are the files the next opening removes, in its order:
temporaries of downloads and copies that were given up. -/
structure JournalDirectory where
  journal : UploadJournal
  leftovers : List String

/-- The directory of an account: its journal, if it has one, and all other files. -/
structure AccountData where
  journal : Option JournalDirectory
  files : List String

/-- The names of the files a directory holds. -/
def AccountData.names (data : AccountData) : List String :=
  data.files ++ (data.journal.map JournalDirectory.leftovers).getD []

/-- The state directory. `removed` is by account id and time. -/
structure StateDirectory where
  settings : SettingsFile
  accounts : String → Option AccountData
  removed : String × Nat → Option AccountData

/-- A step of `forget` that can fail; a process that dies there leaves the same behind. -/
inductive ForgetStep where
  | configLock
  | readSettings
  | operationLock
  /-- `UploadJournal::open`, after so many commits -/
  | openJournal (commits : Nat)
  | listUploads
  | removedDirectory
  | move
  | save (step : SaveStep)
  deriving DecidableEq, Repr

/-- What the surroundings of one call decide: the step that fails, how long the working files are,
how many leftovers the opening removes before it ends, and the time. -/
structure ForgetCourse where
  failing : Option ForgetStep
  size : Uuid → Nat
  collected : Nat
  stamp : Nat

inductive ForgetError where
  | step (step : ForgetStep)
  | settings (e : SettingsError)
  | notConfigured
  | enabled
  | account
  | journal (e : Journal.JournalError)
  | unsent (count : Nat)
  | occupied
  deriving DecidableEq, Repr

section

variable (formats : Formats) (course : ForgetCourse)

/-! ## Counting -/

/-- `unsent_uploads`; opening the journal changes the directory. -/
def unsentUploads (owner : String) (data : Option AccountData) :
    Option AccountData × Except ForgetError Nat :=
  match data with
  | none => (none, .ok 0)
  | some dir =>
    match dir.journal with
    | none => (some dir, .ok 0)
    | some jd =>
      let left (j : UploadJournal) : Option AccountData :=
        some { dir with journal := some ⟨j, jd.leftovers.drop course.collected⟩ }
      if jd.journal.settings.account ≠ owner then (some dir, .error .account)
      else
        let outcome := UploadJournal.reopen course.size jd.journal
        match course.failing with
        | some (.openJournal commits) =>
          (left ((outcome.states.take commits).getLastD jd.journal),
            .error (.step (.openJournal commits)))
        | _ =>
          match outcome.result with
          | .error e => (left (outcome.final jd.journal), .error (.journal e))
          | .ok _ =>
            if course.failing = some .listUploads then
              (left (outcome.final jd.journal), .error (.step .listUploads))
            else
              (left (outcome.final jd.journal), .ok (outcome.final jd.journal).unsent)

/-- The settings and the account a call is about, once the locks are taken. -/
def selectAccount (label : String) (s : StateDirectory) :
    Except ForgetError (Settings × Account) :=
  if course.failing = some .configLock then .error (.step .configLock)
  else
    match s.settings.load formats (course.failing ≠ some .readSettings) with
    | .error e => .error (.settings e)
    | .ok settings =>
      match settings.accounts.find? fun a => a.label = label with
      | none => .error .notConfigured
      | some account =>
        if course.failing = some .operationLock then .error (.step .operationLock)
        else if account.enabled then .error .enabled
        else .ok (settings, account)

/-- `unsent_changes` -/
def unsentChanges (label : String) (s : StateDirectory) :
    StateDirectory × Except ForgetError Nat :=
  match selectAccount formats course label s with
  | .error e => (s, .error e)
  | .ok (_, account) =>
    let (data, result) := unsentUploads course account.id (s.accounts account.id)
    ({ s with accounts := Function.update s.accounts account.id data }, result)

/-! ## Forgetting -/

/-- What stands where the directory is to go holds something; an empty directory is replaced. -/
def Occupied (id : String) (s : StateDirectory) : Prop :=
  ((s.removed (id, course.stamp)).any fun data =>
    data.journal.isSome || !data.files.isEmpty) = true

instance (id : String) (s : StateDirectory) : Decidable (Occupied course id s) :=
  inferInstanceAs (Decidable (_ = true))

/-- The rename of the directory, if there is one, to where nothing stands yet. -/
def setAside (id : String) (s : StateDirectory) : StateDirectory × Except ForgetError Unit :=
  match s.accounts id with
  | none => (s, .ok ())
  | some data =>
    if course.failing = some .move then (s, .error (.step .move))
    else if Occupied course id s then (s, .error .occupied)
    else
      ({ s with
          accounts := Function.update s.accounts id none
          removed := Function.update s.removed (id, course.stamp) (some data) }, .ok ())

/-- The step of the settings write that fails. -/
def ForgetCourse.write : Option SaveStep :=
  match course.failing with
  | some (.save step) => some step
  | _ => none

/-- The settings without the account. -/
def Settings.without (settings : Settings) (label : String) : Settings :=
  { settings with accounts := settings.accounts.eraseP fun a => a.label = label }

/-- The end of `forget`, once the count allows it: the directory first, then the settings. -/
def removeAccount (label id : String) (settings : Settings) (unsent : Nat) (s : StateDirectory) :
    StateDirectory × Except ForgetError Nat :=
  if course.failing = some .removedDirectory then (s, .error (.step .removedDirectory))
  else
    match setAside course id s with
    | (s, .error e) => (s, .error e)
    | (s, .ok ()) =>
      let (file, result) := (settings.without label).save formats course.write s.settings
      ({ s with settings := file }, (result.mapError .settings).map fun _ => unsent)

/-- `forget` -/
def forget (label : String) (discardUnsent : Bool) (s : StateDirectory) :
    StateDirectory × Except ForgetError Nat :=
  match selectAccount formats course label s with
  | .error e => (s, .error e)
  | .ok (settings, account) =>
    let (data, counted) := unsentUploads course account.id (s.accounts account.id)
    let s := { s with accounts := Function.update s.accounts account.id data }
    match counted with
    | .error e => (s, .error e)
    | .ok unsent =>
      if 0 < unsent ∧ !discardUnsent then (s, .error (.unsent unsent))
      else removeAccount formats course label account.id settings unsent s

/-! ## What removing a connection is to keep -/

/-- The journal of the directory, if it has one, has nothing left to send. -/
def SentData (data : Option AccountData) : Prop :=
  ∀ dir jd, data = some dir → dir.journal = some jd → jd.journal.Sent

/-- The account is in the settings. -/
def StateDirectory.Configured (s : StateDirectory) (id : String) : Prop :=
  ∃ a ∈ s.settings.accounts, a.id = id

/-- Settings and directory after a call that failed: the account is configured and its directory
in place, or it is not and the directory was set aside, with every file it held. -/
def Together (id : String) (s s' : StateDirectory) : Prop :=
  (s'.Configured id ∧ (s'.accounts id).map AccountData.names = (s.accounts id).map AccountData.names) ∨
  (¬ s'.Configured id ∧ s'.accounts id = none ∧ ∀ dir, s.accounts id = some dir →
    ∃ dir', s'.removed (id, course.stamp) = some dir' ∧ dir'.names = dir.names)

/-- Removing the account of a label takes nothing unsent with it silently. -/
structure Forgets (label id : String) (s : StateDirectory) : Prop where
  sent : ∀ n, (forget formats course label false s).2 = .ok n → SentData (s.accounts id)
  admits : SentData (s.accounts id) → ∀ n, (forget formats course label false s).2 ≠ .error (.unsent n)
  counts : ∀ n, (unsentChanges formats course label s).2 = .ok n →
    (n = 0 ↔ SentData (s.accounts id))
  failed : ∀ e, (forget formats course label false s).2 = .error e →
    Together course id s (forget formats course label false s).1

/-! ## The condition -/

/-- The call fails before it looks at the account's directory. -/
def ForgetCourse.Early : Prop :=
  course.failing ∈ [some .configLock, some .readSettings, some .operationLock]

/-- The journal can be opened and listed. -/
def Opens (jd : JournalDirectory) : Prop :=
  (∀ commits, course.failing ≠ some (.openJournal commits)) ∧
    (∃ u, (UploadJournal.reopen course.size jd.journal).result = .ok u) ∧
    course.failing ≠ some .listUploads

/-- None of the first thousand uploads counts. -/
def Passes (jd : JournalDirectory) : Prop :=
  ∀ r ∈ jd.journal.list 0 10000, r.state.passed = true

/-- The directory is reached by the rename. -/
def Moves (id : String) (s : StateDirectory) (dir : AccountData) : Prop :=
  (∀ jd, dir.journal = some jd →
    jd.journal.settings.account = id ∧ Opens course jd ∧ Passes jd) ∧
  course.failing ≠ some .removedDirectory ∧ course.failing ≠ some .move ∧ ¬ Occupied course id s

/-- What removing a connection relies on. Past the locks and the settings: the first thousand
uploads tell what is left to send; an opening removes no leftovers when the call fails after it;
and the settings write does not fail before its rename once the directory was moved. -/
def Whole (id : String) (s : StateDirectory) : Prop :=
  ¬ course.Early → ∀ dir, s.accounts id = some dir →
    (∀ jd, dir.journal = some jd → jd.journal.settings.account = id →
      (Opens course jd → jd.journal.Telling) ∧
      (¬ Moves course id s dir ∨ course.write ≠ none →
        jd.leftovers.drop course.collected = jd.leftovers)) ∧
    (Moves course id s dir → course.write = none ∨ course.write = some .directorySync)

/-- The label names a disabled account of settings that can be read. -/
structure Selected (label : String) (s : StateDirectory) (settings : Settings)
    (account : Account) : Prop where
  load : s.settings.load formats true = .ok settings
  found : settings.accounts.find? (fun a => a.label = label) = some account
  disabled : account.enabled = false

end

/-! ## Selecting the account -/

section

variable {formats : Formats} {course : ForgetCourse} {label : String} {s : StateDirectory}
  {settings : Settings} {account : Account}

theorem selectAccount_early (h : Selected formats label s settings account)
    (hearly : course.Early) :
    ∃ e, selectAccount formats course label s = .error e ∧ ∀ n, e ≠ .unsent n := by
  unfold ForgetCourse.Early at hearly
  simp only [List.mem_cons, List.not_mem_nil, or_false] at hearly
  rcases hearly with hstep | hstep | hstep
  · exact ⟨_, by rw [selectAccount, if_pos hstep], by simp⟩
  · refine ⟨.settings .unreadable, ?_, by simp⟩
    simp [selectAccount, hstep, SettingsFile.load]
  · refine ⟨.step .operationLock, ?_, by simp⟩
    simp [selectAccount, hstep, h.load, h.found]

theorem selectAccount_late (h : Selected formats label s settings account)
    (hlate : ¬ course.Early) : selectAccount formats course label s = .ok (settings, account) := by
  unfold ForgetCourse.Early at hlate
  simp only [List.mem_cons, List.not_mem_nil, or_false, not_or] at hlate
  obtain ⟨hlock, hread, hoperation⟩ := hlate
  simp [selectAccount, hlock, hread, hoperation, h.load, h.found, h.disabled]

theorem Selected.configured (h : Selected formats label s settings account) :
    s.Configured account.id :=
  ⟨account, (SettingsFile.load_eq_ok h.load).2 ▸ List.mem_of_find?_eq_some h.found, rfl⟩

theorem Selected.without_valid (h : Selected formats label s settings account) :
    (settings.without label).validate formats = .ok () :=
  Settings.validate_sublist (SettingsFile.load_eq_ok h.load).1 (List.eraseP_sublist ..)

/-- No other account has the id of the one that is taken out. -/
theorem Selected.without_id (h : Selected formats label s settings account) :
    ∀ b ∈ (settings.without label).accounts, b.id ≠ account.id := by
  have hpairs := (Settings.validate_ok_iff.mp (SettingsFile.load_eq_ok h.load).1).2.2
  obtain ⟨hlabel, front, back, hsplit, hfront⟩ := List.find?_eq_some_iff_append.mp h.found
  have herase : (settings.without label).accounts = front ++ back := by
    rw [Settings.without, hsplit, List.eraseP_append_right _ (by simpa using hfront)]
    rw [List.eraseP_cons_of_pos (p := fun a : Account => decide (a.label = label)) hlabel]
  rw [hsplit, List.pairwise_append, List.pairwise_cons] at hpairs
  obtain ⟨-, ⟨hlater, -⟩, hbefore⟩ := hpairs
  intro b hb hid
  rw [herase, List.mem_append] at hb
  rcases hb with hb | hb
  · exact hbefore b hb account List.mem_cons_self (.inl hid)
  · exact hlater b hb (.inl hid.symm)

/-! ## Counting -/

/-- A journal some run of the journal's machine leaves behind. -/
def Reachable (j : UploadJournal) : Prop :=
  ∃ ok settings events w, Run Journal.step (Journal.Permitted ok) (Journal.World.create settings)
    events w ∧ w.journal = j

theorem Reachable.inv {j : UploadJournal} (h : Reachable j) : ∃ ok, Journal.Inv ok [] j := by
  obtain ⟨ok, settings, events, w, hrun, rfl⟩ := h
  exact ⟨ok, Journal.inv_of_run hrun⟩

/-- The directory after an opening left a journal in it. -/
def AccountData.opened (dir : AccountData) (j : UploadJournal) (leftovers : List String) :
    AccountData :=
  { dir with journal := some ⟨j, leftovers⟩ }

theorem AccountData.names_opened (dir : AccountData) (j : UploadJournal)
    (leftovers : List String) : (dir.opened j leftovers).names = dir.files ++ leftovers := rfl

theorem AccountData.names_of_journal {dir : AccountData} {jd : JournalDirectory}
    (h : dir.journal = some jd) : dir.names = dir.files ++ jd.leftovers := by
  rw [names, h]
  rfl

/-- A journal that opens is counted, and looks as it did. -/
theorem unsentUploads_opens {dir : AccountData} {jd : JournalDirectory} {owner : String}
    (hdir : dir.journal = some jd) (howner : jd.journal.settings.account = owner)
    (hreach : Reachable jd.journal) (h : Opens course jd) :
    ∃ j, Journal.Seen jd.journal j ∧ unsentUploads course owner (some dir) =
      (some (dir.opened j (jd.leftovers.drop course.collected)), .ok j.unsent) := by
  obtain ⟨hopen, ⟨u, hresult⟩, hlist⟩ := h
  obtain ⟨ok, hinv⟩ := hreach.inv
  have hseen := (Journal.reopen_seen hinv course.size jd.journal rfl).2 u hresult
  refine ⟨_, hseen, ?_⟩
  cases hfailing : course.failing with
  | none => simp [unsentUploads, hdir, howner, hfailing, hresult, AccountData.opened]
  | some step =>
    cases step with
    | openJournal commits => exact absurd hfailing (hopen commits)
    | listUploads => exact absurd hfailing hlist
    | _ => simp [unsentUploads, hdir, howner, hfailing, hresult, AccountData.opened]

/-- A journal that does not open is refused, and what is left has its files but for the leftovers
the opening removed. -/
theorem unsentUploads_closed {dir : AccountData} {jd : JournalDirectory} {owner : String}
    (hdir : dir.journal = some jd) (howner : jd.journal.settings.account = owner)
    (h : ¬ Opens course jd) :
    ∃ j e, (∀ n, e ≠ ForgetError.unsent n) ∧ unsentUploads course owner (some dir) =
      (some (dir.opened j (jd.leftovers.drop course.collected)), .error e) := by
  simp only [unsentUploads, hdir, howner, ne_eq, not_true, if_false]
  split
  · next commits hfailing => exact ⟨_, _, by simp, rfl⟩
  · next hopen =>
    cases hresult : (UploadJournal.reopen course.size jd.journal).result with
    | error e => exact ⟨_, .journal e, by simp, rfl⟩
    | ok u =>
      have hlist : course.failing = some .listUploads := by
        by_contra hne
        exact h ⟨hopen, ⟨u, hresult⟩, hne⟩
      rw [if_pos hlist]
      exact ⟨_, .step .listUploads, by simp, rfl⟩

theorem unsentUploads_foreign {dir : AccountData} {jd : JournalDirectory} {owner : String}
    (hdir : dir.journal = some jd) (howner : jd.journal.settings.account ≠ owner) :
    unsentUploads course owner (some dir) = (some dir, .error .account) := by
  simp [unsentUploads, hdir, howner]

theorem unsentUploads_plain {dir : AccountData} {owner : String} (hdir : dir.journal = none) :
    unsentUploads course owner (some dir) = (some dir, .ok 0) := by
  simp [unsentUploads, hdir]

/-! ## Where settings and directory end up -/

/-- The state directory after the account's was opened and counted. -/
def StateDirectory.counted (s : StateDirectory) (id : String) (data : Option AccountData) :
    StateDirectory :=
  { s with accounts := Function.update s.accounts id data }

/-- The state directory after the account's was set aside. -/
def StateDirectory.aside (s : StateDirectory) (id : String) (stamp : Nat) (data : AccountData) :
    StateDirectory :=
  { s with
    accounts := Function.update s.accounts id none
    removed := Function.update s.removed (id, stamp) (some data) }

/-- The state directory with other settings. -/
def StateDirectory.rewritten (s : StateDirectory) (file : SettingsFile) : StateDirectory :=
  { s with settings := file }

section

variable {id : String} {dir : AccountData}

@[simp]
theorem counted_accounts (s : StateDirectory) (id : String) (data : Option AccountData) :
    (s.counted id data).accounts id = data :=
  Function.update_self ..

@[simp]
theorem aside_accounts (s : StateDirectory) (id : String) (stamp : Nat) (data : AccountData) :
    (s.aside id stamp data).accounts id = none :=
  Function.update_self ..

@[simp]
theorem aside_removed (s : StateDirectory) (id : String) (stamp : Nat) (data : AccountData) :
    (s.aside id stamp data).removed (id, stamp) = some data :=
  Function.update_self ..

@[simp]
theorem rewritten_accounts (s : StateDirectory) (file : SettingsFile) :
    (s.rewritten file).accounts = s.accounts := rfl

@[simp]
theorem rewritten_removed (s : StateDirectory) (file : SettingsFile) :
    (s.rewritten file).removed = s.removed := rfl

theorem together_counted (hconfigured : s.Configured id) (data : Option AccountData) :
    Together course id s (s.counted id data) ↔
      data.map AccountData.names = (s.accounts id).map AccountData.names := by
  have hstill : (s.counted id data).Configured id := hconfigured
  simp only [Together, hstill, counted_accounts, true_and, not_true, false_and, or_false]

/-- A directory that was moved away from an account that is still configured. -/
theorem not_together_aside (course : ForgetCourse) (hconfigured : s.Configured id)
    (hdir : s.accounts id = some dir) (data : Option AccountData) (dir' : AccountData) :
    ¬ Together course id s ((s.counted id data).aside id course.stamp dir') := by
  have hstill : ((s.counted id data).aside id course.stamp dir').Configured id := hconfigured
  simp only [Together, hstill, aside_accounts, hdir, not_true, false_and, or_false]
  simp

theorem together_forgotten (course : ForgetCourse) {file : SettingsFile}
    (hgone : ∀ a ∈ file.accounts, a.id ≠ id) (hdir : s.accounts id = some dir)
    (data : Option AccountData) (dir' : AccountData) :
    Together course id s
      (((s.counted id data).aside id course.stamp dir').rewritten file) ↔
      dir'.names = dir.names := by
  have hnot : ¬ (((s.counted id data).aside id course.stamp dir').rewritten file).Configured id := by
    rintro ⟨a, ha, hid⟩
    exact hgone a ha hid
  simp only [Together, hnot, rewritten_accounts, rewritten_removed, aside_accounts, aside_removed,
    hdir, false_and, not_false_eq_true, true_and, false_or]
  simp

end

/-- The write of the settings without the account, told apart by the step that fails. -/
theorem Selected.save_cases (h : Selected formats label s settings account)
    (failing : Option SaveStep) (file : SettingsFile) :
    (failing = none ∧ ∃ file', (∀ a ∈ file'.accounts, a.id ≠ account.id) ∧
        (settings.without label).save formats failing file = (file', .ok ())) ∨
    (failing = some .directorySync ∧ ∃ file' e, (∀ a ∈ file'.accounts, a.id ≠ account.id) ∧
        (settings.without label).save formats failing file = (file', .error e)) ∨
    (failing ≠ none ∧ failing ≠ some .directorySync ∧
      ∃ e, (settings.without label).save formats failing file = (file, .error e)) := by
  rcases @Settings.save_cases formats failing (settings.without label) file with
    ⟨-, hnone, heq⟩ | ⟨-, hsync, heq⟩ | ⟨hfails, e, heq⟩
  · refine .inl ⟨hnone, _, ?_, heq⟩
    exact h.without_id
  · refine .inr (.inl ⟨hsync, _, .write, ?_, heq⟩)
    exact h.without_id
  · obtain ⟨hnone, hsync⟩ := hfails.resolve_left fun hinvalid => hinvalid h.without_valid
    exact .inr (.inr ⟨hnone, hsync, e, heq⟩)

/-- The steps between the count and the settings write all go through. -/
def Clears (course : ForgetCourse) (id : String) (s : StateDirectory) : Prop :=
  course.failing ≠ some .removedDirectory ∧ course.failing ≠ some .move ∧ ¬ Occupied course id s

/-- A call that counts nothing. -/
theorem forget_allowed (h : Selected formats label s settings account) (hlate : ¬ course.Early)
    {data : Option AccountData}
    (hcount : unsentUploads course account.id (s.accounts account.id) = (data, .ok 0)) :
    forget formats course label false s =
      removeAccount formats course label account.id settings 0 (s.counted account.id data) := by
  simp only [forget, selectAccount_late h hlate, hcount]
  rfl

/-- A call whose count is zero: what it answers, and when its failures keep settings and directory
together. -/
theorem forget_zero (h : Selected formats label s settings account) (hlate : ¬ course.Early)
    {dir dir' : AccountData} (hdir : s.accounts account.id = some dir)
    (hcount : unsentUploads course account.id (some dir) = (some dir', .ok 0)) :
    (∀ n, (forget formats course label false s).2 ≠ .error (.unsent n)) ∧
    ((∀ e, (forget formats course label false s).2 = .error e →
        Together course account.id s (forget formats course label false s).1) ↔
      (¬ Clears course account.id s ∨ course.write ≠ none → dir'.names = dir.names) ∧
      (Clears course account.id s → course.write = none ∨ course.write = some .directorySync)) := by
  have hsame : Together course account.id s (s.counted account.id (some dir')) ↔
      dir'.names = dir.names := by
    rw [together_counted h.configured, hdir]
    simp
  rw [forget_allowed h hlate (hdir.symm ▸ hcount), removeAccount]
  by_cases hremoved : course.failing = some .removedDirectory
  · have hnot : ¬ Clears course account.id s := fun hclears => hclears.1 hremoved
    simp [hremoved, hnot, hsame]
  · rw [if_neg hremoved]
    by_cases hclears : Clears course account.id s
    · have haside : setAside course account.id (s.counted account.id (some dir')) =
          ((s.counted account.id (some dir')).aside account.id course.stamp dir', .ok ()) := by
        have hfree : ¬ Occupied course account.id (s.counted account.id (some dir')) :=
          hclears.2.2
        simp only [setAside, counted_accounts, hclears.2.1, hfree, if_false]
        rfl
      simp only [haside, hclears, not_true, false_or, true_implies]
      rcases h.save_cases course.write
          ((s.counted account.id (some dir')).aside account.id course.stamp dir').settings with
        ⟨hwrite, file, hgone, hsave⟩ | ⟨hwrite, file, e, hgone, hsave⟩ | ⟨hnone, hsync, e, hsave⟩
      · simp only [hsave, Except.mapError, Except.map]
        simp [hwrite]
      · have htogether := together_forgotten course hgone hdir (some dir') dir'
        simp only [hsave, Except.mapError, Except.map]
        simp [hwrite]
        exact htogether
      · -- the directory is gone from its place, and the account is still in the settings
        have hnot := not_together_aside course h.configured hdir (some dir') dir'
        simp only [hsave, Except.mapError, Except.map]
        refine ⟨by simp, ?_⟩
        apply iff_of_false
        · intro hfailed
          exact hnot (hfailed _ rfl)
        · rintro ⟨-, hwrite | hwrite⟩
          · exact hnone hwrite
          · exact hsync hwrite
    · have haside : ∃ e, (∀ n, e ≠ ForgetError.unsent n) ∧
          setAside course account.id (s.counted account.id (some dir')) =
            (s.counted account.id (some dir'), .error e) := by
        simp only [setAside, counted_accounts]
        by_cases hmove : course.failing = some .move
        · exact ⟨.step .move, by simp, by rw [if_pos hmove]⟩
        · have hoccupied : Occupied course account.id (s.counted account.id (some dir')) := by
            by_contra hfree
            exact hclears ⟨hremoved, hmove, hfree⟩
          exact ⟨.occupied, by simp, by rw [if_neg hmove, if_pos hoccupied]⟩
      obtain ⟨e, he, haside⟩ := haside
      simp [haside, hclears, hsame, he]

/-- An account without a directory. -/
theorem forget_absent (h : Selected formats label s settings account) (hlate : ¬ course.Early)
    (hdir : s.accounts account.id = none) :
    (∀ n, (forget formats course label false s).2 ≠ .error (.unsent n)) ∧
    ∀ e, (forget formats course label false s).2 = .error e →
      Together course account.id s (forget formats course label false s).1 := by
  have haside : setAside course account.id (s.counted account.id none) =
      (s.counted account.id none, .ok ()) := by
    simp [setAside]
  have hcount : unsentUploads course account.id (s.accounts account.id) = (none, .ok 0) := by
    rw [hdir]
    rfl
  have hsame : Together course account.id s (s.counted account.id none) := by
    rw [together_counted h.configured, hdir]
  rw [forget_allowed h hlate hcount, removeAccount]
  by_cases hremoved : course.failing = some .removedDirectory
  · simp [hremoved, hsame]
  · rw [if_neg hremoved, haside]
    rcases h.save_cases course.write (s.counted account.id none).settings with
      ⟨hwrite, file, hgone, hsave⟩ | ⟨hwrite, file, e, hgone, hsave⟩ | ⟨hnone, hsync, e, hsave⟩
    · simp [hsave, Except.mapError, Except.map]
    · simp only [hsave, Except.mapError, Except.map]
      refine ⟨by simp, fun _ _ => .inr ⟨?_, by simp, by simp [hdir]⟩⟩
      rintro ⟨a, ha, hid⟩
      exact hgone a ha hid
    · simp only [hsave, Except.mapError, Except.map]
      exact ⟨by simp, fun _ _ => hsame⟩

theorem unsentChanges_late (h : Selected formats label s settings account)
    (hlate : ¬ course.Early) : (unsentChanges formats course label s).2 =
      (unsentUploads course account.id (s.accounts account.id)).2 := by
  simp only [unsentChanges, selectAccount_late h hlate]

/-- A call that fails while it counts. -/
theorem forget_uncounted (h : Selected formats label s settings account)
    (hlate : ¬ course.Early) {data : Option AccountData} {e : ForgetError}
    (hcount : unsentUploads course account.id (s.accounts account.id) = (data, .error e)) :
    forget formats course label false s = (s.counted account.id data, .error e) := by
  simp only [forget, selectAccount_late h hlate, hcount]
  rfl

/-- A call that refuses what it counted. -/
theorem forget_refused (h : Selected formats label s settings account)
    (hlate : ¬ course.Early) {data : Option AccountData} {n : Nat} (hn : 0 < n)
    (hcount : unsentUploads course account.id (s.accounts account.id) = (data, .ok n)) :
    forget formats course label false s = (s.counted account.id data, .error (.unsent n)) := by
  simp only [forget, selectAccount_late h hlate, hcount]
  simp [hn, StateDirectory.counted]

theorem sentData_iff {dir : AccountData} {jd : JournalDirectory} (hdir : dir.journal = some jd) :
    SentData (some dir) ↔ jd.journal.Sent := by
  constructor
  · intro h
    exact h dir jd rfl hdir
  · rintro h _ jd' ⟨⟩ hjd
    rw [hdir] at hjd
    cases hjd
    exact h

/-- Where the count is as it should be, what is left is where a failure leaves the directory. -/
theorem forgets_of_sent {id : String}
    (hsent : ∀ n, (forget formats course label false s).2 = .ok n → SentData (s.accounts id))
    (hadmits : SentData (s.accounts id) →
      ∀ n, (forget formats course label false s).2 ≠ .error (.unsent n))
    (hcounts : ∀ n, (unsentChanges formats course label s).2 = .ok n →
      (n = 0 ↔ SentData (s.accounts id))) :
    Forgets formats course label id s ↔
      ∀ e, (forget formats course label false s).2 = .error e →
        Together course id s (forget formats course label false s).1 :=
  ⟨Forgets.failed, fun hfailed => ⟨hsent, hadmits, hcounts, hfailed⟩⟩

/-- An opening keeps whether the first thousand uploads count. -/
theorem passes_iff {jd : JournalDirectory} {j : UploadJournal} (hreach : Reachable jd.journal)
    (hseen : Journal.Seen jd.journal j) : Passes jd ↔ j.unsent = 0 := by
  obtain ⟨ok, hinv⟩ := hreach.inv
  have hended : ∀ j : UploadJournal, (∀ r ∈ j.list 0 10000, r.state.passed = true) ↔
      ∀ e ∈ (j.list 0 10000).map (fun r => r.state.ended),
        e = some .uploaded ∨ e = some .failed := by
    intro j
    have hstate : ∀ state : Journal.UploadState, state.passed = true ↔
        state.ended = some .uploaded ∨ state.ended = some .failed := by
      intro state
      cases state <;> simp [Journal.UploadState.passed, Journal.UploadState.ended]
    simp only [hstate, List.mem_map, forall_exists_index, and_imp, forall_apply_eq_imp_iff₂]
  rw [Passes, UploadJournal.unsent_eq_zero, hended, hended, hseen.list_ended hinv]

/-- The count of a journal that was opened means what is left to send exactly when the first
thousand uploads tell. -/
theorem counts_iff {jd : JournalDirectory} {j : UploadJournal} {data : Option AccountData}
    (h : Selected formats label s settings account) (hlate : ¬ course.Early)
    (hreach : Reachable jd.journal) (hseen : Journal.Seen jd.journal j)
    (hcount : unsentUploads course account.id (s.accounts account.id) = (data, .ok j.unsent))
    (hsent : SentData (s.accounts account.id) ↔ jd.journal.Sent) :
    (∀ n, (unsentChanges formats course label s).2 = .ok n →
      (n = 0 ↔ SentData (s.accounts account.id))) ↔ jd.journal.Telling := by
  obtain ⟨ok, hinv⟩ := hreach.inv
  rw [unsentChanges_late h hlate, hcount, hsent, ← hseen.sent_iff, ← hseen.telling_iff hinv,
    ← UploadJournal.unsent_eq_zero_iff]
  simp

/-- Where the count decides whether the call goes on, it is all there is to know beside where a
failure leaves the directory. -/
theorem forgets_iff_of_count {id : String} {telling : Prop} {count : Nat}
    (hcounts : (∀ n, (unsentChanges formats course label s).2 = .ok n →
      (n = 0 ↔ SentData (s.accounts id))) ↔ telling)
    (hvalue : (unsentChanges formats course label s).2 = .ok count)
    (hallowed : ∀ n, (forget formats course label false s).2 = .ok n → count = 0)
    (hrefused : ∀ n, (forget formats course label false s).2 = .error (.unsent n) → count ≠ 0) :
    Forgets formats course label id s ↔
      telling ∧ ∀ e, (forget formats course label false s).2 = .error e →
        Together course id s (forget formats course label false s).1 := by
  constructor
  · intro hforgets
    exact ⟨hcounts.mp hforgets.counts, hforgets.failed⟩
  · rintro ⟨htelling, hfailed⟩
    have hiff := hcounts.mpr htelling
    refine ⟨?_, ?_, hiff, hfailed⟩
    · intro n hn
      exact (hiff count hvalue).mp (hallowed n hn)
    · intro hsent n hn
      exact hrefused n hn ((hiff count hvalue).mpr hsent)

/-- For every reachable journal, every account of settings that can be read and every step that
fails: removing the account takes nothing unsent with it silently, refuses nothing that was sent
and keeps settings and directory together when it fails, if and only if the call is whole. -/
theorem forget_iff (formats : Formats) (course : ForgetCourse) (label : String)
    (s : StateDirectory) (settings : Settings) (account : Account)
    (h : Selected formats label s settings account)
    (hreach : ∀ dir jd, s.accounts account.id = some dir → dir.journal = some jd →
      Reachable jd.journal) :
    Forgets formats course label account.id s ↔ Whole course account.id s := by
  by_cases hearly : course.Early
  · -- nothing happened yet
    obtain ⟨e, hselect, he⟩ := selectAccount_early h hearly
    refine iff_of_true ⟨?_, ?_, ?_, ?_⟩ fun hlate => absurd hearly hlate
    · simp [forget, hselect]
    · intro _ n
      simpa [forget, hselect] using he n
    · simp [unsentChanges, hselect]
    · intro _ _
      simp only [forget, hselect]
      exact .inl ⟨h.configured, rfl⟩
  · unfold Whole
    simp only [hearly, not_false_eq_true, true_implies]
    cases hdir : s.accounts account.id with
    | none =>
      have hsent : SentData (s.accounts account.id) := by
        rw [hdir]
        intro dir jd hnone
        cases hnone
      obtain ⟨hadmits, hfailed⟩ := forget_absent h hearly hdir
      refine iff_of_true ⟨fun _ _ => hsent, fun _ => hadmits, ?_, hfailed⟩ (by simp)
      intro n hn
      rw [unsentChanges_late h hearly, hdir] at hn
      cases hn
      exact iff_of_true rfl hsent
    | some dir =>
      simp only [Option.some.injEq, forall_eq']
      have hzero {dir' : AccountData} := @forget_zero formats course label s settings account h
        hearly dir dir' hdir
      cases hjournal : dir.journal with
      | none =>
        have hcount : unsentUploads course account.id (some dir) = (some dir, .ok 0) :=
          unsentUploads_plain hjournal
        have hsent : SentData (s.accounts account.id) := by
          rw [hdir]
          rintro _ jd ⟨⟩ hjd
          rw [hjournal] at hjd
          cases hjd
        have hmoves : Moves course account.id s dir ↔ Clears course account.id s := by
          simp [Moves, Clears, hjournal]
        obtain ⟨hadmits, hfailed⟩ := hzero hcount
        rw [forgets_of_sent (fun _ _ => hsent) (fun _ => hadmits) ?_, hfailed, hmoves]
        · simp
        · intro n hn
          rw [unsentChanges_late h hearly, hdir, hcount] at hn
          cases hn
          exact iff_of_true rfl hsent
      | some jd =>
        simp only [Option.some.injEq, forall_eq']
        have hsentData : SentData (s.accounts account.id) ↔ jd.journal.Sent := by
          rw [hdir]
          exact sentData_iff hjournal
        by_cases howner : jd.journal.settings.account = account.id
        · by_cases hopens : Opens course jd
          · have hjd := hreach dir jd hdir hjournal
            obtain ⟨j, hseen, hcount⟩ := unsentUploads_opens hjournal howner hjd hopens
            have hcount' := hcount
            rw [← hdir] at hcount'
            have htelling := counts_iff h hearly hjd hseen hcount' hsentData
            have hvalue : (unsentChanges formats course label s).2 = .ok j.unsent := by
              rw [unsentChanges_late h hearly, hcount']
            have hpasses := passes_iff hjd hseen
            by_cases hnone : j.unsent = 0
            · rw [hnone] at hcount
              obtain ⟨hadmits, hfailed⟩ := hzero hcount
              have hmoves : Moves course account.id s dir ↔ Clears course account.id s := by
                simp [Moves, Clears, hjournal, howner, hopens, hpasses, hnone]
              rw [forgets_iff_of_count htelling hvalue (fun _ _ => hnone)
                (fun n hn => absurd hn (hadmits n)), hfailed, hmoves]
              simp only [howner, hopens, dir.names_opened, AccountData.names_of_journal hjournal,
                true_implies, List.append_cancel_left_eq]
              tauto
            · have hforget := forget_refused h hearly (Nat.pos_of_ne_zero hnone) hcount'
              have hmoves : ¬ Moves course account.id s dir := by
                intro hmoves
                exact hnone (hpasses.mp (hmoves.1 jd hjournal).2.2)
              rw [forgets_iff_of_count htelling hvalue (by simp [hforget]) (fun _ _ => hnone)]
              simp only [hforget, howner, hopens, hmoves, Except.error.injEq, forall_eq',
                together_counted h.configured, hdir, Option.map_some, Option.some.injEq,
                dir.names_opened, AccountData.names_of_journal hjournal, true_implies,
                List.append_cancel_left_eq, not_false_eq_true, true_or, false_implies, and_true]
          · obtain ⟨j, e, he, hcount⟩ := unsentUploads_closed hjournal howner hopens
            rw [← hdir] at hcount
            have hforget := forget_uncounted h hearly hcount
            have hmoves : ¬ Moves course account.id s dir :=
              fun hmoves => hopens (hmoves.1 jd hjournal).2.1
            rw [forgets_of_sent ?_ ?_ ?_]
            · simp only [hforget, howner, hopens, hmoves, Except.error.injEq, forall_eq',
                together_counted h.configured, hdir, Option.map_some, Option.some.injEq,
                dir.names_opened, AccountData.names_of_journal hjournal, true_implies,
                List.append_cancel_left_eq, not_false_eq_true, true_or, false_implies, and_true,
                true_and]
            · simp [hforget]
            · intro _ n
              simpa [hforget] using he n
            · intro n hn
              rw [unsentChanges_late h hearly, hcount] at hn
              cases hn
        · have hcount : unsentUploads course account.id (some dir) = (some dir, .error .account) :=
            unsentUploads_foreign hjournal howner
          rw [← hdir] at hcount
          have hforget := forget_uncounted h hearly hcount
          have hmoves : ¬ Moves course account.id s dir :=
            fun hmoves => howner (hmoves.1 jd hjournal).1
          rw [forgets_of_sent ?_ ?_ ?_]
          · simp [hforget, howner, hmoves, together_counted h.configured]
          · simp [hforget]
          · simp [hforget]
          · intro n hn
            rw [unsentChanges_late h hearly, hcount] at hn
            cases hn

end

/-! ## A change that is not counted -/

/-- The account of the journal under test, and a drive of it. -/
def disabledAccount : Account := { sampleAccount with enabled := false }

def disabledDrive : Scope := ⟨disabledAccount.id, "onedrive", "drive"⟩

/-- Every step succeeds but `failing`, and no leftovers are removed. -/
def forgetCourse (failing : Option ForgetStep) : ForgetCourse := ⟨failing, fun _ => 0, 0, 0⟩

/-- The account and what a script left in its journal. -/
def afterScript (ops : List Journal.Op) : StateDirectory where
  settings := .text 1000 (some ⟨2, [disabledAccount]⟩)
  accounts owner :=
    if owner = disabledAccount.id then
      some ⟨some ⟨(Journal.scriptWorld ⟨disabledAccount.id, id⟩ ops).journal, []⟩, ["index.db"]⟩
    else none
  removed _ := none

theorem selected_afterScript (ops : List Journal.Op) :
    Selected sampleFormats "work" (afterScript ops) ⟨2, [disabledAccount]⟩ disabledAccount where
  load := by
    show (SettingsFile.text 1000 (some ⟨2, [disabledAccount]⟩)).load sampleFormats true = _
    decide +kernel
  found := by decide +kernel
  disabled := rfl

theorem reachable_afterScript {ops : List Journal.Op}
    (hscripted : Journal.scripted 1 (Journal.World.create ⟨disabledAccount.id, id⟩) ops = true)
    (dir : AccountData) (jd : JournalDirectory)
    (hdir : (afterScript ops).accounts disabledAccount.id = some dir)
    (hjournal : dir.journal = some jd) : Reachable jd.journal := by
  simp only [afterScript, if_true, Option.some.injEq] at hdir
  subst hdir
  cases hjournal
  exact ⟨fun _ => True, _, _, _, Journal.run_of_script hscripted (fun _ _ _ _ => trivial), rfl⟩

/-- A folder of the cloud is seen and removed; the removal waits. -/
def folderRemoved : List Journal.Op :=
  [.observeNamespaceFile disabledDrive (Journal.sampleFolder "folder" "root" "letters"),
    .removeNamespaceDirectory ⟨1⟩ 0]

theorem folderRemoved_forgotten :
    Selected sampleFormats "work" (afterScript folderRemoved) ⟨2, [disabledAccount]⟩
        disabledAccount ∧
      (∀ dir jd, (afterScript folderRemoved).accounts disabledAccount.id = some dir →
        dir.journal = some jd → Reachable jd.journal) ∧
      (forget sampleFormats (forgetCourse none) "work" false (afterScript folderRemoved)).2 =
        .ok 0 ∧
      ¬ SentData ((afterScript folderRemoved).accounts disabledAccount.id) := by
  have hscripted : Journal.scripted 1 (Journal.World.create ⟨disabledAccount.id, id⟩)
      folderRemoved = true := by decide +kernel
  refine ⟨selected_afterScript _, reachable_afterScript hscripted, by decide +kernel, ?_⟩
  intro hsent
  have hsent := (hsent _ _ rfl rfl).mutations
  have hwaiting : ((Journal.scriptWorld ⟨disabledAccount.id, id⟩
      folderRemoved).journal.queue.mutations.get ⟨11⟩).map (fun row => row.body.state.isComplete) =
      some false := by decide +kernel
  obtain ⟨row, hrow, hstate⟩ := Option.map_eq_some_iff.mp hwaiting
  simp [hsent _ row hrow] at hstate

/-- A file waits to be uploaded. -/
def uploadQueued : List Journal.Op := [.enqueue disabledDrive (.create "root" "notes")]

/-- The call is refused, and the settings write that would have failed is not reached. -/
theorem forgets_uploadQueued :
    Forgets sampleFormats (forgetCourse (some (.save .sync))) "work" disabledAccount.id
      (afterScript uploadQueued) := by
  have hscripted : Journal.scripted 1 (Journal.World.create ⟨disabledAccount.id, id⟩) uploadQueued =
      true := by decide +kernel
  apply (forget_iff _ _ _ _ _ _ (selected_afterScript uploadQueued)
    (reachable_afterScript hscripted)).mpr
  rintro - dir hdir
  simp only [afterScript, if_true, Option.some.injEq] at hdir
  subst hdir
  have hlisted : ((Journal.scriptWorld ⟨disabledAccount.id, id⟩ uploadQueued).journal.list 0
      10000).any (fun r => r.state == .pending) = true := by decide +kernel
  obtain ⟨r, hr, hstate⟩ := List.any_eq_true.mp hlisted
  have hpending : r.state = .pending := beq_iff_eq.mp hstate
  constructor
  · rintro jd ⟨⟩ -
    refine ⟨fun _ => ⟨?_, ?_⟩, fun _ => by simp⟩
    · intro hsent
      obtain ⟨id, row, hget, rfl⟩ := UploadJournal.mem_list hr
      have hdone := hsent.uploads id row hget
      rw [hpending] at hdone
      cases hdone
    · intro _
      exact ⟨r, hr, by simp [hpending]⟩
  · intro hmoves
    have hpassed := (hmoves.1 _ rfl).2.2 r hr
    rw [hpending] at hpassed
    cases hpassed

end Cirrove.Service
