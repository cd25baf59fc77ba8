import Mathlib.Data.List.Chain
import Mathlib.Data.List.Nodup
import Mathlib.Logic.Function.Basic
import Mathlib.Data.UInt

/-!
# What the daemon tells a desktop client

`prime` describes every account, `diff` the way from one status vector to the next
(`cirrove-service/src/events.rs`). A client keeps the last account event and the last mount event
of each identity and forgets an account that was removed.

`diff` compares the fields of the two events one by one and leaves out two that both events carry:
the label, and the account id where the label stands in for it. A client therefore holds what
`prime` would have told it exactly as long as nothing but the other fields moves, or both events
travel anyway (`follows_iff`).
-/

namespace Cirrove.Service

/-! ## Statuses and events -/

/-- The fields of an account's status that events read. A mount path is the list of its
components, which is what comparing two paths compares. -/
structure AccountStatus where
  accountId : String
  label : String
  state : String
  enabled : Bool
  mounted : Bool
  stuckChanges : UInt64
  failedUploads : UInt64
  unconfirmedChanges : UInt64
  keptGeneration : UInt64
  mountPath : List String
  deriving DecidableEq, Repr

/-- The fields of an account event. -/
structure AccountFields where
  accountId : String
  label : String
  state : String
  enabled : Bool
  mounted : Bool
  stuckChanges : UInt64
  failedUploads : UInt64
  unconfirmedChanges : UInt64
  keptGeneration : UInt64
  deriving DecidableEq, Repr

/-- The fields of a mount event. -/
structure MountFields where
  accountId : String
  label : String
  mountPath : List String
  mounted : Bool
  deriving DecidableEq, Repr

/-- One change worth telling a client about. -/
inductive Event where
  | account (fields : AccountFields)
  | mount (fields : MountFields)
  | accountRemoved (accountId label : String)
  deriving DecidableEq, Repr

/-- The label stands in for an account id that is empty. -/
def identityOf (accountId label : String) : String :=
  if accountId = "" then label else accountId

namespace AccountStatus

def identity (status : AccountStatus) : String :=
  identityOf status.accountId status.label

def accountEvent (status : AccountStatus) : Event :=
  .account {
    accountId := status.accountId
    label := status.label
    state := status.state
    enabled := status.enabled
    mounted := status.mounted
    stuckChanges := status.stuckChanges
    failedUploads := status.failedUploads
    unconfirmedChanges := status.unconfirmedChanges
    keptGeneration := status.keptGeneration }

def mountEvent (status : AccountStatus) : Event :=
  .mount {
    accountId := status.accountId
    label := status.label
    mountPath := status.mountPath
    mounted := status.mounted }

/-- What `diff` compares before it sends an account event. -/
def AccountMoved (before status : AccountStatus) : Prop :=
  before.state ≠ status.state ∨ before.enabled ≠ status.enabled ∨
    before.mounted ≠ status.mounted ∨ before.stuckChanges ≠ status.stuckChanges ∨
    before.failedUploads ≠ status.failedUploads ∨
    before.unconfirmedChanges ≠ status.unconfirmedChanges ∨
    before.keptGeneration ≠ status.keptGeneration

/-- What `diff` compares before it sends a mount event. -/
def MountMoved (before status : AccountStatus) : Prop :=
  before.mounted ≠ status.mounted ∨ before.mountPath ≠ status.mountPath

instance (before status : AccountStatus) : Decidable (AccountMoved before status) :=
  inferInstanceAs (Decidable (_ ∨ _))

instance (before status : AccountStatus) : Decidable (MountMoved before status) :=
  inferInstanceAs (Decidable (_ ∨ _))

end AccountStatus

open AccountStatus

/-- Current state as the events that would have produced it. -/
def prime (current : List AccountStatus) : List Event :=
  current.flatMap fun status => [status.accountEvent, status.mountEvent]

/-- The events of one account that is still there. -/
def advance (before : Option AccountStatus) (status : AccountStatus) : List Event :=
  match before with
  | none => [status.accountEvent, status.mountEvent]
  | some before =>
    (if AccountMoved before status then [status.accountEvent] else []) ++
      (if MountMoved before status then [status.mountEvent] else [])

/-- The events that describe going from `previous` to `current`. -/
def diff (previous current : List AccountStatus) : List Event :=
  (current.flatMap fun status =>
    advance (previous.find? fun p => p.identity = status.identity) status) ++
  ((previous.filter fun before => !current.any fun c => c.identity = before.identity).map
    fun before => .accountRemoved before.accountId before.label)

/-! ## The client -/

/-- What a client keeps of one account. -/
structure Held where
  account : Option AccountFields
  mount : Option MountFields
  deriving DecidableEq, Repr

/-- A client keeps one row an identity. -/
abbrev Client := String → Held

namespace Client

def empty : Client := fun _ => ⟨none, none⟩

def receive (client : Client) : Event → Client
  | .account fields =>
    let key := identityOf fields.accountId fields.label
    Function.update client key { client key with account := some fields }
  | .mount fields =>
    let key := identityOf fields.accountId fields.label
    Function.update client key { client key with mount := some fields }
  | .accountRemoved accountId label =>
    Function.update client (identityOf accountId label) ⟨none, none⟩

def receiveAll (client : Client) (events : List Event) : Client :=
  events.foldl receive client

@[simp]
theorem receiveAll_nil (client : Client) : client.receiveAll [] = client := rfl

@[simp]
theorem receiveAll_cons (client : Client) (event : Event) (events : List Event) :
    client.receiveAll (event :: events) = (client.receive event).receiveAll events := rfl

@[simp]
theorem receiveAll_append (client : Client) (first second : List Event) :
    client.receiveAll (first ++ second) = (client.receiveAll first).receiveAll second :=
  List.foldl_append

/-- What a client that received `prime` of these statuses and nothing else holds. -/
def view (statuses : List AccountStatus) : Client :=
  empty.receiveAll (prime statuses)

/-- What a client holds after the differences of a run of status vectors. -/
def follow (client : Client) : List AccountStatus → List (List AccountStatus) → Client
  | _, [] => client
  | previous, current :: rest => follow (client.receiveAll (diff previous current)) current rest

end Client

/-! ## Reading one identity -/

/-- The row an account's two events leave. -/
def AccountStatus.held (status : AccountStatus) : Held where
  account := some {
    accountId := status.accountId
    label := status.label
    state := status.state
    enabled := status.enabled
    mounted := status.mounted
    stuckChanges := status.stuckChanges
    failedUploads := status.failedUploads
    unconfirmedChanges := status.unconfirmedChanges
    keptGeneration := status.keptGeneration }
  mount := some {
    accountId := status.accountId
    label := status.label
    mountPath := status.mountPath
    mounted := status.mounted }

/-- The status of an identity. -/
def lookup (statuses : List AccountStatus) (key : String) : Option AccountStatus :=
  statuses.find? fun status => status.identity = key

/-- No two statuses of one vector have one identity. -/
def Distinct (statuses : List AccountStatus) : Prop :=
  (statuses.map AccountStatus.identity).Nodup

instance (statuses : List AccountStatus) : Decidable (Distinct statuses) :=
  inferInstanceAs (Decidable (List.Nodup _))

/-- What a vector says of an identity: the row of its status, or nothing. -/
def expected (statuses : List AccountStatus) (key : String) : Held :=
  ((lookup statuses key).map AccountStatus.held).getD ⟨none, none⟩

section

variable {statuses previous current : List AccountStatus} {status before : AccountStatus}
  {key : String}

theorem lookup_cons_self (status : AccountStatus) (rest : List AccountStatus) :
    lookup (status :: rest) status.identity = some status := by
  simp [lookup]

theorem lookup_cons_of_ne (h : status.identity ≠ key) (rest : List AccountStatus) :
    lookup (status :: rest) key = lookup rest key := by
  simp [lookup, h]

theorem identity_of_lookup (h : lookup statuses key = some status) : status.identity = key := by
  simpa using List.find?_some h

theorem mem_of_lookup (h : lookup statuses key = some status) : status ∈ statuses :=
  List.mem_of_find?_eq_some h

theorem lookup_eq_none : lookup statuses key = none ↔ key ∉ statuses.map AccountStatus.identity := by
  simp [lookup]

/-- In a vector of distinct identities a status is the one its identity finds. -/
theorem Distinct.lookup_of_mem (h : Distinct statuses) (hmem : status ∈ statuses) :
    lookup statuses status.identity = some status := by
  induction statuses with
  | nil => simp at hmem
  | cons first rest ih =>
    have hnodup : first.identity ∉ rest.map AccountStatus.identity ∧ Distinct rest := by
      simpa [Distinct] using h
    rcases List.mem_cons.mp hmem with rfl | htail
    · exact lookup_cons_self status rest
    · have hne : first.identity ≠ status.identity := by
        intro heq
        exact hnodup.1 (heq ▸ List.mem_map_of_mem htail)
      rw [lookup_cons_of_ne hne]
      exact ih hnodup.2 htail

/-- Both events show an account under its id and its label. -/
def SameNames (before status : AccountStatus) : Prop :=
  before.accountId = status.accountId ∧ before.label = status.label

instance (before status : AccountStatus) : Decidable (SameNames before status) :=
  inferInstanceAs (Decidable (_ ∧ _))

theorem account_eq_iff : before.held.account = status.held.account ↔
    SameNames before status ∧ ¬ AccountMoved before status := by
  simp only [AccountStatus.held, AccountMoved, SameNames, Option.some.injEq,
    AccountFields.mk.injEq]
  tauto

theorem mount_eq_iff : before.held.mount = status.held.mount ↔
    SameNames before status ∧ ¬ MountMoved before status := by
  simp only [AccountStatus.held, MountMoved, SameNames, Option.some.injEq, MountFields.mk.injEq]
  tauto

/-- Two statuses leave one row exactly when no field of the two events differs. -/
theorem held_eq_iff : before.held = status.held ↔
    SameNames before status ∧ ¬ AccountMoved before status ∧ ¬ MountMoved before status := by
  have hboth : before.held = status.held ↔
      before.held.account = status.held.account ∧ before.held.mount = status.held.mount := by
    simp [AccountStatus.held]
  rw [hboth, account_eq_iff, mount_eq_iff]
  tauto

/-! ## What events touch -/

/-- The identity an event is about. -/
def Event.identity : Event → String
  | .account fields => identityOf fields.accountId fields.label
  | .mount fields => identityOf fields.accountId fields.label
  | .accountRemoved accountId label => identityOf accountId label

theorem receive_of_ne {event : Event} (client : Client) (h : event.identity ≠ key) :
    client.receive event key = client key := by
  cases event <;> exact Function.update_of_ne (Ne.symm h) _ _

theorem receiveAll_of_ne {events : List Event} (h : ∀ event ∈ events, event.identity ≠ key)
    (client : Client) : client.receiveAll events key = client key := by
  induction events generalizing client with
  | nil => rfl
  | cons event rest ih =>
    rw [Client.receiveAll_cons, ih (fun e he => h e (List.mem_cons_of_mem _ he)),
      receive_of_ne client (h event List.mem_cons_self)]

/-- The row of an identity after an event is decided by that row before it. -/
theorem receive_congr {client other : Client} (event : Event) (h : client key = other key) :
    client.receive event key = other.receive event key := by
  by_cases hkey : event.identity = key
  · subst hkey
    cases event <;> simp_all [Client.receive, Event.identity]
  · rw [receive_of_ne client hkey, receive_of_ne other hkey, h]

theorem receiveAll_congr {client other : Client} (events : List Event)
    (h : client key = other key) :
    client.receiveAll events key = other.receiveAll events key := by
  induction events generalizing client other with
  | nil => exact h
  | cons event rest ih =>
    apply ih
    exact receive_congr event h

theorem identity_of_mem_advance {before : Option AccountStatus} {event : Event}
    (h : event ∈ advance before status) : event.identity = status.identity := by
  have hevents : event = status.accountEvent ∨ event = status.mountEvent := by
    cases before with
    | none => simpa [advance] using h
    | some before =>
      simp only [advance, List.mem_append] at h
      rcases h with h | h
      · exact .inl (by split at h <;> simp_all)
      · exact .inr (by split at h <;> simp_all)
  rcases hevents with rfl | rfl <;> rfl

/-- The events of a whole vector leave of an identity what the events of its one status leave. -/
theorem receiveAll_flatMap_apply {events : AccountStatus → List Event}
    (hevents : ∀ status, ∀ event ∈ events status, event.identity = status.identity)
    (hd : Distinct current) (client : Client) (key : String) :
    client.receiveAll (current.flatMap events) key =
      match lookup current key with
      | some status => client.receiveAll (events status) key
      | none => client key := by
  induction current generalizing client with
  | nil => rfl
  | cons first rest ih =>
    have hnodup : first.identity ∉ rest.map AccountStatus.identity ∧ Distinct rest := by
      simpa [Distinct] using hd
    rw [List.flatMap_cons, Client.receiveAll_append, ih hnodup.2]
    by_cases hkey : first.identity = key
    · -- no later status has this identity, so the first one's events are the last word
      subst hkey
      rw [lookup_cons_self, lookup_eq_none.mpr hnodup.1]
    · have hfirst : ∀ event ∈ events first, event.identity ≠ key := by
        intro event he
        rw [hevents first event he]
        exact hkey
      rw [lookup_cons_of_ne hkey]
      cases hlook : lookup rest key with
      | none => simp [receiveAll_of_ne hfirst]
      | some status =>
        -- the events of `first` leave the row of `key` as it was
        apply receiveAll_congr
        exact receiveAll_of_ne hfirst client

theorem receiveAll_removed_apply (removed : List AccountStatus) (client : Client) (key : String) :
    client.receiveAll (removed.map fun before => .accountRemoved before.accountId before.label)
        key =
      if key ∈ removed.map AccountStatus.identity then ⟨none, none⟩ else client key := by
  induction removed generalizing client with
  | nil => simp
  | cons first rest ih =>
    rw [List.map_cons, Client.receiveAll_cons, ih]
    by_cases hkey : first.identity = key
    · subst hkey
      simp [Client.receive, AccountStatus.identity]
    · have hne : (Event.accountRemoved first.accountId first.label).identity ≠ key := hkey
      rw [receive_of_ne client hne]
      simp [Ne.symm hkey]

/-- The identities `diff` reports as removed. -/
theorem mem_removed_iff :
    key ∈ (previous.filter fun before =>
        !current.any fun c => c.identity = before.identity).map AccountStatus.identity ↔
      (lookup previous key).isSome ∧ lookup current key = none := by
  rw [lookup_eq_none, ← Option.ne_none_iff_isSome, Ne, lookup_eq_none, not_not]
  simp only [List.mem_map, List.mem_filter, Bool.not_eq_true', List.any_eq_false,
    decide_eq_true_eq]
  constructor
  · rintro ⟨before, ⟨hmem, hnone⟩, rfl⟩
    refine ⟨⟨before, hmem, rfl⟩, ?_⟩
    rintro ⟨status, hstatus, heq⟩
    exact hnone status hstatus heq
  · rintro ⟨⟨before, hmem, rfl⟩, hnone⟩
    exact ⟨before, ⟨hmem, fun status hstatus heq => hnone ⟨status, hstatus, heq⟩⟩, rfl⟩

/-- What a difference leaves of one identity. -/
theorem receiveAll_diff_apply (hd : Distinct current) (client : Client) (key : String) :
    client.receiveAll (diff previous current) key =
      match lookup current key with
      | some status => client.receiveAll (advance (lookup previous key) status) key
      | none => if (lookup previous key).isSome then ⟨none, none⟩ else client key := by
  have hevents : ∀ status, ∀ event ∈ advance (lookup previous status.identity) status,
      event.identity = status.identity := fun _ _ he => identity_of_mem_advance he
  rw [diff, Client.receiveAll_append, receiveAll_removed_apply]
  have hflat := receiveAll_flatMap_apply hevents hd client key
  cases hlook : lookup current key with
  | none =>
    -- an identity that is gone is dropped, one that was never there is not touched
    rw [hlook] at hflat
    simp only [mem_removed_iff, hlook, and_true]
    split
    · rfl
    · exact hflat
  | some status =>
    simp only [hlook, identity_of_lookup hlook] at hflat
    simp only [mem_removed_iff, hlook, reduceCtorEq, and_false, if_false]
    exact hflat

/-! ## One account -/

/-- What reaches a client of one account that is still there: nothing of what it shows under
changed, or both of its events are sent. -/
def Carried (before status : AccountStatus) : Prop :=
  SameNames before status ∨ (AccountMoved before status ∧ MountMoved before status)

instance (before status : AccountStatus) : Decidable (Carried before status) :=
  inferInstanceAs (Decidable (_ ∨ _))

theorem receive_accountEvent_apply (client : Client) (status : AccountStatus) :
    client.receive status.accountEvent status.identity =
      { client status.identity with account := status.held.account } := by
  simp [Client.receive, accountEvent, AccountStatus.identity, AccountStatus.held]

theorem receive_mountEvent_apply (client : Client) (status : AccountStatus) :
    client.receive status.mountEvent status.identity =
      { client status.identity with mount := status.held.mount } := by
  simp [Client.receive, mountEvent, AccountStatus.identity, AccountStatus.held]

/-- A new account leaves the row its events describe. -/
theorem receiveAll_advance_none (client : Client) (status : AccountStatus) :
    client.receiveAll (advance none status) status.identity = status.held := by
  simp [advance, receive_mountEvent_apply, receive_accountEvent_apply, AccountStatus.held]

/-- A client that holds the old row of an account holds the new one afterwards exactly when the
change was carried. -/
theorem receiveAll_advance_some {client : Client} (h : client status.identity = before.held) :
    client.receiveAll (advance (some before) status) status.identity = status.held ↔
      Carried before status := by
  have hrow : client.receiveAll (advance (some before) status) status.identity =
      { account := if AccountMoved before status then status.held.account else before.held.account
        mount := if MountMoved before status then status.held.mount else before.held.mount } := by
    by_cases ha : AccountMoved before status <;> by_cases hm : MountMoved before status <;>
      simp [advance, ha, hm, receive_mountEvent_apply, receive_accountEvent_apply, h]
  have hboth : client.receiveAll (advance (some before) status) status.identity = status.held ↔
      (AccountMoved before status ∨ before.held.account = status.held.account) ∧
        (MountMoved before status ∨ before.held.mount = status.held.mount) := by
    rw [hrow]
    by_cases ha : AccountMoved before status <;> by_cases hm : MountMoved before status <;>
      simp [ha, hm, AccountStatus.held]
  rw [hboth, account_eq_iff, mount_eq_iff]
  unfold Carried
  tauto

/-! ## A run of status vectors -/

/-- What `prime` leaves of one identity. -/
theorem view_apply (hd : Distinct statuses) (key : String) :
    Client.view statuses key = expected statuses key := by
  have hevents : ∀ status, ∀ event ∈ advance none status, event.identity = status.identity :=
    fun _ _ he => identity_of_mem_advance he
  have hflat := receiveAll_flatMap_apply hevents hd Client.empty key
  unfold expected
  cases hlook : lookup statuses key with
  | none =>
    rw [hlook] at hflat
    exact hflat
  | some status =>
    have hkey := identity_of_lookup hlook
    subst hkey
    simp only [hlook, receiveAll_advance_none] at hflat
    exact hflat

/-- Every account present on both sides was carried. -/
def Carries (previous current : List AccountStatus) : Prop :=
  ∀ status ∈ current, ∀ before ∈ previous, before.identity = status.identity →
    Carried before status

instance (previous current : List AccountStatus) : Decidable (Carries previous current) :=
  inferInstanceAs (Decidable (∀ status ∈ current, ∀ before ∈ previous,
    before.identity = status.identity → Carried before status))

/-- One difference takes a client to the next vector exactly when every account was carried. -/
theorem receiveAll_diff_eq_view (hp : Distinct previous) (hc : Distinct current) :
    (Client.view previous).receiveAll (diff previous current) = Client.view current ↔
      Carries previous current := by
  constructor
  · intro h status hstatus before hbefore heq
    have hcurrent := hc.lookup_of_mem hstatus
    have hprevious : lookup previous status.identity = some before :=
      heq ▸ hp.lookup_of_mem hbefore
    have hrow := congrFun h status.identity
    rw [receiveAll_diff_apply hc, view_apply hc, expected, hcurrent] at hrow
    simp only [hprevious] at hrow
    apply (receiveAll_advance_some ?_).mp hrow
    rw [view_apply hp, expected, hprevious]
    rfl
  · intro h
    funext key
    rw [receiveAll_diff_apply hc, view_apply hc, expected]
    cases hcurrent : lookup current key with
    | none =>
      cases hprevious : lookup previous key with
      | none => simp [view_apply hp, expected, hprevious]
      | some before => simp
    | some status =>
      have hkey := identity_of_lookup hcurrent
      subst hkey
      cases hprevious : lookup previous status.identity with
      | none => exact receiveAll_advance_none _ status
      | some before =>
        apply (receiveAll_advance_some ?_).mpr
        · exact h status (mem_of_lookup hcurrent) before (mem_of_lookup hprevious)
            (identity_of_lookup hprevious)
        · rw [view_apply hp, expected, hprevious]
          rfl

theorem view_eq_iff (hp : Distinct previous) (hc : Distinct current) :
    Client.view previous = Client.view current ↔
      ∀ key, expected previous key = expected current key := by
  constructor
  · intro h key
    rw [← view_apply hp, ← view_apply hc, h]
  · intro h
    funext key
    rw [view_apply hp, view_apply hc, h key]

theorem advance_eq_nil_iff {before : Option AccountStatus} : advance before status = [] ↔
    ∃ old, before = some old ∧ ¬ AccountMoved old status ∧ ¬ MountMoved old status := by
  cases before with
  | none => simp [advance]
  | some old => simp [advance]

/-- No event is sent exactly when the two vectors have the same identities and no compared field
of an account moved. -/
theorem diff_eq_nil_iff : diff previous current = [] ↔
    (∀ status ∈ current, ∃ before, lookup previous status.identity = some before ∧
      ¬ AccountMoved before status ∧ ¬ MountMoved before status) ∧
    ∀ before ∈ previous, (lookup current before.identity).isSome := by
  have hremoved : ∀ before : AccountStatus,
      (current.any fun c => c.identity = before.identity) = true ↔
        (lookup current before.identity).isSome := by
    simp [lookup]
  simp only [diff, List.append_eq_nil_iff, List.flatMap_eq_nil_iff, List.map_eq_nil_iff,
    List.filter_eq_nil_iff, Bool.not_eq_true', Bool.not_eq_false, hremoved, advance_eq_nil_iff]
  rfl

/-- Where every account was carried, silence means that nothing a client can see differs. -/
theorem Carries.diff_eq_nil_iff (h : Carries previous current) (hp : Distinct previous)
    (hc : Distinct current) :
    diff previous current = [] ↔ Client.view previous = Client.view current := by
  rw [Service.diff_eq_nil_iff, view_eq_iff hp hc]
  constructor
  · rintro ⟨hsome, hkept⟩ key
    cases hcurrent : lookup current key with
    | none =>
      have hprevious : lookup previous key = none := by
        by_contra hne
        obtain ⟨before, hbefore⟩ := Option.ne_none_iff_exists'.mp hne
        have hback := hkept before (mem_of_lookup hbefore)
        rw [identity_of_lookup hbefore, hcurrent] at hback
        simp at hback
      rw [expected, expected, hcurrent, hprevious]
    | some status =>
      obtain ⟨before, hbefore, haccount, hmount⟩ := hsome status (mem_of_lookup hcurrent)
      have hnames : SameNames before status := by
        -- a carried account that sends no event kept its names
        have hcarried := h status (mem_of_lookup hcurrent) before (mem_of_lookup hbefore)
          (identity_of_lookup hbefore)
        rcases hcarried with hnames | ⟨hmoved, -⟩
        · exact hnames
        · exact absurd hmoved haccount
      rw [identity_of_lookup hcurrent] at hbefore
      rw [expected, expected, hcurrent, hbefore]
      simp [held_eq_iff.mpr ⟨hnames, haccount, hmount⟩]
  · intro hsame
    have hlook : ∀ key, ((lookup previous key).map AccountStatus.held) =
        (lookup current key).map AccountStatus.held := by
      intro key
      have hkey := hsame key
      unfold expected at hkey
      cases hprevious : lookup previous key with
      | none =>
        cases hcurrent : lookup current key with
        | none => rfl
        | some status => simp [hprevious, hcurrent, AccountStatus.held] at hkey
      | some before =>
        cases hcurrent : lookup current key with
        | none => simp [hprevious, hcurrent, AccountStatus.held] at hkey
        | some status => simpa [hprevious, hcurrent] using hkey
    constructor
    · intro status hstatus
      have hkey := hlook status.identity
      rw [hc.lookup_of_mem hstatus] at hkey
      obtain ⟨before, hbefore, hheld⟩ := Option.map_eq_some_iff.mp hkey
      exact ⟨before, hbefore, (held_eq_iff.mp hheld).2⟩
    · intro before hbefore
      have hkey := hlook before.identity
      rw [hp.lookup_of_mem hbefore] at hkey
      obtain ⟨status, hstatus, -⟩ := Option.map_eq_some_iff.mp hkey.symm
      simp [hstatus]

/-- After every prefix of the run the client holds what `prime` would have told it. -/
def Follows (start : List AccountStatus) (rest : List (List AccountStatus)) : Prop :=
  ∀ taken left, rest = taken ++ left →
    (Client.view start).follow start taken =
      Client.view ((start :: taken).getLast (List.cons_ne_nil _ _))

theorem follows_cons (hp : Distinct previous) (hc : Distinct current)
    (rest : List (List AccountStatus)) :
    Follows previous (current :: rest) ↔ Carries previous current ∧ Follows current rest := by
  rw [← receiveAll_diff_eq_view hp hc]
  constructor
  · intro h
    have hfirst : (Client.view previous).receiveAll (diff previous current) =
        Client.view current := h [current] rest rfl
    refine ⟨hfirst, ?_⟩
    intro taken left hrest
    have hnext := h (current :: taken) left (by rw [hrest]; rfl)
    simp only [Client.follow, hfirst] at hnext
    exact hnext
  · rintro ⟨hfirst, hrest⟩ taken left heq
    cases taken with
    | nil => rfl
    | cons first taken =>
      obtain ⟨rfl, hleft⟩ := List.cons_eq_cons.mp heq
      simp only [Client.follow, hfirst]
      exact hrest taken left hleft

/-- A client follows a run exactly when every step of it carries. -/
theorem follows_iff_isChain (start : List AccountStatus) (rest : List (List AccountStatus))
    (hd : ∀ statuses ∈ start :: rest, Distinct statuses) :
    Follows start rest ↔ List.IsChain Carries (start :: rest) := by
  induction rest generalizing start with
  | nil => simp [Follows, Client.follow]
  | cons current rest ih =>
    have hp := hd start List.mem_cons_self
    have hc := hd current (List.mem_cons_of_mem _ List.mem_cons_self)
    rw [follows_cons hp hc, List.isChain_cons_cons,
      ih current fun statuses h => hd statuses (List.mem_cons_of_mem _ h)]

/-- The differences of a run are silent exactly where nothing a client can see differs. -/
def Silent (previous current : List AccountStatus) : Prop :=
  diff previous current = [] ↔ Client.view previous = Client.view current

theorem isChain_silent (start : List AccountStatus) (rest : List (List AccountStatus))
    (hd : ∀ statuses ∈ start :: rest, Distinct statuses)
    (h : List.IsChain Carries (start :: rest)) : List.IsChain Silent (start :: rest) := by
  apply h.imp_of_mem_imp
  intro previous current hp hc hcarries
  exact hcarries.diff_eq_nil_iff (hd previous hp) (hd current hc)

/-- In every run of status vectors, a client holds at every point what `prime` would have told
it, and hears nothing exactly where nothing differs, if and only if every step carries. -/
theorem follows_iff (start : List AccountStatus) (rest : List (List AccountStatus))
    (hd : ∀ statuses ∈ start :: rest, Distinct statuses) :
    (Follows start rest ∧ List.IsChain Silent (start :: rest)) ↔
      List.IsChain Carries (start :: rest) := by
  rw [follows_iff_isChain start rest hd]
  constructor
  · exact fun h => h.1
  · exact fun h => ⟨h, isChain_silent start rest hd h⟩

/-- One account under a label. -/
def sample (label state : String) (path : List String) : AccountStatus where
  accountId := "a"
  label := label
  state := state
  enabled := true
  mounted := true
  stuckChanges := 0
  failedUploads := 0
  unconfirmedChanges := 0
  keptGeneration := 0
  mountPath := path

theorem follows_iff_sample :
    (∀ statuses ∈ [[sample "work" "ready" ["w"]], [sample "home" "idle" ["h"]]],
      Distinct statuses) ∧
    Follows [sample "work" "ready" ["w"]] [[sample "home" "idle" ["h"]]] := by
  have hd : ∀ statuses ∈ [[sample "work" "ready" ["w"]], [sample "home" "idle" ["h"]]],
      Distinct statuses := by decide
  exact ⟨hd, ((follows_iff _ _ hd).mpr (by simp; decide)).1⟩

/-- An account that is renamed and changes in nothing else is renamed in silence. -/
theorem follows_relabelled :
    diff [sample "work" "ready" ["w"]] [sample "home" "ready" ["w"]] = [] ∧
      Client.view [sample "work" "ready" ["w"]] ≠ Client.view [sample "home" "ready" ["w"]] ∧
      ¬ Follows [sample "work" "ready" ["w"]] [[sample "home" "ready" ["w"]]] := by
  refine ⟨by decide, ?_, ?_⟩
  · intro h
    exact absurd (congrFun h "a") (by decide)
  · intro h
    exact absurd (congrFun (h [[sample "home" "ready" ["w"]]] [] rfl) "a") (by decide)

end

end Cirrove.Service
