import Cirrove.Google.Changing
import Cirrove.Library.Conditions

/-!
# Changes under a condition

The change of an item takes effect under the ETag of what was read, and never else. Between the
reading and the effect others change the drive, requests that were sent may take effect long after
their answer was lost, and the change may be begun any number of times.

The states of an item differ in their versions and ETags (`Item.Apart`), and what is read of an item
at once is of one of its states, perhaps an old one. That is all that is assumed. A request is sent
under the ETag of a state that has the version the change was recorded with (`Wants`), so that at
most one of the requests takes effect, on the item as it was recorded (`changes_once`).
-/

namespace Cirrove.Google

open Cirrove.Library
open Cirrove.Upload
open Cirrove.Mutation (MutationError)
open Cirrove.Journal (MutationRequest MutationReceipt)
open Relation (ReflTransGen)

/-! ## Items -/

/-- A state of an item, as far as conditions go. -/
structure Item where
  version : String
  /-- Its ETag in the older interface. -/
  etag : String
  /-- Its ETag in the newer one. -/
  tag : String
  deriving DecidableEq, Repr

/-- Two states of one item. -/
structure Item.Apart (a b : Item) : Prop where
  version : a.version ≠ b.version
  etag : a.etag ≠ b.etag
  tag : a.tag ≠ b.tag

instance : Std.Symm Item.Apart where
  symm _ _ h := ⟨h.version.symm, h.etag.symm, h.tag.symm⟩

/-- A change that was recorded with this ETag was recorded in this state of its item. -/
def recorded (etag : String) (a : Item) : Prop :=
  if (preconditionVersion etag).isSome then etag = versionPrecondition a.version else etag = a.tag

/-- A version is written down in one way only. -/
theorem versionPrecondition_injective {a b : String}
    (h : versionPrecondition a = versionPrecondition b) : a = b := by
  have hchars := congrArg String.toList h
  simp only [versionPrecondition, String.toList_append, List.append_cancel_left_eq] at hchars
  exact String.toList_injective hchars

/-- A change was recorded in one state of its item. -/
theorem not_apart_of_recorded {etag : String} {a b : Item} (ha : recorded etag a)
    (hb : recorded etag b) : ¬ a.Apart b := by
  intro hapart
  unfold recorded at ha hb
  split at ha
  · next hversion =>
    rw [if_pos hversion] at hb
    exact hapart.version (versionPrecondition_injective (ha.symm.trans hb))
  · next hversion =>
    rw [if_neg hversion] at hb
    exact hapart.tag (ha.symm.trans hb)

/-- The states of an item that have one ETag are one. -/
theorem eq_of_etag {states : List Item} {a b : Item} (h : states.Pairwise Item.Apart)
    (ha : a ∈ states) (hb : b ∈ states) (hetag : a.etag = b.etag) : a = b := by
  by_contra hne
  exact (h.forall ha hb hne).etag hetag

/-- The conditions of the service. -/
def editing : Conditions Message String Item where
  subject := Message.changes
  meets
    | .createFolder _ _ _, none => True
    | .relocateV2 _ _ _ etag, some a => a.etag = etag
    | .trashV2 _ etag, some a => a.etag = etag
    | .relocate _ _ _ etag, some a => a.tag = etag
    | .trash _ etag, some a => a.tag = etag
    | _, _ => False
  apart := Item.Apart

/-- The items of a drive. An item that is deleted for good is one nothing takes effect on any
    more. -/
abbrev Items := Records Message String Item

namespace Items

/-- What is read of an item at once is of one of its states. -/
def Seen (s : Items) (file : V2File) : Prop :=
  ∃ a ∈ s.past file.id, file.version = a.version ∧ ∀ etag ∈ file.etag, etag = a.etag

/-- The ETag of a state that has the version the change was recorded with. -/
def Under (s : Items) (before : Node) (etag : String) : Prop :=
  ∃ expected, before.etag = some expected ∧ (preconditionVersion expected).isSome = true ∧
    ∃ a ∈ s.past before.id, a.etag = etag ∧ recorded expected a

/-- The ETag the change was recorded with. -/
def Tagged (before : Node) (etag : String) : Prop :=
  before.etag = some etag ∧ preconditionVersion etag = none

/-- The requests of a change. -/
inductive Wants (request : MutationRequest) (item : Option String) (s : Items) : Message → Prop
    where
  | folder {id parent name : String} (hintent : request.intent = .createFolder parent name)
      (hitem : item = some id) : Wants request item s (.createFolder id parent name)
  | relocateV2 {before : Node} {parent name etag : String} {target : Option (String × String)}
      (hintent : request.intent = .relocate before parent name)
      (htarget : GoogleValidationMutations.moved before parent = .ok target)
      (hunder : s.Under before etag) :
      Wants request item s (.relocateV2 before.id name target etag)
  | relocate {before : Node} {parent name etag : String} {target : Option (String × String)}
      (hintent : request.intent = .relocate before parent name)
      (htarget : GoogleValidationMutations.moved before parent = .ok target)
      (htagged : Tagged before etag) : Wants request item s (.relocate before.id name target etag)
  | trashV2 {before : Node} {etag : String} (hbefore : request.intent.before = some before)
      (hremoves : GoogleValidationMutations.removes request = true)
      (hunder : s.Under before etag) : Wants request item s (.trashV2 before.id etag)
  | trash {before : Node} {etag : String} (hbefore : request.intent.before = some before)
      (hremoves : GoogleValidationMutations.removes request = true)
      (htagged : Tagged before etag) : Wants request item s (.trash before.id etag)

/-- The item was in the state the change was recorded in, and there was no folder yet. -/
def AsRecorded (request : MutationRequest) (a : Option Item) : Prop :=
  match request.intent.before with
  | none => a = none
  | some before => ∃ x etag, a = some x ∧ before.etag = some etag ∧ recorded etag x

variable {request : MutationRequest} {item : Option String} {s t : Items} {message : Message}

theorem Seen.grows {file : V2File} (h : s.Seen file) (hst : s.Grows t) : t.Seen file := by
  obtain ⟨a, ha, hfile⟩ := h
  exact ⟨a, (hst _).subset ha, hfile⟩

theorem Under.grows {before : Node} {etag : String} (h : s.Under before etag) (hst : s.Grows t) :
    t.Under before etag := by
  obtain ⟨expected, hexpected, hversion, a, ha, hetag, hrecorded⟩ := h
  exact ⟨expected, hexpected, hversion, a, (hst _).subset ha, hetag, hrecorded⟩

theorem Wants.grows (h : s.Wants request item message) (hst : s.Grows t) :
    t.Wants request item message := by
  cases h with
  | folder hintent hitem => exact .folder hintent hitem
  | relocateV2 hintent htarget hunder => exact .relocateV2 hintent htarget (hunder.grows hst)
  | relocate hintent htarget htagged => exact .relocate hintent htarget htagged
  | trashV2 hbefore hremoves hunder => exact .trashV2 hbefore hremoves (hunder.grows hst)
  | trash hbefore hremoves htagged => exact .trash hbefore hremoves htagged

/-- Every request of a change is about its item. -/
theorem Wants.changes (h : s.Wants request item message) :
    message.changes = subject request item := by
  unfold subject
  cases h with
  | folder hintent hitem =>
    rw [hintent]
    exact hitem.symm
  | relocateV2 hintent htarget hunder =>
    rw [hintent]
    rfl
  | relocate hintent htarget htagged =>
    rw [hintent]
    rfl
  | trashV2 hbefore hremoves hunder =>
    rw [hbefore]
    rfl
  | trash hbefore hremoves htagged =>
    rw [hbefore]
    rfl

theorem recorded_of_tagged {before : Node} {etag : String} {a : Item} (h : Tagged before etag)
    (hmeets : a.tag = etag) : before.etag = some etag ∧ recorded etag a := by
  refine ⟨h.1, ?_⟩
  rw [recorded, h.2]
  exact hmeets.symm

theorem recorded_of_under {before : Node} {etag : String} {a : Item}
    (hdistinct : (s.past before.id).Pairwise Item.Apart) (h : s.Under before etag)
    (ha : a ∈ s.past before.id) (hmeets : a.etag = etag) :
    ∃ expected, before.etag = some expected ∧ recorded expected a := by
  obtain ⟨expected, hexpected, -, b, hb, hetag, hrecorded⟩ := h
  rw [eq_of_etag hdistinct ha hb (hmeets.trans hetag.symm)]
  exact ⟨expected, hexpected, hrecorded⟩

/-- A request meets its item in the state the change was recorded in, and in no other. -/
theorem Wants.asRecorded {id : String} (hdistinct : (s.past id).Pairwise Item.Apart)
    (h : s.Wants request item message) (hid : message.changes = some id)
    (hmeets : editing.meets message (s.past id).head?) : AsRecorded request (s.past id).head? := by
  unfold AsRecorded
  cases hhead : (s.past id).head? with
  | none =>
    rw [hhead] at hmeets
    cases h with
    | folder hintent hitem =>
      rw [hintent]
      rfl
    | relocateV2 | relocate | trashV2 | trash => exact hmeets.elim
  | some a =>
    rw [hhead] at hmeets
    have ha : a ∈ s.past id := List.mem_of_mem_head? hhead
    cases h with
    | folder hintent hitem => exact hmeets.elim
    | relocateV2 hintent htarget hunder =>
      cases hid
      obtain ⟨expected, hexpected, hrecorded⟩ := recorded_of_under hdistinct hunder ha hmeets
      rw [hintent]
      exact ⟨a, expected, rfl, hexpected, hrecorded⟩
    | relocate hintent htarget htagged =>
      obtain ⟨hetag, hrecorded⟩ := recorded_of_tagged htagged hmeets
      rw [hintent]
      exact ⟨a, _, rfl, hetag, hrecorded⟩
    | trashV2 hbefore hremoves hunder =>
      cases hid
      obtain ⟨expected, hexpected, hrecorded⟩ := recorded_of_under hdistinct hunder ha hmeets
      rw [hbefore]
      exact ⟨a, expected, rfl, hexpected, hrecorded⟩
    | trash hbefore hremoves htagged =>
      obtain ⟨hetag, hrecorded⟩ := recorded_of_tagged htagged hmeets
      rw [hbefore]
      exact ⟨a, _, rfl, hetag, hrecorded⟩

theorem AsRecorded.same {a b : Item} (ha : AsRecorded request (some a))
    (hb : AsRecorded request (some b)) : ¬ a.Apart b := by
  unfold AsRecorded at ha hb
  split at ha
  · cases ha
  next before hbefore =>
  rw [hbefore] at hb
  obtain ⟨x, etag, hx, hetag, hrecorded⟩ := ha
  obtain ⟨y, etag', hy, hetag', hrecorded'⟩ := hb
  cases hx
  cases hy
  obtain rfl : etag = etag' := Option.some.inj (hetag.symm.trans hetag')
  exact not_apart_of_recorded hrecorded hrecorded'

theorem AsRecorded.absent {a : Item} (hnone : AsRecorded request none) :
    ¬ AsRecorded request (some a) := by
  unfold AsRecorded at hnone ⊢
  split at hnone
  · rintro ⟨⟩
  · obtain ⟨_, _, ⟨⟩, _⟩ := hnone

end Items

/-- What the requests of a change are sent for. -/
def purpose (request : MutationRequest) (item : Option String) : editing.Purpose where
  target := subject request item
  wants s message := Items.Wants request item s message
  wanted := Items.AsRecorded request
  grows hst h := Items.Wants.grows h hst
  subject := Items.Wants.changes
  meets hdistinct h hid hmeets := Items.Wants.asRecorded hdistinct h hid hmeets
  same := Items.AsRecorded.same
  absent := Items.AsRecorded.absent

/-- The request a question sends. -/
def sends : Ask → Option Message
  | .send message => some message
  | _ => none

/-- Nothing is said of an answer but what is read of a state; a request may have taken effect
    whatever is answered. -/
def tells : (r : Ask) → Items → Option (Answer r) → Prop
  | .v2File _, s, (answer : Option (Except UploadError V2File)) =>
    ∀ file, answer = some (.ok file) → s.Seen file
  | _, _, _ => True

/-- The world of one change. -/
def changing (request : MutationRequest) (item : Option String) :
    Game Ask (fun r => Option (Answer r)) Items :=
  Conditions.game (purpose request item) sends tells

/-! ## The calls of a change -/

section Calls

variable {g : GoogleValidationMutations} {request : MutationRequest} {item : Option String}
  {s : Items} {before : Node} {parent name expected : String} {α : Type}

theorem lasting_seen {file : V2File} : Conditions.Lasting fun s : Items => s.Seen file :=
  fun _ _ hst h => h.grows hst

theorem silent_of_reads (r : Ask) (h : Reads r) : Conditions.Silent sends r := by
  cases r with
  | send message => exact h.elim
  | permit | generateIds | file _ | taggedFile _ | v2File _ | list _ _ | download _ _ _ | wait =>
    rfl

theorem sending_of_sends {message : Message} (r : Ask) (h : ReadsOrSends message r) :
    Conditions.Sending sends message r := by
  intro other hother
  rcases h with h | rfl
  · rw [silent_of_reads r h] at hother
    cases hother
  · exact (Option.some.inj hother).symm

abbrev Sound (request : MutationRequest) (item : Option String) (s : Items) : Prop :=
  Conditions.Sound (purpose request item) s

/-- A call of the change, which may be cut off anywhere. -/
abbrev Editing (request : MutationRequest) (item : Option String)
    (call : Dialogue Ask (fun r => Option (Answer r)) α) (s : Items) : Prop :=
  (changing request item).Keeps (fun _ _ => True) call s

/-- A part of such a call. -/
abbrev EditingTo (request : MutationRequest) (item : Option String) (H : α → Items → Prop)
    (call : Exchange α) (s : Items) : Prop :=
  (changing request item).uncut.Tries H (fun _ _ => True) call s

theorem editingTo_reads {H : Items → Prop} {call : Exchange α} (hcall : call.run.Only Reads)
    (hH : Conditions.Lasting H) (hs : Sound request item s) (h : H s) :
    EditingTo request item (fun a t => call.run.Ends (.ok a) ∧ H t) call s := by
  unfold EditingTo changing
  rw [Conditions.uncut_game]
  exact Conditions.tries_silent (Dialogue.only_mono hcall silent_of_reads) hH hs h

/-- A request that the change wants is sent, and everything after it reads. -/
theorem editingTo_sends {message : Message} {f : Response → Exchange α}
    (hf : ∀ response, (f response).run.Only Reads) (hs : Sound request item s)
    (hwants : s.Wants request item message) :
    EditingTo request item (fun _ _ => True) (GoogleWriter.sendAuthorized message >>= f) s := by
  unfold EditingTo changing
  rw [Conditions.uncut_game]
  refine Game.keeps_mono (Conditions.keeps_sending
    (Dialogue.only_mono (sends_only hf) sending_of_sends) hs hwants) ?_
  rintro (e | a) t -
  · trivial
  · trivial

theorem editing_uploadCall {call : Exchange α} (hs : Sound request item s)
    (h : ∀ t, Sound request item t → EditingTo request item (fun _ _ => True) call t) :
    Editing request item (GoogleWriter.uploadCall call) s := by
  unfold GoogleWriter.uploadCall
  refine Game.keeps_cut (Dialogue.only_true _) (Conditions.lasting_framed Conditions.lasting_true)
    hs trivial ?_ fun _ _ _ => trivial
  suffices hcall : EditingTo request item (fun _ _ => True)
      (do Exchange.ofProvider (← Exchange.ask .permit); call) s from
    Game.keeps_mono hcall fun _ _ _ => trivial
  have hpermit : (Exchange.ask .permit).run.Only Reads := only_ask trivial
  refine (editingTo_reads hpermit Conditions.lasting_true hs trivial).bind hs ?_
  intro permit t ht _
  refine (editingTo_reads only_ofProvider Conditions.lasting_true ht trivial).bind ht ?_
  intro _ u hu _
  exact h u hu

/-- What is read of an item is of one of its states. -/
theorem readV2File_editing {id : String} (hs : Sound request item s) :
    EditingTo request item (fun file t => file.id = id ∧ Items.Seen t file) (g.readV2File id) s := by
  unfold GoogleWriter.readV2File
  refine (editingTo_reads only_ofProvider Conditions.lasting_true hs trivial).bind hs ?_
  intro _ t ht _
  have hask : EditingTo request item
      (fun answer u => ∀ file, answer = .ok file → Items.Seen u file)
      (Exchange.ask (.v2File id)) t := by
    refine Game.tries_question (K := fun _ => True) (fun _ _ _ _ _ => trivial) ht trivial ?_
    intro u _ _
    refine ⟨Conditions.allowed_silent (r := Ask.v2File id) rfl, ?_⟩
    rintro answer v ⟨hseen, rfl⟩ - file rfl
    exact hseen file rfl
  refine hask.bind ht ?_
  intro answer u hu hseen
  refine (Game.tries_ofExcept fun _ _ => trivial).bind hu ?_
  rintro file v hv ⟨hfile, rfl⟩
  refine (tries_refuseIf fun _ => trivial).bind hv ?_
  rintro _ v - ⟨hsame, rfl⟩
  exact Game.tries_pure ⟨not_not.mp fun hne => hsame (.inl hne), hseen file hfile⟩

theorem v2MutationNode_etag {file : V2File} {node : Node}
    (h : (g.v2MutationNode file).run.Ends (.ok node)) :
    node.etag = some (versionPrecondition file.version) := by
  unfold GoogleWriter.v2MutationNode at h
  iterate 4 obtain ⟨_, -, h⟩ := Dialogue.ends_ok h
  obtain ⟨_, -, h⟩ := Dialogue.ends_ok h
  rw [← ends_return h]

theorem v2Etag_mem {file : V2File} {etag : String} (h : GoogleWriter.v2Etag file = .ok etag) :
    etag ∈ file.etag := by
  unfold GoogleWriter.v2Etag at h
  split at h
  · next found hfound =>
    cases h
    exact (Option.filter_eq_some_iff.mp hfound).1
  · cases h

/-- What was read has the version the change was recorded with. -/
theorem under_of_read {file : V2File} {current : Node} {etag : String}
    (hetag : before.etag = some expected) (hversion : (preconditionVersion expected).isSome = true)
    (hid : file.id = before.id) (hseen : s.Seen file)
    (hcurrent : current.etag = some (versionPrecondition file.version))
    (hunchanged : unchanged current before = true) (hmem : etag ∈ file.etag) :
    s.Under before etag := by
  obtain ⟨a, ha, hfile, hetags⟩ := hseen
  rw [hid] at ha
  refine ⟨expected, hetag, hversion, a, ha, (hetags etag hmem).symm, ?_⟩
  rw [recorded, if_pos hversion, ← hfile]
  simp only [unchanged, Bool.and_eq_true, decide_eq_true_eq] at hunchanged
  have hsame := hunchanged.1.1.1
  rw [hcurrent, hetag] at hsame
  exact (Option.some.inj hsame).symm

theorem moved_of_unchanged {current : Node} (h : unchanged current before = true) :
    GoogleValidationMutations.moved current parent =
      GoogleValidationMutations.moved before parent := by
  simp only [unchanged, Bool.and_eq_true, decide_eq_true_eq] at h
  unfold GoogleValidationMutations.moved
  rw [h.1.2]

theorem v2Relocate_editing (hintent : request.intent = .relocate before parent name)
    (hetag : before.etag = some expected) (hversion : (preconditionVersion expected).isSome = true)
    (hs : Sound request item s) : Editing request item (g.v2Relocate request before parent name) s := by
  unfold GoogleValidationMutations.v2Relocate
  refine editing_uploadCall hs fun t ht => ?_
  refine (readV2File_editing ht).bind ht ?_
  rintro file u hu ⟨hid, hseen⟩
  refine (editingTo_reads v2MutationNode_only lasting_seen hu hseen).bind hu ?_
  rintro current v hv ⟨hcurrent, hseen⟩
  refine (tries_refuseIf fun _ => trivial).bind hv ?_
  rintro _ v - ⟨hunchanged, rfl⟩
  have hunchanged : unchanged current before = true := by simpa using hunchanged
  refine (editingTo_reads noneIn_only lasting_seen hv hseen).bind hv ?_
  rintro _ w hw ⟨-, hseen⟩
  refine (Game.tries_ofExcept fun _ _ => trivial).bind hw ?_
  rintro target w' - ⟨htarget, rfl⟩
  refine (Game.tries_ofExcept fun _ _ => trivial).bind hw ?_
  rintro etag w' - ⟨hmem, rfl⟩
  have hunder := under_of_read hetag hversion hid hseen (v2MutationNode_etag hcurrent) hunchanged
    (v2Etag_mem hmem)
  rw [moved_of_unchanged hunchanged] at htarget
  refine editingTo_sends (fun response => ?_) hw (.relocateV2 hintent htarget hunder)
  refine Dialogue.only_tries only_ofExcept fun file => ?_
  exact Dialogue.only_tries v2MutationNode_only fun node => accepted_only

theorem v2Remove_editing (hbefore : request.intent.before = some before)
    (hremoves : GoogleValidationMutations.removes request = true)
    (hetag : before.etag = some expected) (hversion : (preconditionVersion expected).isSome = true)
    (hs : Sound request item s) : Editing request item (g.v2Remove request before) s := by
  unfold GoogleValidationMutations.v2Remove
  refine editing_uploadCall hs fun t ht => ?_
  refine (readV2File_editing ht).bind ht ?_
  rintro file u hu ⟨hid, hseen⟩
  refine (editingTo_reads v2MutationNode_only lasting_seen hu hseen).bind hu ?_
  rintro current v hv ⟨hcurrent, hseen⟩
  refine (tries_refuseIf fun _ => trivial).bind hv ?_
  rintro _ v - ⟨hunchanged, rfl⟩
  have hunchanged : unchanged current before = true := by simpa using hunchanged
  refine (editingTo_reads checkEmpty_only lasting_seen hv hseen).bind hv ?_
  rintro _ w hw ⟨-, hseen⟩
  refine (Game.tries_ofExcept fun _ _ => trivial).bind hw ?_
  rintro etag w' - ⟨hmem, rfl⟩
  have hunder := under_of_read hetag hversion hid hseen (v2MutationNode_etag hcurrent) hunchanged
    (v2Etag_mem hmem)
  refine editingTo_sends (fun response => ?_) hw (.trashV2 hbefore hremoves hunder)
  refine Dialogue.only_tries only_ofExcept fun file => ?_
  exact Dialogue.only_tries only_refuseIf fun _ => only_return

theorem validationRelocate_editing (hintent : request.intent = .relocate before parent name)
    (htagged : Items.Tagged before expected) (hs : Sound request item s) :
    Editing request item (g.validationRelocate request before expected parent name) s := by
  unfold GoogleValidationMutations.validationRelocate
  refine editing_uploadCall hs fun t ht => ?_
  refine (editingTo_reads readTaggedFile_only Conditions.lasting_true ht trivial).bind ht ?_
  rintro ⟨file, tag⟩ u hu -
  refine (Game.tries_ofExcept fun _ _ => trivial).bind hu ?_
  rintro current u - ⟨-, rfl⟩
  refine (tries_refuseIf fun _ => trivial).bind hu ?_
  rintro _ u - ⟨hunchanged, rfl⟩
  have hunchanged : unchanged current before = true := by simpa using hunchanged
  refine (editingTo_reads noneIn_only Conditions.lasting_true hu trivial).bind hu ?_
  rintro _ v hv -
  refine (Game.tries_ofExcept fun _ _ => trivial).bind hv ?_
  rintro target v - ⟨htarget, rfl⟩
  rw [moved_of_unchanged hunchanged] at htarget
  refine editingTo_sends (fun response => ?_) hv (.relocate hintent htarget htagged)
  refine Dialogue.only_tries only_ofExcept fun file => ?_
  exact Dialogue.only_tries only_ofExcept fun node => accepted_only

theorem validationRemove_editing (hbefore : request.intent.before = some before)
    (hremoves : GoogleValidationMutations.removes request = true)
    (htagged : Items.Tagged before expected) (hs : Sound request item s) :
    Editing request item (g.validationRemove request before expected) s := by
  unfold GoogleValidationMutations.validationRemove
  refine editing_uploadCall hs fun t ht => ?_
  refine (editingTo_reads readTaggedFile_only Conditions.lasting_true ht trivial).bind ht ?_
  rintro ⟨file, tag⟩ u hu -
  refine (editingTo_reads only_ofExcept Conditions.lasting_true hu trivial).bind hu ?_
  rintro current u hu -
  refine (editingTo_reads only_refuseIf Conditions.lasting_true hu trivial).bind hu ?_
  rintro _ u hu -
  refine (editingTo_reads checkEmpty_only Conditions.lasting_true hu trivial).bind hu ?_
  rintro _ u hu -
  refine editingTo_sends (fun response => ?_) hu (.trash hbefore hremoves htagged)
  refine Dialogue.only_tries only_ofExcept fun file => ?_
  exact Dialogue.only_tries only_refuseIf fun _ => only_return

theorem mutateItem_editing (hbefore : request.intent.before = some before)
    (hetag : before.etag = some expected) (hs : Sound request item s) :
    Editing request item (g.mutateItem request before expected) s := by
  have htagged : ¬ (preconditionVersion expected).isSome = true →
      Items.Tagged before expected := by
    intro hnone
    exact ⟨hetag, by simpa using hnone⟩
  have hremove : GoogleValidationMutations.removes request = true → Editing request item
      (if (preconditionVersion expected).isSome then g.v2Remove request before
        else g.validationRemove request before expected) s := by
    intro hremoves
    split
    · next hversion => exact v2Remove_editing hbefore hremoves hetag hversion hs
    · next hversion => exact validationRemove_editing hbefore hremoves (htagged hversion) hs
  unfold GoogleValidationMutations.mutateItem
  split
  · next hintent =>
    rw [hintent] at hbefore
    cases hbefore
    split
    · trivial
    split
    · next hversion => exact v2Relocate_editing hintent hetag hversion hs
    · next hversion => exact validationRelocate_editing hintent (htagged hversion) hs
  · next hintent =>
    refine hremove ?_
    rw [GoogleValidationMutations.removes, hintent]
  · next hintent =>
    refine hremove ?_
    rw [GoogleValidationMutations.removes, hintent]
  · trivial
  · trivial

theorem checkBefore_eq_ok (h : GoogleValidationMutations.checkBefore before = .ok expected) :
    before.etag = some expected := by
  unfold GoogleValidationMutations.checkBefore at h
  split at h
  · cases h
  split at h
  · cases h
  split at h
  · cases h
  next etag hetag =>
  split at h
  · cases h
  · rw [hetag]
    exact congrArg some (Except.ok.inj h)

theorem mutate_editing (hs : Sound request item s) :
    Editing request item (g.mutate request) s := by
  unfold GoogleValidationMutations.mutate
  split
  · trivial
  split
  · trivial
  next before hbefore =>
  split
  · trivial
  next etag hetag =>
  refine Game.keeps_bind hs (mutateItem_editing hbefore (checkBefore_eq_ok hetag) hs) ?_
  intro receipt t _ _
  trivial

theorem mutatePrepared_editing (hs : Sound request item s) :
    Editing request item (g.mutatePrepared request item) s := by
  unfold GoogleValidationMutations.mutatePrepared
  split
  · next parent name hintent =>
    split
    · trivial
    next id hid =>
    refine Game.keeps_bind hs (Conditions.keeps_silent
      (Dialogue.only_mono (Dialogue.only_cut _ noneIn_only) silent_of_reads) hs) ?_
    intro free t ht _
    split
    · trivial
    have hcreates := createPreparedFolder_only (g := g) request.scope ⟨id, parent, name⟩
    refine Game.keeps_bind ht (Conditions.keeps_sending
      (Dialogue.only_mono hcreates sending_of_sends) ht
      (.folder hintent (checkPrepared_eq_ok hid))) ?_
    intro created u _ _
    split
    · trivial
    split
    · trivial
    · trivial
  · split
    · trivial
    · exact mutate_editing hs

end Calls

/-! ## Every run -/

/-- In every run in which a change is begun any number of times, cut off anywhere, while others
    change the drive and requests take effect as late as they like: at most one of its requests
    takes effect, and this one is a request of the change for its own item, or for the folder of the
    reserved identity, and meets it in the state the change was recorded in. -/
theorem changes_once (g : GoogleValidationMutations) (request : MutationRequest)
    (item : Option String) (start s : Items)
    (log : List ((r : Ask) × Option (Answer r)))
    (call : Option (Dialogue Ask (fun r => Option (Answer r)) (Except MutationError MutationReceipt)))
    (hstart : editing.New start)
    (h : (changing request item).Reaches (g.mutatePrepared request item) start log s call) :
    s.applied.length ≤ 1 ∧
    ∀ c ∈ s.applied, s.Wants request item c.1 ∧ Items.AsRecorded request c.2 :=
  Conditions.applied_once h hstart fun _ hs => mutatePrepared_editing hs

/-! ## A folder whose request takes effect late -/

section Sample

/-- Nothing is in the drive. -/
def sampleEmpty : Items := ⟨fun _ => [], [], []⟩

theorem sampleEmpty_new : editing.New sampleEmpty where
  distinct _ := .nil
  sent := rfl
  applied := rfl

def sampleCreates : Message := .createFolder "a" "root" "letters"

/-- The folder was sent twice. -/
def sampleSent : Items := { sampleEmpty with sent := [sampleCreates, sampleCreates] }

/-- The folder is there. -/
def sampleThere : Items :=
  { sampleSent.become "a" ⟨"1", "\"etag\"", "\"tag\""⟩ with applied := [(sampleCreates, none)] }

abbrev Folders (log : List ((r : Ask) × Option (Answer r))) (s : Items)
    (call : Option (Dialogue Ask (fun r => Option (Answer r))
      (Except MutationError MutationReceipt))) : Prop :=
  (changing sampleFolder (some "a")).Reaches
    (sampleChanges.mutatePrepared sampleFolder (some "a")) sampleEmpty log s call

theorem folders_next {log : List ((r : Ask) × Option (Answer r))} {s : Items} {r : Ask}
    {next : Option (Answer r) → Dialogue Ask (fun r => Option (Answer r)) _}
    (h : Folders log s (some (.ask r next))) (a : Option (Answer r)) (t : Items)
    (ha : (changing sampleFolder (some "a")).answers r s a t) :
    Folders (⟨r, a⟩ :: log) t (some (next a)) :=
  h.answers ha

/-- The request is sent and the call cut off. -/
theorem folders_again {log : List ((r : Ask) × Option (Answer r))} {s : Items}
    (hbefore : Folders log s none) : ∃ log, Folders log (s.send sampleCreates) none := by
  have hchecked : sampleChanges.checkPrepared sampleFolder (some "a") = .ok "a" := by
    decide +kernel
  have hplan : sampleChanges.checkFolderPlan ⟨"me", "googledrive", "drive"⟩
      ⟨"a", "root", "letters"⟩ = .ok () := by decide +kernel
  have h : Folders _ _ _ := .begins hbefore
  unfold GoogleValidationMutations.mutatePrepared at h
  rw [hchecked] at h
  dsimp only [sampleFolder] at h
  unfold GoogleWriter.createPreparedFolder at h
  rw [hplan] at h
  have h := folders_next h (some (Except.ok ⟨[], none, false⟩)) s ⟨trivial, rfl⟩
  have h := folders_next h (some (Except.ok ())) s ⟨trivial, rfl⟩
  have h := folders_next h none (s.send sampleCreates) ⟨trivial, rfl⟩
  have h : Folders _ _ _ := .ends h
  exact ⟨_, h⟩

/-- The request takes effect after it was sent again. -/
theorem folders_there : ∃ log, Folders log sampleThere none := by
  obtain ⟨_, hfirst⟩ := folders_again .start
  obtain ⟨_, hsecond⟩ := folders_again hfirst
  have hnew : ∀ b ∈ sampleSent.past "a", Item.Apart ⟨"1", "\"etag\"", "\"tag\""⟩ b := by
    rintro b ⟨⟩
  have hlands : editing.Stirs sampleSent sampleThere :=
    Conditions.Stirs.lands (C := editing) (s := sampleSent) sampleCreates "a" _
      List.mem_cons_self rfl trivial hnew
  exact ⟨_, .stirs hsecond hlands⟩

theorem changes_once_folder : sampleThere.applied.length ≤ 1 ∧
    ∀ c ∈ sampleThere.applied, sampleThere.Wants sampleFolder (some "a") c.1 ∧
      Items.AsRecorded sampleFolder c.2 := by
  obtain ⟨log, h⟩ := folders_there
  exact changes_once sampleChanges sampleFolder (some "a") sampleEmpty sampleThere log none
    sampleEmpty_new h

end Sample

end Cirrove.Google
