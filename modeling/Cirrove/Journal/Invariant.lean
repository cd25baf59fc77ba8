import Cirrove.Journal.Evolution

/-!
# The invariant of the journal

`Inv` is what holds of the tables between any two commits. It is stated for an arbitrary set
`ok` of texts: every item identity and ETag that came from outside satisfies `ok`, and so does
every one an operation is sent with.

- `Queue.Sound`: attempts, numbers, lineage, and who may still wait for a receipt
- `ObjectSound`, `FileSound`: what the local names say about the operations behind them
- `Namespace.Indexed`: the indexes of the names, and the owner of the last operation of an object
- `DestinationSound`: a destination folder will have a cloud identity when it is resolved
- `HeldSound`: a removal that waits for the readers of its file can be released
- `ReplacementSound`: the objects of a running replacement stay what they were planned to be

A transaction stores an operation before it has stored everything that belongs to it. Such
operations are the `underway` of `Inv`; there are none between transactions.
-/

namespace Cirrove.Journal

open Cirrove.Library

/-! ## Operations -/

structure UploadRecord.WellFormed (ok : String → Prop) (r : UploadRecord) : Prop where
  receipt : r.state = .uploaded → ∃ n, r.remote = some n ∧ n.id ≠ "" ∧ n.kind = .file ∧
    n.target = none ∧ ∀ tag ∈ nodeTags n, ok tag
  source : baseBound r.base = true → ∀ item etag, r.intent = .replace item etag → ok item ∧ ok etag
  digest : r.sha256.utf8ByteSize = 64 ∨ r.state = .preparing ∨
    (r.state = .failed ∧ baseBound r.base = false)

structure MutationRecord.WellFormed (ok : String → Prop) (r : MutationRecord) : Prop where
  before : ∀ b, r.request.intent.before = some b → b.id ≠ "" ∧
    (b.parentId.isSome = true ∨ (r.state = .failed ∧ baseBound r.base = false))
  resolved : r.state = .resolved → (Operation.mutation r).kind = none
  receipt : r.state = .applied → ∃ receipt, r.receipt = some receipt ∧
    r.request.accepts receipt = true ∧ ∀ n, receipt = .upsert n → ∀ tag ∈ nodeTags n, ok tag
  source : baseBound r.base = true →
    ∀ b, r.request.intent.before = some b → ∀ tag ∈ nodeTags b, ok tag
  base : r.base.isSome = true → r.request.intent.preview.isSome = true

def Operation.WellFormed (ok : String → Prop) : Operation → Prop
  | .upload r => r.WellFormed ok
  | .mutation r => r.WellFormed ok

namespace Queue

/-- The invariant of the queue. -/
structure Sound (ok : String → Prop) (q : Queue) : Prop where
  tidy : q.Tidy
  attempt : ∀ {id op}, q.find id = some op → (op.attempt.isSome = true ↔ op.inFlight = true)
  sequence : ∀ {id op}, q.find id = some op → 0 < op.sequence ∧ op.sequence ≤ q.lastSequence
  unique : ∀ {a b x y}, q.find a = some x → q.find b = some y → x.sequence = y.sequence → a = b
  wellFormed : ∀ {id op}, q.find id = some op → op.WellFormed ok
  lineage : ∀ {id op b}, q.find id = some op → op.base = some b →
    q.writeSuccessors.get b.predecessor = some id ∧
    ∃ p, q.find b.predecessor = some p ∧ p.sequence < op.sequence ∧ p.kind.isSome = true ∧
      (b.resolved = true → op.follows p)
  successor : ∀ {p s op}, q.writeSuccessors.get p = some s → q.find s = some op →
    op.base.map WriteBase.predecessor = some p
  bound : ∀ {id op}, q.find id = some op → op.isComplete = false → op.waiting = false →
    baseBound op.base = true ∧ q.destinationReady id = true
  failed : ∀ {id op}, q.find id = some op → op.failed = true → baseBound op.base = true →
    q.destinationReady id = true

/-- The receipt an operation waits for is there, and will give it this key. -/
def BaseReveals (lowercase : String → String) (q : Queue) (op : Operation) (k : Resource) : Prop :=
  ∃ b p n, op.base = some b ∧ b.resolved = false ∧ q.find b.predecessor = some p ∧
    p.confirmedNode = some n ∧ k ∈ op.sourceKeys lowercase n

/-- Every operation is still there, or its later version. -/
def Keeps (q q' : Queue) : Prop :=
  ∀ id op, q.find id = some op → ∃ op', q'.find id = some op' ∧ op.Continues op'

end Queue

/-! ## Names -/

/-- The object is a folder whose creation is not confirmed. -/
def NamespaceObject.Unconfirmed (o : NamespaceObject) : Prop :=
  o.node.kind = .folder ∧ o.remote = none

/-- The last operation of an object that has a name leaves something behind. -/
def HeadSound (q : Queue) (latest : Option Uuid) : Prop :=
  ∀ p, latest = some p → ∃ op, q.find p = some op ∧ op.kind.isSome = true

structure ObjectSound (ok : String → Prop) (q : Queue) (n : Namespace) (id : Uuid)
    (row : ObjectRow) : Prop where
  key : row.body.id = id
  scope : row.identity.1 = row.body.scope
  remote : ∀ r, row.body.remote = some r → r.kind = row.body.node.kind ∧
    (r.kind ≠ .shortcut → r.target = none) ∧ r.id ≠ "" ∧ ∀ tag ∈ nodeTags r, ok tag
  working : row.body.workingFile.isSome = true → row.body.node.kind = .file
  unconfirmed : row.body.Unconfirmed → row.identity = (row.body.scope, localDirectory id) ∧
    row.body.unlinked = false
  head : row.body.unlinked = false → HeadSound q row.body.latest
  folder : row.body.unlinked = false → row.body.node.kind = .folder →
    ∀ p, row.body.latest = some p → n.operations.get p = some id ∧
      ∀ op, q.find p = some op → op.kind = some .folder ∧ op.scope = row.body.scope

structure FileSound (ok : String → Prop) (q : Queue) (id : Uuid) (w : WorkingFile) : Prop where
  key : w.id = id
  kind : w.node.kind = .file
  head : w.unlinked = false → HeadSound q w.latest
  remote : ∀ r, w.initialRemote = some r → ∀ tag ∈ nodeTags r, ok tag
  intent : w.latest = none → ∀ item etag, w.intent = .replace item etag → ok item ∧ ok etag
  sent : w.initialRemote = none → w.dirty = true ∨ w.latest.isSome = true

/-- The folder of a destination, and the operation whose receipt will name it. -/
structure DestinationSound (q : Queue) (n : Namespace) (id : Uuid) (row : DestinationRow) :
    Prop where
  operation : ∃ op, q.find id = some op ∧ op.destination.isSome = true
  folder : ∃ f, n.objects.get row.parent = some f ∧
    (∀ op, q.find id = some op → f.body.scope = op.scope) ∧
    (row.predecessor = none → f.body.node.kind = .folder → f.body.remote.isSome = true)
  predecessor : ∀ p, row.predecessor = some p → n.operations.get p = some row.parent ∧
    ∃ prev, q.find p = some prev ∧ prev.kind = some .folder ∧
      ∀ op, q.find id = some op → prev.scope = op.scope ∧ prev.sequence < op.sequence

/-- The object owns no cloud item and has no bytes of its own. -/
def NamespaceObject.Spare (o : NamespaceObject) : Prop :=
  o.remoteOwned = false ∧ o.workingFile = none

/-- A removal that waits for the readers of its file: its object has no name, and nothing has
    happened to the object since. -/
structure HeldSound (j : UploadJournal) (id : Uuid) (r : MutationRecord) : Prop where
  removes : (Operation.mutation r).removesFile = true
  state : r.state = .pending ∨ (r.state = .failed ∧ baseBound r.base = false)
  object : ∃ o row, j.names.operations.get id = some o ∧ j.names.objects.get o = some row ∧
    row.body.unlinked = true ∧ row.body.latest = some id

/-- The objects of a replacement whose upload is not complete: the source cannot be handed back to
    the cloud, and the victim stays without a name. -/
structure Running (j : UploadJournal) (id : Uuid) (record : ReplacementRecord) : Prop where
  owner : j.names.operations.get id = some record.source
  source : ∃ row, j.names.objects.get record.source = some row ∧ row.body.node.kind = .file ∧
    row.body.followsRemote = false
  victim : ∃ row, j.names.objects.get record.victim = some row ∧ row.body.unlinked = true ∧
    HeadSound j.queue row.body.latest

/-- A recorded replacement. The object of its cleanup waits for the source's old identity, and the
    cleanup waits for the upload. -/
structure ReplacementSound (underway : List Uuid) (j : UploadJournal) (id : Uuid)
    (record : ReplacementRecord) : Prop where
  key : record.id = id
  upload : ∃ r, j.queue.find id = some (.upload r)
  running : id ∉ underway → (∀ op, j.queue.find id = some op → op.isComplete = false) →
    Running j id record
  cleanup : ∃ row, j.names.objects.get record.cleanupObject = some row ∧
    (record.remoteApplied = false → record.rescuedAs = none → id ∉ underway → row.body.Spare)
  rescuedDone : record.rescuedAs.isSome = true → id ∉ underway →
    ∀ op, j.queue.find id = some op → op.isComplete = true
  unready : record.localReady = false → ∀ op, j.queue.find id = some op →
    op.inFlight = false ∧ op.isComplete = false
  awaits : record.rescuedAs = none → id ∉ underway →
    (j.queue.writePrerequisites.get (record.cleanup, id)).isSome = true
  done : id ∉ underway → ∀ op, j.queue.find id = some op → op.isComplete = true →
    record.remoteApplied = true ∨ record.rescuedAs.isSome = true

/-- The destination of an operation is bound to a folder, came from outside, or is not the
    local name of a folder whose creation is not confirmed. -/
def ParentSound (ok : String → Prop) (q : Queue) (n : Namespace) (id : Uuid) (op : Operation)
    (parent : String) : Prop :=
  (∃ row, q.writeDestinations.get id = some row ∧ row.resolved = false) ∨ ok parent ∨
    ∀ f row, n.objects.get f = some row → row.body.Unconfirmed → row.body.scope = op.scope →
      parent ≠ localDirectory f

/-- The invariant of the journal. -/
structure Inv (ok : String → Prop) (underway : List Uuid) (j : UploadJournal) : Prop where
  queue : j.queue.Sound ok
  covered : ∀ {id op}, j.queue.find id = some op →
    ∀ k ∈ op.keys j.settings.lowercase, k ∈ j.queue.resources id ∨
      j.queue.BaseReveals j.settings.lowercase op k
  objects : ∀ {id row}, j.names.objects.get id = some row → ObjectSound ok j.queue j.names id row
  files : ∀ {id row}, j.workingFiles.get id = some row → FileSound ok j.queue id row.body
  destinations : ∀ {id row}, j.queue.writeDestinations.get id = some row →
    DestinationSound j.queue j.names id row
  parents : ∀ {id op parent}, j.queue.find id = some op → op.destination = some parent →
    ParentSound ok j.queue j.names id op parent
  replacements : ∀ {id record}, j.fileReplacements.get id = some record →
    ReplacementSound underway j id record
  index : j.names.Indexed j.settings.lowercase
  latest : ∀ {id row p}, j.names.objects.get id = some row → row.body.latest = some p →
    p ∈ underway ∨ j.names.operations.get p = some id
  cleanups : ∀ {a b x y}, j.fileReplacements.get a = some x → j.fileReplacements.get b = some y →
    x.cleanupObject = y.cleanupObject → a = b
  held : ∀ {id r}, j.queue.find id = some (.mutation r) → r.localReady = false → id ∉ underway →
    HeldSound j id r
  detached : ∀ {id row w}, j.names.objects.get id = some row → row.body.unlinked = true →
    row.body.workingFile = some w →
    ∃ file, j.workingFiles.get w = some file ∧ file.body.latest = row.body.latest
  unsealed : ∀ {id r}, j.queue.find id = some (.upload r) → r.sha256.utf8ByteSize ≠ 64 →
    id ∉ underway → r.workingFile = none ∧ (j.fileReplacements.get id).isSome = true

theorem Inv.tidy {ok : String → Prop} {underway : List Uuid} {j : UploadJournal}
    (h : Inv ok underway j) : j.queue.Tidy := h.queue.tidy

/-! ## What the names keep when the queue changes -/

section Mono

variable {ok : String → Prop} {q q' : Queue} {n : Namespace}

theorem Queue.BaseReveals.mono {lowercase : String → String} {op : Operation} {k : Resource}
    (h : q.BaseReveals lowercase op k) (hkeeps : q.Keeps q') : q'.BaseReveals lowercase op k := by
  obtain ⟨b, p, n, hb, hunresolved, hp, hn, hk⟩ := h
  obtain ⟨p', hp', hcont⟩ := hkeeps _ _ hp
  obtain rfl := hcont.frozen (Operation.isComplete_of_confirmedNode hn)
  exact ⟨b, p', n, hb, hunresolved, hp', hn, hk⟩

theorem HeadSound.mono {latest : Option Uuid} (h : HeadSound q latest) (hkeeps : q.Keeps q') :
    HeadSound q' latest := by
  intro p hp
  obtain ⟨op, hop, hkind⟩ := h p hp
  obtain ⟨op', hop', hcont⟩ := hkeeps p op hop
  exact ⟨op', hop', hcont.kind ▸ hkind⟩

theorem ObjectSound.mono {id : Uuid} {row : ObjectRow} (h : ObjectSound ok q n id row)
    (hkeeps : q.Keeps q') : ObjectSound ok q' n id row where
  key := h.key
  scope := h.scope
  remote := h.remote
  working := h.working
  unconfirmed := h.unconfirmed
  head := fun hlinked => (h.head hlinked).mono hkeeps
  folder := by
    intro hlinked hkind p hp
    obtain ⟨hoperation, hfolder⟩ := h.folder hlinked hkind p hp
    refine ⟨hoperation, ?_⟩
    intro op' hop'
    obtain ⟨op, hop, _⟩ := h.head hlinked p hp
    obtain ⟨later, hlater, hcont⟩ := hkeeps p op hop
    rw [hop'] at hlater
    cases hlater
    rw [hcont.kind, hcont.scope]
    exact hfolder op hop

theorem FileSound.mono {id : Uuid} {w : WorkingFile} (h : FileSound ok q id w)
    (hkeeps : q.Keeps q') : FileSound ok q' id w :=
  ⟨h.key, h.kind, fun hlinked => (h.head hlinked).mono hkeeps, h.remote, h.intent, h.sent⟩

theorem DestinationSound.mono {id : Uuid} {row row' : DestinationRow}
    (h : DestinationSound q n id row) (hparent : row'.parent = row.parent)
    (hpredecessor : row'.predecessor = row.predecessor) (hkeeps : q.Keeps q') :
    DestinationSound q' n id row' := by
  obtain ⟨op, hop, hdestination⟩ := h.operation
  obtain ⟨op', hop', hcont⟩ := hkeeps id op hop
  refine ⟨⟨op', hop', by rw [hcont.destination]; exact hdestination⟩, ?_, ?_⟩
  · obtain ⟨f, hf, hscope, hremote⟩ := h.folder
    refine ⟨f, hparent ▸ hf, ?_, hpredecessor ▸ hremote⟩
    intro later hlater
    rw [hop'] at hlater
    cases hlater
    rw [hcont.scope]
    exact hscope op hop
  · intro p hp
    obtain ⟨hoperation, prev, hprev, hkind, hearlier⟩ := h.predecessor p (hpredecessor ▸ hp)
    obtain ⟨prev', hprev', hcont'⟩ := hkeeps p prev hprev
    refine ⟨hparent ▸ hoperation, prev', hprev', by rw [hcont'.kind]; exact hkind, ?_⟩
    intro later hlater
    rw [hop'] at hlater
    cases hlater
    rw [hcont.scope, hcont.sequence, hcont'.scope, hcont'.sequence]
    exact hearlier op hop

theorem Running.mono {j : UploadJournal} {id : Uuid} {record : ReplacementRecord}
    (h : Running j id record) (hkeeps : j.queue.Keeps q') :
    Running { j with queue := q' } id record := by
  obtain ⟨row, hrow, hunlinked, hhead⟩ := h.victim
  exact ⟨h.owner, h.source, row, hrow, hunlinked, hhead.mono hkeeps⟩

/-- A replacement whose upload was stored again. -/
theorem ReplacementSound.mono {underway : List Uuid} {j : UploadJournal} {id : Uuid}
    {record : ReplacementRecord} (h : ReplacementSound underway j id record)
    (hkeeps : j.queue.Keeps q')
    (hprerequisites : (j.queue.writePrerequisites.get (record.cleanup, id)).isSome = true →
      (q'.writePrerequisites.get (record.cleanup, id)).isSome = true)
    (hready : ∀ op', q'.find id = some op' → j.queue.find id ≠ some op' →
      op'.inFlight = true ∨ op'.isComplete = true → record.localReady = true)
    (hdone : ∀ op', q'.find id = some op' → j.queue.find id ≠ some op' → op'.isComplete = true →
      id ∉ underway → record.remoteApplied = true ∨ record.rescuedAs.isSome = true) :
    ReplacementSound underway { j with queue := q' } id record := by
  obtain ⟨r, hr⟩ := h.upload
  obtain ⟨op', hop', hcont⟩ := hkeeps id _ hr
  refine ⟨h.key, ?_, ?_, h.cleanup, ?_, ?_, ?_, ?_⟩
  · cases op' with
    | upload r' => exact ⟨r', hop'⟩
    | mutation r' => cases hcont.isUpload
  · intro hunderway hincomplete
    refine (h.running hunderway ?_).mono hkeeps
    -- A complete operation would still be complete.
    intro op hop
    rw [hr] at hop
    cases hop
    cases hcomplete : (Operation.upload r).isComplete with
    | false => rfl
    | true =>
      have hframe := hcont.frozen hcomplete
      rw [← hincomplete op' hop', hframe, hcomplete]
  · intro hrescuedAs hunderway op hop
    have hcomplete := h.rescuedDone hrescuedAs hunderway _ hr
    have hsame : q'.find id = some op := hop
    rw [hop', hcont.frozen hcomplete] at hsame
    cases hsame
    exact hcomplete
  · intro hunready op hop
    by_cases hsame : j.queue.find id = some op
    · exact h.unready hunready op hsame
    · have hgated : ¬ (op.inFlight = true ∨ op.isComplete = true) := by
        intro hboth
        rw [hready op hop hsame hboth] at hunready
        cases hunready
      simpa using hgated
  · intro hrunning hunderway
    exact hprerequisites (h.awaits hrunning hunderway)
  · intro hunderway op hop hcomplete
    by_cases hsame : j.queue.find id = some op
    · exact h.done hunderway op hsame hcomplete
    · exact hdone op hop hsame hcomplete hunderway

end Mono

/-! ## What does not depend on the other tables -/

section Congr

variable {j j' : UploadJournal} {id : Uuid}

theorem HeldSound.congr {r : MutationRecord} (h : HeldSound j id r) (hnames : j'.names = j.names) :
    HeldSound j' id r := by
  refine ⟨h.removes, h.state, ?_⟩
  rw [hnames]
  exact h.object

theorem ReplacementSound.congr {underway : List Uuid} {record : ReplacementRecord}
    (h : ReplacementSound underway j id record) (hqueue : j'.queue = j.queue)
    (hnames : j'.names = j.names) : ReplacementSound underway j' id record := by
  refine ⟨h.key, by rw [hqueue]; exact h.upload, ?_, by rw [hnames]; exact h.cleanup, ?_, ?_, ?_, ?_⟩
  · intro hunderway hincomplete
    rw [hqueue] at hincomplete
    obtain ⟨howner, hsource, hvictim⟩ := h.running hunderway hincomplete
    exact ⟨by rw [hnames]; exact howner, by rw [hnames]; exact hsource,
      by rw [hnames, hqueue]; exact hvictim⟩
  all_goals rw [hqueue]
  · exact h.rescuedDone
  · exact h.unready
  · exact h.awaits
  · exact h.done

end Congr

end Cirrove.Journal
