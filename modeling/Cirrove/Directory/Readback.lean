import Cirrove.Directory.Faithful
import Cirrove.Directory.Pages

/-!
# Listings read back

A history only grows, so that a page may read bytes that are newer than the frontier it was
given. Below the frontier it answers the entries that were pushed, past it nothing until the
listing is complete, and stepping by the length of every page meets every entry once
(`snapshot_reads_back`).
-/

namespace Cirrove.Directory

open Cirrove.Library

/-! ## Histories -/

section Histories

variable {key : Nat} {events more : List Event} {t : Told} {e : Event}

theorem told_concat : told key (events ++ [e]) = (told key events).after key e := by
  simp [told]

/-- A history only adds. -/
structure Told.Grows (t t' : Told) : Prop where
  pushed : t.pushed <+: t'.pushed
  published : t.published ≤ t.pushed.length → t.published ≤ t'.published
  bounded : t.published ≤ t.pushed.length → t'.published ≤ t'.pushed.length
  refused : t.refused = true → t'.refused = true
  complete : t.complete = true → t'.complete = true

theorem Told.Grows.refl (t : Told) : t.Grows t := ⟨List.prefix_rfl, fun _ => le_rfl, id, id, id⟩

theorem Told.Grows.trans {t t' t'' : Told} (h : t.Grows t') (h' : t'.Grows t'') : t.Grows t'' where
  pushed := h.pushed.trans h'.pushed
  published hle := (h.published hle).trans (h'.published (h.bounded hle))
  bounded hle := h'.bounded (h.bounded hle)
  refused hrefused := h'.refused (h.refused hrefused)
  complete hcomplete := h'.complete (h.complete hcomplete)

theorem Told.grows_after (t : Told) (key : Nat) (e : Event) : t.Grows (t.after key e) := by
  unfold Told.after
  split
  · rcases e with ⟨call, device, answer⟩
    cases call <;> cases answer <;> constructor <;> simp [Told.answered]
    exact Nat.le_succ_of_le
  · exact .refl t

theorem told_grows (key : Nat) (events more : List Event) :
    (told key events).Grows (told key (events ++ more)) := by
  rw [told, told, List.foldl_append]
  generalize events.foldl (Told.after key) {} = t
  induction more generalizing t with
  | nil => exact .refl t
  | cons e more ih => exact (t.grows_after key e).trans (ih _)

theorem told_published_le (key : Nat) (events : List Event) :
    (told key events).published ≤ (told key events).pushed.length :=
  (told_grows key [] events).bounded le_rfl

/-- What was published stays published, in its place. -/
theorem Told.Grows.stays {t t' : Told} (h : t.Grows t') (hle : t.published ≤ t.pushed.length) :
    t.pushed.take t.published <+: t'.pushed.take t'.published := by
  have hbegin : t.pushed.take t.published <+: t'.pushed := (List.take_prefix _ _).trans h.pushed
  refine List.prefix_take_iff.mpr ⟨hbegin, ?_⟩
  rw [List.length_take, min_eq_left hle]
  exact h.published hle

end Histories

/-! ## After a refusal -/

section Refusals

variable {w : World} {key : Nat} {t : Nat → Told} {e : Event} {device : Device}

theorem flush_refused {s₀ : Building} {complete : Bool}
    (h : s₀.builder.failed = true ∨ Builder.cancelled s₀ = true) :
    ∃ error, Builder.flush device complete s₀ = .error error s₀ := by
  cases hfailed : s₀.builder.failed with
  | true => exact ⟨_, flush_of_failed hfailed⟩
  | false =>
    rw [hfailed] at h
    have hcancelled : Builder.cancelled s₀ = true := h.resolve_left (by simp)
    refine ⟨.os ecanceled, ?_⟩
    simp [Builder.flush, bind, EStateM.bind, get, getThe, MonadStateOf.get, EStateM.get, hfailed,
      hcancelled, throw, throwThe, MonadExceptOf.throw, EStateM.throw]

/-- The answer of a builder that can only refuse. -/
theorem World.build_refused {l : Listing} {b : Builder} (hslot : w.slot key = some ⟨l, some b⟩)
    {call : Build Unit} {last : Bool} {error : Failure} {s : Building}
    (hcall : call ⟨w.usage, l, b⟩ = .error error s) :
    (w.build key call last).2 = .error error := by
  rw [World.build, hslot]
  simp only [hcall]

/-- Once a call was refused, nothing more is published. -/
theorem World.Inv.publish_refused (h : w.Inv t) (hallowed : w.Allowed e)
    (hrefused : (t key).refused = true) (hcall : e.call = .publish key ∨ e.call = .complete key) :
    ∃ error, e.answer = .error error := by
  obtain ⟨hcallable, hanswer⟩ := hallowed
  have hthere : ∃ slot, w.slot key = some slot ∧ slot.builder.isSome = true := by
    rcases hcall with hcall | hcall
    all_goals
      rw [hcall] at hcallable
      exact hcallable
  obtain ⟨⟨l, builder⟩, hslot, hbuilder⟩ := hthere
  obtain ⟨b, rfl⟩ := Option.isSome_iff_exists.mp hbuilder
  have hflush : ∀ complete, ∃ error, Builder.flush e.device complete ⟨w.usage, l, b⟩ =
      .error error ⟨w.usage, l, b⟩ := by
    intro complete
    apply flush_refused
    simpa [Builder.cancelled] using (h.faithful key _ hslot).refused b rfl hrefused
  rw [← hanswer]
  rcases hcall with hcall | hcall
  · obtain ⟨error, herror⟩ := hflush false
    rw [hcall]
    exact ⟨error, World.build_refused hslot (bind_of_error herror)⟩
  · obtain ⟨error, herror⟩ := hflush true
    rw [hcall]
    exact ⟨error, World.build_refused hslot (bind_of_error herror)⟩

/-- What is told of a refused listing by a call that was not a successful publication. -/
theorem Told.after_refused {t : Told}
    (h : e.call = .publish key ∨ e.call = .complete key → ∃ error, e.answer = .error error) :
    (t.after key e).published = t.published ∧ (t.after key e).complete = t.complete := by
  unfold Told.after
  split
  case isFalse => exact ⟨rfl, rfl⟩
  case isTrue hkey =>
    rcases e with ⟨call, device, answer⟩
    cases call with
    | publish k =>
      obtain ⟨error, rfl⟩ := h (.inl (congrArg Call.publish (Option.some.inj hkey)))
      exact ⟨rfl, rfl⟩
    | complete k =>
      obtain ⟨error, rfl⟩ := h (.inr (congrArg Call.complete (Option.some.inj hkey)))
      exact ⟨rfl, rfl⟩
    | push k entry => cases answer <;> exact ⟨rfl, rfl⟩
    | start | fail k error | dropBuilder k | openReader k | closeReader k => exact ⟨rfl, rfl⟩

/-- After a refusal every later publication is refused, and the frontier stays. -/
theorem refused_forever {events more : List Event} (h : World.Reaches (events ++ more) w)
    (hrefused : (told key events).refused = true) :
    (told key (events ++ more)).published = (told key events).published ∧
      (told key (events ++ more)).complete = (told key events).complete ∧
      ∀ e ∈ more, e.call = .publish key ∨ e.call = .complete key →
        ∃ error, e.answer = .error error := by
  induction more using List.reverseRecOn generalizing w with
  | nil => simp
  | append_singleton more e ih =>
    rw [← List.append_assoc] at h ⊢
    generalize hall : events ++ more ++ [e] = all at h
    cases h with
    | start => simp at hall
    | @next before w₀ e' hbefore hallowed =>
      obtain ⟨rfl, hlast⟩ := List.append_inj' hall rfl
      obtain rfl := List.singleton_inj.mp hlast
      obtain ⟨hpublished, hcomplete, hothers⟩ := ih hbefore
      have hrefusal := (World.Reaches.inv hbefore).publish_refused hallowed
        ((told_grows key events more).refused hrefused)
      have hafter := @Told.after_refused key e (told key (events ++ more)) hrefusal
      rw [told_concat, hafter.1, hafter.2]
      refine ⟨hpublished, hcomplete, ?_⟩
      intro x hx
      rcases List.mem_append.mp hx with hx | hx
      · exact hothers x hx
      · obtain rfl := List.mem_singleton.mp hx
        exact hrefusal

end Refusals

/-! ## Reading -/

/-- A page of a listing: the entries from the offset on, at least one, within the limits. -/
structure IsPage (xs : List Entry) (offset : Nat) (page : List Entry) : Prop where
  run : page <+: xs.drop offset
  progress : page ≠ []
  entries : page.length ≤ pageEntries
  bytes : (recorded page).length ≤ pageBytes

/-- What a reader past the frontier of an unfinished listing is told. -/
def Slot.waits (slot : Slot) : Failure :=
  match slot.listing.progress.error with
  | some error => .os error
  | none => if slot.builder.isNone then .os eio else .wouldBlock

/-- A reader steps through a listing, by the length of every page, while the calls go on. -/
inductive Walk (key start : Nat) : List Event → World → List Entry → Prop where
  | begin {events : List Event} {w : World} : World.Reaches events w → Walk key start events w []
  | wait {events : List Event} {w : World} {met : List Entry} {e : Event} :
    Walk key start events w met → w.Allowed e → Walk key start (events ++ [e]) (w.step e) met
  | page {events : List Event} {w : World} {met page : List Entry} {slot : Slot} :
    Walk key start events w met → w.slot key = some slot →
    slot.page (start + met.length) = .ok page → Walk key start events w (met ++ page)

section Reading

variable {slot slot' : Slot} {t t' : Told} {offset : Nat}

theorem Slot.Faithful.page_below (h : slot.Faithful t) (h' : slot'.Faithful t') (hgrows : t.Grows t')
    (hoffset : offset < t.published) (closed : Bool) :
    ∃ page, Listing.page slot.listing.progress closed slot'.listing.backing offset = .ok page ∧
      IsPage (t.pushed.take t.published) offset page := by
  have hlength : (t.pushed.take t.published).length = t.published := by
    rw [List.length_take, min_eq_left h.published_le]
  have hpublishes := h.publishes
  -- The bytes may be newer than the frontier: they still begin with what it covers.
  have hbegins : slot'.listing.backing.Begins (t.pushed.take t.published) := by
    have hstays := hgrows.stays h.published_le
    rw [List.prefix_iff_eq_take.mp hstays]
    exact h'.publishes.backing.take _
  obtain ⟨n, hpage, hpos, hentries, hle, hbytes⟩ := @page_published _ _ _ _ closed hbegins
    hpublishes.valid hpublishes.room hpublishes.entries hpublishes.dataBytes (hlength ▸ hoffset)
  refine ⟨_, hpage, List.take_prefix _ _, ?_, ?_, hbytes⟩
  · rw [← List.length_pos_iff, List.length_take, List.length_drop]
    omega
  · exact (List.length_take_le _ _).trans hentries

theorem Slot.Faithful.page_past (h : slot.Faithful t) (hoffset : t.published ≤ offset) :
    slot.page offset = if t.complete then .ok [] else .error slot.waits := by
  have hentries : slot.listing.progress.entries = t.published := by
    rw [h.publishes.entries, List.length_take, min_eq_left h.published_le]
  rw [Slot.page, Listing.page, if_pos (hentries ▸ hoffset), h.complete]
  cases hcomplete : t.complete with
  | true =>
    rw [h.noError hcomplete]
    rfl
  | false =>
    unfold Slot.waits
    cases slot.listing.progress.error with
    | some error => rfl
    | none => cases slot.builder.isNone <;> rfl

/-- Who was told that an entry is ready, or that there is none, is answered a page. -/
theorem Slot.Faithful.page_ready (h : slot.Faithful t) (h' : slot'.Faithful t') (hgrows : t.Grows t')
    (hready : Listing.ready slot.listing.progress slot.builder.isNone offset = some (.ok ())) :
    ∃ page, slot'.page offset = .ok page := by
  have hentries : slot.listing.progress.entries = t.published := by
    rw [h.publishes.entries, List.length_take, min_eq_left h.published_le]
  by_cases hbelow : offset < t'.published
  · obtain ⟨page, hpage, _⟩ := h'.page_below h' (.refl t') hbelow slot'.builder.isNone
    exact ⟨page, hpage⟩
  · have hpast : ¬ offset < slot.listing.progress.entries := by
      have := hgrows.published h.published_le
      omega
    have hcomplete : t.complete = true := by
      rw [Listing.ready, if_neg hpast, h.complete] at hready
      cases herror : slot.listing.progress.error with
      | some error => simp [herror] at hready
      | none =>
        cases hcomplete : t.complete with
        | true => rfl
        | false => cases hgone : slot.builder.isNone <;> simp [herror, hcomplete, hgone] at hready
    refine ⟨[], ?_⟩
    rw [h'.page_past (Nat.le_of_not_lt hbelow), hgrows.complete hcomplete]
    rfl

/-- A page is a run of what was pushed, wherever the frontier is. -/
theorem Slot.Faithful.page_run (h : slot.Faithful t) {page : List Entry}
    (hpage : slot.page offset = .ok page) :
    page <+: t.pushed.drop offset ∧ (page = [] → t.pushed.drop offset = []) ∧
      (page ≠ [] → offset + page.length ≤ t.published) := by
  by_cases hoffset : offset < t.published
  · obtain ⟨page', hpage', hrun, hprogress, _, _⟩ :=
      h.page_below h (.refl t) hoffset slot.builder.isNone
    obtain rfl := Except.ok.inj (hpage.symm.trans hpage')
    have hdrop : (t.pushed.take t.published).drop offset =
        (t.pushed.drop offset).take (t.published - offset) := List.drop_take
    rw [hdrop] at hrun
    refine ⟨hrun.trans (List.take_prefix _ _), fun hnil => absurd hnil hprogress, ?_⟩
    intro _
    have hlength := hrun.length_le
    rw [List.length_take] at hlength
    omega
  · rw [h.page_past (Nat.le_of_not_lt hoffset)] at hpage
    cases hcomplete : t.complete with
    | false =>
      rw [hcomplete] at hpage
      cases hpage
    | true =>
      rw [hcomplete] at hpage
      obtain rfl := Except.ok.inj hpage
      have hall := h.all hcomplete
      refine ⟨List.nil_prefix, fun _ => ?_, fun hne => absurd rfl hne⟩
      rw [List.drop_eq_nil_iff]
      omega

end Reading

/-- What a walk has met is what was pushed from its start on. -/
theorem Walk.met_run {key start : Nat} {events : List Event} {w : World} {met : List Entry}
    (h : Walk key start events w met) :
    World.Reaches events w ∧ met <+: (told key events).pushed.drop start ∧
      (met ≠ [] → start + met.length ≤ (told key events).published) := by
  induction h with
  | begin hreaches => exact ⟨hreaches, List.nil_prefix, fun hne => absurd rfl hne⟩
  | @wait events w met e _ hallowed ih =>
    obtain ⟨hreaches, hrun, hbound⟩ := ih
    have hgrows := told_grows key events [e]
    refine ⟨hreaches.next hallowed, hrun.trans (hgrows.pushed.drop start), ?_⟩
    intro hne
    exact (hbound hne).trans (hgrows.published (told_published_le key events))
  | @page events w met page slot _ hslot hpage ih =>
    obtain ⟨hreaches, hrun, hbound⟩ := ih
    have hfaithful := (World.Reaches.inv hreaches).faithful key slot hslot
    obtain ⟨hpagerun, _, hpagebound⟩ := hfaithful.page_run hpage
    rw [List.length_append, ← Nat.add_assoc]
    refine ⟨hreaches, ?_, ?_⟩
    · -- The page goes on where the walk has come to.
      obtain ⟨rest, hrest⟩ := hrun
      rw [← List.drop_drop, ← hrest, List.drop_left] at hpagerun
      rw [← hrest]
      exact (List.prefix_append_right_inj met).mpr hpagerun
    · intro hne
      by_cases hpage : page = []
      · subst hpage
        rw [List.append_nil] at hne
        simpa using hbound hne
      · exact hpagebound hpage

/-! ## The budget -/

/-- Listings that are there at the same places, and take the same, take the same together. -/
theorem sum_congr_slots (f : Option Slot → Nat) (hnone : f none = 0) {slots slots' : List (Option Slot)}
    (h : ∀ k : Nat, f (slots[k]?.join) = f (slots'[k]?.join)) :
    (slots.map f).sum = (slots'.map f).sum := by
  induction slots generalizing slots' with
  | nil =>
    induction slots' with
    | nil => rfl
    | cons o rest ih =>
      have hhead := h 0
      have htail := ih fun k => h (k + 1)
      simp only [List.getElem?_nil, Option.join_none, hnone, List.getElem?_cons_zero,
        Option.join_some] at hhead
      simpa [← hhead] using htail
  | cons o rest ih =>
    cases slots' with
    | nil =>
      have hhead := h 0
      have htail := @ih [] fun k => by simpa using h (k + 1)
      simp only [List.getElem?_nil, Option.join_none, hnone, List.getElem?_cons_zero,
        Option.join_some] at hhead
      simpa [hhead] using htail
    | cons o' rest' =>
      have hhead := h 0
      have htail := @ih rest' fun k => by simpa using h (k + 1)
      simp only [List.getElem?_cons_zero, Option.join_some] at hhead
      simp [hhead, htail]

theorem World.Inv.usage_eq {w w' : World} {t t' : Nat → Told} (h : w.Inv t) (h' : w'.Inv t')
    (hsame : ∀ k, (w'.slot k).map (·.listing.reserved) = (w.slot k).map (·.listing.reserved)) :
    w'.usage = w.usage := by
  have hreserved : ∀ o : Option Slot, reservedBy o = (o.map (·.listing.reserved)).getD 0 := by
    intro o
    cases o <;> rfl
  have hcounted : ∀ o : Option Slot, counted o = ((o.map (·.listing.reserved)).map fun _ => 1).getD 0 := by
    intro o
    cases o <;> rfl
  have hbytes : w'.usage.bytes = w.usage.bytes := by
    rw [h.bytes, h'.bytes]
    apply sum_congr_slots _ rfl
    intro k
    have := hsame k
    simp only [World.slot] at this
    rw [hreserved, hreserved, this]
  have hsnapshots : w'.usage.snapshots = w.usage.snapshots := by
    rw [h.snapshots, h'.snapshots]
    apply sum_congr_slots _ rfl
    intro k
    have := hsame k
    simp only [World.slot] at this
    rw [hcounted, hcounted, this]
  cases hw : w.usage
  cases hw' : w'.usage
  rw [hw, hw'] at hbytes hsnapshots
  simp_all

/-! ## Calls that succeed -/

theorem World.build_answer {w : World} {key : Nat} {l : Listing} {b : Builder} {call : Build Unit}
    {last : Bool} (hslot : w.slot key = some ⟨l, some b⟩) :
    (w.build key call last).2 = match call ⟨w.usage, l, b⟩ with
      | .ok _ _ => .ok ()
      | .error error _ => .error error := by
  rw [World.build, hslot]
  cases hcall : call ⟨w.usage, l, b⟩ <;> simp only [hcall]

/-- A builder that was never refused takes every valid entry there is room for. -/
theorem World.Inv.push_accepted {w : World} {t : Nat → Told} (h : w.Inv t) {key : Nat} {slot : Slot}
    (hslot : w.slot key = some slot) (hbuilder : slot.builder.isSome = true)
    (hrefused : (t key).refused = false) {e : Entry} {device : Device} (hvalid : e.Valid)
    (hroom : w.usage.bytes + e.cost ≤ maxBytes) (hworks : device.Works) :
    (w.perform device (.push key e)).2 = .ok () := by
  obtain ⟨l, builder⟩ := slot
  obtain ⟨b, rfl⟩ := Option.isSome_iff_exists.mp hbuilder
  have hfaithful := h.faithful key _ hslot
  have hrunning := hfaithful.running b rfl (hfaithful.unfailed rfl hrefused) w.usage
    (reserved_le h hslot) h.budget
  have hspec := outcome_of_spec (@Builder.push_spec _ device _ _ e hrunning)
  rw [World.perform, World.build_answer hslot]
  cases hcall : Builder.push device e ⟨w.usage, l, b⟩ with
  | ok a s => rfl
  | error error s =>
    rw [hcall] at hspec
    exact absurd ⟨hvalid, hroom, hworks⟩ hspec.2

/-- A builder that was never refused publishes what it was given, while someone may read it. -/
theorem World.Inv.publish_accepted {w : World} {t : Nat → Told} (h : w.Inv t) {key : Nat} {l : Listing}
    {b : Builder} (hslot : w.slot key = some ⟨l, some b⟩) (hrefused : (t key).refused = false)
    {device : Device} (hworks : device.Works) (hread : b.snapshot = true ∨ 0 < l.readers) :
    (w.perform device (.publish key)).2 = .ok () ∧
      (w.perform device (.complete key)).2 = .ok () := by
  have hfaithful := h.faithful key _ hslot
  have hrunning := hfaithful.running b rfl (hfaithful.unfailed rfl hrefused) w.usage
    (reserved_le h hslot) h.budget
  have hopen : Builder.cancelled ⟨w.usage, l, b⟩ = false := by
    rcases hread with hsnapshot | hreaders
    · simp [Builder.cancelled, hsnapshot]
    · simp [Builder.cancelled, hreaders.ne']
  have hpublish := outcome_of_spec (@Builder.publish_spec _ device _ _ hrunning)
  have hcomplete := outcome_of_spec (@Builder.complete_spec _ device _ _ hrunning)
  have hneither : ∀ {s : Building} {stopped spends : Prop},
      ¬ ((stopped ∧ spends ∧ ¬ device.Works) ∨
        (s = ⟨w.usage, l, b⟩ ∧ Builder.cancelled ⟨w.usage, l, b⟩ = true)) := by
    rintro s stopped spends (⟨_, _, hbroken⟩ | ⟨_, hcancelled⟩)
    · exact hbroken hworks
    · rw [hopen] at hcancelled
      cases hcancelled
  constructor
  · rw [World.perform, World.build_answer hslot]
    cases hcall : Builder.publish device ⟨w.usage, l, b⟩ with
    | ok a s => rfl
    | error error s =>
      rw [hcall] at hpublish
      exact absurd hpublish hneither
  · rw [World.perform, World.build_answer hslot]
    cases hcall : Builder.complete device ⟨w.usage, l, b⟩ with
    | ok a s => rfl
    | error error s =>
      rw [hcall] at hcomplete
      exact absurd hcomplete hneither

/-! ## Snapshots read back -/

/-- What readers and callers of a listing may rely on, after `events` and whatever follows. -/
structure ReadsBack (key : Nat) (events : List Event) (w : World) (more : List Event)
    (w' : World) : Prop where
  /-- Below the frontier a page is a run of what was pushed, though the bytes be read later. -/
  below : ∀ slot slot' : Slot, w.slot key = some slot → w'.slot key = some slot' →
    ∀ closed, ∀ offset < (told key events).published,
      ∃ page, Listing.page slot.listing.progress closed slot'.listing.backing offset = .ok page ∧
        IsPage ((told key events).pushed.take (told key events).published) offset page
  /-- Past it a page is empty once the listing is complete, and until then an error. -/
  past : ∀ slot : Slot, w.slot key = some slot → ∀ offset, (told key events).published ≤ offset →
    slot.page offset = if (told key events).complete then .ok [] else .error slot.waits
  /-- Who waited until an entry was ready is answered. -/
  ready : ∀ slot slot' : Slot, w.slot key = some slot → w'.slot key = some slot' →
    ∀ offset, Listing.ready slot.listing.progress slot.builder.isNone offset = some (.ok ()) →
      ∃ page, slot'.page offset = .ok page
  /-- A builder's error is there only when a call of it failed. -/
  error : ∀ slot : Slot, w.slot key = some slot → slot.listing.progress.error ≠ none →
    (told key events).refused = true
  /-- What was published stays, in its place. -/
  stays : (told key events).pushed.take (told key events).published <+:
    (told key (events ++ more)).pushed.take (told key (events ++ more)).published
  /-- After a failure nothing more is published. -/
  refused : (told key events).refused = true →
    (told key (events ++ more)).published = (told key events).published ∧
      (told key (events ++ more)).complete = (told key events).complete ∧
      ∀ e ∈ more, e.call = .publish key ∨ e.call = .complete key →
        ∃ error, e.answer = .error error
  /-- Stepping by the length of every page meets every entry once, in order. -/
  walked : ∀ start met, Walk key start events w met →
    met <+: (told key events).pushed.drop start ∧
      (met ≠ [] → start + met.length ≤ (told key events).published) ∧
      ∀ slot : Slot, w.slot key = some slot → slot.page (start + met.length) = .ok [] →
        met = (told key events).pushed.drop start
  /-- A valid entry there is room for is taken. -/
  taken : ∀ slot : Slot, w.slot key = some slot → slot.builder.isSome = true →
    (told key events).refused = false → ∀ (e : Entry) (device : Device), e.Valid →
      w.usage.bytes + e.cost ≤ maxBytes → device.Works →
      (w.perform device (.push key e)).2 = .ok ()
  /-- What was taken is published. -/
  published : ∀ (l : Listing) (b : Builder), w.slot key = some ⟨l, some b⟩ →
    (told key events).refused = false → (b.snapshot = true ∨ 0 < l.readers) →
    ∀ device : Device, device.Works →
      (w.perform device (.publish key)).2 = .ok () ∧
        (w.perform device (.complete key)).2 = .ok ()
  /-- A listing is there as long as somebody holds it. -/
  held : ∀ slot : Slot, w.slot key = some slot → slot.builder.isSome = true ∨
    0 < slot.listing.readers
  /-- When the listings are again those there were, so is the usage. -/
  usage : (∀ k, (w'.slot k).map (·.listing.reserved) = (w.slot k).map (·.listing.reserved)) →
    w'.usage = w.usage

/-- In every run of a mount, with its listings in memory or in files, every listing reads back
    as it was pushed. -/
theorem snapshot_reads_back {events more : List Event} {w w' : World}
    (h : World.Reaches events w) (h' : World.Reaches (events ++ more) w') (key : Nat) :
    ReadsBack key events w more w' := by
  have hinv := World.Reaches.inv h
  have hinv' := World.Reaches.inv h'
  have hgrows := told_grows key events more
  refine ⟨?_, ?_, ?_, ?_, ?_, ?_, ?_, ?_, ?_, ?_, hinv.usage_eq hinv'⟩
  · intro slot slot' hslot hslot' closed offset hoffset
    exact (hinv.faithful key slot hslot).page_below (hinv'.faithful key slot' hslot') hgrows
      hoffset closed
  · intro slot hslot offset hoffset
    exact (hinv.faithful key slot hslot).page_past hoffset
  · intro slot slot' hslot hslot' offset
    exact (hinv.faithful key slot hslot).page_ready (hinv'.faithful key slot' hslot') hgrows
  · intro slot hslot
    exact (hinv.faithful key slot hslot).error
  · exact hgrows.stays (told_published_le key events)
  · exact refused_forever h'
  · intro start met hwalk
    obtain ⟨_, hrun, hbound⟩ := hwalk.met_run
    refine ⟨hrun, hbound, ?_⟩
    intro slot hslot hpage
    -- An empty page says that nothing is left.
    have hnothing := ((hinv.faithful key slot hslot).page_run hpage).2.1 rfl
    obtain ⟨rest, hrest⟩ := hrun
    rw [← List.drop_drop, ← hrest, List.drop_left] at hnothing
    rw [← hrest, hnothing, List.append_nil]
  · intro slot hslot hbuilder hrefused e device hvalid hroom hworks
    exact hinv.push_accepted hslot hbuilder hrefused hvalid hroom hworks
  · intro l b hslot hrefused hread device hworks
    exact hinv.publish_accepted hslot hrefused hworks hread
  · intro slot hslot
    have hheld := hinv.held key slot hslot
    cases hbuilder : slot.builder with
    | some b => exact .inl rfl
    | none =>
      refine .inr ?_
      simpa [Slot.released, hbuilder, Nat.pos_iff_ne_zero] using hheld

/-! ## A listing that spills -/

section Spilled

/-- A batch that outgrows the memory goes to files. -/
theorem Builder.storeBatch_wide {record : Bytes} (h : record.length = pageBytes) (n : Nat) :
    Builder.storeBatch {} ⟨⟨n, 1⟩, { reserved := n },
      { pendingData := record, pendingIndex := littleEndian 8 0, entries := 1
        dataBytes := pageBytes }⟩ =
    .ok () ⟨⟨n, 1⟩,
      { backing := .files record (littleEndian 8 0), reserved := n },
      { storedData := pageBytes, storedEntries := 1, writers := true, entries := 1
        dataBytes := pageBytes }⟩ := by
  have hne : record ≠ [] := by
    rintro rfl
    cases h
  have hspill : spillBytes < pageBytes + 8 := by decide
  simp [Builder.storeBatch, Builder.store, Builder.place, Builder.writeFiles, Builder.writeAll, h,
    hne, hspill, bind, EStateM.bind, get, getThe, MonadStateOf.get, EStateM.get, set, EStateM.set,
    modify, modifyGet, MonadStateOf.modifyGet, EStateM.modifyGet, Backing.residentBytes,
    Backing.spill, Backing.write, writeAt, Builder.advanced, indexBytes]

/-- The listing after an entry that fills a page by itself. -/
def spilledWorld (e : Entry) : World where
  usage := ⟨pageBytes + indexBytes, 1⟩
  slots := [some
    { listing :=
        { backing := .files e.record (littleEndian 8 0), reserved := pageBytes + indexBytes }
      builder := some
        { storedData := pageBytes, storedEntries := 1, writers := true, entries := 1
          dataBytes := pageBytes } }]

variable {e : Entry}

theorem Builder.push_wide (hvalid : e.Valid)
    (hwide : e.name.utf8ByteSize = pageBytes - headerBytes) :
    Builder.push {} e ⟨⟨0, 1⟩, {}, {}⟩ =
    .ok () ⟨⟨pageBytes + indexBytes, 1⟩,
      { backing := .files e.record (littleEndian 8 0), reserved := pageBytes + indexBytes },
      { storedData := pageBytes, storedEntries := 1, writers := true, entries := 1
        dataBytes := pageBytes }⟩ := by
  have hbytes : headerBytes + e.name.utf8ByteSize = pageBytes := by
    rw [hwide]
    rfl
  have hcost : e.cost = pageBytes + indexBytes := by
    rw [Entry.cost, hbytes]
  have hlength : e.record.length = pageBytes := by
    rw [Entry.length_record, hbytes]
  have hnamed : ¬ (e.inode = 0 ∨ Unnamed e.name) := by
    rintro (h | h)
    · exact hvalid.inode h
    · exact hvalid.named h
  have hroom : pageBytes + indexBytes ≤ maxBytes := by decide
  simp [Builder.push, Builder.orFail, Builder.append, Builder.grow, hcost, hnamed, hroom,
    hvalid.fits.not_gt, bind, EStateM.bind, get, getThe, MonadStateOf.get, EStateM.get, set,
    EStateM.set, modify, modifyGet, MonadStateOf.modifyGet, EStateM.modifyGet, tryCatch,
    tryCatchThe, MonadExceptOf.tryCatch, EStateM.tryCatch, Builder.accepted, hbytes,
    Builder.storeBatch_wide hlength]

theorem spilled_reached (hvalid : e.Valid)
    (hwide : e.name.utf8ByteSize = pageBytes - headerBytes) :
    World.Reaches [{ call := .start }, { call := .push 0 e }] (spilledWorld e) := by
  let started : World := { usage := ⟨0, 1⟩, slots := [some {}] }
  have hpush : started.perform {} (.push 0 e) = (spilledWorld e, .ok ()) := by
    unfold World.perform World.build
    dsimp only [World.slot, started, List.getElem?_cons_zero, Option.join_some]
    rw [Builder.push_wide hvalid hwide]
    rfl
  have hnothing : World.Reaches [] {} := .start
  have hstart : World.Reaches [{ call := .start }] started := hnothing.next ⟨trivial, rfl⟩
  have hpushed : World.Reaches [{ call := .start }, { call := .push 0 e }]
      (started.step { call := .push 0 e }) :=
    hstart.next ⟨⟨_, rfl, rfl⟩, congrArg Prod.snd hpush⟩
  rw [World.step, hpush] at hpushed
  exact hpushed

/-- A listing of which the first entry is published, and one that refused an entry. -/
def openedListing (e : Entry) : List Event :=
  [{ call := .start }, { call := .push 0 e }, { call := .publish 0 }, { call := .start },
    { call := .push 1 ⟨0, true, "."⟩, answer := .error .invalid }]

/-- The rest of them. -/
def restOfListing : List Event :=
  [{ call := .push 0 ⟨2, false, "file"⟩ }, { call := .complete 0 },
    { call := .publish 1, answer := .error .invalid }]

theorem utf8ByteSize_replicate (n : Nat) :
    (String.ofList (List.replicate n 'a')).utf8ByteSize = n := by
  induction n with
  | zero => rfl
  | succ n ih =>
    have hone : (String.ofList ['a']).utf8ByteSize = 1 := by decide
    rw [List.replicate_succ, ← List.singleton_append, String.ofList_append,
      String.utf8ByteSize_append, ih, hone, Nat.add_comm]

/-- An entry whose record fills a page. -/
def wideEntry : Entry := ⟨1, false, String.ofList (List.replicate (pageBytes - headerBytes) 'a')⟩

theorem wideEntry_size : wideEntry.name.utf8ByteSize = pageBytes - headerBytes :=
  utf8ByteSize_replicate _

theorem wideEntry_valid : wideEntry.Valid where
  inode := by decide
  named := by
    rintro (hempty | hslash | hnul)
    · have hsize := congrArg String.utf8ByteSize hempty
      rw [wideEntry_size] at hsize
      cases hsize
    · rw [wideEntry, String.toList_ofList] at hslash
      exact absurd (List.eq_of_mem_replicate hslash) (by decide)
    · rw [wideEntry, String.toList_ofList] at hnul
      exact absurd (List.eq_of_mem_replicate hnul) (by decide)
  fits := wideEntry_size.le

/-- The entry is in files when it is published, and the end of the listing is read when that is
    complete. -/
theorem opened_reached (hvalid : e.Valid)
    (hwide : e.name.utf8ByteSize = pageBytes - headerBytes) : ∃ w w' : World,
    World.Reaches (openedListing e) w ∧ World.Reaches (openedListing e ++ restOfListing) w' ∧
      (∃ slot ∈ w.slot 0, ∃ data index, slot.listing.backing = .files data index) ∧
      ∃ slot ∈ w'.slot 0, slot.page 2 = .ok [] := by
  have hpublishes : Run.Follows World.step World.Allowed (spilledWorld e)
      ((openedListing e).drop 2) := by
    refine ⟨⟨⟨_, rfl, rfl⟩, ?_⟩, ⟨trivial, ?_⟩, ⟨⟨_, rfl, rfl⟩, ?_⟩, trivial⟩ <;> rfl
  have hopened : World.Reaches (openedListing e) _ :=
    (spilled_reached hvalid hwide).extend hpublishes
  have hcompletes : Run.Follows World.step World.Allowed
      (((openedListing e).drop 2).foldl World.step (spilledWorld e)) restOfListing := by
    refine ⟨⟨⟨_, rfl, rfl⟩, ?_⟩, ⟨⟨_, rfl, rfl⟩, ?_⟩, ⟨⟨_, rfl, rfl⟩, ?_⟩, trivial⟩ <;> rfl
  exact ⟨_, _, hopened, hopened.extend hcompletes, ⟨_, rfl, _, _, rfl⟩, _, rfl, rfl⟩

/-- A whole listing, read while it grows. -/
theorem snapshot_reads_back_opened : ∃ w w' : World,
    World.Reaches (openedListing wideEntry) w ∧
      World.Reaches (openedListing wideEntry ++ restOfListing) w' ∧
      (∃ slot ∈ w.slot 0, ∃ data index, slot.listing.backing = .files data index) ∧
      (∃ slot ∈ w'.slot 0, slot.page 2 = .ok []) ∧
      (told 0 (openedListing wideEntry)).published = 1 ∧
      (told 1 (openedListing wideEntry)).refused = true ∧
      ReadsBack 0 (openedListing wideEntry) w restOfListing w' := by
  obtain ⟨w, w', hopened, hrest, hfiles, hend⟩ := opened_reached wideEntry_valid wideEntry_size
  exact ⟨w, w', hopened, hrest, hfiles, hend, rfl, rfl, snapshot_reads_back hopened hrest 0⟩

end Spilled

end Cirrove.Directory
