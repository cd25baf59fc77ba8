import Cirrove.Graph.Sessions
import Cirrove.Library.Runs

/-!
# What a session reply leads to

A reply that `progress` accepts leaves a checkpoint that announces a part of the file
(`nextRange_isPart`, `progress_eq_ok`), and the loader's checks, written differently, agree with
that: a checkpoint is loaded until it expires unless it is too long as text (`loadSession_iff`).
-/

namespace Cirrove.Graph

open Cirrove.Library
open Cirrove.Upload
open Cirrove.Google (parseU64)
open Cirrove.Journal (UploadIntent)

/-! ## Checkpoints are read back -/

theorem target_append_inj {a b : Option (String × String)} {r r' : List Char}
    (h : encodeTarget a ++ r = encodeTarget b ++ r') : a = b ∧ r = r' := by
  have hnull : ∀ (rest rest' : List Char), "null".toList ++ rest ≠ '[' :: rest' := by
    intro rest rest' heq
    exact absurd (List.cons.inj heq).1 (by decide)
  cases a with
  | none =>
    cases b with
    | none => exact ⟨rfl, List.append_cancel_left h⟩
    | some b => exact absurd h (hnull _ _)
  | some a =>
    cases b with
    | none => exact absurd h.symm (hnull _ _)
    | some b =>
      simp only [encodeTarget, List.cons_append, List.append_assoc, List.cons.injEq, true_and] at h
      obtain ⟨hparent, h⟩ := Json.quoted_append_inj h
      obtain ⟨hname, h⟩ := Json.quoted_append_inj (List.cons.inj h).2
      refine ⟨?_, (List.cons.inj h).2⟩
      rw [Option.some.injEq, Prod.ext_iff]
      exact ⟨String.toList_injective hparent, String.toList_injective hname⟩

theorem Session.encoded_injective : Function.Injective Session.encoded := by
  intro a b h
  have h := String.ofList_injective h
  simp only [List.cons.injEq, true_and, List.append_cancel_left_eq] at h
  obtain ⟨hversion, h⟩ := Json.number_append_inj (by decide) (by decide) h
  simp only [List.cons.injEq, true_and, List.append_cancel_left_eq] at h
  obtain ⟨hrequest, h⟩ := UploadRequest.encoded_append_inj h
  simp only [List.cons.injEq, true_and, List.append_cancel_left_eq] at h
  obtain ⟨hurl, h⟩ := Json.quoted_append_inj h
  simp only [List.cons.injEq, true_and, List.append_cancel_left_eq] at h
  obtain ⟨hexpires, h⟩ := Json.number_append_inj (by decide) (by decide) h
  simp only [List.cons.injEq, true_and, List.append_cancel_left_eq] at h
  obtain ⟨hoffset, h⟩ := Json.number_append_inj (by decide) (by decide) h
  simp only [List.cons.injEq, true_and, List.append_cancel_left_eq] at h
  obtain ⟨hlength, h⟩ := Json.number_append_inj (by decide) (by decide) h
  simp only [List.cons.injEq, true_and, List.append_cancel_left_eq] at h
  obtain ⟨htarget, -⟩ := target_append_inj h
  cases a
  cases b
  simp only [Session.mk.injEq]
  exact ⟨hversion, hrequest, String.toList_injective hurl, hexpires, hoffset, hlength, htarget⟩

open Classical in
/-- A reader that knows nothing but the text sessions are written as. -/
noncomputable def SessionReader.canonical : SessionReader where
  fromStr text := if h : ∃ s : Session, s.encoded = text then some h.choose else none
  reads s := by
    have hsome : ∃ s' : Session, s'.encoded = s.encoded := ⟨s, rfl⟩
    rw [dif_pos hsome, Session.encoded_injective hsome.choose_spec]

/-! ## Ranges -/

theorem partSize_pos : 0 < partSize := by decide

theorem alignment_dvd_partSize : alignment ∣ partSize := ⟨16, rfl⟩

theorem isPart_longest {size offset : Nat} (haligned : alignment ∣ offset) (hoffset : offset < size) :
    IsPart alignment partSize size offset (partLength partSize size offset) :=
  isPart_partLength alignment_dvd_partSize partSize_pos haligned hoffset

theorem parseU64_toString {n : Nat} (hn : n < 2 ^ 64) : parseU64 (toString n) = some n := by
  have hlist : (toString n).toList = Json.number n := rfl
  have hdigits : ∀ c ∈ Json.number n, c.isDigit = true := Json.number_digits n
  have hnumber : Json.number n = Nat.toDigits 10 n := Json.number_eq_toDigits n
  have hnil : Json.number n ≠ [] := by
    rw [hnumber]
    exact Nat.toDigits_ne_nil
  have hvalue : (Json.number n).foldl (fun value c => 10 * value + (c.toNat - '0'.toNat)) 0 = n := by
    rw [hnumber]
    exact Nat.ofDigitChars_eq_foldl.symm.trans Nat.ofDigitChars_ten_toDigits
  -- a number has no sign to be skipped
  unfold parseU64
  split
  · next rest heq =>
    have hplus := hdigits '+' (by rw [← hlist, heq]; exact List.mem_cons_self)
    exact absurd hplus (by decide)
  · rw [hlist, if_neg (by simpa [hnil] using hdigits), hvalue, if_pos hn]

theorem splitDash_number (n : Nat) (rest : String) :
    splitDash (toString n ++ "-" ++ rest) = some (toString n, rest) := by
  have hfront : (toString n ++ "-" ++ rest).toList = Json.number n ++ '-' :: rest.toList := by
    simp [Json.number]
  have htake : (Json.number n ++ '-' :: rest.toList).takeWhile (fun c => decide (c ≠ '-')) =
      Json.number n := by
    rw [List.takeWhile_append_of_pos, List.takeWhile_cons_of_neg (by simp), List.append_nil]
    intro c hc
    have hdigit := Json.number_digits n c hc
    simp only [decide_eq_true_eq]
    rintro rfl
    exact absurd hdigit (by decide)
  unfold splitDash
  simp only [hfront, htake, List.drop_left, String.ofList_toList]
  rw [Json.number, String.ofList_toList]

/-- The last span of a file, as services write it. -/
theorem parseRange_rest {size kept : Nat} (hsize : size < 2 ^ 64) (hkept : kept < size)
    {range : String}
    (h : range = toString kept ++ "-" ∨ range = toString kept ++ "-" ++ toString (size - 1)) :
    parseRange size range = .ok (kept, size - 1) := by
  have hstart := parseU64_toString (n := kept) (by omega)
  have hend := parseU64_toString (n := size - 1) (by omega)
  have hlast : toString (size - 1) ≠ "" := by
    intro hempty
    have hnone : parseU64 "" = none := by decide
    rw [hempty, hnone] at hend
    cases hend
  rcases h with rfl | rfl
  · have hsplit := splitDash_number kept ""
    rw [String.append_empty] at hsplit
    simp only [parseRange, hsplit, hstart, if_true]
    rw [if_neg (by omega)]
  · simp only [parseRange, splitDash_number, hstart, hlast, hend, if_false]
    rw [if_neg (by omega)]

/-- The ranges of a service that keeps a beginning of the file. -/
def MissingFrom (size kept : Nat) (ranges : List String) : Prop :=
  if kept < size then
    ranges = [toString kept ++ "-"] ∨ ranges = [toString kept ++ "-" ++ toString (size - 1)]
  else ranges = [] ∨ ranges = [toString size ++ "-"]

theorem nextRange_missing {size kept : Nat} {ranges : List String} (hsize : size < 2 ^ 64)
    (hkept : kept < size) (haligned : alignment ∣ kept) (h : MissingFrom size kept ranges) :
    nextRange ranges size = .ok (kept, partLength partSize size kept) := by
  rw [MissingFrom, if_pos hkept] at h
  obtain ⟨range, rfl, hrange⟩ : ∃ range, ranges = [range] ∧
      parseRange size range = .ok (kept, size - 1) := by
    rcases h with rfl | rfl
    · exact ⟨_, rfl, parseRange_rest hsize hkept (.inl rfl)⟩
    · exact ⟨_, rfl, parseRange_rest hsize hkept (.inr rfl)⟩
  have hspan : size - 1 - kept + 1 = size - kept := by omega
  have hpart := isPart_longest haligned hkept
  have hwhole : (if kept + partLength partSize size kept < size then
      partLength partSize size kept - partLength partSize size kept % alignment
      else partLength partSize size kept) = partLength partSize size kept := by
    split
    · next hmore =>
      rcases hpart.whole with hend | hunit
      · omega
      · rw [Nat.mod_eq_zero_of_dvd hunit, Nat.sub_zero]
    · rfl
  have hmapM : [range].mapM (parseRange size) = .ok [(kept, size - 1)] := by
    simp [hrange, bind, Except.bind, pure, Except.pure]
  unfold nextRange
  rw [if_neg (by simp; omega)]
  simp only [hmapM, List.mergeSort_singleton, overlapping, hspan, Bool.false_eq_true, if_false]
  rw [← partLength, hwhole, if_neg]
  rintro (hzero | hoffset)
  · exact absurd hpart.pos (by omega)
  · exact hoffset (Nat.mod_eq_zero_of_dvd haligned)

theorem parseRange_eq_ok {size : Nat} {range : String} {span : Nat × Nat}
    (h : parseRange size range = .ok span) : span.1 ≤ span.2 ∧ span.2 < size := by
  unfold parseRange at h
  split at h
  · cases h
  · split at h
    · cases h
    · simp only at h
      split at h
      · cases h
      · split at h
        · cases h
        · cases h
          omega

/-- What is announced is a part. -/
theorem nextRange_isPart {ranges : List String} {size offset length : Nat}
    (h : nextRange ranges size = .ok (offset, length)) :
    IsPart alignment partSize size offset length := by
  unfold nextRange at h
  split at h
  · cases h
  · split at h
    · cases h
    · next spans hspans =>
      split at h
      · cases h
      · next first finish rest hsorted =>
        have hmem : (first, finish) ∈ spans.mergeSort spanLe := by
          rw [hsorted]
          exact List.mem_cons_self
        obtain ⟨range, -, hrange⟩ := mem_of_mapM_eq_ok hspans (List.mem_mergeSort.mp hmem)
        obtain ⟨hle, hlt⟩ := parseRange_eq_ok hrange
        split at h
        · cases h
        · simp only at h hle hlt
          have hlimit : min (finish - first + 1) partSize ≤ partSize := Nat.min_le_right ..
          have hspan : min (finish - first + 1) partSize ≤ finish - first + 1 := Nat.min_le_left ..
          generalize min (finish - first + 1) partSize = longest at h hlimit hspan
          -- cut to whole units only before the end
          have hcut : ∀ cut, cut = (if first + longest < size then longest - longest % alignment
              else longest) → cut ≤ longest ∧ (first + cut = size ∨ alignment ∣ cut) := by
            rintro cut rfl
            split
            · exact ⟨Nat.sub_le .., .inr (Nat.dvd_sub_mod longest)⟩
            · exact ⟨Nat.le_refl _, .inl (by omega)⟩
          generalize (if first + longest < size then longest - longest % alignment
            else longest) = cut at h hcut
          obtain ⟨hcut, hwhole⟩ := hcut cut rfl
          split at h
          · cases h
          · next hgood =>
            cases h
            rw [not_or, not_not] at hgood
            exact ⟨Nat.pos_of_ne_zero hgood.1, by omega, by omega,
              Nat.dvd_of_mod_eq_zero hgood.2, hwhole⟩

/-! ## One reply -/

/-- A step with the session its checkpoint is the text of. -/
inductive Emits (request : UploadRequest) : UploadStep → Session → Prop where
  | commit {s : Session} (target : s.commitTarget.isSome = true) (offset : s.offset = request.size)
      (length : s.length = 0) : Emits request (.commit s.encoded) s
  | continue {s : Session} (part : IsPart alignment partSize request.size s.offset s.length) :
      Emits request (.continue s.encoded s.offset s.length) s

section

variable {od : OneDrive} {request : UploadRequest}

theorem expiry_eq_ok {now t : Nat} {value : String} (h : od.expiry now value = .ok t) :
    now < t := by
  unfold OneDrive.expiry at h
  split at h
  · cases h
  · split at h
    · cases h
    · split at h
      · cases h
      · cases h
        omega

/-- What an accepted reply leaves behind. -/
theorem progress_eq_ok {now : Nat} {reply : SessionReply} {existing : Option Session}
    {initial final : Bool} {target : Option (String × String)} {step : UploadStep}
    (h : od.progress now request reply existing initial target final = .ok step) :
    ∃ s : Session, Emits request step s ∧ s.version = 1 ∧ s.request = request ∧
      now < s.expiresAt ∧ (∃ url, od.sessionUrl s.url = .ok url) := by
  unfold OneDrive.progress at h
  obtain ⟨url, hurl, h⟩ := bind_eq_ok h
  obtain ⟨parsed, hparsed, h⟩ := bind_eq_ok h
  obtain ⟨ranges, hranges, h⟩ := bind_eq_ok h
  obtain ⟨⟨offset, length⟩, hpart, h⟩ := bind_eq_ok h
  simp only at h
  split at h
  · cases h
  · obtain ⟨expiresAt, hexpires, h⟩ := bind_eq_ok h
    refine ⟨⟨1, request, url, expiresAt, offset, length, target⟩, ?_, rfl, rfl,
      expiry_eq_ok hexpires, parsed, hparsed⟩
    split at h
    · next hready =>
      cases h
      rw [replyPart, if_pos hready] at hpart
      cases hpart
      simp only [isReady, Bool.and_eq_true] at hready
      exact .commit hready.1.1 rfl rfl
    · next hready =>
      cases h
      rw [replyPart, if_neg hready] at hpart
      exact .continue (nextRange_isPart hpart)

/-- A checkpoint is accepted until it expires, unless it is too long. -/
theorem loadSession_iff {step : UploadStep} {s : Session} (h : Emits request step s)
    (hversion : s.version = 1) (hrequest : s.request = request)
    (hurl : ∃ url, od.sessionUrl s.url = .ok url) {now : Nat} (hnow : now < s.expiresAt) :
    od.loadSession now request s.encoded = .ok s ↔ s.encoded.utf8ByteSize ≤ maxResponse := by
  obtain ⟨url, hurl⟩ := hurl
  unfold OneDrive.loadSession
  by_cases hlong : maxResponse < s.encoded.utf8ByteSize
  · rw [if_pos hlong]
    exact iff_of_false (by simp) (by omega)
  · rw [if_neg hlong, od.reader.reads]
    refine iff_of_true ?_ (by omega)
    simp only [hversion, hrequest, hurl, ne_eq, not_true, or_self, if_false]
    rw [if_neg (by omega)]
    -- the loader's own checks
    cases h with
    | commit target offset length => simp [target, offset, length]
    | «continue» part =>
      rw [if_neg]
      rintro ⟨-, hbad⟩
      have hpos := part.pos
      have hbound := part.bound
      have hinside := part.inside
      have haligned := Nat.mod_eq_zero_of_dvd part.aligned
      rcases hbad with hbad | hbad | hbad | hbad | hbad | ⟨hmore, hbad⟩
      · omega
      · omega
      · omega
      · omega
      · exact hbad haligned
      · rcases part.whole with hend | hwhole
        · omega
        · exact hbad (Nat.mod_eq_zero_of_dvd hwhole)

end

end Cirrove.Graph
