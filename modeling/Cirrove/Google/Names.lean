import Cirrove.Google.Files
import Cirrove.Library.Utf8
import Mathlib.Data.List.Infix

/-!
# Names in the mount

`projected_name` puts the id of an item between its stem and its extension, cuts the stem so that
the name fits 255 bytes, and keeps the extension whole. Drive lets siblings share a name; the id
keeps them apart, but it stands before an extension its owner chose. A name that is cut may end
up as another item's stem, id and beginning of the extension, and its own id as the extension's
end (`names_differ_iff`). No names clash otherwise, and none that is shown uncut.
-/

namespace Cirrove.Google

open Cirrove.Library

/-! ## Bytes of a text -/

theorem utf8Length_takeBytes_le (bytes : Nat) (text : List Char) :
    utf8Length (takeBytes bytes text) ≤ bytes := by
  induction text generalizing bytes with
  | nil => simp [takeBytes]
  | cons c text ih =>
    simp only [takeBytes]
    split
    · have htail := ih (bytes - c.utf8Size)
      simp only [utf8Length_cons]
      omega
    · simp

theorem takeBytes_begins (bytes : Nat) (text : List Char) : takeBytes bytes text <+: text := by
  induction text generalizing bytes with
  | nil => simp [takeBytes]
  | cons c text ih =>
    simp only [takeBytes]
    split
    · exact List.cons_prefix_cons.mpr ⟨rfl, ih _⟩
    · exact List.nil_prefix

theorem takeBytes_of_le {bytes : Nat} {text : List Char} (h : utf8Length text ≤ bytes) :
    takeBytes bytes text = text := by
  induction text generalizing bytes with
  | nil => rfl
  | cons c text ih =>
    simp only [utf8Length_cons] at h
    rw [takeBytes, if_pos (by omega), ih (by omega)]

/-- The length of a text is no further limit on its beginning. -/
theorem takeBytes_min (bytes : Nat) (text : List Char) :
    takeBytes (min (utf8Length text) bytes) text = takeBytes bytes text := by
  rcases Nat.le_total (utf8Length text) bytes with h | h
  · rw [Nat.min_eq_left h, takeBytes_of_le h, takeBytes_of_le le_rfl]
  · rw [Nat.min_eq_right h]

/-! ## The slice the code takes -/

/-- `str::is_char_boundary` -/
def isCharBoundary : List Char → Nat → Bool
  | [], at_ => at_ = 0
  | c :: text, at_ => at_ = 0 || (c.utf8Size ≤ at_ && isCharBoundary text (at_ - c.utf8Size))

/-- `&text[..at]`, which panics away from a boundary. -/
def sliceTo : List Char → Nat → Option (List Char)
  | [], at_ => if at_ = 0 then some [] else none
  | c :: text, at_ =>
    if at_ = 0 then some []
    else if c.utf8Size ≤ at_ then (sliceTo text (at_ - c.utf8Size)).map (c :: ·)
    else none

/-- `while !text.is_char_boundary(end) { end -= 1; }`, with the underflow at zero. -/
def backToBoundary (text : List Char) : Nat → Option Nat
  | 0 => if isCharBoundary text 0 then some 0 else none
  | n + 1 => if isCharBoundary text (n + 1) then some (n + 1) else backToBoundary text n

/-- `usize` subtraction, with the underflow. -/
def checkedSub (a b : Nat) : Option Nat :=
  if b ≤ a then some (a - b) else none

/-- The last lines of `projected_name` and `projected_name_with_extension`, where every step
that can panic does so. -/
def joinChecked (stem : List Char) (id ext : String) : Option String := do
  let suffix := " [" ++ id ++ "]" ++ ext
  let room ← checkedSub 255 suffix.utf8ByteSize
  let last ← backToBoundary stem (min (String.ofList stem).utf8ByteSize room)
  let shown ← sliceTo stem last
  pure (String.ofList shown ++ suffix)

theorem isCharBoundary_iff (text : List Char) (n : Nat) :
    isCharBoundary text n = true ↔ utf8Length (takeBytes n text) = n := by
  induction text generalizing n with
  | nil => simp [isCharBoundary, takeBytes, eq_comm]
  | cons c text ih =>
    have hpos := Char.utf8Size_pos c
    simp only [isCharBoundary, Bool.or_eq_true, decide_eq_true_eq, Bool.and_eq_true, ih, takeBytes]
    split
    · simp only [utf8Length_cons]
      omega
    · simp only [utf8Length_nil]
      omega

/-- A beginning that fits less room is the longest one there too. -/
theorem takeBytes_eq_of_le {m n : Nat} {text : List Char} (hmn : m ≤ n)
    (h : utf8Length (takeBytes n text) ≤ m) : takeBytes m text = takeBytes n text := by
  induction text generalizing m n with
  | nil => rfl
  | cons c text ih =>
    simp only [takeBytes] at h ⊢
    by_cases hn : c.utf8Size ≤ n
    · rw [if_pos hn, utf8Length_cons] at h
      rw [if_pos hn, if_pos (by omega), ih (n := n - c.utf8Size) (by omega) (by omega)]
    · rw [if_neg hn, if_neg (by omega)]

/-- The loop stops at the end of the longest beginning that fits, at zero at the latest. -/
theorem backToBoundary_eq (text : List Char) (bytes : Nat) :
    backToBoundary text bytes = some (utf8Length (takeBytes bytes text)) := by
  induction bytes with
  | zero =>
    have hzero : utf8Length (takeBytes 0 text) = 0 := by
      have := utf8Length_takeBytes_le 0 text
      omega
    rw [backToBoundary, if_pos ((isCharBoundary_iff text 0).mpr hzero), hzero]
  | succ n ih =>
    rw [backToBoundary]
    by_cases hboundary : isCharBoundary text (n + 1) = true
    · rw [if_pos hboundary, (isCharBoundary_iff text (n + 1)).mp hboundary]
    · -- the last byte is inside a character, which therefore does not fit
      rw [if_neg hboundary, ih]
      have hne := mt (isCharBoundary_iff text (n + 1)).mpr hboundary
      have hle := utf8Length_takeBytes_le (n + 1) text
      rw [takeBytes_eq_of_le (m := n) (n := n + 1) (by omega) (by omega)]

theorem sliceTo_takeBytes (bytes : Nat) (text : List Char) :
    sliceTo text (utf8Length (takeBytes bytes text)) = some (takeBytes bytes text) := by
  induction text generalizing bytes with
  | nil => rfl
  | cons c text ih =>
    have hpos := Char.utf8Size_pos c
    simp only [takeBytes]
    split
    · have hne : c.utf8Size + utf8Length (takeBytes (bytes - c.utf8Size) text) ≠ 0 := by omega
      simp [sliceTo, ih]
      omega
    · simp [sliceTo]

/-- A suffix that leaves room makes no step panic. -/
theorem joinChecked_eq (stem : List Char) (id ext : String)
    (h : (" [" ++ id ++ "]" ++ ext).utf8ByteSize ≤ 255) :
    joinChecked stem id ext = some (joinName stem id ext) := by
  simp only [joinChecked, checkedSub, if_pos h, Option.bind_eq_bind, Option.bind_some,
    utf8ByteSize_ofList, backToBoundary_eq, sliceTo_takeBytes, joinName]
  rfl

/-! ## What is shown of an item -/

/-- How an item's name is made: by `projected_name`, as a link or not, or by
`projected_name_with_extension`. -/
inductive Shown where
  | name (link : Bool)
  | package (kind : NativeKind)
  deriving DecidableEq, Repr

/-- An item as far as its name goes. -/
structure Named where
  name : String
  id : String
  shown : Shown
  deriving DecidableEq, Repr

namespace Named

/-- The stem of the escaped name and the extension that is kept whole. -/
def split (item : Named) : List Char × String :=
  match item.shown with
  | .name true => (escapeName item.name, ".url")
  | .name false => splitExtension (escapeName item.name)
  | .package kind => (escapeName item.name, kind.packageExtension)

def stem (item : Named) : List Char := item.split.1

def ext (item : Named) : String := item.split.2

/-- The name in the mount. -/
def projected (item : Named) : String :=
  match item.shown with
  | .name link => projectedName item.name item.id link
  | .package kind => projectedNameWithExtension item.name item.id kind.packageExtension

/-- The name in the mount, or none where the code panics. -/
def checked (item : Named) : Option String := joinChecked item.stem item.id item.ext

theorem projected_eq (item : Named) : item.projected = joinName item.stem item.id item.ext := by
  unfold projected stem ext split
  cases item.shown with
  | name link => cases link <;> rfl
  | package kind => rfl

/-- An id with its brackets. -/
def bracket (id : String) : List Char := ' ' :: '[' :: id.toList ++ [']']

/-- What is left of 255 bytes for the stem. -/
def room (item : Named) : Nat := 255 - (utf8Length item.id.toList + 3 + utf8Length item.ext.toList)

/-- The stem as far as it is shown. -/
def cut (item : Named) : List Char := takeBytes item.room item.stem

theorem toList_suffix (id ext : String) :
    (" [" ++ id ++ "]" ++ ext).toList = bracket id ++ ext.toList := by
  simp [bracket, String.toList_append]

theorem utf8ByteSize_suffix (id ext : String) : (" [" ++ id ++ "]" ++ ext).utf8ByteSize =
    utf8Length id.toList + 3 + utf8Length ext.toList := by
  have hsizes : Char.utf8Size ' ' = 1 ∧ Char.utf8Size '[' = 1 ∧ Char.utf8Size ']' = 1 := by decide
  rw [utf8ByteSize_eq, toList_suffix]
  simp [bracket, hsizes]
  omega

theorem toList_projected (item : Named) :
    item.projected.toList = item.cut ++ bracket item.id ++ item.ext.toList := by
  rw [projected_eq, joinName, String.toList_append, toList_suffix, utf8ByteSize_suffix,
    utf8ByteSize_ofList, takeBytes_min, String.toList_ofList, List.append_assoc]
  rfl

/-! ## Ids and extensions -/

/-- An id that `valid_id` accepts has at most 128 bytes and none of the characters that names
are put together with. -/
theorem validId_ok {id : String} (h : validId id = .ok ()) :
    utf8Length id.toList ≤ 128 ∧
      ∀ c ∈ id.toList, c ≠ ' ' ∧ c ≠ '[' ∧ c ≠ ']' ∧ c ≠ '.' ∧ c ≠ '/' ∧ c ≠ '\x00' := by
  unfold validId at h
  split at h
  · cases h
  · rename_i hgood
    simp only [not_or, Nat.not_lt, Bool.not_eq_true', Bool.not_eq_false, List.all_eq_true,
      Bool.or_eq_true, decide_eq_true_eq] at hgood
    obtain ⟨-, hsize, hchars⟩ := hgood
    refine ⟨utf8ByteSize_eq id ▸ hsize, ?_⟩
    intro c hc
    have hclass := hchars c hc
    refine ⟨?_, ?_, ?_, ?_, ?_, ?_⟩ <;> rintro rfl <;> revert hclass <;> decide

/-- `rsplit_once` splits at the last dot. -/
theorem rsplitDot_eq_some {text stem extension : List Char} :
    rsplitDot text = some (stem, extension) ↔
      text = stem ++ '.' :: extension ∧ '.' ∉ extension := by
  have hlast : ∀ u v : List Char, '.' ∉ v → rsplitDot (u ++ '.' :: v) = some (u, v) := by
    intro u v hv
    have htail : ((u ++ '.' :: v).reverse.takeWhile (· ≠ '.')).reverse = v := by
      have hall : ∀ c ∈ v.reverse, (decide (c ≠ '.')) = true := by
        intro c hc
        have hmem : c ∈ v := by simpa using hc
        simpa using fun heq : c = '.' => hv (heq ▸ hmem)
      rw [List.reverse_append, List.reverse_cons, List.append_assoc,
        List.takeWhile_append_of_pos hall]
      simp
    have hcount : (u ++ '.' :: v).length - v.length - 1 = u.length := by
      simp only [List.length_append, List.length_cons]
      omega
    simp only [rsplitDot, htail, hcount]
    simp
  constructor
  · intro h
    have hmem : '.' ∈ text := by
      by_contra hnone
      simp [rsplitDot, hnone] at h
    obtain ⟨front, back, hrev, hfront⟩ := List.eq_append_cons_of_mem (List.mem_reverse.mpr hmem)
    have htext : text = back.reverse ++ '.' :: front.reverse := by
      have := congrArg List.reverse hrev
      simpa using this
    have hfront' : '.' ∉ front.reverse := by simpa using hfront
    rw [htext, hlast _ _ hfront'] at h
    simp only [Option.some.injEq, Prod.mk.injEq] at h
    obtain ⟨rfl, rfl⟩ := h
    exact ⟨htext, hfront'⟩
  · rintro ⟨rfl, hv⟩
    exact hlast stem extension hv

/-- An extension is empty, or a dot and a text without one. -/
theorem ext_cases (item : Named) : item.ext.toList = [] ∨
    ∃ tail, item.ext.toList = '.' :: tail ∧ '.' ∉ tail ∧ utf8Length tail ≤ 20 := by
  unfold ext split
  cases item.shown with
  | name link =>
    cases link with
    | true =>
      dsimp only
      exact .inr ⟨['u', 'r', 'l'], by decide, by decide, by decide⟩
    | false =>
      simp only [splitExtension]
      split
      · rename_i stem extension hsplit
        split
        · rename_i hkept
          refine .inr ⟨extension, ?_, (rsplitDot_eq_some.mp hsplit).2, ?_⟩
          · simp [String.toList_append]
          · rw [← utf8ByteSize_ofList]
            exact hkept.2
        · exact .inl rfl
      · exact .inl rfl
  | package kind =>
    cases kind with
    | document =>
      dsimp only
      exact .inr ⟨['g', 'd', 'o', 'c'], by decide, by decide, by decide⟩
    | spreadsheet =>
      dsimp only
      exact .inr ⟨['g', 's', 'h', 'e', 'e', 't'], by decide, by decide, by decide⟩

theorem utf8Length_ext_le (item : Named) : utf8Length item.ext.toList ≤ 21 := by
  have hdot : Char.utf8Size '.' = 1 := by decide
  rcases item.ext_cases with h | ⟨tail, h, -, hsize⟩
  · simp [h]
  · rw [h, utf8Length_cons, hdot]
    omega

theorem not_mem_escapeName (name : String) :
    '/' ∉ escapeName name ∧ '\x00' ∉ escapeName name := by
  have hchar : ∀ c : Char, '/' ∉ (if c = '%' then "%25".toList else if c = '/' then "%2F".toList
      else if c = '\x00' then "%00".toList else [c]) ∧
      '\x00' ∉ (if c = '%' then "%25".toList else if c = '/' then "%2F".toList
        else if c = '\x00' then "%00".toList else [c]) := by
    intro c
    split
    · decide
    · split
      · decide
      · rename_i hslash
        split
        · decide
        · rename_i hnull
          simp [Ne.symm hslash, Ne.symm hnull]
  unfold escapeName
  simp only [List.mem_flatMap, not_exists, not_and]
  exact ⟨fun c _ => (hchar c).1, fun c _ => (hchar c).2⟩

/-- The extensions of links and packages apart, both parts are cut from the escaped name. -/
theorem not_mem_split {item : Named} {c : Char} (hc : c = '/' ∨ c = '\x00') :
    c ∉ item.stem ∧ c ∉ item.ext.toList := by
  have hname : c ∉ escapeName item.name := by
    rcases hc with rfl | rfl
    · exact (not_mem_escapeName item.name).1
    · exact (not_mem_escapeName item.name).2
  unfold stem ext split
  cases item.shown with
  | name link =>
    cases link with
    | true =>
      refine ⟨hname, ?_⟩
      dsimp only
      rcases hc with rfl | rfl <;> decide
    | false =>
      simp only [splitExtension]
      split
      · rename_i stem extension hsplit
        split
        · rw [(rsplitDot_eq_some.mp hsplit).1] at hname
          simp only [List.mem_append, List.mem_cons, not_or] at hname
          obtain ⟨hstem, hdot, hextension⟩ := hname
          refine ⟨hstem, ?_⟩
          simp [String.toList_append, hdot, hextension]
        · exact ⟨hname, by simp⟩
      · exact ⟨hname, by simp⟩
  | package kind =>
    refine ⟨hname, ?_⟩
    dsimp only
    rcases hc with rfl | rfl <;> cases kind <;> decide

theorem not_mem_bracket {id : String} {c : Char} (h : c ∉ id.toList)
    (hc : c ≠ ' ' ∧ c ≠ '[' ∧ c ≠ ']') : c ∉ bracket id := by
  simp [bracket, h, hc.1, hc.2.1, hc.2.2]

/-- What is shown fits, and no step of making it panics. -/
theorem checked_eq {item : Named} (h : validId item.id = .ok ()) :
    item.checked = some item.projected ∧ item.projected.utf8ByteSize ≤ 255 ∧
      '/' ∉ item.projected.toList ∧ '\x00' ∉ item.projected.toList := by
  obtain ⟨hsize, hchars⟩ := validId_ok h
  have hext := item.utf8Length_ext_le
  refine ⟨?_, ?_, ?_⟩
  · rw [checked, projected_eq]
    apply joinChecked_eq
    rw [utf8ByteSize_suffix]
    omega
  · have hcut := utf8Length_takeBytes_le item.room item.stem
    have hbracket : utf8Length (bracket item.id) = utf8Length item.id.toList + 3 := by
      have hsizes : Char.utf8Size ' ' = 1 ∧ Char.utf8Size '[' = 1 ∧ Char.utf8Size ']' = 1 := by
        decide
      simp [bracket, hsizes]
      omega
    rw [utf8ByteSize_eq, toList_projected]
    simp only [utf8Length_append, hbracket, cut]
    have hroom : item.room = 255 - (utf8Length item.id.toList + 3 + utf8Length item.ext.toList) :=
      rfl
    omega
  · have habsent : ∀ c : Char, c = '/' ∨ c = '\x00' → c ∉ item.projected.toList := by
      intro c hc
      obtain ⟨hstem, hexttext⟩ := @not_mem_split item c hc
      have hcut : c ∉ item.cut := fun hmem =>
        hstem ((takeBytes_begins item.room item.stem).subset hmem)
      have hid : c ∉ item.id.toList := by
        intro hmem
        have := hchars c hmem
        rcases hc with rfl | rfl <;> simp at this
      have hbracket : c ∉ bracket item.id := by
        apply not_mem_bracket hid
        rcases hc with rfl | rfl <;> decide
      rw [toList_projected]
      simp [hcut, hbracket, hexttext]
    exact ⟨habsent _ (.inl rfl), habsent _ (.inr rfl)⟩

/-! ## When two names are the same -/

/-- A text splits at its last occurrence of a character in one way only. -/
theorem last_split_inj {c : Char} {u u' v v' : List Char} (h : u ++ c :: v = u' ++ c :: v')
    (hv : c ∉ v) (hv' : c ∉ v') : u = u' ∧ v = v' := by
  have hrev : v.reverse ++ c :: u.reverse = v'.reverse ++ c :: u'.reverse := by
    have := congrArg List.reverse h
    simpa using this
  rcases List.append_eq_append_iff.mp hrev with ⟨gap, hgap, hrest⟩ | ⟨gap, hgap, hrest⟩
  · cases gap with
    | nil => simp_all
    | cons d gap =>
      obtain ⟨rfl, -⟩ := List.cons_eq_cons.mp hrest
      exact absurd (List.mem_reverse.mp (hgap ▸ by simp)) hv'
  · cases gap with
    | nil => simp_all
    | cons d gap =>
      obtain ⟨rfl, -⟩ := List.cons_eq_cons.mp hrest
      exact absurd (List.mem_reverse.mp (hgap ▸ by simp)) hv

/-- Two texts that end in a bracketed id end in one and the same. -/
theorem bracket_inj {a b : String} (ha : validId a = .ok ()) (hb : validId b = .ok ())
    {u v : List Char} (h : u ++ bracket a = v ++ bracket b) : u = v ∧ a = b := by
  have hopen : ∀ {id : String}, validId id = .ok () → ' ' ∉ '[' :: (id.toList ++ [']']) := by
    intro id hid hmem
    have hchars := (validId_ok hid).2 ' '
    simp at hmem
    exact (hchars hmem).1 rfl
  obtain ⟨hfront, hback⟩ := last_split_inj h (hopen ha) (hopen hb)
  refine ⟨hfront, ?_⟩
  have hids : a.toList ++ [']'] = b.toList ++ [']'] := List.tail_eq_of_cons_eq hback
  exact String.toList_inj.mp (List.append_cancel_right hids)

/-- The one way two names clash: the first item keeps no extension, the second's extension ends
in the first's bracketed id, and the first's cut name reads as the second's cut stem, its
bracketed id, a dot and the beginning of that extension. -/
def Clash (a b : Named) : Prop :=
  a.ext.toList = [] ∧ ∃ beginning, b.ext.toList = '.' :: (beginning ++ bracket a.id) ∧
    a.cut = b.cut ++ bracket b.id ++ '.' :: beginning

theorem Clash.projected_eq {a b : Named} (h : Clash a b) : a.projected = b.projected := by
  obtain ⟨hext, beginning, hends, hcut⟩ := h
  apply String.toList_inj.mp
  rw [toList_projected, toList_projected, hext, hends, hcut]
  simp

/-- With an extension on one side only, equal names clash. -/
theorem clash_of_eq {a b : Named} (ha : validId a.id = .ok ()) (hext : a.ext.toList = [])
    {tail : List Char} (htail : b.ext.toList = '.' :: tail) (hdot : '.' ∉ tail)
    (h : a.projected = b.projected) : Clash a b := by
  have hids : '.' ∉ bracket a.id := by
    apply not_mem_bracket
    · intro hmem
      exact ((validId_ok ha).2 '.' hmem).2.2.2.1 rfl
    · decide
  have htext : a.cut ++ bracket a.id = (b.cut ++ bracket b.id) ++ '.' :: tail := by
    have := congrArg String.toList h
    rw [toList_projected, toList_projected, hext, htail] at this
    simpa using this
  -- the dot of the extension is the last one of the name, so it stands in the cut stem
  have hmem : '.' ∈ a.cut := by
    have hall : '.' ∈ a.cut ++ bracket a.id := by
      rw [htext]
      simp
    simpa [hids] using hall
  obtain ⟨front, back, hrev, hfront⟩ := List.eq_append_cons_of_mem (List.mem_reverse.mpr hmem)
  have hsplit : a.cut = back.reverse ++ '.' :: front.reverse := by
    have := congrArg List.reverse hrev
    simpa using this
  rw [hsplit, List.append_assoc, List.cons_append] at htext
  obtain ⟨hleft, hright⟩ := last_split_inj htext (by simp [hfront, hids]) hdot
  exact ⟨hext, front.reverse, by rw [htail, hright], by rw [hsplit, hleft]⟩

/-- Items of different ids have one name exactly when they clash. -/
theorem projected_eq_iff {a b : Named} (ha : validId a.id = .ok ()) (hb : validId b.id = .ok ())
    (hne : a.id ≠ b.id) : a.projected = b.projected ↔ Clash a b ∨ Clash b a := by
  constructor
  · intro h
    have htext := congrArg String.toList h
    rw [toList_projected, toList_projected] at htext
    rcases a.ext_cases with haext | ⟨atail, haext, hadot, -⟩
    · rcases b.ext_cases with hbext | ⟨btail, hbext, hbdot, -⟩
      · rw [haext, hbext, List.append_nil, List.append_nil] at htext
        exact absurd (bracket_inj ha hb htext).2 hne
      · exact .inl (clash_of_eq ha haext hbext hbdot h)
    · rcases b.ext_cases with hbext | ⟨btail, hbext, hbdot, -⟩
      · exact .inr (clash_of_eq hb hbext haext hadot h.symm)
      · -- the extensions agree, and so do the bracketed ids in front of them
        rw [haext, hbext] at htext
        obtain ⟨hfront, -⟩ := last_split_inj htext hadot hbdot
        exact absurd (bracket_inj ha hb hfront).2 hne
  · rintro (h | h)
    · exact h.projected_eq
    · exact h.projected_eq.symm

/-- A name that keeps no extension is its own stem; what follows its last dot is too long. -/
theorem stem_of_no_ext {item : Named} (h : item.ext.toList = []) :
    item.stem = escapeName item.name ∧ ∀ front back,
      rsplitDot (escapeName item.name) = some (front, back) → front = [] ∨ 20 < utf8Length back := by
  unfold stem ext split at *
  cases hshown : item.shown with
  | name link =>
    cases link with
    | true =>
      rw [hshown] at h
      exact absurd h (by dsimp only; decide)
    | false =>
      simp only [hshown, splitExtension] at h ⊢
      split at h
      · rename_i stem extension hsplit
        split at h
        · simp [String.toList_append] at h
        · rename_i hkept
          rw [utf8ByteSize_ofList] at hkept
          simp only [hsplit]
          rw [utf8ByteSize_ofList, if_neg hkept]
          refine ⟨rfl, ?_⟩
          intro front back heq
          simp only [Option.some.injEq, Prod.mk.injEq] at heq
          obtain ⟨rfl, rfl⟩ := heq
          by_contra hnone
          rw [not_or, Nat.not_lt] at hnone
          exact hkept hnone
      · rename_i hsplit
        simp [hsplit]
  | package kind =>
    rw [hshown] at h
    exact absurd h (by dsimp only; cases kind <;> decide)

/-- Only a name that is cut off clashes: had the first item's name been shown in full, its last
dot would have been kept with an extension. -/
theorem Clash.cut_off {a b : Named} (h : Clash a b) : a.room < utf8Length (escapeName a.name) := by
  obtain ⟨hext, beginning, hends, hcut⟩ := h
  obtain ⟨hstem, hlong⟩ := stem_of_no_ext hext
  by_contra hfits
  have hwhole : a.cut = escapeName a.name := by
    rw [cut, hstem]
    exact takeBytes_of_le (Nat.not_lt.mp hfits)
  rcases b.ext_cases with hnone | ⟨tail, htail, hdot, hsize⟩
  · rw [hnone] at hends
    cases hends
  · have htext : tail = beginning ++ bracket a.id := by
      rw [hends] at htail
      exact (List.tail_eq_of_cons_eq htail).symm
    have hnodot : '.' ∉ beginning := by
      intro hmem
      exact hdot (htext ▸ List.mem_append_left _ hmem)
    have hsplit := rsplitDot_eq_some.mpr ⟨hwhole ▸ hcut, hnodot⟩
    rcases hlong _ _ hsplit with hempty | hover
    · simp [bracket] at hempty
    · rw [htext, utf8Length_append] at hsize
      omega

/-- For any two items with different ids: what is shown of each fits 255 bytes, has neither a
slash nor a null character and is made without a panic, and the two differ, if and only if
neither clashes with the other. -/
theorem names_differ_iff (a b : Named) (ha : validId a.id = .ok ()) (hb : validId b.id = .ok ())
    (hne : a.id ≠ b.id) :
    (∃ shown other, a.checked = some shown ∧ b.checked = some other ∧
      (∀ name ∈ [shown, other], name.utf8ByteSize ≤ 255 ∧ '/' ∉ name.toList ∧
        '\x00' ∉ name.toList) ∧
      shown ≠ other) ↔ ¬ (Clash a b ∨ Clash b a) := by
  obtain ⟨hacheck, haname⟩ := checked_eq ha
  obtain ⟨hbcheck, hbname⟩ := checked_eq hb
  rw [← projected_eq_iff ha hb hne]
  constructor
  · rintro ⟨shown, other, hashown, hbother, -, hdiffer⟩
    rw [hacheck] at hashown
    rw [hbcheck] at hbother
    simp only [Option.some.injEq] at hashown hbother
    subst hashown hbother
    exact hdiffer
  · intro hdiffer
    refine ⟨a.projected, b.projected, hacheck, hbcheck, ?_, hdiffer⟩
    simp only [List.mem_cons, List.not_mem_nil, or_false, forall_eq_or_imp, forall_eq]
    exact ⟨haname, hbname⟩

/-! ## Two names that clash -/

theorem escapeName_plain {text : List Char} (h : ∀ c ∈ text, c ≠ '%' ∧ c ≠ '/' ∧ c ≠ '\x00') :
    escapeName (String.ofList text) = text := by
  have htext : (String.ofList text).toList = text := String.toList_ofList
  unfold escapeName
  rw [htext]
  clear htext
  induction text with
  | nil => rfl
  | cons c text ih =>
    obtain ⟨hpercent, hslash, hnull⟩ := h c List.mem_cons_self
    rw [List.flatMap_cons, ih fun d hd => h d (List.mem_cons_of_mem _ hd), if_neg hpercent,
      if_neg hslash, if_neg hnull]
    rfl

theorem takeBytes_append {bytes : Nat} {first : List Char} (h : utf8Length first ≤ bytes)
    (second : List Char) :
    takeBytes bytes (first ++ second) = first ++ takeBytes (bytes - utf8Length first) second := by
  induction first generalizing bytes with
  | nil => simp
  | cons c first ih =>
    rw [utf8Length_cons] at h
    rw [List.cons_append, takeBytes, if_pos (by omega), ih (by omega), utf8Length_cons,
      Nat.sub_sub, List.cons_append]

/-- The stem, and an extension that ends in a bracketed id. -/
def bracketed (stem : List Char) : Named where
  name := String.ofList (stem ++ ['.', 'q', ' ', '[', 'b', ']'])
  id := "a"
  shown := .name false

/-- The stem, the other item's id, and too much after the dot for an extension. -/
def cutOff (stem : List Char) : Named where
  name := String.ofList (stem ++ [' ', '[', 'a', ']', '.', 'q'] ++ List.replicate 20 'y')
  id := "b"
  shown := .name false

section

variable {stem : List Char} (hplain : ∀ c ∈ stem, c ≠ '%' ∧ c ≠ '/' ∧ c ≠ '\x00')
  (hlength : utf8Length stem = 245)

include hplain

theorem escapeName_append_plain {rest : List Char}
    (h : rest.all (fun c => c ≠ '%' ∧ c ≠ '/' ∧ c ≠ '\x00') = true) :
    escapeName (String.ofList (stem ++ rest)) = stem ++ rest := by
  apply escapeName_plain
  intro c hc
  rcases List.mem_append.mp hc with hstem | hrest
  · exact hplain c hstem
  · exact of_decide_eq_true (List.all_eq_true.mp h c hrest)

theorem split_cutOff : (cutOff stem).split =
    (stem ++ [' ', '[', 'a', ']', '.', 'q'] ++ List.replicate 20 'y', "") := by
  have hescape : escapeName (cutOff stem).name =
      stem ++ [' ', '[', 'a', ']', '.', 'q'] ++ List.replicate 20 'y' := by
    rw [cutOff, List.append_assoc]
    exact escapeName_append_plain hplain rfl
  have hsplit : rsplitDot (escapeName (cutOff stem).name) =
      some (stem ++ [' ', '[', 'a', ']'], 'q' :: List.replicate 20 'y') := by
    apply rsplitDot_eq_some.mpr
    refine ⟨?_, by decide⟩
    rw [hescape]
    simp
  -- twenty-one bytes after the dot are too many for an extension
  have hlong : ¬ (stem ++ [' ', '[', 'a', ']'] ≠ [] ∧
      (String.ofList ('q' :: List.replicate 20 'y')).utf8ByteSize ≤ 20) := by
    have hsize : ¬ utf8Length ('q' :: List.replicate 20 'y') ≤ 20 := by decide
    rw [utf8ByteSize_ofList]
    exact fun h => hsize h.2
  simp only [split, show (cutOff stem).shown = .name false from rfl, splitExtension, hsplit]
  rw [if_neg hlong, hescape]

include hlength

theorem split_bracketed :
    (bracketed stem).split = (stem, "." ++ String.ofList ['q', ' ', '[', 'b', ']']) := by
  have hescape : escapeName (bracketed stem).name = stem ++ ['.', 'q', ' ', '[', 'b', ']'] :=
    escapeName_append_plain hplain rfl
  have hsplit := rsplitDot_eq_some.mpr ⟨hescape, by decide⟩
  have hne : stem ≠ [] := by
    rintro rfl
    simp at hlength
  simp only [split, show (bracketed stem).shown = .name false from rfl, splitExtension, hsplit]
  rw [if_pos ⟨hne, by decide⟩]

theorem clash_cutOff_bracketed : Clash (cutOff stem) (bracketed stem) := by
  have hcut : (cutOff stem).cut = stem ++ [' ', '[', 'a', ']', '.', 'q'] := by
    show takeBytes (255 - (utf8Length "b".toList + 3 + utf8Length (cutOff stem).split.2.toList))
      (cutOff stem).split.1 = _
    have hroom : utf8Length "b".toList + 3 + utf8Length "".toList = 4 := by decide
    rw [split_cutOff hplain, hroom, List.append_assoc,
      takeBytes_append (by rw [hlength]; decide), hlength]
    rfl
  have hstem : (bracketed stem).cut = stem := by
    show takeBytes (255 - (utf8Length "a".toList + 3 +
      utf8Length (bracketed stem).split.2.toList)) (bracketed stem).split.1 = _
    rw [split_bracketed hplain hlength]
    apply takeBytes_of_le
    have hroom : 245 ≤ 255 - (utf8Length "a".toList + 3 +
        utf8Length ("." ++ String.ofList ['q', ' ', '[', 'b', ']']).toList) := by decide
    exact hlength ▸ hroom
  refine ⟨?_, ['q'], ?_, ?_⟩
  · show (cutOff stem).split.2.toList = []
    rw [split_cutOff hplain]
    rfl
  · show (bracketed stem).split.2.toList = _
    rw [split_bracketed hplain hlength]
    show ("." ++ String.ofList ['q', ' ', '[', 'b', ']']).toList = '.' :: (['q'] ++ bracket "b")
    decide
  · have hid : bracket "a" = [' ', '[', 'a', ']'] := by decide
    rw [hcut, hstem, show (bracketed stem).id = "a" from rfl, hid, List.append_assoc]
    rfl

end

/-- Two items of different ids are shown under one name. -/
theorem names_clash : validId "a" = .ok () ∧ validId "b" = .ok () ∧
    (bracketed (List.replicate 245 'x')).id = "a" ∧ (cutOff (List.replicate 245 'x')).id = "b" ∧
    (bracketed (List.replicate 245 'x')).projected =
      (cutOff (List.replicate 245 'x')).projected := by
  refine ⟨by decide, by decide, rfl, rfl, ?_⟩
  have hplain : ∀ c ∈ List.replicate 245 'x', c ≠ '%' ∧ c ≠ '/' ∧ c ≠ '\x00' := by
    intro c hc
    rw [List.eq_of_mem_replicate hc]
    decide
  have hlength : utf8Length (List.replicate 245 'x') = 245 := by
    rw [utf8Length_replicate]
    decide
  exact (clash_cutOff_bracketed hplain hlength).projected_eq.symm

/-- Duplicates of one name are kept apart. -/
theorem names_differ_duplicates :
    ∃ shown other, (Named.mk "x" "a" (.name false)).checked = some shown ∧
      (Named.mk "x" "b" (.name false)).checked = some other ∧ shown ≠ other := by
  have hiff := names_differ_iff (Named.mk "x" "a" (.name false)) (Named.mk "x" "b" (.name false))
    (by decide) (by decide) (by decide)
  have hnone : ¬ (Clash (Named.mk "x" "a" (.name false)) (Named.mk "x" "b" (.name false)) ∨
      Clash (Named.mk "x" "b" (.name false)) (Named.mk "x" "a" (.name false))) := by
    rintro (⟨-, beginning, hends, -⟩ | ⟨-, beginning, hends, -⟩)
    · exact absurd hends (by simp [ext, split, splitExtension, rsplitDot, escapeName])
    · exact absurd hends (by simp [ext, split, splitExtension, rsplitDot, escapeName])
  obtain ⟨shown, other, hshown, hother, -, hdiffer⟩ := hiff.mpr hnone
  exact ⟨shown, other, hshown, hother, hdiffer⟩

end Named

end Cirrove.Google
