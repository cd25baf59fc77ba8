import Cirrove.Package.Wire

/-!
# Names in the ZIP library

The ZIP library shows a stored name in two ways: `name_raw` is what is stored, `name` is
decoded, as UTF-8 where general-purpose bit 11 is set and as code page 437 otherwise. The two
are the same exactly for names that are ASCII or carry the flag.
-/

namespace Cirrove.Package

open Cirrove.Library

/-! ## How the ZIP library reads names -/

/-- Code page 437 above ASCII. -/
def cp437High : List Char :=
  ("ÇüéâäàåçêëèïîìÄÅÉæÆôöòûùÿÖÜ¢£¥₧ƒáíóúñÑªº¿⌐¬½¼¡«»░▒▓│┤╡╢╖╕╣║╗╝╜╛┐" ++
   "└┴┬├─┼╞╟╚╔╩╦╠═╬╧╨╤╥╙╘╒╓╫╪┘┌█▄▌▐▀αßΓπΣσµτΦΘΩδ∞φε∩≡±≥≤⌠⌡÷≈°∙·√ⁿ²■\u00a0").toList

/-- One byte of code page 437, in UTF-8. -/
def cp437Byte (b : UInt8) : Bytes :=
  if b < 0x80 then [b] else String.utf8EncodeChar (cp437High.getD (b.toNat - 128) '?')

def cp437 (raw : Bytes) : Bytes := raw.flatMap cp437Byte

/-- General-purpose bit 11. -/
def utf8Flag (flags : Nat) : Bool := flags &&& 0x0800 ≠ 0

/-- What `name` makes of a stored name. -/
def decodedName (flags : Nat) (raw : Bytes) : Bytes := if utf8Flag flags then raw else cp437 raw

def isAscii (raw : Bytes) : Bool := raw.all (· < 0x80)

set_option maxRecDepth 4096 in
/-- The upper half of the code page has 128 characters, all of two bytes and more. -/
theorem cp437High_table : cp437High.length = 128 ∧
    (cp437High.all fun c =>
      decide (utf8Chars (String.utf8EncodeChar c) = some [c] ∧
        2 ≤ (String.utf8EncodeChar c).length ∧
        endsInSlash (String.utf8EncodeChar c) = false)) = true := by
  unfold cp437High
  -- The literals are read as lists of characters, without decoding them.
  rw [String.toList_append, String.toList_ofList, String.toList_ofList]
  decide +kernel

theorem cp437High_bytes (c : Char) (hc : c ∈ cp437High) :
    utf8Chars (String.utf8EncodeChar c) = some [c] ∧ 2 ≤ (String.utf8EncodeChar c).length ∧
      endsInSlash (String.utf8EncodeChar c) = false :=
  of_decide_eq_true (List.all_eq_true.mp cp437High_table.2 c hc)

theorem cp437High_get (b : UInt8) :
    cp437High.getD (b.toNat - 128) '?' ∈ cp437High := by
  have hlt : b.toNat - 128 < cp437High.length := by
    have hlength := cp437High_table.1
    have := b.toNat_lt
    omega
  rw [List.getD_eq_getElem _ _ hlt]
  exact List.getElem_mem hlt

theorem length_cp437Byte (b : UInt8) :
    1 ≤ (cp437Byte b).length ∧ ((cp437Byte b).length = 1 ↔ b < 0x80) := by
  unfold cp437Byte
  split
  · next hb => simp [hb]
  · next hb =>
    have := (cp437High_bytes _ (cp437High_get b)).2.1
    exact ⟨by omega, iff_of_false (by omega) hb⟩

/-- Decoding never shortens a name, and keeps the length of ASCII names only. -/
theorem length_cp437 (raw : Bytes) :
    raw.length ≤ (cp437 raw).length ∧ ((cp437 raw).length = raw.length → isAscii raw = true) := by
  induction raw with
  | nil => exact ⟨le_rfl, fun _ => rfl⟩
  | cons b rest ih =>
    have hb := length_cp437Byte b
    have hcons : (cp437 (b :: rest)).length = (cp437Byte b).length + (cp437 rest).length := by
      simp [cp437]
    rw [hcons, List.length_cons]
    refine ⟨by omega, fun heq => ?_⟩
    have hascii : b < 0x80 := hb.2.mp (by omega)
    have hrest : isAscii rest = true := ih.2 (by omega)
    simpa [isAscii, hascii] using hrest

theorem cp437_of_isAscii {raw : Bytes} (h : isAscii raw = true) : cp437 raw = raw := by
  induction raw with
  | nil => rfl
  | cons b rest ih =>
    simp only [isAscii, List.all_cons, Bool.and_eq_true, decide_eq_true_eq] at h
    have hrest : cp437 rest = rest := ih (by simpa [isAscii] using h.2)
    show cp437Byte b ++ cp437 rest = b :: rest
    simp [hrest, cp437Byte, h.1]

theorem endsInSlash_append {a b : Bytes} (hb : b ≠ []) : endsInSlash (a ++ b) = endsInSlash b := by
  obtain ⟨last, hlast⟩ := Option.ne_none_iff_exists'.mp (mt List.getLast?_eq_none_iff.mp hb)
  simp [endsInSlash, List.getLast?_append, hlast]

/-- Decoding keeps directories directories. -/
theorem endsInSlash_cp437 (raw : Bytes) : endsInSlash (cp437 raw) = endsInSlash raw := by
  cases List.eq_nil_or_concat raw with
  | inl hnil => rw [hnil]; rfl
  | inr hlast =>
    obtain ⟨front, b, rfl⟩ := hlast
    have hcp : cp437 (front ++ [b]) = cp437 front ++ cp437Byte b := by simp [cp437]
    have hne : cp437Byte b ≠ [] := by
      have := (length_cp437Byte b).1
      exact List.ne_nil_of_length_pos (by omega)
    rw [List.concat_eq_append, hcp, endsInSlash_append hne, endsInSlash_append (by simp)]
    by_cases hb : b < 0x80
    · simp [cp437Byte, hb]
    · have hne' : b ≠ slash := by
        rintro rfl
        exact hb (by decide)
      have hlast : endsInSlash [b] = false := by simp [endsInSlash, hne']
      rw [hlast, cp437Byte, if_neg hb]
      exact (cp437High_bytes _ (cp437High_get b)).2.2

/-- A decoded name is text. -/
theorem utf8Chars_cp437 (raw : Bytes) : (utf8Chars (cp437 raw)).isSome := by
  induction raw with
  | nil => rfl
  | cons b rest ih =>
    obtain ⟨ds, hds⟩ := Option.isSome_iff_exists.mp ih
    obtain ⟨cs, hcs⟩ : ∃ cs, utf8Chars (cp437Byte b) = some cs := by
      unfold cp437Byte
      split
      · next hb =>
        rw [utf8Chars.eq_def]
        simp [hb, utf8Chars]
      · exact ⟨_, (cp437High_bytes _ (cp437High_get b)).1⟩
    show (utf8Chars (cp437Byte b ++ cp437 rest)).isSome
    rw [utf8Chars_append hcs hds]
    rfl

theorem endsInSlash_decodedName (flags : Nat) (raw : Bytes) :
    endsInSlash (decodedName flags raw) = endsInSlash raw := by
  unfold decodedName
  split
  · rfl
  · exact endsInSlash_cp437 raw

theorem utf8Chars_decodedName {flags : Nat} {raw : Bytes} (h : (utf8Chars raw).isSome) :
    (utf8Chars (decodedName flags raw)).isSome := by
  unfold decodedName
  split
  · exact h
  · exact utf8Chars_cp437 raw

/-- The two readings of a name agree exactly when it is ASCII or flagged. -/
theorem decodedName_eq_iff {flags : Nat} {raw : Bytes} :
    (decodedName flags raw).length = raw.length ↔ isAscii raw = true ∨ utf8Flag flags = true := by
  unfold decodedName
  split
  · next hflag => simp [hflag]
  · next hflag =>
    simp only [hflag, Bool.false_eq_true, or_false]
    exact ⟨(length_cp437 raw).2, fun h => by rw [cp437_of_isAscii h]⟩

theorem length_le_decodedName (flags : Nat) (raw : Bytes) :
    raw.length ≤ (decodedName flags raw).length := by
  unfold decodedName
  split
  · exact le_rfl
  · exact (length_cp437 raw).1

theorem decodedName_eq {flags : Nat} {raw : Bytes}
    (h : isAscii raw = true ∨ utf8Flag flags = true) : decodedName flags raw = raw := by
  unfold decodedName
  split
  · rfl
  · next hflag => exact cp437_of_isAscii (h.resolve_right hflag)

/-- The flags of the central records, from an offset on. -/
def flagsFrom (bytes : Bytes) : Nat → Nat → List Nat
  | 0, _ => []
  | count + 1, i =>
    match u16At bytes (i + 8), u16At bytes (i + 28), u16At bytes (i + 30), u16At bytes (i + 32) with
    | .ok flags, .ok nameLen, .ok extra, .ok comment =>
      flags :: flagsFrom bytes count (i + (46 + nameLen + extra + comment))
    | _, _, _, _ => []

/-- The general-purpose flags an archive stores, in the order of its central directory. -/
def centralFlags (bytes : Bytes) : Except ProviderError (List Nat) := do
  let stop ← orInvalid (findEnd bytes)
  let count ← u16At bytes (stop + 10)
  let start ← u32At bytes (stop + 16)
  pure (flagsFrom bytes count start)

/-! ## What the ZIP library promises -/

/-- An entry the encoder hands to the ZIP library: a name is text, and it ends in a slash
    exactly when it is a directory's. -/
structure WireEntry.Shape (w : WireEntry) : Prop where
  text : (utf8Chars w.name).isSome
  directory : w.directory = endsInSlash w.name
  empty : w.directory = true → w.content = []

/-- How large the stored archive of some entries is. -/
def storedSize (entries : List WireEntry) : Nat :=
  (entries.map fun w => 76 + 2 * w.name.length + w.content.length).sum + 22

/-- A record that stores an entry. -/
def Stores (r : StoredRecord) (w : WireEntry) : Prop :=
  r.name = w.name ∧ r.content = w.content ∧ r.Fits

/-- An entry that is read back. -/
structure Opens (e : ZipEntry) (w : WireEntry) : Prop where
  nameRaw : e.nameRaw = w.name
  isDir : e.isDir = w.directory
  encrypted : e.encrypted = false
  symlink : e.isSymlink = false
  compression : e.compression = .stored
  size : e.size = w.content.length
  content : e.reads.flatten = w.content
  broken : e.broken = false

/-- The `zip` crate: it reads an accepted archive as it is stored and decodes names as its
    flags say. Of the entries that are `written`, it writes short distinct names into the
    classic format, and it reads back what it has written. -/
structure ZipCrate (zip : Zip) (writer : ZipWriter) (written : Set (List WireEntry)) : Prop where
  lawful : zip.Lawful
  names : ∀ bytes limit mirror es, layout bytes limit mirror = .ok (List.length es) →
    zip bytes = some (es.map some) → ∃ flags, centralFlags bytes = .ok flags ∧
      List.Forall₂ (fun e f => e.name = decodedName f e.nameRaw) es flags
  writes : ∀ entries ∈ written, (∀ w ∈ entries, w.Shape ∧ w.name.length ≤ maxName) →
    (entries.map WireEntry.name).Nodup → entries.length < 2 ^ 16 → storedSize entries < 2 ^ 32 →
    ∃ rs, writer entries = some (storedArchive rs) ∧ List.Forall₂ Stores rs entries
  reads : ∀ entries ∈ written, ∀ bytes, (∀ w ∈ entries, w.Shape) →
    writer entries = some bytes → ∃ es, zip bytes = some (es.map some) ∧
      List.Forall₂ Opens es entries

end Cirrove.Package
