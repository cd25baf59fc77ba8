import Mathlib

/-!
# Byte strings

Fixed-width numbers, hexadecimal text and UTF-8, as byte formats use them. What a reader of
a framed format needs is that the pieces can be told apart: a number of a fixed width
determines its value (`bigEndian_inj`), hexadecimal text determines its bytes
(`hexDecode_hexEncode`).
-/

namespace Cirrove.Library

abbrev Bytes := List UInt8

/-! ## Numbers -/

/-- The last `width` bytes of a number, most significant first. -/
def bigEndian : Nat → Nat → Bytes
  | 0, _ => []
  | width + 1, n => bigEndian width (n / 256) ++ [UInt8.ofNat n]

/-- The number whose bytes are given least significant first. -/
def fromLittleEndian : Bytes → Nat
  | [] => 0
  | b :: rest => b.toNat + 256 * fromLittleEndian rest

/-- The last `width` bytes of a number, least significant first. -/
def littleEndian : Nat → Nat → Bytes
  | 0, _ => []
  | width + 1, n => UInt8.ofNat n :: littleEndian width (n / 256)

@[simp]
theorem length_littleEndian (width n : Nat) : (littleEndian width n).length = width := by
  induction width generalizing n with
  | zero => rfl
  | succ width ih => simp [littleEndian, ih]

theorem fromLittleEndian_littleEndian {width n : Nat} (h : n < 256 ^ width) :
    fromLittleEndian (littleEndian width n) = n := by
  induction width generalizing n with
  | zero => simp only [Nat.pow_zero, Nat.lt_one_iff] at h; rw [h]; rfl
  | succ width ih =>
    rw [Nat.pow_succ] at h
    have hquot : fromLittleEndian (littleEndian width (n / 256)) = n / 256 := ih (by omega)
    simp only [littleEndian, fromLittleEndian, hquot, UInt8.toNat_ofNat', Nat.reducePow]
    omega

@[simp]
theorem length_bigEndian (width n : Nat) : (bigEndian width n).length = width := by
  induction width generalizing n with
  | zero => rfl
  | succ width ih => simp [bigEndian, ih]

/-- A number that fits its width is determined by its bytes. -/
theorem bigEndian_inj {width m n : Nat} (hm : m < 256 ^ width) (hn : n < 256 ^ width)
    (h : bigEndian width m = bigEndian width n) : m = n := by
  induction width generalizing m n with
  | zero => simp only [Nat.pow_zero, Nat.lt_one_iff] at hm hn; omega
  | succ width ih =>
    rw [Nat.pow_succ] at hm hn
    obtain ⟨hhigh, hlow⟩ := List.append_inj h (by simp)
    have hquot : m / 256 = n / 256 := ih (by omega) (by omega) hhigh
    have hrem : m % 256 = n % 256 := by
      have := congrArg UInt8.toNat (List.singleton_inj.mp hlow)
      simpa using this
    omega

/-! ## Hexadecimal text -/

/-- The two lower-case digits of every byte. -/
def hexDigits (bytes : Bytes) : List Char :=
  bytes.flatMap fun b => [Nat.digitChar (b.toNat / 16), Nat.digitChar (b.toNat % 16)]

def hexEncode (bytes : Bytes) : String := String.ofList (hexDigits bytes)

/-- The value of a digit of either case. -/
def hexDigitValue (c : Char) : Option Nat :=
  if '0' ≤ c ∧ c ≤ '9' then some (c.toNat - '0'.toNat)
  else if 'a' ≤ c ∧ c ≤ 'f' then some (c.toNat - 'a'.toNat + 10)
  else if 'A' ≤ c ∧ c ≤ 'F' then some (c.toNat - 'A'.toNat + 10)
  else none

def hexValues : List Char → Option Bytes
  | [] => some []
  | [_] => none
  | hi :: lo :: rest => do
    let h ← hexDigitValue hi
    let l ← hexDigitValue lo
    let bytes ← hexValues rest
    some (UInt8.ofNat (16 * h + l) :: bytes)

/-- Text that has an odd length or holds another character is refused. -/
def hexDecode (text : String) : Option Bytes := hexValues text.toList

theorem hexDigitValue_digitChar {n : Nat} (h : n < 16) :
    hexDigitValue (Nat.digitChar n) = some n := by
  revert n
  decide

theorem hexValues_hexDigits (bytes : Bytes) : hexValues (hexDigits bytes) = some bytes := by
  induction bytes with
  | nil => rfl
  | cons b rest ih =>
    have hb : b.toNat < 256 := b.toNat_lt
    have hsplit : 16 * (b.toNat / 16) + b.toNat % 16 = b.toNat := Nat.div_add_mod _ _
    have htail : hexDigits (b :: rest) =
        Nat.digitChar (b.toNat / 16) :: Nat.digitChar (b.toNat % 16) :: hexDigits rest := rfl
    rw [htail]
    simp only [hexValues, hexDigitValue_digitChar (show b.toNat / 16 < 16 by omega),
      hexDigitValue_digitChar (Nat.mod_lt _ (by omega)), ih, Option.bind_eq_bind,
      Option.bind_some, hsplit, UInt8.ofNat_toNat]

@[simp]
theorem hexDecode_hexEncode (bytes : Bytes) : hexDecode (hexEncode bytes) = some bytes := by
  simp [hexDecode, hexEncode, hexValues_hexDigits]

theorem hexEncode_inj {a b : Bytes} (h : hexEncode a = hexEncode b) : a = b := by
  have := congrArg hexDecode h
  simpa using this

/-! ## UTF-8 -/

/-- A continuation byte. -/
def isTail (b : UInt8) : Bool := 0x80 ≤ b && b ≤ 0xbf

/-- The six bits a continuation byte adds. -/
def tailBits (b : UInt8) : Nat := b.toNat % 64

/-- The characters of a well-formed UTF-8 text: no overlong form, no surrogate, nothing
    above U+10FFFF. -/
def utf8Chars : Bytes → Option (List Char)
  | [] => some []
  | a :: rest =>
    if a < 0x80 then (utf8Chars rest).map (Char.ofNat a.toNat :: ·)
    else match rest with
    | [] => none
    | b :: rest =>
      if 0xc2 ≤ a && a ≤ 0xdf then
        if isTail b then
          (utf8Chars rest).map (Char.ofNat (a.toNat % 32 * 64 + tailBits b) :: ·)
        else none
      else match rest with
      | [] => none
      | c :: rest =>
        if 0xe0 ≤ a && a ≤ 0xef then
          if isTail b && isTail c && !(a == 0xe0 && b < 0xa0) && !(a == 0xed && 0x9f < b) then
            (utf8Chars rest).map
              (Char.ofNat ((a.toNat % 16 * 64 + tailBits b) * 64 + tailBits c) :: ·)
          else none
        else match rest with
        | [] => none
        | d :: rest =>
          if 0xf0 ≤ a && a ≤ 0xf4 && isTail b && isTail c && isTail d &&
              !(a == 0xf0 && b < 0x90) && !(a == 0xf4 && 0x8f < b) then
            (utf8Chars rest).map (Char.ofNat
              (((a.toNat % 8 * 64 + tailBits b) * 64 + tailBits c) * 64 + tailBits d) :: ·)
          else none

/-- Text followed by text is text. -/
theorem utf8Chars_append {a b : Bytes} {cs ds : List Char} (ha : utf8Chars a = some cs)
    (hb : utf8Chars b = some ds) : utf8Chars (a ++ b) = some (cs ++ ds) := by
  fun_induction utf8Chars a generalizing cs with
  | case1 =>
    obtain rfl := Option.some.inj ha
    exact hb
  | case2 a rest hone ih =>
    obtain ⟨cs, hcs, rfl⟩ := Option.map_eq_some_iff.mp ha
    rw [List.cons_append, utf8Chars.eq_def]
    simp [hone, ih hcs]
  | case4 a hone b rest htwo htail ih =>
    obtain ⟨cs, hcs, rfl⟩ := Option.map_eq_some_iff.mp ha
    rw [List.cons_append, List.cons_append, utf8Chars.eq_def]
    simp only [hone, htwo, htail, ih hcs, if_true, if_false, Option.map_some, List.cons_append]
  | case7 a hone b htwo c rest hthree htail ih =>
    obtain ⟨cs, hcs, rfl⟩ := Option.map_eq_some_iff.mp ha
    rw [List.cons_append, List.cons_append, List.cons_append, utf8Chars.eq_def]
    simp only [hone, htwo, hthree, htail, ih hcs, if_true, if_false, Bool.false_eq_true,
      Option.map_some, List.cons_append]
  | case10 a hone b htwo c hthree d rest htail ih =>
    obtain ⟨cs, hcs, rfl⟩ := Option.map_eq_some_iff.mp ha
    rw [List.cons_append, List.cons_append, List.cons_append, List.cons_append,
      utf8Chars.eq_def]
    simp only [hone, htwo, hthree, htail, ih hcs, if_true, if_false, Bool.false_eq_true,
      Option.map_some, List.cons_append]
  | case3 | case5 | case6 | case8 | case9 | case11 => exact absurd ha (by simp)

theorem isTail_of_lt {b : UInt8} (h : b < 0x80) : isTail b = false := by
  have hle : ¬ (0x80 : UInt8) ≤ b := UInt8.not_le.mpr h
  simp [isTail, hle]

/-- An ASCII byte of a text is one of its characters. -/
theorem mem_utf8Chars {raw : Bytes} {cs : List Char} {x : UInt8} (h : utf8Chars raw = some cs)
    (hx : x ∈ raw) (hascii : x < 0x80) : Char.ofNat x.toNat ∈ cs := by
  have htail := isTail_of_lt hascii
  fun_induction utf8Chars raw generalizing cs with
  | case1 => simp at hx
  | case2 a rest hone ih =>
    obtain ⟨cs, hcs, rfl⟩ := Option.map_eq_some_iff.mp h
    rcases List.mem_cons.mp hx with rfl | hx
    · exact List.mem_cons_self
    · exact List.mem_cons_of_mem _ (ih hcs hx)
  | case4 a hone b rest htwo hb ih =>
    obtain ⟨cs, hcs, rfl⟩ := Option.map_eq_some_iff.mp h
    simp only [List.mem_cons] at hx
    rcases hx with rfl | rfl | hx
    · exact absurd hascii hone
    · simp [htail] at hb
    · exact List.mem_cons_of_mem _ (ih hcs hx)
  | case7 a hone b htwo c rest hthree hbc ih =>
    obtain ⟨cs, hcs, rfl⟩ := Option.map_eq_some_iff.mp h
    simp only [List.mem_cons] at hx
    rcases hx with rfl | rfl | rfl | hx
    · exact absurd hascii hone
    · simp [htail] at hbc
    · simp [htail] at hbc
    · exact List.mem_cons_of_mem _ (ih hcs hx)
  | case10 a hone b htwo c hthree d rest hbcd ih =>
    obtain ⟨cs, hcs, rfl⟩ := Option.map_eq_some_iff.mp h
    simp only [List.mem_cons] at hx
    rcases hx with rfl | rfl | rfl | rfl | hx
    · exact absurd hascii hone
    · simp [htail] at hbcd
    · simp [htail] at hbcd
    · simp [htail] at hbcd
    · exact List.mem_cons_of_mem _ (ih hcs hx)
  | case3 | case5 | case6 | case8 | case9 | case11 => exact absurd h (by simp)

/-- `char::is_control`: the general category Cc. -/
def isControl (c : Char) : Bool := c.toNat < 0x20 || (0x7f ≤ c.toNat && c.toNat < 0xa0)

example : utf8Chars [0x61, 0xc3, 0xa9, 0xe2, 0x82, 0xac] = some ['a', 'é', '€'] := by decide

end Cirrove.Library
