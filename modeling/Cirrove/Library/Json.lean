import Mathlib.Data.List.Basic

/-!
# JSON text of strings

The string encoder of `serde_json`: quotes, backslashes and control characters are
escaped, everything else is copied. `unquote` reads such a string back and leaves
the text behind it, so quoted strings can be concatenated and still be told apart
(`quoted_append_inj`). So can numbers, as long as no digit follows them.
-/

namespace Cirrove.Library.Json

/-- The two lower-case hexadecimal digits of a control character. -/
def hexPair (n : Nat) : List Char := [Nat.digitChar (n / 16), Nat.digitChar (n % 16)]

/-- One character inside a JSON string. -/
def escapeChar (c : Char) : List Char :=
  if c = '"' then ['\\', '"']
  else if c = '\\' then ['\\', '\\']
  else if c = '\x08' then ['\\', 'b']
  else if c = '\x0c' then ['\\', 'f']
  else if c = '\n' then ['\\', 'n']
  else if c = '\r' then ['\\', 'r']
  else if c = '\t' then ['\\', 't']
  else if c.toNat < 0x20 then ['\\', 'u', '0', '0'] ++ hexPair c.toNat
  else [c]

/-- The characters of a quoted string, after the opening quote. -/
def quotedTail (cs : List Char) : List Char := cs.flatMap escapeChar ++ ['"']

/-- A quoted string. -/
def quoted (cs : List Char) : List Char := '"' :: quotedTail cs

/-- The number of a hexadecimal digit. -/
def hexValue (c : Char) : Nat :=
  if c.toNat < 0x40 then c.toNat - 0x30 else c.toNat - 0x57

/-- Read the rest of a quoted string; the text behind the closing quote is returned
    as well. -/
def unquote : List Char → Option (List Char × List Char)
  | [] => none
  | '"' :: rest => some ([], rest)
  | '\\' :: '"' :: rest => (unquote rest).map fun (cs, r) => ('"' :: cs, r)
  | '\\' :: '\\' :: rest => (unquote rest).map fun (cs, r) => ('\\' :: cs, r)
  | '\\' :: 'b' :: rest => (unquote rest).map fun (cs, r) => ('\x08' :: cs, r)
  | '\\' :: 'f' :: rest => (unquote rest).map fun (cs, r) => ('\x0c' :: cs, r)
  | '\\' :: 'n' :: rest => (unquote rest).map fun (cs, r) => ('\n' :: cs, r)
  | '\\' :: 'r' :: rest => (unquote rest).map fun (cs, r) => ('\r' :: cs, r)
  | '\\' :: 't' :: rest => (unquote rest).map fun (cs, r) => ('\t' :: cs, r)
  | '\\' :: 'u' :: '0' :: '0' :: hi :: lo :: rest =>
    (unquote rest).map fun (cs, r) => (Char.ofNat (16 * hexValue hi + hexValue lo) :: cs, r)
  | c :: rest => (unquote rest).map fun (cs, r) => (c :: cs, r)

/-- The digits of a control character determine it. -/
theorem hexPair_value (n : Nat) (h : n < 0x20) :
    16 * hexValue (Nat.digitChar (n / 16)) + hexValue (Nat.digitChar (n % 16)) = n := by
  revert n
  decide

/-- Reading an escaped character gives it back. -/
theorem unquote_escapeChar (c : Char) (rest : List Char) :
    unquote (escapeChar c ++ rest) = (unquote rest).map fun (cs, r) => (c :: cs, r) := by
  unfold escapeChar
  split_ifs with h1 h2 h3 h4 h5 h6 h7 h8
  · subst h1; rfl
  · subst h2; rfl
  · subst h3; rfl
  · subst h4; rfl
  · subst h5; rfl
  · subst h6; rfl
  · subst h7; rfl
  · simp only [hexPair, List.cons_append, List.nil_append, unquote, hexPair_value c.toNat h8,
      Char.ofNat_toNat]
  · -- Not the quote, not the backslash: the last equation applies.
    rw [List.singleton_append, unquote]
    · exact h1
    all_goals
      intros
      exact h2 (by assumption)

theorem unquote_quotedTail (cs rest : List Char) :
    unquote (quotedTail cs ++ rest) = some (cs, rest) := by
  unfold quotedTail
  induction cs with
  | nil => rfl
  | cons c cs ih =>
    rw [List.flatMap_cons, List.append_assoc, List.append_assoc, unquote_escapeChar]
    rw [List.append_assoc] at ih
    rw [ih]
    rfl

/-- Quoted strings are told apart whatever text follows them. -/
theorem quoted_append_inj {a b r r' : List Char} (h : quoted a ++ r = quoted b ++ r') :
    a = b ∧ r = r' := by
  have htail : quotedTail a ++ r = quotedTail b ++ r' := by
    simpa [quoted] using h
  have hread := congrArg unquote htail
  rw [unquote_quotedTail, unquote_quotedTail] at hread
  simpa using hread

/-- Escaping does not shorten a text. -/
theorem length_le_quoted (cs : List Char) : cs.length ≤ (quoted cs).length := by
  have hescape : ∀ c, 1 ≤ (escapeChar c).length := by
    intro c
    unfold escapeChar
    split_ifs <;> simp
  have htail : cs.length ≤ (cs.flatMap escapeChar).length := by
    induction cs with
    | nil => exact Nat.le_refl 0
    | cons c cs ih =>
      have hone := hescape c
      rw [List.flatMap_cons, List.length_append, List.length_cons]
      omega
  rw [quoted, quotedTail, List.length_cons, List.length_append]
  omega

/-! ## Numbers -/

/-- A natural number. -/
def number (n : Nat) : List Char := (toString n).toList

theorem number_eq_toDigits (n : Nat) : number n = Nat.toDigits 10 n := by
  rw [number, Nat.toString_eq_repr, Nat.toList_repr]

theorem number_digits (n : Nat) : ∀ c ∈ number n, c.isDigit = true := by
  intro c hc
  rw [number_eq_toDigits] at hc
  exact Nat.isDigit_of_mem_toDigits (by decide) (by decide) hc

theorem number_injective {m n : Nat} (h : number m = number n) : m = n := by
  rw [number_eq_toDigits, number_eq_toDigits] at h
  rw [← @Nat.ofDigitChars_ten_toDigits m, h, Nat.ofDigitChars_ten_toDigits]

/-- Numbers are told apart by what follows them, unless it is a digit. -/
theorem number_append_inj {m n : Nat} {c c' : Char} {r r' : List Char}
    (hc : c.isDigit = false) (hc' : c'.isDigit = false)
    (h : number m ++ c :: r = number n ++ c' :: r') : m = n ∧ c :: r = c' :: r' := by
  have hread : ∀ (n : Nat) (c : Char) (r : List Char), c.isDigit = false →
      (number n ++ c :: r).takeWhile Char.isDigit = number n := by
    intro n c r hc
    rw [List.takeWhile_append_of_pos (number_digits n), List.takeWhile_cons_of_neg (by simp [hc]),
      List.append_nil]
  have hnumber := congrArg (List.takeWhile Char.isDigit) h
  rw [hread m c r hc, hread n c' r' hc'] at hnumber
  refine ⟨number_injective hnumber, ?_⟩
  rw [hnumber] at h
  exact List.append_cancel_left h

/-! ## Objects -/

/-- The name of a member, up to its value. -/
def key (name : String) : List Char := quoted name.toList ++ [':']

/-! ## Arrays -/

section

variable {α : Type*} {encode : α → List Char}

/-- The values of an array after the first, and its end. -/
def arrayTail (encode : α → List Char) : List α → List Char
  | [] => [']']
  | a :: rest => ',' :: (encode a ++ arrayTail encode rest)

/-- An array. -/
def array (encode : α → List Char) : List α → List Char
  | [] => ['[', ']']
  | a :: rest => '[' :: (encode a ++ arrayTail encode rest)

theorem arrayTail_append_inj
    (hencode : ∀ {a b r r'}, encode a ++ r = encode b ++ r' → a = b ∧ r = r')
    {as bs : List α} {r r' : List Char} (h : arrayTail encode as ++ r = arrayTail encode bs ++ r') :
    as = bs ∧ r = r' := by
  induction as generalizing bs with
  | nil =>
    cases bs with
    | nil => exact ⟨rfl, List.append_cancel_left h⟩
    | cons b bs => simp [arrayTail] at h
  | cons a as ih =>
    cases bs with
    | nil => simp [arrayTail] at h
    | cons b bs =>
      simp only [arrayTail, List.cons_append, List.append_assoc, List.cons.injEq, true_and] at h
      obtain ⟨rfl, hrest⟩ := hencode h
      obtain ⟨rfl, hend⟩ := ih hrest
      exact ⟨rfl, hend⟩

/-- Arrays of values that are told apart, none of which begins like the end of an array. -/
theorem array_append_inj
    (hencode : ∀ {a b r r'}, encode a ++ r = encode b ++ r' → a = b ∧ r = r')
    (hbegin : ∀ a r r', encode a ++ r ≠ ']' :: r') {as bs : List α} {r r' : List Char}
    (h : array encode as ++ r = array encode bs ++ r') : as = bs ∧ r = r' := by
  cases as with
  | nil =>
    cases bs with
    | nil => exact ⟨rfl, by simpa [array] using h⟩
    | cons b bs =>
      simp only [array, List.cons_append, List.append_assoc, List.cons.injEq, true_and,
        List.nil_append] at h
      exact absurd h.symm (hbegin b _ _)
  | cons a as =>
    cases bs with
    | nil =>
      simp only [array, List.cons_append, List.append_assoc, List.cons.injEq, true_and,
        List.nil_append] at h
      exact absurd h (hbegin a _ _)
    | cons b bs =>
      simp only [array, List.cons_append, List.append_assoc, List.cons.injEq, true_and] at h
      obtain ⟨rfl, hrest⟩ := hencode h
      obtain ⟨rfl, hend⟩ := arrayTail_append_inj hencode hrest
      exact ⟨rfl, hend⟩

end

end Cirrove.Library.Json
