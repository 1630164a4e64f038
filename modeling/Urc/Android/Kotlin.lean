import Urc.Common.Text
import Urc.Library.Decimal

/-! # Texts in Kotlin

The functions of the Kotlin library on texts that the app uses.
-/

namespace Urc.Kotlin

/-- `Char.isWhitespace`: the separators of Unicode and ten control characters. -/
def isWhitespace (c : Char) : Bool :=
  let n := c.toNat
  (0x09 ≤ n && n ≤ 0x0D) || (0x1C ≤ n && n ≤ 0x20) || n = 0xA0 || n = 0x1680 ||
    (0x2000 ≤ n && n ≤ 0x200A) || n = 0x2028 || n = 0x2029 || n = 0x202F || n = 0x205F || n = 0x3000

def trim (s : String) : String := .ofList (trimChars isWhitespace s.toList)

def isBlank (s : String) : Bool := s.toList.all isWhitespace

/-- `ifBlank { null }`. -/
def nullIfBlank (s : String) : Option String := if isBlank s then none else some s

def zeros : List ℕ :=
  [0x0030, 0x0660, 0x06F0, 0x07C0, 0x0966, 0x09E6, 0x0A66, 0x0AE6, 0x0B66, 0x0BE6, 0x0C66, 0x0CE6,
    0x0D66, 0x0DE6, 0x0E50, 0x0ED0, 0x0F20, 0x1040, 0x1090, 0x17E0, 0x1810, 0x1946, 0x19D0, 0x1A80,
    0x1A90, 0x1B50, 0x1BB0, 0x1C40, 0x1C50, 0xA620, 0xA8D0, 0xA900, 0xA9D0, 0xA9F0, 0xAA50, 0xABF0,
    0xFF10]

/-- `digitOf`, for radix 10. -/
def digitOf (c : Char) : Option ℕ :=
  zeros.findSome? fun z => if z ≤ c.toNat ∧ c.toNat < z + 10 then some (c.toNat - z) else none

def digitsValue (ds : List Char) : Option ℕ :=
  if ds = [] then none else ds.foldlM (fun v c => (digitOf c).map (10 * v + ·)) 0

/-- `toIntOrNull`, which is null also where an `Int` overflows. -/
def toIntOrNull : List Char → Option ℤ
  | [] => none
  | c :: rest =>
    if c < '0' then
      if c = '-' then
        (digitsValue rest).bind fun v => if v ≤ 2 ^ 31 then some (-v) else none
      else if c = '+' then (digitsValue rest).bind fun v => if v < 2 ^ 31 then some v else none
      else none
    else (digitsValue (c :: rest)).bind fun v => if v < 2 ^ 31 then some v else none

/-- `equals(word, ignoreCase = true)`, for a word of which no letter has a counterpart outside of
ASCII. -/
def equalsIgnoreCase (s word : String) : Bool :=
  s.toList.map Char.toLower = word.toList.map Char.toLower

def substringBefore (delimiter : Char) (s : String) : String :=
  .ofList (s.toList.takeWhile (· ≠ delimiter))

/-- `substringAfter`, with the empty text where the delimiter is missing. -/
def substringAfter (delimiter : Char) (s : String) : String :=
  .ofList (s.toList.dropWhile (· ≠ delimiter)).tail

open Decimal

variable {s : List Char}

theorem digitOf_of_isDigit {c : Char} (h : c.isDigit = true) : digitOf c = some (c.toNat - 48) := by
  obtain ⟨hlow, hhigh⟩ := isDigit_iff.mp h
  rw [digitOf, zeros, List.findSome?_cons, if_pos ⟨hlow, by omega⟩]

theorem foldlM_digitOf (h : ∀ c ∈ s, c.isDigit = true) (v : ℕ) :
    s.foldlM (fun v c => (digitOf c).map (10 * v + ·)) v = some (Nat.ofDigitChars 10 s v) := by
  induction s generalizing v with
  | nil => simp
  | cons c s ih =>
    rw [List.foldlM_cons, digitOf_of_isDigit (h c List.mem_cons_self), Nat.ofDigitChars_cons]
    exact ih (fun c hc => h c (List.mem_cons_of_mem _ hc)) _

/-- On digits of ASCII, `toIntOrNull` gives their value, unless it overflows. -/
theorem toIntOrNull_digits (hne : s ≠ []) (h : ∀ c ∈ s, c.isDigit = true)
    (hv : value s < 2 ^ 31) : toIntOrNull s = some (value s : ℤ) := by
  obtain ⟨c, s, rfl⟩ := List.exists_cons_of_ne_nil hne
  have hc := isDigit_iff.mp (h c List.mem_cons_self)
  have hnot : ¬ c < '0' := by
    rw [Char.lt_def, UInt32.lt_iff_toNat_lt]
    exact Nat.not_lt.mpr hc.1
  rw [toIntOrNull, if_neg hnot, digitsValue, if_neg hne, foldlM_digitOf h, Option.bind_some]
  exact if_pos hv

end Urc.Kotlin
