import Mathlib.Algebra.Group.Nat.Defs
import Mathlib.Data.List.Induction

/-! # Decimal numerals

The numerals without leading zeros are the digits of the natural numbers, and each is the
numeral of its value.
-/

namespace Decimal

variable {s : List Char} {n : ℕ}

def value (s : List Char) : ℕ := Nat.ofDigitChars 10 s 0

structure IsNumeral (s : List Char) : Prop where
  ne_nil : s ≠ []
  digits : ∀ c ∈ s, c.isDigit = true
  zero : s.head? = some '0' → s = ['0']

theorem isDigit_iff {c : Char} : c.isDigit = true ↔ 48 ≤ c.toNat ∧ c.toNat ≤ 57 := by
  simp only [Char.isDigit, Bool.and_eq_true, decide_eq_true_eq, ge_iff_le, UInt32.le_iff_toNat_le]
  rfl

theorem value_append (s : List Char) (c : Char) :
    value (s ++ [c]) = 10 * value s + (c.toNat - 48) := by
  rw [value, Nat.ofDigitChars_append, Nat.ofDigitChars_cons, Nat.ofDigitChars_nil]
  rfl

theorem value_toDigits (n : ℕ) : value (Nat.toDigits 10 n) = n := Nat.ofDigitChars_ten_toDigits

theorem digitChar_of_isDigit {c : Char} (h : c.isDigit = true) :
    Nat.digitChar (c.toNat - 48) = c := by
  obtain ⟨hlow, hhigh⟩ := isDigit_iff.mp h
  have hall : ∀ k : Fin 10, Nat.digitChar k.val = Char.ofNat (k.val + 48) := by decide
  have hk := hall ⟨c.toNat - 48, by omega⟩
  rw [hk, Nat.sub_add_cancel hlow, Char.ofNat_toNat]

theorem head?_append_of_ne_nil {t : List Char} (hs : s ≠ []) : (s ++ t).head? = s.head? := by
  obtain ⟨a, s, rfl⟩ := List.exists_cons_of_ne_nil hs
  rfl

theorem IsNumeral.of_append {c : Char} (h : IsNumeral (s ++ [c])) (hs : s ≠ []) :
    IsNumeral s ∧ s.head? ≠ some '0' := by
  have hhead : s.head? ≠ some '0' := by
    intro hzero
    have hall := h.zero (by rw [head?_append_of_ne_nil hs, hzero])
    obtain ⟨a, s, rfl⟩ := List.exists_cons_of_ne_nil hs
    simp at hall
  exact ⟨⟨hs, fun a ha => h.digits a (List.mem_append_left _ ha), fun hz => absurd hz hhead⟩, hhead⟩

/-- A numeral is the numeral of its value. -/
theorem toDigits_value (h : IsNumeral s) : Nat.toDigits 10 (value s) = s := by
  induction s using List.reverseRec with
  | nil => exact absurd rfl h.ne_nil
  | append_singleton s c ih =>
    have hc := h.digits c (by simp)
    obtain ⟨hlow, hhigh⟩ := isDigit_iff.mp hc
    have hdigit : Nat.toDigits 10 (c.toNat - 48) = [c] := by
      rw [Nat.toDigits_of_lt_base (by omega), digitChar_of_isDigit hc]
    rw [value_append]
    by_cases hs : s = []
    · subst hs
      simpa [value] using hdigit
    · obtain ⟨hnum, hhead⟩ := h.of_append hs
      have hpos : 0 < value s := by
        by_contra hzero
        have hdigits := ih hnum
        rw [Nat.eq_zero_of_not_pos hzero, Nat.toDigits_zero] at hdigits
        exact hhead (by rw [← hdigits]; rfl)
      rw [← Nat.toDigits_append_toDigits (by omega) hpos (by omega), ih hnum, hdigit]

theorem isNumeral_toDigits (n : ℕ) : IsNumeral (Nat.toDigits 10 n) where
  ne_nil := Nat.toDigits_ne_nil
  digits _ hc := Nat.isDigit_of_mem_toDigits (by omega) (by omega) hc
  zero hz := by
    induction n using Nat.strongRecOn with
    | ind n ih =>
      by_cases hn : n < 10
      · rw [Nat.toDigits_of_lt_base hn] at hz ⊢
        exact congrArg (· :: []) (Option.some.inj hz)
      · rw [Nat.toDigits_of_base_le (by omega) (by omega),
          head?_append_of_ne_nil Nat.toDigits_ne_nil] at hz
        have hq := congrArg value (ih (n / 10) (by omega) hz)
        rw [value_toDigits] at hq
        have hzero : value ['0'] = 0 := by decide
        omega

theorem value_lt {k : ℕ} (h : IsNumeral s) (hk : 0 < k) (hlen : s.length ≤ k) :
    value s < 10 ^ k := by
  rw [← toDigits_value h] at hlen
  exact (Nat.length_toDigits_le_iff (by omega) hk).mp hlen

end Decimal
