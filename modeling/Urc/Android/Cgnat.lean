import Mathlib.Data.Nat.Bitwise
import Urc.Android.Kotlin

/-! # Tailnet addresses

The guard in front of every dial: a host is accepted when it is a dotted quad in the range of
Tailscale, in the one spelling that has no leading zeros.
-/

namespace Urc.Cgnat

open Kotlin Decimal

/-- The body of the loop of `parseIpv4Literal`. -/
def octet (p : List Char) : Option ℤ :=
  if p = [] ∨ 3 < p.length then none
  else if p.any fun c => !('0' ≤ c && c ≤ '9') then none
  else if 1 < p.length ∧ p.head? = some '0' then none
  else
    match toIntOrNull p with
    | some v => if 0 ≤ v ∧ v ≤ 255 then some v else none
    | none => none

def parseIpv4Literal (s : String) : Option (List ℤ) :=
  let parts := s.toList.splitOn '.'
  if parts.length = 4 then parts.mapM octet else none

def isTailnetAddress (host : String) : Bool :=
  match parseIpv4Literal host with
  | some octets => octets[0]? = some 100 && octets[1]?.any fun b => 64 ≤ b && b ≤ 127
  | none => false

def dottedQuad (a b c d : ℕ) : String :=
  ".".intercalate [toString a, toString b, toString c, toString d]

/-- A canonical IPv4 literal. -/
def IsLiteral (s : String) : Prop :=
  ∃ a b c d : ℕ, a ≤ 255 ∧ b ≤ 255 ∧ c ≤ 255 ∧ d ≤ 255 ∧ s = dottedQuad a b c d

/-- A canonical literal in 100.64.0.0/10. -/
def OnTailnet (s : String) : Prop :=
  ∃ b c d : ℕ, 64 ≤ b ∧ b ≤ 127 ∧ c ≤ 255 ∧ d ≤ 255 ∧ s = dottedQuad 100 b c d

variable {s : String} {p : List Char} {v : ℤ} {n : ℕ}

theorem octet_toDigits (hn : n ≤ 255) : octet (Nat.toDigits 10 n) = some (n : ℤ) := by
  have hnum := isNumeral_toDigits n
  have hlen : (Nat.toDigits 10 n).length ≤ 3 :=
    (Nat.length_toDigits_le_iff (by omega) (by omega)).mpr (by omega)
  have hdigits : (Nat.toDigits 10 n).any (fun c => !('0' ≤ c && c ≤ '9')) = false := by
    rw [List.any_eq_false]
    intro c hc
    obtain ⟨hlow, hhigh⟩ := isDigit_iff.mp (hnum.digits c hc)
    have hlow' : '0' ≤ c := by rw [Char.le_def, UInt32.le_iff_toNat_le]; exact hlow
    have hhigh' : c ≤ '9' := by rw [Char.le_def, UInt32.le_iff_toNat_le]; exact hhigh
    simp [hlow', hhigh']
  have hzero : ¬ (1 < (Nat.toDigits 10 n).length ∧ (Nat.toDigits 10 n).head? = some '0') := by
    rintro ⟨hlen', hz⟩
    rw [hnum.zero hz] at hlen'
    exact absurd hlen' (by decide)
  have hint : toIntOrNull (Nat.toDigits 10 n) = some (n : ℤ) := by
    rw [toIntOrNull_digits hnum.ne_nil hnum.digits (by rw [value_toDigits]; omega), value_toDigits]
  rw [octet, if_neg (by simp [hnum.ne_nil, hlen]), hdigits, if_neg (by simp), if_neg hzero, hint]
  exact if_pos ⟨by omega, by omega⟩

theorem octet_eq_some (h : octet p = some v) :
    ∃ n : ℕ, n ≤ 255 ∧ v = n ∧ p = Nat.toDigits 10 n := by
  unfold octet at h
  split_ifs at h with hlen hdig hzero
  simp only [not_or, not_lt] at hlen
  have hdigits : ∀ c ∈ p, c.isDigit = true := by
    intro c hc
    simp only [List.any_eq_true, not_exists, not_and, Bool.not_eq_true, Bool.not_eq_false',
      Bool.and_eq_true, decide_eq_true_eq] at hdig
    exact isDigit_iff.mpr (hdig c hc)
  have hnum : IsNumeral p := by
    refine ⟨hlen.1, hdigits, fun hz => ?_⟩
    obtain ⟨c, p, rfl⟩ := List.exists_cons_of_ne_nil hlen.1
    have hshort : ¬ 1 < (c :: p).length := fun hl => hzero ⟨hl, hz⟩
    rw [List.length_cons] at hshort
    have hnil : p = [] := List.eq_nil_of_length_eq_zero (by omega)
    rw [hnil, Option.some.inj hz]
  have hlt := value_lt hnum (by omega) hlen.2
  rw [toIntOrNull_digits hnum.ne_nil hnum.digits (by omega)] at h
  dsimp only at h
  split_ifs at h with hv
  exact ⟨value p, by omega, (Option.some.inj h).symm, (toDigits_value hnum).symm⟩

theorem toList_dottedQuad (a b c d : ℕ) : (dottedQuad a b c d).toList = ['.'].intercalate
    [Nat.toDigits 10 a, Nat.toDigits 10 b, Nat.toDigits 10 c, Nat.toDigits 10 d] := by
  rw [dottedQuad, String.toList_intercalate]
  simp [Nat.toString_eq_repr, Nat.toList_repr]

theorem dot_not_mem (n : ℕ) : '.' ∉ Nat.toDigits 10 n := fun h =>
  absurd ((isNumeral_toDigits n).digits _ h) (by decide)

theorem splitOn_dottedQuad (a b c d : ℕ) : (dottedQuad a b c d).toList.splitOn '.' =
    [Nat.toDigits 10 a, Nat.toDigits 10 b, Nat.toDigits 10 c, Nat.toDigits 10 d] := by
  rw [toList_dottedQuad]
  refine List.splitOn_intercalate '.' ?_ (by simp)
  simp [dot_not_mem]

theorem parseIpv4Literal_dottedQuad {a b c d : ℕ} (ha : a ≤ 255) (hb : b ≤ 255) (hc : c ≤ 255)
    (hd : d ≤ 255) : parseIpv4Literal (dottedQuad a b c d) = some [(a : ℤ), b, c, d] := by
  rw [parseIpv4Literal, splitOn_dottedQuad]
  simp [octet_toDigits ha, octet_toDigits hb, octet_toDigits hc, octet_toDigits hd]

theorem parseIpv4Literal_eq_some {octets : List ℤ} (h : parseIpv4Literal s = some octets) :
    ∃ a b c d : ℕ, a ≤ 255 ∧ b ≤ 255 ∧ c ≤ 255 ∧ d ≤ 255 ∧ octets = [(a : ℤ), b, c, d] ∧
      s = dottedQuad a b c d := by
  unfold parseIpv4Literal at h
  dsimp only at h
  split_ifs at h with hlen
  obtain ⟨w, x, y, z, hparts⟩ : ∃ w x y z, s.toList.splitOn '.' = [w, x, y, z] :=
    List.length_eq_four.mp hlen
  rw [hparts] at h
  simp only [List.mapM_cons, List.mapM_nil, Option.bind_eq_bind, Option.bind_eq_some_iff,
    Option.pure_def, Option.some.injEq] at h
  obtain ⟨a, ha, _, ⟨b, hb, _, ⟨c, hc, _, ⟨d, hd, _, rfl, rfl⟩, rfl⟩, rfl⟩, rfl⟩ := h
  obtain ⟨a, ha', rfl, rfl⟩ := octet_eq_some ha
  obtain ⟨b, hb', rfl, rfl⟩ := octet_eq_some hb
  obtain ⟨c, hc', rfl, rfl⟩ := octet_eq_some hc
  obtain ⟨d, hd', rfl, rfl⟩ := octet_eq_some hd
  refine ⟨a, b, c, d, ha', hb', hc', hd', rfl, ?_⟩
  rw [← String.toList_inj, toList_dottedQuad, ← hparts, List.intercalate_splitOn]

theorem parseIpv4Literal_isSome : (parseIpv4Literal s).isSome ↔ IsLiteral s := by
  constructor
  · intro h
    obtain ⟨octets, ho⟩ := Option.isSome_iff_exists.mp h
    obtain ⟨a, b, c, d, ha, hb, hc, hd, -, hs⟩ := parseIpv4Literal_eq_some ho
    exact ⟨a, b, c, d, ha, hb, hc, hd, hs⟩
  · rintro ⟨a, b, c, d, ha, hb, hc, hd, rfl⟩
    rw [parseIpv4Literal_dottedQuad ha hb hc hd]
    rfl

/-- The guard accepts exactly the canonical literals of the range. -/
theorem isTailnetAddress_iff : isTailnetAddress s = true ↔ OnTailnet s := by
  constructor
  · intro h
    unfold isTailnetAddress at h
    split at h
    · rename_i octets ho
      obtain ⟨a, b, c, d, ha, hb, hc, hd, rfl, rfl⟩ := parseIpv4Literal_eq_some ho
      simp only [List.getElem?_cons_zero, List.getElem?_cons_succ, Option.some.injEq,
        Option.any_some, Bool.and_eq_true, decide_eq_true_eq] at h
      obtain ⟨hfirst, hlow, hhigh⟩ := h
      obtain rfl : a = 100 := by omega
      exact ⟨b, c, d, by omega, by omega, hc, hd, rfl⟩
    · cases h
  · rintro ⟨b, c, d, hlow, hhigh, hc, hd, rfl⟩
    rw [isTailnetAddress, parseIpv4Literal_dottedQuad (by omega) (by omega) hc hd]
    have hlow' : (64 : ℤ) ≤ b := by omega
    have hhigh' : (b : ℤ) ≤ 127 := by omega
    simp [hlow', hhigh']

/-! ### The range as a netmask -/

def addressBits (a b c d : ℕ) : BitVec 32 := .ofNat 32 (((a * 256 + b) * 256 + c) * 256 + d)

def netmask : BitVec 32 := addressBits 255 192 0 0

def network : BitVec 32 := addressBits 100 64 0 0

theorem toNat_and_netmask (x : BitVec 32) : (x &&& netmask).toNat = x.toNat / 2 ^ 22 * 2 ^ 22 := by
  have hmask : netmask.toNat = (2 ^ 10 - 1) * 2 ^ 22 := rfl
  rw [BitVec.toNat_and, hmask]
  refine Nat.eq_of_testBit_eq fun i => ?_
  rw [Nat.testBit_and, Nat.testBit_mul_two_pow, Nat.testBit_mul_two_pow,
    Nat.testBit_two_pow_sub_one, Nat.testBit_div_two_pow]
  by_cases hi : 22 ≤ i
  · rw [decide_eq_true hi, Bool.true_and, Bool.true_and, Nat.sub_add_cancel hi]
    by_cases hlow : i - 22 < 10
    · rw [decide_eq_true hlow, Bool.and_true]
    · have hlt : x.toNat < 2 ^ i :=
        x.isLt.trans_le (Nat.pow_le_pow_right (by omega) (by omega))
      rw [Nat.testBit_lt_two_pow hlt, Bool.false_and]
  · simp [hi]

theorem addressBits_and_netmask {a b c d : ℕ} (ha : a ≤ 255) (hb : b ≤ 255) (hc : c ≤ 255)
    (hd : d ≤ 255) : addressBits a b c d &&& netmask = network ↔ a = 100 ∧ 64 ≤ b ∧ b ≤ 127 := by
  have hbits : (addressBits a b c d).toNat = ((a * 256 + b) * 256 + c) * 256 + d :=
    Nat.mod_eq_of_lt (by omega)
  have hnet : network.toNat = 401 * 2 ^ 22 := rfl
  rw [← BitVec.toNat_inj, toNat_and_netmask, hbits, hnet]
  omega

/-- A host is parsed exactly if it is written as its four octets are, and it passes exactly if they
are an address of the network, too. -/
theorem accepts_exactly (s : String) :
    (∀ octets : List ℤ, parseIpv4Literal s = some octets ↔ ∃ a b c d : ℕ,
      a ≤ 255 ∧ b ≤ 255 ∧ c ≤ 255 ∧ d ≤ 255 ∧ octets = [(a : ℤ), b, c, d] ∧
        s = dottedQuad a b c d) ∧
    (isTailnetAddress s = true ↔ ∃ a b c d : ℕ, a ≤ 255 ∧ b ≤ 255 ∧ c ≤ 255 ∧ d ≤ 255 ∧
      s = dottedQuad a b c d ∧ addressBits a b c d &&& netmask = network) := by
  refine ⟨fun octets => ⟨parseIpv4Literal_eq_some, ?_⟩, isTailnetAddress_iff.trans ⟨?_, ?_⟩⟩
  · rintro ⟨a, b, c, d, ha, hb, hc, hd, rfl, rfl⟩
    exact parseIpv4Literal_dottedQuad ha hb hc hd
  · rintro ⟨b, c, d, hlow, hhigh, hc, hd, rfl⟩
    have hb : b ≤ 255 := by omega
    exact ⟨100, b, c, d, by omega, hb, hc, hd, rfl,
      (addressBits_and_netmask (by omega) hb hc hd).mpr ⟨rfl, hlow, hhigh⟩⟩
  · rintro ⟨a, b, c, d, ha, hb, hc, hd, rfl, hmask⟩
    obtain ⟨rfl, hlow, hhigh⟩ := (addressBits_and_netmask ha hb hc hd).mp hmask
    exact ⟨b, c, d, hlow, hhigh, hc, hd, rfl⟩

example : parseIpv4Literal "100.064.0.1" = none := by decide +kernel

end Urc.Cgnat
