import Mathlib.Data.List.Basic

/-! # UTF-16

A text as the code units of UTF-16, and its code points as they are read from them: the two halves
of a pair give one code point, and any other code unit stands for itself.
-/

namespace Utf16

def IsHigh (u : ℕ) : Prop := 0xD800 ≤ u ∧ u < 0xDC00

def IsLow (u : ℕ) : Prop := 0xDC00 ≤ u ∧ u < 0xE000

instance (u : ℕ) : Decidable (IsHigh u) := inferInstanceAs (Decidable (_ ∧ _))

instance (u : ℕ) : Decidable (IsLow u) := inferInstanceAs (Decidable (_ ∧ _))

def encodeChar (c : Char) : List ℕ :=
  if c.toNat < 0x10000 then [c.toNat]
  else [0xD800 + (c.toNat - 0x10000) / 0x400, 0xDC00 + (c.toNat - 0x10000) % 0x400]

def encode (s : List Char) : List ℕ := s.flatMap encodeChar

def decode : List ℕ → List ℕ
  | [] => []
  | [u] => [u]
  | u :: v :: us =>
    if IsHigh u ∧ IsLow v then (0x10000 + (u - 0xD800) * 0x400 + (v - 0xDC00)) :: decode us
    else u :: decode (v :: us)

variable {u : ℕ} {c : Char} {s : List Char} {us : List ℕ}

theorem decode_cons_of_not_high (h : ¬ IsHigh u) (us : List ℕ) :
    decode (u :: us) = u :: decode us := by
  cases us with
  | nil => rfl
  | cons v us => rw [decode, if_neg fun hp => h hp.1]

theorem not_isHigh_toNat (c : Char) : ¬ IsHigh c.toNat := by
  intro h
  have hvalid : c.toNat < 0xD800 ∨ 0xDFFF < c.toNat ∧ c.toNat < 0x110000 := c.valid
  unfold IsHigh at h
  omega

theorem toNat_lt (c : Char) : c.toNat < 0x110000 := by
  have hvalid : c.toNat < 0xD800 ∨ 0xDFFF < c.toNat ∧ c.toNat < 0x110000 := c.valid
  omega

theorem decode_encodeChar (c : Char) (us : List ℕ) :
    decode (encodeChar c ++ us) = c.toNat :: decode us := by
  have hlt := toNat_lt c
  unfold encodeChar
  split_ifs with hc
  · exact decode_cons_of_not_high (not_isHigh_toNat c) us
  · have hhigh : IsHigh (0xD800 + (c.toNat - 0x10000) / 0x400) := by
      unfold IsHigh
      omega
    have hlow : IsLow (0xDC00 + (c.toNat - 0x10000) % 0x400) := by
      unfold IsLow
      omega
    have hpair : 0x10000 + (0xD800 + (c.toNat - 0x10000) / 0x400 - 0xD800) * 0x400 +
        (0xDC00 + (c.toNat - 0x10000) % 0x400 - 0xDC00) = c.toNat := by
      omega
    rw [List.cons_append, List.singleton_append, decode, if_pos ⟨hhigh, hlow⟩, hpair]

/-- The code points of a text are its characters. -/
theorem decode_encode (s : List Char) : decode (encode s) = s.map Char.toNat := by
  induction s with
  | nil => rfl
  | cons c s ih =>
    rw [encode, List.flatMap_cons, decode_encodeChar, List.map_cons]
    exact congrArg _ ih

theorem encode_append (s t : List Char) : encode (s ++ t) = encode s ++ encode t :=
  List.flatMap_append

theorem head?_encode (hc : c.toNat < 0xD800) :
    (encode s).head? = some c.toNat ↔ s.head? = some c := by
  cases s with
  | nil => simp [encode]
  | cons a s =>
    rw [encode, List.flatMap_cons, List.head?_cons, Option.some_inj]
    unfold encodeChar
    split_ifs with ha
    · simp [Char.toNat_inj]
    · have hne : a ≠ c := by
        rintro rfl
        omega
      simp only [List.cons_append, List.head?_cons, Option.some_inj, hne, iff_false]
      omega

theorem forall_decode_eq_zero : (∀ c ∈ decode us, c = 0) ↔ ∀ u ∈ us, u = 0 := by
  induction us using decode.induct with
  | case1 => rfl
  | case2 u => rfl
  | case3 u v us hpair ih =>
    have hu : u ≠ 0 := by
      have hhigh := hpair.1
      unfold IsHigh at hhigh
      omega
    rw [decode, if_pos hpair]
    refine iff_of_false (fun h => ?_) fun h => hu (h u List.mem_cons_self)
    have hzero := h _ List.mem_cons_self
    omega
  | case4 u v us hpair ih =>
    rw [decode, if_neg hpair, List.forall_mem_cons, ih]
    simp only [List.forall_mem_cons]

end Utf16
