import Mathlib.Algebra.Order.Group.Nat
import Mathlib.Data.List.Induction

/-! # Digits of a fixed width

Numbers as lists of a given number of digits, the most significant first, and the two alphabets
in which such digits are written: hexadecimal, and that of Base64.
-/

namespace Radix

variable {b w n : ℕ} {ds : List ℕ}

/-- The last `w` digits of a number. -/
def digits (b : ℕ) : ℕ → ℕ → List ℕ
  | 0, _ => []
  | w + 1, n => digits b w (n / b) ++ [n % b]

def value (b : ℕ) (ds : List ℕ) : ℕ := ds.foldl (fun v d => v * b + d) 0

@[simp] theorem value_nil : value b [] = 0 := rfl

@[simp] theorem value_concat (d : ℕ) : value b (ds ++ [d]) = value b ds * b + d := by
  simp [value]

@[simp] theorem length_digits : (digits b w n).length = w := by
  induction w generalizing n with
  | zero => rfl
  | succ w ih => simp [digits, ih]

theorem lt_of_mem_digits (hb : 0 < b) {d : ℕ} (hd : d ∈ digits b w n) : d < b := by
  induction w generalizing n with
  | zero => cases hd
  | succ w ih =>
    rcases List.mem_append.mp hd with hd | hd
    · exact ih hd
    · rw [List.mem_singleton.mp hd]
      exact Nat.mod_lt n hb

/-- The digits give the number back, as far as they reach. -/
theorem value_digits (h : n < b ^ w) : value b (digits b w n) = n := by
  induction w generalizing n with
  | zero => exact (Nat.lt_one_iff.mp h).symm
  | succ w ih =>
    have hq : n / b < b ^ w := Nat.div_lt_of_lt_mul (by rwa [pow_succ, mul_comm] at h)
    rw [digits, value_concat, ih hq, mul_comm, Nat.div_add_mod]

theorem digits_value (h : ∀ d ∈ ds, d < b) : digits b ds.length (value b ds) = ds := by
  induction ds using List.reverseRec with
  | nil => rfl
  | append_singleton ds d ih =>
    have hd : d < b := h d (by simp)
    have hq : (value b ds * b + d) / b = value b ds := by
      rw [mul_comm, Nat.mul_add_div (by omega), Nat.div_eq_of_lt hd, add_zero]
    have hr : (value b ds * b + d) % b = d := by
      rw [mul_comm, Nat.mul_add_mod, Nat.mod_eq_of_lt hd]
    rw [List.length_append, List.length_singleton, digits, value_concat, hq, hr,
      ih fun x hx => h x (List.mem_append_left _ hx)]

theorem value_lt (h : ∀ d ∈ ds, d < b) : value b ds < b ^ ds.length := by
  induction ds using List.reverseRec with
  | nil => simp
  | append_singleton ds d ih =>
    have hd : d < b := h d (by simp)
    have hq := ih fun x hx => h x (List.mem_append_left _ hx)
    rw [value_concat, List.length_append, List.length_singleton, pow_succ]
    calc value b ds * b + d < value b ds * b + b := by omega
      _ = (value b ds + 1) * b := by rw [Nat.succ_mul]
      _ ≤ b ^ ds.length * b := Nat.mul_le_mul_right b hq

/-! ### Alphabets -/

def hexValue (c : Char) : Option ℕ :=
  if '0' ≤ c ∧ c ≤ '9' then some (c.toNat - 48)
  else if 'a' ≤ c ∧ c ≤ 'f' then some (c.toNat - 87)
  else if 'A' ≤ c ∧ c ≤ 'F' then some (c.toNat - 55)
  else none

theorem hexValue_digitChar (h : n < 16) : hexValue (Nat.digitChar n) = some n := by
  have hall : ∀ k : Fin 16, hexValue (Nat.digitChar k.val) = some k.val := by decide
  exact hall ⟨n, h⟩

def base64Char (n : ℕ) : Char :=
  if n < 26 then .ofNat (65 + n)
  else if n < 52 then .ofNat (71 + n)
  else if n < 62 then .ofNat (n - 4)
  else if n = 62 then '+'
  else '/'

def base64Value (c : Char) : Option ℕ :=
  if 'A' ≤ c ∧ c ≤ 'Z' then some (c.toNat - 65)
  else if 'a' ≤ c ∧ c ≤ 'z' then some (c.toNat - 71)
  else if '0' ≤ c ∧ c ≤ '9' then some (c.toNat + 4)
  else if c = '+' then some 62
  else if c = '/' then some 63
  else none

theorem base64Value_char (h : n < 64) : base64Value (base64Char n) = some n := by
  have hall : ∀ k : Fin 64, base64Value (base64Char k.val) = some k.val := by decide
  exact hall ⟨n, h⟩

theorem mapM_read {write : ℕ → Char} {read : Char → Option ℕ}
    (hread : ∀ n < b, read (write n) = some n) (h : ∀ d ∈ ds, d < b) :
    (ds.map write).mapM read = some ds := by
  induction ds with
  | nil => rfl
  | cons d ds ih =>
    rw [List.map_cons, List.mapM_cons, hread d (h d List.mem_cons_self),
      ih fun x hx => h x (List.mem_cons_of_mem _ hx)]
    rfl

/-! ### Base64 -/

/-- Three bytes in four characters; a shorter end is filled up with zeros and padded. -/
def encode64 : List UInt8 → List Char
  | [] => []
  | [x] => (digits 64 2 (value 256 [x.toNat] * 16)).map base64Char ++ ['=', '=']
  | [x, y] => (digits 64 3 (value 256 [x.toNat, y.toNat] * 4)).map base64Char ++ ['=']
  | x :: y :: z :: rest =>
    (digits 64 4 (value 256 [x.toNat, y.toNat, z.toNat])).map base64Char ++ encode64 rest

/-- Bytes of a group of characters, of which the last bits must be zero. -/
def decodeGroup (s : List Char) (bytes fill : ℕ) : Option (List UInt8) :=
  (s.mapM base64Value).bind fun ds =>
    if value 64 ds % fill = 0 then some ((digits 256 bytes (value 64 ds / fill)).map .ofNat)
    else none

def decode64 : List Char → Option (List UInt8)
  | [] => some []
  | [p, q, '=', '='] => decodeGroup [p, q] 1 16
  | [p, q, r, '='] => decodeGroup [p, q, r] 2 4
  | p :: q :: r :: s :: rest =>
    (decodeGroup [p, q, r, s] 3 1).bind fun bs => (decode64 rest).map (bs ++ ·)
  | _ => none

theorem base64Char_ne (h : n < 64) : base64Char n ≠ '=' := by
  intro he
  have hread := base64Value_char h
  rw [he] at hread
  cases hread

theorem decodeGroup_digits (bytes : List UInt8) {fill : ℕ} (hfill : 0 < fill)
    (hw : 256 ^ bytes.length * fill = 64 ^ w) :
    decodeGroup ((digits 64 w (value 256 (bytes.map UInt8.toNat) * fill)).map base64Char)
      bytes.length fill = some bytes := by
  have hbytes : ∀ d ∈ bytes.map UInt8.toNat, d < 256 := by
    intro d hd
    obtain ⟨x, -, rfl⟩ := List.mem_map.mp hd
    exact x.toNat_lt
  have hlt := value_lt hbytes
  rw [List.length_map] at hlt
  have hread : ((digits 64 w (value 256 (bytes.map UInt8.toNat) * fill)).map base64Char).mapM
      base64Value = some (digits 64 w (value 256 (bytes.map UInt8.toNat) * fill)) :=
    mapM_read (fun n hn => base64Value_char hn) fun d hd => lt_of_mem_digits (by omega) hd
  have hvalue : value 64 (digits 64 w (value 256 (bytes.map UInt8.toNat) * fill)) =
      value 256 (bytes.map UInt8.toNat) * fill := by
    apply value_digits
    rw [← hw]
    exact Nat.mul_lt_mul_of_pos_right hlt hfill
  have hback := digits_value hbytes
  rw [List.length_map] at hback
  rw [decodeGroup, hread, Option.bind_some, hvalue, Nat.mul_mod_left, if_pos rfl,
    Nat.mul_div_cancel _ hfill, hback, List.map_map]
  exact congrArg some (by simp [Function.comp_def])

theorem decode64_cons {p q r s : Char} (hs : s ≠ '=') (rest : List Char) :
    decode64 (p :: q :: r :: s :: rest) =
      (decodeGroup [p, q, r, s] 3 1).bind fun bs => (decode64 rest).map (bs ++ ·) := by
  rw [decode64]
  · exact fun _ he => absurd he hs
  · exact fun he => absurd he hs

/-- Every text of bytes stands for them. -/
theorem decode64_encode64 (bytes : List UInt8) : decode64 (encode64 bytes) = some bytes := by
  induction bytes using encode64.induct with
  | case1 => rfl
  | case2 x =>
    have hgroup : decodeGroup ((digits 64 2 (value 256 [x.toNat] * 16)).map base64Char) 1 16 =
        some [x] := decodeGroup_digits [x] (by omega) (by simp)
    simpa only [encode64, digits, List.nil_append, List.cons_append, List.map_cons, List.map_nil,
      decode64] using hgroup
  | case3 x y =>
    have hgroup : decodeGroup ((digits 64 3 (value 256 [x.toNat, y.toNat] * 4)).map base64Char)
        2 4 = some [x, y] := decodeGroup_digits [x, y] (by omega) (by simp)
    have hlast : base64Char (value 256 [x.toNat, y.toNat] * 4 % 64) ≠ '=' :=
      base64Char_ne (Nat.mod_lt _ (by omega))
    simp only [encode64, digits, List.nil_append, List.cons_append, List.map_cons, List.map_nil]
      at hgroup ⊢
    rw [decode64]
    · exact hgroup
    · exact hlast
  | case4 x y z rest ih =>
    have hgroup : decodeGroup ((digits 64 4 (value 256 [x.toNat, y.toNat, z.toNat] * 1)).map
        base64Char) 3 1 = some [x, y, z] := decodeGroup_digits [x, y, z] (by omega) (by simp)
    have hlast : base64Char (value 256 [x.toNat, y.toNat, z.toNat] % 64) ≠ '=' :=
      base64Char_ne (Nat.mod_lt _ (by omega))
    simp only [encode64, digits, List.nil_append, List.cons_append, List.map_cons, List.map_nil,
      mul_one] at hgroup ⊢
    rw [decode64_cons hlast, hgroup, ih]
    rfl

end Radix
