import Mathlib.Data.List.TakeWhile
import Urc.Common.Json
import Urc.Library.Decimal
import Urc.Library.Radix

/-! # JSON texts

A printer of JSON values, in the compact form of `serde_json`, and a reader of the whole grammar
of JSON. The reader takes back every value that the printer writes, whatever comes behind it.
-/

namespace Urc

namespace JsonText

open Radix

/-! ### Tokens -/

def isSpace (c : Char) : Bool := c = ' ' || c = '\n' || c = '\t' || c = '\r'

def skipSpaces (s : List Char) : List Char := s.dropWhile isSpace

def isNumberChar (c : Char) : Bool :=
  c.isDigit || c = '-' || c = '+' || c = '.' || c = 'e' || c = 'E'

def isExponent : List Char → Bool
  | [] => true
  | c :: s =>
    (c = 'e' || c = 'E') &&
      let digits := match s with
        | '+' :: ds | '-' :: ds => ds
        | ds => ds
      digits ≠ [] && digits.all Char.isDigit

def isFraction : List Char → Bool
  | '.' :: s => (s.takeWhile Char.isDigit) ≠ [] && isExponent (s.dropWhile Char.isDigit)
  | s => isExponent s

/-- The grammar of numbers: no zero stands before other digits. -/
def isNumber (s : List Char) : Bool :=
  let unsigned := match s with
    | '-' :: ds => ds
    | ds => ds
  let int := unsigned.takeWhile Char.isDigit
  s.all isNumberChar && int ≠ [] && (int.head? ≠ some '0' || int = ['0']) &&
    isFraction (unsigned.dropWhile Char.isDigit)

/-- Four digits of an escaped UTF-16 code unit. -/
def codeUnit (a b c d : Char) : Option ℕ :=
  [a, b, c, d].foldlM (fun n x => (hexValue x).map (16 * n + ·)) 0

/-- The escapes of `serde_json`. -/
def escape (c : Char) : List Char :=
  if c = '"' then ['\\', '"']
  else if c = '\\' then ['\\', '\\']
  else if c = '\n' then ['\\', 'n']
  else if c = '\r' then ['\\', 'r']
  else if c = '\t' then ['\\', 't']
  else if c.toNat = 0x08 then ['\\', 'b']
  else if c.toNat = 0x0C then ['\\', 'f']
  else if c.toNat < 0x20 then
    ['\\', 'u', '0', '0', Nat.digitChar (c.toNat / 16), Nat.digitChar (c.toNat % 16)]
  else [c]

def unescape : Char → Option Char
  | '"' => some '"'
  | '\\' => some '\\'
  | '/' => some '/'
  | 'b' => some (.ofNat 0x08)
  | 'f' => some (.ofNat 0x0C)
  | 'n' => some '\n'
  | 'r' => some '\r'
  | 't' => some '\t'
  | _ => none

def quote (s : List Char) : List Char := '"' :: s.flatMap escape ++ ['"']

def readChars : List Char → Option (List Char × List Char)
  | [] => none
  | '"' :: rest => some ([], rest)
  | '\\' :: 'u' :: a :: b :: c :: d :: rest =>
    (codeUnit a b c d).bind fun n =>
      if 0xD800 ≤ n ∧ n < 0xDC00 then
        match rest with
        | '\\' :: 'u' :: a' :: b' :: c' :: d' :: rest =>
          (codeUnit a' b' c' d').bind fun m =>
            if 0xDC00 ≤ m ∧ m < 0xE000 then
              (readChars rest).map fun (s, rest) =>
                (.ofNat (0x10000 + 0x400 * (n - 0xD800) + (m - 0xDC00)) :: s, rest)
            else none
        | _ => none
      else if 0xDC00 ≤ n ∧ n < 0xE000 then none
      else (readChars rest).map fun (s, rest) => (.ofNat n :: s, rest)
  | '\\' :: c :: rest =>
    (unescape c).bind fun x => (readChars rest).map fun (s, rest) => (x :: s, rest)
  | c :: rest =>
    if c.toNat < 0x20 then none else (readChars rest).map fun (s, rest) => (c :: s, rest)

/-! ### Values -/

mutual

def print : Json → List Char
  | .null => ['n', 'u', 'l', 'l']
  | .bool true => ['t', 'r', 'u', 'e']
  | .bool false => ['f', 'a', 'l', 's', 'e']
  | .number text => text.toList
  | .string s => quote s.toList
  | .array [] => ['[', ']']
  | .array (j :: items) => '[' :: print j ++ printItems items
  | .object [] => ['{', '}']
  | .object ((key, j) :: members) =>
    '{' :: quote key.toList ++ ':' :: print j ++ printMembers members

def printItems : List Json → List Char
  | [] => [']']
  | j :: items => ',' :: print j ++ printItems items

def printMembers : List (String × Json) → List Char
  | [] => ['}']
  | (key, j) :: members => ',' :: quote key.toList ++ ':' :: print j ++ printMembers members

end

mutual

def WellFormed : Json → Prop
  | .number text => isNumber text.toList = true
  | .array items => WellFormedItems items
  | .object members => WellFormedMembers members
  | _ => True

def WellFormedItems : List Json → Prop
  | [] => True
  | j :: items => WellFormed j ∧ WellFormedItems items

def WellFormedMembers : List (String × Json) → Prop
  | [] => True
  | (_, j) :: members => WellFormed j ∧ WellFormedMembers members

end

def readNumber (s : List Char) : Option (Json × List Char) :=
  let token := s.takeWhile isNumberChar
  if isNumber token then some (.number (.ofList token), s.dropWhile isNumberChar) else none

def readKey (s : List Char) : Option (String × List Char) :=
  match skipSpaces s with
  | '"' :: s =>
    (readChars s).bind fun (key, rest) =>
      match skipSpaces rest with
      | ':' :: rest => some (.ofList key, rest)
      | _ => none
  | _ => none

mutual

/-- A value at the start of a text, and what follows it. Every call takes a character, so the
length of the text is fuel enough. -/
def readValue : ℕ → List Char → Option (Json × List Char)
  | 0, _ => none
  | fuel + 1, s =>
    match skipSpaces s with
    | 'n' :: 'u' :: 'l' :: 'l' :: rest => some (.null, rest)
    | 't' :: 'r' :: 'u' :: 'e' :: rest => some (.bool true, rest)
    | 'f' :: 'a' :: 'l' :: 's' :: 'e' :: rest => some (.bool false, rest)
    | '"' :: s => (readChars s).map fun (s, rest) => (.string (.ofList s), rest)
    | '[' :: s =>
      match skipSpaces s with
      | ']' :: rest => some (.array [], rest)
      | s => do
        let (j, rest) ← readValue fuel s
        let (items, rest) ← readItems fuel rest
        some (.array (j :: items), rest)
    | '{' :: s =>
      match skipSpaces s with
      | '}' :: rest => some (.object [], rest)
      | s => do
        let (key, rest) ← readKey s
        let (j, rest) ← readValue fuel rest
        let (members, rest) ← readMembers fuel rest
        some (.object ((key, j) :: members), rest)
    | s => readNumber s

def readItems : ℕ → List Char → Option (List Json × List Char)
  | 0, _ => none
  | fuel + 1, s =>
    match skipSpaces s with
    | ']' :: rest => some ([], rest)
    | ',' :: s => do
      let (j, rest) ← readValue fuel s
      let (items, rest) ← readItems fuel rest
      some (j :: items, rest)
    | _ => none

def readMembers : ℕ → List Char → Option (List (String × Json) × List Char)
  | 0, _ => none
  | fuel + 1, s =>
    match skipSpaces s with
    | '}' :: rest => some ([], rest)
    | ',' :: s => do
      let (key, rest) ← readKey s
      let (j, rest) ← readValue fuel rest
      let (members, rest) ← readMembers fuel rest
      some ((key, j) :: members, rest)
    | _ => none

end

def read (s : List Char) : Option Json :=
  match readValue (s.length + 1) s with
  | some (j, rest) => if skipSpaces rest = [] then some j else none
  | none => none

/-! ### Reading back what was printed -/

variable {s rest : List Char} {c : Char}

theorem readChars_escape (c : Char) (s : List Char) :
    readChars (escape c ++ s) = (readChars s).map fun (t, rest) => (c :: t, rest) := by
  unfold escape
  split_ifs with h1 h2 h3 h4 h5 h6 h7 h8
  · rw [h1]; simp [readChars, unescape]
  · rw [h2]; simp [readChars, unescape]
  · rw [h3]; simp [readChars, unescape]
  · rw [h4]; simp [readChars, unescape]
  · rw [h5]; simp [readChars, unescape]
  · have hc : c = .ofNat 0x08 := by rw [← h6, Char.ofNat_toNat]
    simp [readChars, unescape, hc]
  · have hc : c = .ofNat 0x0C := by rw [← h7, Char.ofNat_toNat]
    simp [readChars, unescape, hc]
  · have hhigh := hexValue_digitChar (show c.toNat / 16 < 16 by omega)
    have hlow := hexValue_digitChar (show c.toNat % 16 < 16 by omega)
    have hunit : codeUnit '0' '0' (Nat.digitChar (c.toNat / 16)) (Nat.digitChar (c.toNat % 16)) =
        some c.toNat := by
      have hzero : hexValue '0' = some 0 := by decide
      simp only [codeUnit, List.foldlM_cons, List.foldlM_nil, hzero, hhigh, hlow]
      simp [Nat.div_add_mod]
    simp only [List.cons_append, List.nil_append, readChars, hunit, Option.bind_some]
    rw [if_neg (by omega), if_neg (by omega), Char.ofNat_toNat]
  · simp [readChars, h2, h8]

theorem readChars_quote (t rest : List Char) :
    readChars (t.flatMap escape ++ '"' :: rest) = some (t, rest) := by
  induction t with
  | nil => simp [readChars]
  | cons c t ih => rw [List.flatMap_cons, List.append_assoc, readChars_escape, ih, Option.map_some]

theorem readKey_quote (key : String) (rest : List Char) :
    readKey (quote key.toList ++ ':' :: rest) = some (key, rest) := by
  simp [readKey, quote, skipSpaces, isSpace, readChars_quote]

def Ends (rest : List Char) : Prop := ∀ c ∈ rest.head?, isNumberChar c = false

theorem readNumber_append (h : isNumber s = true) (hrest : Ends rest) :
    readNumber (s ++ rest) = some (.number (.ofList s), rest) := by
  have hall : ∀ c ∈ s, isNumberChar c = true := by
    simp only [isNumber, Bool.and_eq_true, List.all_eq_true] at h
    exact h.1.1.1
  have htake : (s ++ rest).takeWhile isNumberChar = s := by
    rw [List.takeWhile_append_of_pos hall]
    cases rest with
    | nil => simp
    | cons c rest => simp [hrest c rfl]
  have hdrop : (s ++ rest).dropWhile isNumberChar = rest := by
    rw [List.dropWhile_append_of_pos hall]
    cases rest with
    | nil => rfl
    | cons c rest => exact List.dropWhile_cons_of_neg (by simp [hrest c rfl])
  rw [readNumber, htake, hdrop, if_pos h]

theorem printItems_ends (items : List Json) (rest : List Char) :
    Ends (printItems items ++ rest) := by
  intro c hc
  cases items <;> (simp [printItems] at hc; subst hc; rfl)

theorem printMembers_ends (members : List (String × Json)) (rest : List Char) :
    Ends (printMembers members ++ rest) := by
  intro c hc
  match members with
  | [] => simp [printMembers] at hc; subst hc; rfl
  | (_, _) :: _ => simp [printMembers] at hc; subst hc; rfl

theorem skipSpaces_cons (h : isSpace c = false) : skipSpaces (c :: s) = c :: s :=
  List.dropWhile_cons_of_neg (by simp [h])

theorem exists_cons_of_isNumber (h : isNumber s = true) :
    ∃ c t, s = c :: t ∧ isNumberChar c = true := by
  cases s with
  | nil => cases h
  | cons c t =>
    simp only [isNumber, Bool.and_eq_true, List.all_eq_true] at h
    exact ⟨c, t, rfl, h.1.1.1 c List.mem_cons_self⟩

theorem exists_cons_of_wellFormed {j : Json} (h : WellFormed j) :
    ∃ c t, print j = c :: t ∧ isSpace c = false ∧ c ≠ ']' := by
  match j with
  | .null => exact ⟨_, _, rfl, rfl, by decide⟩
  | .bool true => exact ⟨_, _, rfl, rfl, by decide⟩
  | .bool false => exact ⟨_, _, rfl, rfl, by decide⟩
  | .number text =>
    obtain ⟨c, t, hs, hc⟩ := exists_cons_of_isNumber h
    refine ⟨c, t, hs, ?_, ?_⟩
    · cases hspace : isSpace c with
      | false => rfl
      | true =>
        simp only [isSpace, Bool.or_eq_true, decide_eq_true_eq] at hspace
        rcases hspace with ((rfl | rfl) | rfl) | rfl <;> cases hc
    · rintro rfl
      cases hc
  | .string s => exact ⟨_, _, rfl, rfl, by decide⟩
  | .array [] => exact ⟨_, _, rfl, rfl, by decide⟩
  | .array (_ :: _) => exact ⟨_, _, rfl, rfl, by decide⟩
  | .object [] => exact ⟨_, _, rfl, rfl, by decide⟩
  | .object ((_, _) :: _) => exact ⟨_, _, rfl, rfl, by decide⟩

theorem readValue_number {fuel : ℕ} (h : isNumber s = true) (hrest : Ends rest) :
    readValue (fuel + 1) (s ++ rest) = some (.number (.ofList s), rest) := by
  obtain ⟨c, t, hs, hc⟩ := exists_cons_of_isNumber h
  have hspace : isSpace c = false := by
    obtain ⟨c', t', hs', hc', -⟩ := exists_cons_of_wellFormed (j := .number (.ofList s))
      (by simpa [WellFormed] using h)
    simp only [print, String.toList_ofList, hs, List.cons.injEq] at hs'
    exact hs'.1 ▸ hc'
  rw [← readNumber_append h hrest, hs, List.cons_append, readValue, skipSpaces_cons hspace]
  -- no other token starts like a number
  have hhead : ∀ d t', c :: (t ++ rest) = d :: t' → isNumberChar d = true := fun d t' he =>
    (List.cons.inj he).1 ▸ hc
  split
  · cases hhead _ _ ‹_›
  · cases hhead _ _ ‹_›
  · cases hhead _ _ ‹_›
  · cases hhead _ _ ‹_›
  · cases hhead _ _ ‹_›
  · cases hhead _ _ ‹_›
  · rfl

theorem readValue_array {fuel : ℕ} (hspace : isSpace c = false) (hc : c ≠ ']') :
    readValue (fuel + 1) ('[' :: c :: s) =
      (readValue fuel (c :: s)).bind fun x => (readItems fuel x.2).map fun y =>
        (.array (x.1 :: y.1), y.2) := by
  have hopen : skipSpaces ('[' :: c :: s) = '[' :: c :: s := skipSpaces_cons rfl
  have hfirst : skipSpaces (c :: s) = c :: s := skipSpaces_cons hspace
  simp only [readValue, hopen, hfirst]
  split
  · exact absurd (List.cons.inj ‹_›).1 hc
  · simp only [Option.map_eq_bind, Option.bind_eq_bind, Function.comp_def]

theorem readValue_object {fuel : ℕ} {key : String} :
    readValue (fuel + 1) ('{' :: (quote key.toList ++ ':' :: s)) =
      (readValue fuel s).bind fun x => (readMembers fuel x.2).map fun y =>
        (.object ((key, x.1) :: y.1), y.2) := by
  have hopen : ∀ t, skipSpaces ('{' :: t) = '{' :: t := fun t => skipSpaces_cons rfl
  have hfirst : skipSpaces (quote key.toList ++ ':' :: s) = quote key.toList ++ ':' :: s :=
    skipSpaces_cons rfl
  simp only [readValue, hopen, hfirst]
  split
  · exact absurd (List.cons.inj ‹_›).1 (by decide)
  · simp only [readKey_quote, Option.map_eq_bind, Option.bind_eq_bind, Option.bind_some,
      Function.comp_def]

mutual

/-- Along the printer: the fuel covers the text, and the text behind it is left. -/
theorem readValue_print (j : Json) (fuel : ℕ) (rest : List Char) (hj : WellFormed j)
    (hfuel : (print j).length ≤ fuel) (hrest : Ends rest) :
    readValue fuel (print j ++ rest) = some (j, rest) := by
  obtain ⟨c, t, hc, -⟩ := exists_cons_of_wellFormed hj
  obtain ⟨fuel, rfl⟩ : ∃ n, fuel = n + 1 :=
    ⟨fuel - 1, by rw [hc, List.length_cons] at hfuel; omega⟩
  match j with
  | .null => simp [print, readValue, skipSpaces, isSpace]
  | .bool true => simp [print, readValue, skipSpaces, isSpace]
  | .bool false => simp [print, readValue, skipSpaces, isSpace]
  | .number text =>
    have hread : readValue (fuel + 1) (text.toList ++ rest) =
        some (.number (.ofList text.toList), rest) := readValue_number hj hrest
    rwa [String.ofList_toList] at hread
  | .string s => simp [print, readValue, skipSpaces, isSpace, quote, readChars_quote]
  | .array [] => simp [print, readValue, skipSpaces, isSpace]
  | .array (j :: items) =>
    obtain ⟨hj, hitems⟩ := hj
    simp only [print, List.length_cons, List.length_append] at hfuel
    have hval := readValue_print j fuel (printItems items ++ rest) hj (by omega)
      (printItems_ends items rest)
    have htail := readItems_print items fuel rest hitems (by omega)
    obtain ⟨c, t, hc, hspace, hbracket⟩ := exists_cons_of_wellFormed hj
    rw [hc, List.cons_append] at hval
    rw [print, hc]
    simp only [List.cons_append, List.append_assoc]
    rw [readValue_array hspace hbracket, hval, Option.bind_some, htail, Option.map_some]
  | .object [] => simp [print, readValue, skipSpaces, isSpace]
  | .object ((key, j) :: members) =>
    obtain ⟨hj, hmembers⟩ := hj
    simp only [print, List.length_cons, List.length_append] at hfuel
    have hval := readValue_print j fuel (printMembers members ++ rest) hj (by omega)
      (printMembers_ends members rest)
    have htail := readMembers_print members fuel rest hmembers (by omega)
    rw [print]
    simp only [List.cons_append, List.append_assoc]
    rw [readValue_object, hval, Option.bind_some, htail, Option.map_some]

theorem readItems_print (items : List Json) (fuel : ℕ) (rest : List Char)
    (hitems : WellFormedItems items) (hfuel : (printItems items).length ≤ fuel) :
    readItems fuel (printItems items ++ rest) = some (items, rest) := by
  match items, fuel with
  | [], fuel + 1 => simp [printItems, readItems, skipSpaces, isSpace]
  | [], 0 => simp [printItems] at hfuel
  | j :: items, 0 => simp [printItems] at hfuel
  | j :: items, fuel + 1 =>
    obtain ⟨hj, hitems⟩ := hitems
    simp only [printItems, List.length_cons, List.length_append] at hfuel
    have hval := readValue_print j fuel (printItems items ++ rest) hj (by omega)
      (printItems_ends items rest)
    have htail := readItems_print items fuel rest hitems (by omega)
    simp [printItems, readItems, skipSpaces, isSpace, hval, htail]

theorem readMembers_print (members : List (String × Json)) (fuel : ℕ) (rest : List Char)
    (hmembers : WellFormedMembers members) (hfuel : (printMembers members).length ≤ fuel) :
    readMembers fuel (printMembers members ++ rest) = some (members, rest) := by
  match members, fuel with
  | [], fuel + 1 => simp [printMembers, readMembers, skipSpaces, isSpace]
  | [], 0 => simp [printMembers] at hfuel
  | (key, j) :: members, 0 => simp [printMembers] at hfuel
  | (key, j) :: members, fuel + 1 =>
    obtain ⟨hj, hmembers⟩ := hmembers
    simp only [printMembers, List.length_cons, List.length_append] at hfuel
    have hval := readValue_print j fuel (printMembers members ++ rest) hj (by omega)
      (printMembers_ends members rest)
    have htail := readMembers_print members fuel rest hmembers (by omega)
    simp [printMembers, readMembers, skipSpaces, isSpace, readKey_quote, hval, htail]

end

/-- The reader takes back what the printer writes. -/
theorem read_print {j : Json} (hj : WellFormed j) : read (print j) = some j := by
  have hval := readValue_print j ((print j).length + 1) [] hj (by omega) (by simp [Ends])
  rw [List.append_nil] at hval
  simp [read, hval, skipSpaces]

/-! ### Integers -/

open Decimal

theorem isNumberChar_of_isDigit (h : c.isDigit = true) : isNumberChar c = true := by
  simp [isNumberChar, h]

theorem isNumber_digits {unsigned : List Char} (h : IsNumeral unsigned)
    (hs : s = unsigned ∨ s = '-' :: unsigned) : isNumber s = true := by
  have htake : unsigned.takeWhile Char.isDigit = unsigned :=
    List.takeWhile_eq_self_iff.mpr h.digits
  have hdrop : unsigned.dropWhile Char.isDigit = [] := List.dropWhile_eq_nil_iff.mpr h.digits
  have hzero : unsigned.head? = some '0' → unsigned = ['0'] := h.zero
  have hchars : ∀ c ∈ unsigned, isNumberChar c = true := fun c hc =>
    isNumberChar_of_isDigit (h.digits c hc)
  have hne : ∀ ds, unsigned ≠ '-' :: ds := by
    rintro ds rfl
    exact absurd (h.digits '-' List.mem_cons_self) (by decide)
  rcases hs with rfl | rfl
  · unfold isNumber
    split
    · exact absurd rfl (hne _)
    · simpa [htake, hdrop, h.ne_nil, isFraction, isExponent, imp_iff_not_or.symm] using
        ⟨hchars, hzero⟩
  · have hminus : isNumberChar '-' = true := rfl
    simpa [isNumber, htake, hdrop, h.ne_nil, isFraction, isExponent, hminus,
      imp_iff_not_or.symm] using ⟨hchars, hzero⟩

theorem isNumber_nat (n : ℕ) : isNumber (toString n).toList = true := by
  rw [Nat.toString_eq_repr, Nat.toList_repr]
  exact isNumber_digits (isNumeral_toDigits n) (.inl rfl)

def readNat (s : List Char) : Option ℕ :=
  if s ≠ [] ∧ s.all Char.isDigit = true then some (value s) else none

theorem readNat_toString (n : ℕ) : readNat (toString n).toList = some n := by
  rw [Nat.toString_eq_repr, Nat.toList_repr, readNat, value_toDigits]
  exact if_pos ⟨Nat.toDigits_ne_nil, List.all_eq_true.mpr (isNumeral_toDigits n).digits⟩

def readInt : List Char → Option ℤ
  | '-' :: ds => (readNat ds).map fun n => -(n : ℤ)
  | ds => (readNat ds).map fun n => (n : ℤ)

theorem toList_neg (n : ℕ) :
    (toString (Int.negSucc n)).toList = '-' :: (toString (n + 1)).toList := by
  rw [Int.toString_eq_repr, Nat.toString_eq_repr]
  simp [Int.repr]

theorem isNumber_int (z : ℤ) : isNumber (toString z).toList = true := by
  cases z with
  | ofNat n => exact isNumber_nat n
  | negSucc n =>
    rw [toList_neg, Nat.toString_eq_repr, Nat.toList_repr]
    exact isNumber_digits (isNumeral_toDigits (n + 1)) (.inr rfl)

theorem readInt_toString (z : ℤ) : readInt (toString z).toList = some z := by
  cases z with
  | ofNat n =>
    have hdigits : (toString (Int.ofNat n)).toList = (toString n).toList := rfl
    rw [hdigits, readInt]
    · rw [readNat_toString]
      rfl
    · intro ds hds
      have hminus : '-' ∈ Nat.toDigits 10 n := by
        rw [← Nat.toList_repr, ← Nat.toString_eq_repr, hds]
        exact List.mem_cons_self
      exact absurd ((isNumeral_toDigits n).digits '-' hminus) (by decide)
  | negSucc n =>
    rw [toList_neg, readInt, readNat_toString]
    rfl

end JsonText

/-- A printer of JSON values and a reader that takes back what it prints. -/
structure JsonCodec where
  print : Json → String
  parse : String → Option Json
  parse_print : ∀ j, JsonText.WellFormed j → parse (print j) = some j

def JsonCodec.compact : JsonCodec where
  print j := .ofList (JsonText.print j)
  parse s := JsonText.read s.toList
  parse_print j hj := by rw [String.toList_ofList, JsonText.read_print hj]

end Urc
