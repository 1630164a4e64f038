import Mathlib.Data.List.DropRight

/-! # Texts of the standard library

Trimming, splitting and reading of strings. Rust and Kotlin trim alike, each with its own notion of
white space.
-/

namespace Urc

/-- A text without the characters of a kind at both of its ends. -/
def trimChars (p : Char → Bool) (s : List Char) : List Char := (s.dropWhile p).rdropWhile p

/-- The `White_Space` characters of Unicode. -/
def isWhitespace (c : Char) : Bool :=
  let n := c.toNat
  (9 ≤ n && n ≤ 13) || n == 32 || n == 0x85 || n == 0xA0 || n == 0x1680 ||
    (0x2000 ≤ n && n ≤ 0x200A) || n == 0x2028 || n == 0x2029 || n == 0x202F || n == 0x205F ||
    n == 0x3000

/-- `str::trim`. -/
def trim (s : String) : String := .ofList (trimChars isWhitespace s.toList)

/-- `str::lines`. -/
def lines (s : String) : List String :=
  let parts := s.toList.splitOn '\n'
  -- a line that ends with a line feed may have a carriage return before it
  let ended := parts.dropLast.map fun l => if l.getLast? = some '\r' then l.dropLast else l
  (ended ++ parts.getLast?.toList.filter (· ≠ [])).map .ofList

/-- `str::split_whitespace`. -/
def splitWhitespace (s : String) : List String :=
  ((s.toList.splitOnP isWhitespace).filter (· ≠ [])).map .ofList

/-- `str::strip_prefix`. -/
def stripPrefix (s pre : String) : Option String := (s.toList.dropPrefix? pre.toList).map .ofList

/-- `str::parse::<u32>`. -/
def parseU32 (s : String) : Option UInt32 :=
  let digits := if s.toList.head? = some '+' then s.toList.tail else s.toList
  if digits ≠ [] ∧ digits.all Char.isDigit then
    let value := digits.foldl (fun v c => 10 * v + (c.toNat - '0'.toNat)) 0
    if value < UInt32.size then some (.ofNat value) else none
  else none

/-- `str::parse::<u16>`. -/
def parseU16 (s : String) : Option UInt16 :=
  (parseU32 s).bind fun n => if n.toNat < UInt16.size then some (.ofNat n.toNat) else none

/-- `str::replace` behind a number of characters that belong to the last match. -/
def replaceFrom (pat rep : List Char) : ℕ → List Char → List Char
  | _, [] => []
  | n + 1, _ :: s => replaceFrom pat rep n s
  | 0, c :: s =>
    if pat <+: c :: s then rep ++ replaceFrom pat rep (pat.length - 1) s
    else c :: replaceFrom pat rep 0 s

/-- `str::replace`, for a pattern that is not empty. -/
def replace (s pat rep : String) : String :=
  .ofList (replaceFrom pat.toList rep.toList 0 s.toList)

/-- `to_lowercase` of an ASCII text. -/
def asciiLower (s : String) : String := .ofList (s.toList.map Char.toLower)

variable {p : Char → Bool} {s : List Char}

/-- A text that neither starts nor ends with such a character stays as it is. -/
theorem trimChars_eq_self (hhead : ∀ c ∈ s.head?, p c = false)
    (hlast : ∀ c ∈ s.getLast?, p c = false) : trimChars p s = s := by
  have hdrop : s.dropWhile p = s := by
    cases s with
    | nil => rfl
    | cons c s => exact List.dropWhile_cons_of_neg (by simp [hhead c rfl])
  unfold trimChars
  rw [hdrop, List.rdropWhile_eq_self_iff]
  intro hne
  simp [hlast _ (List.getLast?_eq_some_getLast hne)]

theorem trimChars_of_forall (h : ∀ c ∈ s, p c = false) : trimChars p s = s :=
  trimChars_eq_self (fun c hc => h c (List.mem_of_mem_head? hc))
    fun c hc => h c (List.mem_of_mem_getLast? hc)

theorem rdropWhile_append {pre : List Char} (hlast : ∀ c ∈ pre.getLast?, p c = false)
    (s : List Char) : (pre ++ s).rdropWhile p = pre ++ s.rdropWhile p := by
  induction s using List.reverseRecOn with
  | nil =>
    rw [List.append_nil, List.rdropWhile_nil, List.append_nil, List.rdropWhile_eq_self_iff]
    intro hne
    simp [hlast _ (List.getLast?_eq_some_getLast hne)]
  | append_singleton s c ih =>
    rw [← List.append_assoc, List.rdropWhile_concat, List.rdropWhile_concat]
    split_ifs with hc
    · exact ih
    · rw [List.append_assoc]

theorem trimChars_append {c : Char} {pre : List Char} (hc : p c = false)
    (hlast : ∀ d ∈ (c :: pre).getLast?, p d = false) (s : List Char) :
    trimChars p (c :: pre ++ s) = c :: pre ++ s.rdropWhile p := by
  rw [trimChars, List.cons_append, List.dropWhile_cons_of_neg (by simp [hc]), ← List.cons_append,
    rdropWhile_append hlast]

theorem decide_ne_of_not_mem {d : Char} (h : d ∉ s) : ∀ c ∈ s, decide (c ≠ d) = true := by
  intro c hc
  rw [decide_eq_true_eq]
  rintro rfl
  exact h hc

theorem takeWhile_append_of_not_mem {d : Char} (h : d ∉ s) (t : List Char) :
    (s ++ t).takeWhile (· ≠ d) = s ++ t.takeWhile (· ≠ d) :=
  List.takeWhile_append_of_pos (decide_ne_of_not_mem h)

/-- A delimiter cuts a text behind a part without it. -/
theorem cut_append {d : Char} {key : List Char} (hd : d ∉ key) (rest : List Char) :
    (key ++ d :: rest).takeWhile (· ≠ d) = key ∧
      (key ++ d :: rest).dropWhile (· ≠ d) = d :: rest := by
  rw [takeWhile_append_of_not_mem hd, List.dropWhile_append_of_pos (decide_ne_of_not_mem hd)]
  simp

theorem not_mem_of_mem_splitOn {a : Char} {s l : List Char} (hs : s ∈ l.splitOn a) : a ∉ s := by
  induction l generalizing s with
  | nil =>
    rw [List.splitOn_nil, List.mem_singleton] at hs
    simp [hs]
  | cons c l ih =>
    rw [List.splitOn_cons_eq_if_modifyHead] at hs
    obtain ⟨first, parts, hparts⟩ := List.exists_cons_of_ne_nil (List.splitOn_ne_nil a l)
    rw [hparts] at hs ih
    split_ifs at hs with hc
    · rcases List.mem_cons.mp hs with rfl | hs
      · simp
      · exact ih hs
    · rcases List.mem_cons.mp hs with rfl | hs
      · have hfirst := ih List.mem_cons_self
        have hne : a ≠ c := fun he => hc (by simp [he])
        simp [hne, hfirst]
      · exact ih (List.mem_cons_of_mem _ hs)

theorem replaceFrom_skip (pat rep s t : List Char) :
    replaceFrom pat rep s.length (s ++ t) = replaceFrom pat rep 0 t := by
  induction s with
  | nil => rfl
  | cons c s ih => exact ih

theorem replaceFrom_append {pat rep s t : List Char}
    (h : ∀ s', s' <:+ s → s' ≠ [] → ¬ pat <+: s' ++ t) :
    replaceFrom pat rep 0 (s ++ t) = s ++ replaceFrom pat rep 0 t := by
  induction s with
  | nil => rfl
  | cons c s ih =>
    have hhead : ¬ pat <+: c :: (s ++ t) := h (c :: s) List.suffix_rfl (by simp)
    have htail := ih fun s' hs' => h s' (hs'.trans (List.suffix_cons c s))
    rw [List.cons_append, replaceFrom, if_neg hhead, htail, List.cons_append]

theorem replaceFrom_match {c : Char} {pat rep t : List Char} :
    replaceFrom (c :: pat) rep 0 (c :: pat ++ t) = rep ++ replaceFrom (c :: pat) rep 0 t := by
  rw [List.cons_append, replaceFrom, if_pos ⟨t, by simp⟩, List.length_cons, Nat.add_sub_cancel,
    replaceFrom_skip]

end Urc
