import Mathlib.Data.List.Basic

/-! # Percent encoding

An encoder goes over the characters of a text: it keeps a character, or writes the bytes of
its UTF-8 form, each as a percent sign with two digits. Which characters are kept is a
parameter. The decoder returns bytes, as an escape need not come from a valid text.
-/

namespace Percent

def hexDigit (k : ℕ) : Char := Char.ofNat (if k < 10 then 48 + k else 55 + k)

def hexValue (c : Char) : Option ℕ :=
  if '0' ≤ c ∧ c ≤ '9' then some (c.toNat - 48)
  else if 'A' ≤ c ∧ c ≤ 'F' then some (c.toNat - 55)
  else if 'a' ≤ c ∧ c ≤ 'f' then some (c.toNat - 87)
  else none

def encodeByte (b : UInt8) : List Char := ['%', hexDigit (b.toNat / 16), hexDigit (b.toNat % 16)]

def utf8 (s : List Char) : List UInt8 := s.flatMap String.utf8EncodeChar

def encodeChar (keep : Char → Bool) (c : Char) : List Char :=
  if keep c then [c] else (String.utf8EncodeChar c).flatMap encodeByte

def encode (keep : Char → Bool) (s : List Char) : List Char := s.flatMap (encodeChar keep)

/-- The bytes of a text with its escapes undone; a percent sign without two digits is kept. -/
def decode : List Char → List UInt8
  | [] => []
  | c :: rest =>
    if c = '%' then
      match rest with
      | h :: l :: more =>
        match hexValue h, hexValue l with
        | some a, some b => UInt8.ofNat (16 * a + b) :: decode more
        | _, _ => 37 :: decode (h :: l :: more)
      | rest => 37 :: decode rest
    else String.utf8EncodeChar c ++ decode rest

/-- The bytes of a value in a query: a plus sign stands for a space, and there are none if an escape
is malformed. -/
def decodeForm : List Char → Option (List UInt8)
  | [] => some []
  | c :: rest =>
    if c = '%' then
      match rest with
      | h :: l :: more =>
        match hexValue h, hexValue l with
        | some a, some b => (decodeForm more).map (UInt8.ofNat (16 * a + b) :: ·)
        | _, _ => none
      | _ => none
    else (decodeForm rest).map ((if c = '+' then [32] else String.utf8EncodeChar c) ++ ·)

def decodeUtf8 (bs : List UInt8) : Option String := String.fromUTF8? bs.toByteArray

/-- The text of the bytes of a run of escapes, or the replacement character. -/
def runText (run : List UInt8) : List Char :=
  ((decodeUtf8 run).map String.toList).getD [Char.ofNat 0xFFFD]

/-- Decoding to a text, by the reading of the bytes of adjacent escapes. A percent sign without two
digits is replaced. -/
def decodeText (read : List UInt8 → List Char) : List UInt8 → List Char → List Char
  | run, [] => read run
  | run, c :: rest =>
    if c = '%' then
      match rest with
      | h :: l :: more =>
        match hexValue h, hexValue l with
        | some a, some b => decodeText read (run ++ [UInt8.ofNat (16 * a + b)]) more
        | _, _ => read run ++ Char.ofNat 0xFFFD :: decodeText read [] (h :: l :: more)
      | rest => read run ++ Char.ofNat 0xFFFD :: decodeText read [] rest
    else read run ++ c :: decodeText read [] rest

/-- Every percent sign begins an escape. -/
inductive WellEscaped : List Char → Prop
  | nil : WellEscaped []
  | plain {c s} (hc : c ≠ '%') (hs : WellEscaped s) : WellEscaped (c :: s)
  | escape {h l a b s} (hh : hexValue h = some a) (hl : hexValue l = some b) (hs : WellEscaped s) :
    WellEscaped ('%' :: h :: l :: s)

def escapes : List Char → List UInt8
  | [] => []
  | c :: rest =>
    if c = '%' then
      match rest with
      | h :: l :: more =>
        match hexValue h, hexValue l with
        | some a, some b => UInt8.ofNat (16 * a + b) :: escapes more
        | _, _ => escapes (h :: l :: more)
      | rest => escapes rest
    else escapes rest

def byteOf (c : Char) : UInt8 := UInt8.ofNat c.toNat

/-- A reader of UTF-8, whatever it makes of invalid bytes besides a replacement character. -/
structure ReadsUtf8 (read : List UInt8 → List Char) : Prop where
  valid : ∀ s, read (utf8 s) = s
  invalid : ∀ bs, (∀ s, bs ≠ utf8 s) → Char.ofNat 0xFFFD ∈ read bs
  ascii : ∀ bs, ∀ c ∈ read bs, c.toNat < 128 → byteOf c ∈ bs

variable {keep stop : Char → Bool} {s : List Char}

theorem hexValue_hexDigit {k : ℕ} (h : k < 16) : hexValue (hexDigit k) = some k := by
  have hall : ∀ k : Fin 16, hexValue (hexDigit k) = some k.val := by decide
  exact hall ⟨k, h⟩

theorem hexValue_halves (b : UInt8) : hexValue (hexDigit (b.toNat / 16)) = some (b.toNat / 16) ∧
    hexValue (hexDigit (b.toNat % 16)) = some (b.toNat % 16) ∧
    16 * (b.toNat / 16) + b.toNat % 16 = b.toNat := by
  have hb : b.toNat < 256 := b.toNat_lt
  refine ⟨hexValue_hexDigit ?_, hexValue_hexDigit ?_, ?_⟩ <;> omega

theorem decode_encodeByte (b : UInt8) (rest : List Char) :
    decode (encodeByte b ++ rest) = b :: decode rest := by
  obtain ⟨hhigh, hlow, hsum⟩ := hexValue_halves b
  simp only [encodeByte, List.cons_append, List.nil_append, decode, if_true, hhigh, hlow, hsum,
    UInt8.ofNat_toNat]

theorem decode_encodeBytes (bs : List UInt8) (rest : List Char) :
    decode (bs.flatMap encodeByte ++ rest) = bs ++ decode rest := by
  induction bs with
  | nil => rfl
  | cons b bs ih =>
    rw [List.flatMap_cons, List.append_assoc, decode_encodeByte, ih, List.cons_append]

theorem decode_cons_of_ne {c : Char} (h : c ≠ '%') (rest : List Char) :
    decode (c :: rest) = String.utf8EncodeChar c ++ decode rest := by
  rw [decode.eq_def]
  simp only [if_neg h]

theorem decode_encodeChar (hp : keep '%' = false) (c : Char) (rest : List Char) :
    decode (encodeChar keep c ++ rest) = String.utf8EncodeChar c ++ decode rest := by
  unfold encodeChar
  split_ifs with hc
  · refine decode_cons_of_ne ?_ rest
    rintro rfl
    simp [hp] at hc
  · exact decode_encodeBytes _ rest

/-- Decoding undoes encoding, if percent signs are encoded. -/
theorem decode_encode (hp : keep '%' = false) (s : List Char) :
    decode (encode keep s) = utf8 s := by
  induction s with
  | nil => rfl
  | cons c s ih =>
    rw [encode, List.flatMap_cons, decode_encodeChar hp, utf8, List.flatMap_cons]
    exact congrArg _ ih

theorem encode_eq_nil : encode keep s = [] ↔ s = [] := by
  constructor
  · intro h
    cases s with
    | nil => rfl
    | cons c s =>
      have hc : encodeChar keep c = [] := List.flatMap_eq_nil_iff.mp h c List.mem_cons_self
      unfold encodeChar at hc
      split_ifs at hc
      obtain ⟨b, bs, hb⟩ := List.exists_cons_of_ne_nil (String.utf8EncodeChar_ne_nil (c := c))
      rw [hb] at hc
      cases hc
  · rintro rfl
    rfl

theorem decodeUtf8_utf8 (s : List Char) : decodeUtf8 (utf8 s) = some (String.ofList s) := by
  have hbytes : (utf8 s).toByteArray = (String.ofList s).toByteArray := by
    rw [String.toByteArray_ofList, List.utf8Encode, utf8]
  rw [decodeUtf8, String.fromUTF8?, dif_pos (hbytes ▸ (String.ofList s).isValidUTF8)]
  exact congrArg some (String.toByteArray_inj.mp hbytes)

theorem runText_utf8 (s : List Char) : runText (utf8 s) = s := by
  rw [runText, decodeUtf8_utf8, Option.map_some, Option.getD_some, String.toList_ofList]

theorem eq_utf8 {bs : List UInt8} {t : String} (h : decodeUtf8 bs = some t) :
    bs = utf8 t.toList := by
  rw [decodeUtf8, String.fromUTF8?] at h
  split_ifs at h
  obtain rfl := Option.some.inj h
  rw [← List.toByteArray_inj]
  exact (String.utf8Encode_toList (b := String.fromUTF8 bs.toByteArray _)).symm

theorem toNat_of_mem_utf8EncodeChar {b : UInt8} {c : Char} (hb : b.toNat < 128)
    (h : b ∈ String.utf8EncodeChar c) : b.toNat = c.toNat := by
  have hc : c.val.toNat = c.toNat := rfl
  have hsmall : ∀ k < 256, (UInt8.ofNat k).toNat = k := fun k hk => UInt8.toNat_ofNat_of_lt' hk
  have hbig : ∀ k, 128 ≤ k → k < 256 → b ≠ UInt8.ofNat k := by
    rintro k hlow hhigh rfl
    rw [hsmall k hhigh] at hb
    omega
  simp only [String.utf8EncodeChar, hc] at h
  split_ifs at h <;> simp only [List.mem_cons, List.not_mem_nil, or_false] at h
  · rw [h, hsmall _ (by omega)]
  · obtain h | h := h <;> exact absurd h (hbig _ (by omega) (by omega))
  · obtain h | h | h := h <;> exact absurd h (hbig _ (by omega) (by omega))
  · obtain h | h | h | h := h <;> exact absurd h (hbig _ (by omega) (by omega))

theorem toNat_byteOf {c : Char} (hc : c.toNat < 128) : (byteOf c).toNat = c.toNat :=
  UInt8.toNat_ofNat_of_lt' (Nat.lt_trans hc (by decide))

theorem byteOf_mem_utf8EncodeChar {c : Char} (hc : c.toNat < 128) :
    byteOf c ∈ String.utf8EncodeChar c := by
  have hle : c.val.toNat ≤ 127 := Nat.le_of_lt_succ hc
  rw [String.utf8EncodeChar, if_pos hle]
  exact List.mem_singleton.mpr rfl

theorem readsUtf8_runText : ReadsUtf8 runText where
  valid := runText_utf8
  invalid bs hbs := by
    have hnone : decodeUtf8 bs = none := by
      cases ht : decodeUtf8 bs with
      | none => rfl
      | some t => exact absurd (eq_utf8 ht) (hbs _)
    simp [runText, hnone]
  ascii bs c hc hlt := by
    cases ht : decodeUtf8 bs with
    | none =>
      rw [runText, ht, Option.map_none, Option.getD_none, List.mem_singleton] at hc
      rw [hc] at hlt
      exact absurd hlt (by decide)
    | some t =>
      rw [runText, ht, Option.map_some, Option.getD_some] at hc
      rw [eq_utf8 ht]
      exact List.mem_flatMap.mpr ⟨c, hc, byteOf_mem_utf8EncodeChar hlt⟩

/-! ### Well-escaped texts -/

section Escapes

variable {read : List UInt8 → List Char} {run : List UInt8} {rest : List Char} {c h l : Char}
  {a b : ℕ}

theorem decodeText_cons (hc : c ≠ '%') :
    decodeText read run (c :: rest) = read run ++ c :: decodeText read [] rest := by
  rw [decodeText.eq_def]
  simp only [if_neg hc]

theorem decodeText_escape (hh : hexValue h = some a) (hl : hexValue l = some b) :
    decodeText read run ('%' :: h :: l :: rest) =
      decodeText read (run ++ [UInt8.ofNat (16 * a + b)]) rest := by
  simp only [decodeText, if_true, hh, hl]

theorem decode_escape (hh : hexValue h = some a) (hl : hexValue l = some b) :
    decode ('%' :: h :: l :: rest) = UInt8.ofNat (16 * a + b) :: decode rest := by
  simp only [decode, if_true, hh, hl]

theorem escapes_cons (hc : c ≠ '%') : escapes (c :: rest) = escapes rest := by
  rw [escapes.eq_def]
  simp only [if_neg hc]

theorem escapes_escape (hh : hexValue h = some a) (hl : hexValue l = some b) :
    escapes ('%' :: h :: l :: rest) = UInt8.ofNat (16 * a + b) :: escapes rest := by
  simp only [escapes, if_true, hh, hl]

theorem WellEscaped.of_cons (hc : c ≠ '%') (hs : WellEscaped (c :: s)) : WellEscaped s := by
  cases hs with
  | plain _ hs => exact hs
  | escape => exact absurd rfl hc

theorem escapes_of_not_mem (hs : '%' ∉ s) : escapes s = [] := by
  induction s with
  | nil => rfl
  | cons c s ih =>
    rw [List.mem_cons, not_or] at hs
    rw [escapes_cons (Ne.symm hs.1), ih hs.2]

theorem WellEscaped.of_not_mem (hs : '%' ∉ s) : WellEscaped s := by
  induction s with
  | nil => exact .nil
  | cons c s ih =>
    rw [List.mem_cons, not_or] at hs
    exact .plain (Ne.symm hs.1) (ih hs.2)

theorem wellEscaped_escape : WellEscaped ('%' :: h :: l :: s) ↔
    (hexValue h).isSome ∧ (hexValue l).isSome ∧ WellEscaped s := by
  constructor
  · intro hs
    cases hs with
    | plain hc => exact absurd rfl hc
    | escape hh hl hs => exact ⟨by rw [hh]; rfl, by rw [hl]; rfl, hs⟩
  · rintro ⟨hh, hl, hs⟩
    exact .escape (Option.some_get hh).symm (Option.some_get hl).symm hs

instance decidableWellEscaped : (s : List Char) → Decidable (WellEscaped s)
  | [] => isTrue .nil
  | c :: rest =>
    if hc : c = '%' then
      match rest with
      | [] => isFalse (by subst hc; intro hs; cases hs; contradiction)
      | [_] => isFalse (by subst hc; intro hs; cases hs; contradiction)
      | h :: l :: more =>
        have := decidableWellEscaped more
        decidable_of_iff _ (hc ▸ wellEscaped_escape.symm)
    else
      have := decidableWellEscaped rest
      decidable_of_iff (WellEscaped rest) ⟨.plain hc, .of_cons hc⟩

/-- A text falls apart at a character that no escape contains. -/
theorem wellEscaped_append_cons (hc : c ≠ '%') (hdigit : hexValue c = none) :
    WellEscaped (s ++ c :: rest) ↔ WellEscaped s ∧ WellEscaped rest := by
  constructor
  · generalize htext : s ++ c :: rest = text
    intro hs
    induction hs generalizing s with
    | nil => simp at htext
    | plain hd hs ih =>
      cases s with
      | nil =>
        obtain ⟨rfl, rfl⟩ := List.cons.inj htext
        exact ⟨.nil, hs⟩
      | cons d s =>
        obtain ⟨rfl, htail⟩ := List.cons.inj htext
        exact ⟨.plain hd (ih htail).1, (ih htail).2⟩
    | escape hh hl hs ih =>
      match s, htext with
      | [], htext => exact absurd (List.cons.inj htext).1 hc
      | [_], htext =>
        simp only [List.cons_append, List.nil_append, List.cons.injEq] at htext
        rw [← htext.2.1, hdigit] at hh
        cases hh
      | [_, _], htext =>
        simp only [List.cons_append, List.nil_append, List.cons.injEq] at htext
        rw [← htext.2.2.1, hdigit] at hl
        cases hl
      | _ :: _ :: _ :: s, htext =>
        simp only [List.cons_append, List.cons.injEq] at htext
        obtain ⟨rfl, rfl, rfl, htail⟩ := htext
        exact ⟨.escape hh hl (ih htail).1, (ih htail).2⟩
  · rintro ⟨hs, hrest⟩
    induction hs with
    | nil => exact .plain hc hrest
    | plain hd _ ih => exact .plain hd ih
    | escape hh hl _ ih => exact .escape hh hl ih

theorem escapes_append (hs : WellEscaped s) (rest : List Char) :
    escapes (s ++ rest) = escapes s ++ escapes rest := by
  induction hs with
  | nil => rfl
  | plain hc _ ih => rw [List.cons_append, escapes_cons hc, escapes_cons hc, ih]
  | escape hh hl _ ih =>
    simp only [List.cons_append] at ih ⊢
    rw [escapes_escape hh hl, escapes_escape hh hl, ih, List.cons_append]

/-- What is decoded on both sides of a character is decoded on its own. -/
theorem decodeText_append_cons (hs : WellEscaped s) (hc : c ≠ '%') (run : List UInt8)
    (rest : List Char) : decodeText read run (s ++ c :: rest) =
      decodeText read run s ++ c :: decodeText read [] rest := by
  induction hs generalizing run with
  | nil => rw [List.nil_append, decodeText_cons hc, decodeText]
  | plain hd _ ih =>
    rw [List.cons_append, decodeText_cons hd, decodeText_cons hd, ih, List.append_assoc,
      List.cons_append]
  | escape hh hl _ ih =>
    simp only [List.cons_append] at ih ⊢
    rw [decodeText_escape hh hl, decodeText_escape hh hl, ih]

theorem decodeText_plain {plain : List Char} (hread : ReadsUtf8 read) (h : '%' ∉ plain)
    (rest : List Char) : decodeText read [] (plain ++ rest) = plain ++ decodeText read [] rest := by
  have hnil : read [] = [] := hread.valid []
  induction plain with
  | nil => rfl
  | cons c plain ih =>
    have hc : c ≠ '%' := fun heq => h (heq ▸ List.mem_cons_self)
    rw [List.cons_append, decodeText_cons hc, hnil, List.nil_append,
      ih fun hmem => h (List.mem_cons_of_mem c hmem), List.cons_append]

theorem decodeText_of_not_mem (hread : ReadsUtf8 read) (hs : '%' ∉ s) :
    decodeText read [] s = s := by
  have hplain := decodeText_plain hread hs []
  have hnil : read [] = [] := hread.valid []
  rwa [List.append_nil, decodeText, hnil, List.append_nil] at hplain

theorem mem_decodeText (hread : ReadsUtf8 read) (hs : WellEscaped s) (hlt : c.toNat < 128)
    (hc : c ∈ decodeText read run s) : c ≠ '%' ∧ c ∈ s ∨ byteOf c ∈ run ++ escapes s := by
  induction hs generalizing run with
  | nil => exact .inr (List.mem_append_left _ (hread.ascii _ c hc hlt))
  | plain hd _ ih =>
    rw [decodeText_cons hd, List.mem_append, List.mem_cons] at hc
    rw [escapes_cons hd]
    obtain hrun | rfl | hrest := hc
    · exact .inr (List.mem_append_left _ (hread.ascii _ c hrun hlt))
    · exact .inl ⟨hd, List.mem_cons_self⟩
    · exact (ih hrest).imp (And.imp_right (List.mem_cons_of_mem _)) (List.mem_append_right _)
  | escape hh hl _ ih =>
    rw [decodeText_escape hh hl] at hc
    rw [escapes_escape hh hl]
    refine (ih hc).imp (And.imp_right fun hmem => ?_) fun hmem => ?_
    · exact List.mem_cons_of_mem _ (List.mem_cons_of_mem _ (List.mem_cons_of_mem _ hmem))
    · rwa [List.append_assoc, List.singleton_append] at hmem

theorem not_mem_decodeText (hread : ReadsUtf8 read) (hs : WellEscaped s) (hlt : c.toNat < 128)
    (hc : c = '%' ∨ c ∉ s) (hescape : byteOf c ∉ escapes s) : c ∉ decodeText read [] s := by
  intro hmem
  obtain ⟨hne, hmem⟩ | hmem := mem_decodeText hread hs hlt hmem
  · exact hc.elim hne (· hmem)
  · exact hescape (by simpa using hmem)

/-- A text that is read without replacements has the bytes of what is read. -/
theorem decode_eq_utf8 (hread : ReadsUtf8 read) (hs : WellEscaped s)
    (hread' : Char.ofNat 0xFFFD ∉ decodeText read run s) :
    run ++ decode s = utf8 (decodeText read run s) := by
  have hbytes : ∀ run, Char.ofNat 0xFFFD ∉ read run → utf8 (read run) = run := by
    intro run hrun
    by_contra hne
    refine hrun (hread.invalid run fun s hs => hne ?_)
    rw [hs, hread.valid]
  induction hs generalizing run with
  | nil => rw [decodeText] at hread' ⊢; rw [hbytes _ hread', decode, List.append_nil]
  | plain hd _ ih =>
    rw [decodeText_cons hd, List.mem_append, List.mem_cons, not_or, not_or] at hread'
    have hrest := ih hread'.2.2
    rw [List.nil_append] at hrest
    rw [decodeText_cons hd, decode_cons_of_ne hd, hrest, utf8, utf8, List.flatMap_append,
      List.flatMap_cons]
    exact congrArg (· ++ _) (hbytes _ hread'.1).symm
  | escape hh hl _ ih =>
    rw [decodeText_escape hh hl] at hread' ⊢
    rw [decode_escape hh hl, ← ih hread', List.append_assoc, List.singleton_append]

/-! ### Texts that are cut at a character -/

variable {parts : List (List Char)}

theorem wellEscaped_intercalate (hc : c ≠ '%') (hdigit : hexValue c = none) :
    WellEscaped ([c].intercalate parts) ↔ ∀ part ∈ parts, WellEscaped part := by
  induction parts with
  | nil => simpa using WellEscaped.nil
  | cons part parts ih =>
    cases parts with
    | nil => simp
    | cons next parts =>
      rw [List.intercalate_cons_cons, List.append_assoc, List.singleton_append,
        wellEscaped_append_cons hc hdigit, ih, List.forall_mem_cons (l := next :: parts)]

theorem escapes_intercalate (hc : c ≠ '%') (hs : ∀ part ∈ parts, WellEscaped part) :
    escapes ([c].intercalate parts) = parts.flatMap escapes := by
  induction parts with
  | nil => rfl
  | cons part parts ih =>
    cases parts with
    | nil => simp
    | cons next parts =>
      rw [List.intercalate_cons_cons, List.append_assoc, List.singleton_append,
        escapes_append (hs part List.mem_cons_self), escapes_cons hc,
        ih fun p hp => hs p (List.mem_cons_of_mem _ hp), List.flatMap_cons (x := part)]

theorem wellEscaped_splitOn (hc : c ≠ '%') (hdigit : hexValue c = none) (hs : WellEscaped s) :
    ∀ part ∈ s.splitOn c, WellEscaped part ∧ escapes part ⊆ escapes s := by
  have hjoined : [c].intercalate (s.splitOn c) = s := List.intercalate_splitOn c
  rw [← hjoined, wellEscaped_intercalate hc hdigit] at hs
  have hescapes := escapes_intercalate hc hs
  rw [List.intercalate_splitOn] at hescapes
  intro part hpart
  refine ⟨hs part hpart, fun b hb => ?_⟩
  rw [hescapes]
  exact List.mem_flatMap.mpr ⟨part, hpart, hb⟩

theorem decodeText_intercalate (hc : c ≠ '%') (hne : parts ≠ [])
    (hs : ∀ part ∈ parts, WellEscaped part) : decodeText read [] ([c].intercalate parts) =
      [c].intercalate (parts.map (decodeText read [])) := by
  induction parts with
  | nil => exact absurd rfl hne
  | cons part parts ih =>
    cases parts with
    | nil => simp
    | cons next parts =>
      have htail := ih (List.cons_ne_nil _ _) fun p hp => hs p (List.mem_cons_of_mem _ hp)
      simp only [List.map_cons, List.intercalate_cons_cons, List.append_assoc,
        List.singleton_append] at htail ⊢
      rw [decodeText_append_cons (hs part List.mem_cons_self) hc, htail]

/-- A text may be decoded before it is cut, or behind that, at a character that is not escaped. -/
theorem splitOn_decodeText (hread : ReadsUtf8 read) (hlt : c.toNat < 128) (hc : c ≠ '%')
    (hdigit : hexValue c = none) (hs : WellEscaped s) (hescape : byteOf c ∉ escapes s)
    (hcut : ∀ part ∈ s.splitOn c, c ∉ part) :
    (decodeText read [] s).splitOn c = (s.splitOn c).map (decodeText read []) := by
  have hne : s.splitOn c ≠ [] := List.splitOn_ne_nil c s
  have hparts := wellEscaped_splitOn hc hdigit hs
  have hjoined : [c].intercalate (s.splitOn c) = s := List.intercalate_splitOn c
  rw [← hjoined, decodeText_intercalate hc hne fun part hpart => (hparts part hpart).1, hjoined]
  refine List.splitOn_intercalate c ?_ (by simp)
  intro text htext
  obtain ⟨part, hpart, rfl⟩ := List.mem_map.mp htext
  exact not_mem_decodeText hread (hparts part hpart).1 hlt (.inr (hcut part hpart))
    fun h => hescape ((hparts part hpart).2 h)

/-! ### Encoded texts -/

theorem wellEscaped_encodeBytes (bs : List UInt8) (hrest : WellEscaped rest) :
    WellEscaped (bs.flatMap encodeByte ++ rest) := by
  induction bs with
  | nil => exact hrest
  | cons b bs ih =>
    obtain ⟨hhigh, hlow, -⟩ := hexValue_halves b
    exact .escape hhigh hlow ih

theorem escapes_encodeBytes (bs : List UInt8) (rest : List Char) :
    escapes (bs.flatMap encodeByte ++ rest) = bs ++ escapes rest := by
  induction bs with
  | nil => rfl
  | cons b bs ih =>
    obtain ⟨hhigh, hlow, hsum⟩ := hexValue_halves b
    have hbyte : escapes (encodeByte b ++ (bs.flatMap encodeByte ++ rest)) =
        b :: escapes (bs.flatMap encodeByte ++ rest) := by
      simp only [encodeByte, List.cons_append, List.nil_append]
      rw [escapes_escape hhigh hlow, hsum, UInt8.ofNat_toNat]
    rw [List.flatMap_cons, List.append_assoc, hbyte, ih, List.cons_append]

theorem wellEscaped_encode (hp : keep '%' = false) (s : List Char) : WellEscaped (encode keep s) := by
  induction s with
  | nil => exact .nil
  | cons c s ih =>
    rw [encode, List.flatMap_cons, encodeChar]
    split_ifs with hc
    · refine .plain ?_ ih
      rintro rfl
      rw [hp] at hc
      cases hc
    · exact wellEscaped_encodeBytes _ ih

theorem mem_escapes_encode (hp : keep '%' = false) (hlt : c.toNat < 128)
    (h : byteOf c ∈ escapes (encode keep s)) : c ∈ s := by
  induction s with
  | nil => simp [encode, escapes] at h
  | cons d s ih =>
    have hcons : encode keep (d :: s) = encodeChar keep d ++ encode keep s := List.flatMap_cons
    rw [hcons, encodeChar] at h
    split_ifs at h with hd
    · have hne : d ≠ '%' := by
        rintro rfl
        rw [hp] at hd
        cases hd
      rw [List.singleton_append, escapes_cons hne] at h
      exact List.mem_cons_of_mem _ (ih h)
    · rw [escapes_encodeBytes, List.mem_append] at h
      obtain hbyte | hrest := h
      · have heq := toNat_of_mem_utf8EncodeChar (by rwa [toNat_byteOf hlt]) hbyte
        rw [toNat_byteOf hlt] at heq
        rw [Char.toNat_inj.mp heq]
        exact List.mem_cons_self
      · exact List.mem_cons_of_mem _ (ih hrest)

end Escapes

theorem encodeByte_eq (b : UInt8) {c : Char} (h : c ∈ encodeByte b) :
    c = '%' ∨ ∃ k < 16, c = hexDigit k := by
  have hb : b.toNat < 256 := b.toNat_lt
  simp only [encodeByte, List.mem_cons, List.not_mem_nil, or_false] at h
  rcases h with rfl | rfl | rfl
  · exact .inl rfl
  · exact .inr ⟨_, by omega, rfl⟩
  · exact .inr ⟨_, by omega, rfl⟩

theorem decodeForm_encodeByte (b : UInt8) (rest : List Char) :
    decodeForm (encodeByte b ++ rest) = (decodeForm rest).map (b :: ·) := by
  obtain ⟨hhigh, hlow, hsum⟩ := hexValue_halves b
  simp only [encodeByte, List.cons_append, List.nil_append, decodeForm, if_true, hhigh, hlow, hsum,
    UInt8.ofNat_toNat]

theorem decodeForm_encodeBytes (bs : List UInt8) (rest : List Char) :
    decodeForm (bs.flatMap encodeByte ++ rest) = (decodeForm rest).map (bs ++ ·) := by
  induction bs with
  | nil => simp
  | cons b bs ih =>
    rw [List.flatMap_cons, List.append_assoc, decodeForm_encodeByte, ih, Option.map_map]
    rfl

theorem decodeForm_encodeChar (hp : keep '%' = false) (hplus : keep '+' = false) (c : Char)
    (rest : List Char) : decodeForm (encodeChar keep c ++ rest) =
      (decodeForm rest).map (String.utf8EncodeChar c ++ ·) := by
  unfold encodeChar
  split_ifs with hc
  · have hpercent : c ≠ '%' := by
      rintro rfl
      simp [hp] at hc
    have hplus' : c ≠ '+' := by
      rintro rfl
      simp [hplus] at hc
    rw [List.singleton_append, decodeForm.eq_def]
    simp only [if_neg hpercent, if_neg hplus']
  · exact decodeForm_encodeBytes _ rest

theorem decodeForm_encode (hp : keep '%' = false) (hplus : keep '+' = false) (s : List Char) :
    decodeForm (encode keep s) = some (utf8 s) := by
  induction s with
  | nil => rfl
  | cons c s ih =>
    have hrest : decodeForm (s.flatMap (encodeChar keep)) = some (utf8 s) := ih
    rw [encode, List.flatMap_cons, decodeForm_encodeChar hp hplus, hrest]
    rfl

theorem mem_encode {c : Char} (h : c ∈ encode keep s) :
    keep c = true ∨ c = '%' ∨ ∃ k < 16, c = hexDigit k := by
  obtain ⟨a, -, ha⟩ := List.mem_flatMap.mp h
  unfold encodeChar at ha
  split_ifs at ha with hkeep
  · obtain rfl := List.mem_singleton.mp ha
    exact .inl hkeep
  · obtain ⟨b, -, hb⟩ := List.mem_flatMap.mp ha
    exact .inr (encodeByte_eq b hb)

theorem encode_of_keep (h : ∀ c ∈ s, keep c = true) : encode keep s = s := by
  induction s with
  | nil => rfl
  | cons c s ih =>
    rw [encode, List.flatMap_cons, encodeChar, if_pos (h c List.mem_cons_self)]
    exact congrArg (c :: ·) (ih fun a ha => h a (List.mem_cons_of_mem _ ha))

/-- Characters that are kept, and never occur in an escape, cut the encoded text where they cut
the text. -/
theorem takeWhile_encode (hk : ∀ c, stop c = true → keep c = true) (hp : stop '%' = false)
    (hd : ∀ k < 16, stop (hexDigit k) = false) (s : List Char) :
    (encode keep s).takeWhile (fun c => !stop c) =
      encode keep (s.takeWhile fun c => !stop c) := by
  induction s with
  | nil => rfl
  | cons c s ih =>
    rw [encode, List.flatMap_cons]
    cases hc : stop c with
    | true => simp [encodeChar, hk c hc, hc, encode]
    | false =>
      have hall : ∀ c' ∈ encodeChar keep c, (!stop c') = true := by
        unfold encodeChar
        split_ifs
        · simp [hc]
        · intro c' hc'
          obtain ⟨b, -, hb⟩ := List.mem_flatMap.mp hc'
          rcases encodeByte_eq b hb with rfl | ⟨k, hk', rfl⟩
          · simp [hp]
          · simp [hd k hk']
      rw [List.takeWhile_append_of_pos hall, List.takeWhile_cons_of_pos (by simp [hc])]
      rw [encode, List.flatMap_cons]
      exact congrArg _ ih

end Percent
