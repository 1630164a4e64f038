import Urc.Web.SoftKeyboard

/-! # The edit region of an input

The two loops of the `input` handler, over positions in the new and the last value of the text area.
They find the start and the end that the values have in common, and what stands between them was
deleted and inserted. The last value is empty or the seed whenever the handler looks at it.
-/

namespace Urc

/-! ### The loops -/

/-- The loop over the common start. Both positions are inside of the texts. -/
def prefixLoop (cur prev : List ℕ) (prefixLen : ℕ) : ℕ :=
  if h : prefixLen < min cur.length prev.length then
    have hcur : prefixLen < cur.length := by omega
    have hprev : prefixLen < prev.length := by omega
    if cur[prefixLen] = prev[prefixLen] then prefixLoop cur prev (prefixLen + 1) else prefixLen
  else prefixLen
termination_by min cur.length prev.length - prefixLen

/-- Where the loop over the common end stands: so much of both texts is left behind the start. -/
structure Rests (cur prev : List ℕ) (prefixLen : ℕ) where
  curSuffix : ℕ
  prevSuffix : ℕ
  cur_le : prefixLen + curSuffix ≤ cur.length
  prev_le : prefixLen + prevSuffix ≤ prev.length

variable {cur prev : List ℕ} {prefixLen : ℕ}

def suffixLoop (r : Rests cur prev prefixLen) : Rests cur prev prefixLen :=
  have hcur_le := r.cur_le
  have hprev_le := r.prev_le
  if h : 0 < r.curSuffix ∧ 0 < r.prevSuffix then
    have hcur : prefixLen + r.curSuffix - 1 < cur.length := by omega
    have hprev : prefixLen + r.prevSuffix - 1 < prev.length := by omega
    if cur[prefixLen + r.curSuffix - 1] = prev[prefixLen + r.prevSuffix - 1] then
      suffixLoop ⟨r.curSuffix - 1, r.prevSuffix - 1, by omega, by omega⟩
    else r
  else r
termination_by r.curSuffix

theorem prefixLoop_eq (cur prev : List ℕ) (prefixLen : ℕ) : prefixLoop cur prev prefixLen =
    prefixLen + commonLength (cur.drop prefixLen) (prev.drop prefixLen) := by
  fun_induction prefixLoop cur prev prefixLen with
  | case1 i h hcur hprev heq ih =>
    rw [ih, List.drop_eq_getElem_cons hcur, List.drop_eq_getElem_cons hprev, commonLength,
      if_pos heq]
    omega
  | case2 i h hcur hprev hne =>
    rw [List.drop_eq_getElem_cons hcur, List.drop_eq_getElem_cons hprev, commonLength, if_neg hne]
    rfl
  | case3 i h =>
    rcases Nat.lt_or_ge i cur.length with hlt | hge
    · have hnil : prev.drop i = [] := List.drop_eq_nil_of_le (by omega)
      rw [hnil, commonLength_nil_right]
      rfl
    · rw [List.drop_eq_nil_of_le hge]
      rfl

theorem reverse_take {us : List ℕ} {i n : ℕ} (hn : 0 < n) (hi : i + n - 1 < us.length) :
    ((us.drop i).take n).reverse = us[i + n - 1] :: ((us.drop i).take (n - 1)).reverse := by
  obtain ⟨m, rfl⟩ : ∃ m, n = m + 1 := ⟨n - 1, by omega⟩
  have hm : m < (us.drop i).length := by
    rw [List.length_drop]
    omega
  rw [List.take_succ_eq_append_getElem hm, List.reverse_append]
  simp

theorem suffixLoop_eq (r : Rests cur prev prefixLen) :
    (suffixLoop r).curSuffix = r.curSuffix -
        commonLength ((cur.drop prefixLen).take r.curSuffix).reverse
          ((prev.drop prefixLen).take r.prevSuffix).reverse ∧
      (suffixLoop r).prevSuffix = r.prevSuffix -
        commonLength ((cur.drop prefixLen).take r.curSuffix).reverse
          ((prev.drop prefixLen).take r.prevSuffix).reverse := by
  fun_induction suffixLoop r with
  | case1 r hcur_le hprev_le h hcur hprev heq ih =>
    rw [reverse_take h.1 hcur, reverse_take h.2 hprev, commonLength, if_pos heq, ih.1, ih.2]
    dsimp only
    omega
  | case2 r hcur_le hprev_le h hcur hprev hne =>
    rw [reverse_take h.1 hcur, reverse_take h.2 hprev, commonLength, if_neg hne]
    exact ⟨rfl, rfl⟩
  | case3 r hcur_le hprev_le h =>
    rcases Nat.eq_zero_or_pos r.curSuffix with hzero | hpos
    · rw [hzero]
      exact ⟨rfl, rfl⟩
    · have hzero : r.prevSuffix = 0 := by omega
      rw [hzero, List.take_zero, List.reverse_nil, commonLength_nil_right]
      exact ⟨rfl, rfl⟩

theorem prefixLoop_zero (cur prev : List ℕ) :
    prefixLoop cur prev 0 = commonLength cur prev := by
  rw [prefixLoop_eq, List.drop_zero, List.drop_zero, Nat.zero_add]

/-! ### The region -/

theorem commonLength_le (us vs : List ℕ) :
    commonLength us vs ≤ us.length ∧ commonLength us vs ≤ vs.length := by
  induction us generalizing vs with
  | nil => exact ⟨Nat.zero_le _, Nat.zero_le _⟩
  | cons u us ih =>
    cases vs with
    | nil => exact ⟨Nat.zero_le _, Nat.zero_le _⟩
    | cons v vs =>
      rw [commonLength]
      split_ifs
      · exact ⟨Nat.succ_le_succ (ih vs).1, Nat.succ_le_succ (ih vs).2⟩
      · exact ⟨Nat.zero_le _, Nat.zero_le _⟩

/-- What the handler finds out about a value and the last one. -/
structure EditRegion (cur prev : List ℕ) where
  prefixLen : ℕ
  rests : Rests cur prev prefixLen

def editRegion (cur prev : List ℕ) : EditRegion cur prev :=
  have hle := commonLength_le cur prev
  have hprefixLen := prefixLoop_zero cur prev
  ⟨prefixLoop cur prev 0, suffixLoop ⟨cur.length - prefixLoop cur prev 0,
    prev.length - prefixLoop cur prev 0, by omega, by omega⟩⟩

namespace EditRegion

variable (r : EditRegion cur prev)

def start : List ℕ := cur.take r.prefixLen

def deleted : List ℕ := (prev.drop r.prefixLen).take r.rests.prevSuffix

def inserted : List ℕ := (cur.drop r.prefixLen).take r.rests.curSuffix

def ending : List ℕ := cur.drop (r.prefixLen + r.rests.curSuffix)

def keys : List SentKey :=
  (List.replicate r.rests.prevSuffix (tap 0xff08 (some "Backspace"))).flatten ++ sendText r.inserted

end EditRegion

/-- The loops find the common lengths. -/
theorem editRegion_eq (cur prev : List ℕ) :
    (editRegion cur prev).prefixLen = commonLength cur prev ∧
      (editRegion cur prev).rests.curSuffix = cur.length - commonLength cur prev -
        commonLength (cur.drop (commonLength cur prev)).reverse
          (prev.drop (commonLength cur prev)).reverse ∧
      (editRegion cur prev).rests.prevSuffix = prev.length - commonLength cur prev -
        commonLength (cur.drop (commonLength cur prev)).reverse
          (prev.drop (commonLength cur prev)).reverse := by
  have hprefixLen := prefixLoop_zero cur prev
  have hwhole : ∀ us : List ℕ, (us.drop (commonLength cur prev)).take
      (us.length - commonLength cur prev) = us.drop (commonLength cur prev) := by
    intro us
    rw [← List.length_drop, List.take_length]
  unfold editRegion
  refine ⟨hprefixLen, ?_⟩
  have hsuffix := fun r : Rests cur prev (prefixLoop cur prev 0) => suffixLoop_eq r
  simp only [hsuffix, hprefixLen, hwhole, and_self]

theorem keys_editRegion (cur prev : List ℕ) : (editRegion cur prev).keys = editKeys cur prev := by
  obtain ⟨hprefixLen, hcur, hprev⟩ := editRegion_eq cur prev
  rw [EditRegion.keys, EditRegion.inserted, hcur, hprev, hprefixLen]
  rfl

def HeadsDiffer (us vs : List ℕ) : Prop := ∀ u, us.head? = some u → vs.head? ≠ some u

theorem HeadsDiffer.of_prefix {us vs us' vs' : List ℕ} (h : HeadsDiffer us vs) (hus : us' <+: us)
    (hvs : vs' <+: vs) : HeadsDiffer us' vs' := by
  have hhead : ∀ {us us' : List ℕ} {u : ℕ}, us' <+: us → us'.head? = some u →
      us.head? = some u := by
    rintro us us' u ⟨rest, rfl⟩ hu
    obtain ⟨tail, rfl⟩ := List.head?_eq_some_iff.mp hu
    rfl
  exact fun u hu hv => h u (hhead hus hu) (hhead hvs hv)

/-- The common length cuts off a common start, behind which the texts are apart. -/
theorem commonLength_spec : ∀ us vs : List ℕ, ∃ pre us' vs', us = pre ++ us' ∧ vs = pre ++ vs' ∧
    pre.length = commonLength us vs ∧ HeadsDiffer us' vs'
  | [], vs => ⟨[], [], vs, rfl, rfl, rfl, by simp [HeadsDiffer]⟩
  | u :: us, [] => ⟨[], u :: us, [], rfl, rfl, rfl, by simp [HeadsDiffer]⟩
  | u :: us, v :: vs => by
    by_cases huv : u = v
    · obtain ⟨pre, us', vs', hus, hvs, hlen, hapart⟩ := commonLength_spec us vs
      refine ⟨u :: pre, us', vs', by rw [hus]; rfl, by rw [hvs, huv]; rfl, ?_, hapart⟩
      rw [commonLength, if_pos huv, List.length_cons, hlen]
    · refine ⟨[], u :: us, v :: vs, rfl, rfl, ?_, ?_⟩
      · rw [commonLength, if_neg huv]
        rfl
      · rintro w ⟨⟩ ⟨⟩
        exact huv rfl

/-- The handler cuts both values into a common start, what was deleted and inserted, and a common
end. It sends a BackSpace for each unit that was deleted, and the text that was inserted, and these
two neither start nor end with the same unit. -/
structure EditRegion.Exact (r : EditRegion cur prev) : Prop where
  prev_eq : prev = r.start ++ r.deleted ++ r.ending
  cur_eq : cur = r.start ++ r.inserted ++ r.ending
  keys_eq : r.keys = (List.replicate r.deleted.length (tap 0xff08 (some "Backspace"))).flatten ++
    sendText r.inserted
  backspaces : (r.keys.filter fun k => k.down ∧ k.code = some "Backspace").length =
    r.deleted.length
  text : presses (r.keys.filter fun k => k.code = none) =
    (Utf16.decode r.inserted).filter (· ≠ 0)
  apart_first : HeadsDiffer r.deleted r.inserted
  apart_last : HeadsDiffer r.deleted.reverse r.inserted.reverse

theorem code_of_mem_sendText {us : List ℕ} {k : SentKey} (hk : k ∈ sendText us) :
    k.code = none := by
  obtain ⟨ch, -, hk⟩ := List.mem_flatMap.mp hk
  split_ifs at hk
  · cases hk
  · simp only [tap, List.mem_cons, List.not_mem_nil, or_false] at hk
    rcases hk with rfl | rfl <;> rfl

theorem filter_sendText {us : List ℕ} {p : SentKey → Bool} {b : Bool}
    (hp : ∀ k : SentKey, k.code = none → p k = b) :
    (sendText us).filter p = if b then sendText us else [] := by
  cases b with
  | true => exact List.filter_eq_self.mpr fun k hk => hp k (code_of_mem_sendText hk)
  | false =>
    refine List.filter_eq_nil_iff.mpr fun k hk => ?_
    rw [hp k (code_of_mem_sendText hk)]
    decide

theorem filter_backspaces (p : SentKey → Bool) (n : ℕ) :
    ((List.replicate n (tap 0xff08 (some "Backspace"))).flatten).filter p =
      (List.replicate n ((tap 0xff08 (some "Backspace")).filter p)).flatten := by
  induction n with
  | zero => rfl
  | succ n ih =>
    rw [List.replicate_succ, List.flatten_cons, List.filter_append, ih, List.replicate_succ,
      List.flatten_cons]

structure Cut (cur prev start deleted inserted ending : List ℕ) : Prop where
  cur_eq : cur = start ++ inserted ++ ending
  prev_eq : prev = start ++ deleted ++ ending
  apart_first : HeadsDiffer deleted inserted
  apart_last : HeadsDiffer deleted.reverse inserted.reverse

theorem exists_cut (cur prev : List ℕ) : ∃ start deleted inserted ending,
    Cut cur prev start deleted inserted ending ∧ start.length = commonLength cur prev ∧
      ending.length = commonLength (cur.drop (commonLength cur prev)).reverse
        (prev.drop (commonLength cur prev)).reverse := by
  obtain ⟨start, us, vs, hus, hvs, hstart, hfirst⟩ := commonLength_spec cur prev
  obtain ⟨post, us', vs', hus', hvs', hpost, hlast⟩ := commonLength_spec us.reverse vs.reverse
  have hus'' : us = us'.reverse ++ post.reverse := by
    rw [← List.reverse_append, ← hus', List.reverse_reverse]
  have hvs'' : vs = vs'.reverse ++ post.reverse := by
    rw [← List.reverse_append, ← hvs', List.reverse_reverse]
  have hdrop : cur.drop (commonLength cur prev) = us := by
    rw [← hstart, hus, List.drop_left]
  have hdrop' : prev.drop (commonLength cur prev) = vs := by
    rw [← hstart, hvs, List.drop_left]
  have hfirst' : HeadsDiffer vs us := fun u hv hu => hfirst u hu hv
  refine ⟨start, vs'.reverse, us'.reverse, post.reverse, ⟨?_, ?_, ?_, ?_⟩, hstart, ?_⟩
  · rw [List.append_assoc, ← hus'', hus]
  · rw [List.append_assoc, ← hvs'', hvs]
  · exact hfirst'.of_prefix ⟨_, hvs''.symm⟩ ⟨_, hus''.symm⟩
  · rw [List.reverse_reverse, List.reverse_reverse]
    exact fun u hv hu => hlast u hu hv
  · rw [hdrop, hdrop', List.length_reverse, hpost]

theorem cut_editRegion (cur prev : List ℕ) : Cut cur prev (editRegion cur prev).start
    (editRegion cur prev).deleted (editRegion cur prev).inserted (editRegion cur prev).ending := by
  obtain ⟨hprefixLen, hcur, hprev⟩ := editRegion_eq cur prev
  obtain ⟨start, deleted, inserted, ending, hcut, hstart, hending⟩ := exists_cut cur prev
  rw [← hstart] at hprefixLen
  have hcurLen : (editRegion cur prev).rests.curSuffix = inserted.length := by
    rw [hcur, ← hending, ← hstart]
    have hlen := congrArg List.length hcut.cur_eq
    simp only [List.length_append] at hlen
    omega
  have hprevLen : (editRegion cur prev).rests.prevSuffix = deleted.length := by
    rw [hprev, ← hending, ← hstart]
    have hlen := congrArg List.length hcut.prev_eq
    simp only [List.length_append] at hlen
    omega
  have hs : (editRegion cur prev).start = start := by
    rw [EditRegion.start, hprefixLen, hcut.cur_eq, List.append_assoc, List.take_left]
  have hd : (editRegion cur prev).deleted = deleted := by
    rw [EditRegion.deleted, hprevLen, hprefixLen]
    conv_lhs => rw [hcut.prev_eq]
    rw [List.append_assoc, List.drop_left, List.take_left]
  have hi : (editRegion cur prev).inserted = inserted := by
    rw [EditRegion.inserted, hcurLen, hprefixLen]
    conv_lhs => rw [hcut.cur_eq]
    rw [List.append_assoc, List.drop_left, List.take_left]
  have he : (editRegion cur prev).ending = ending := by
    rw [EditRegion.ending, hcurLen, hprefixLen, ← List.length_append]
    conv_lhs => rw [hcut.cur_eq]
    rw [List.drop_left]
  rw [hs, hd, hi, he]
  exact hcut

namespace EditRegion

theorem length_deleted (r : EditRegion cur prev) : r.deleted.length = r.rests.prevSuffix := by
  have hle := r.rests.prev_le
  rw [deleted, List.length_take, List.length_drop]
  omega

theorem backspaces_keys (r : EditRegion cur prev) :
    (r.keys.filter fun k => k.down ∧ k.code = some "Backspace").length = r.deleted.length := by
  have htap : (tap 0xff08 (some "Backspace")).filter
      (fun k => k.down ∧ k.code = some "Backspace") = [⟨0xff08, some "Backspace", true⟩] := by
    decide
  rw [keys, ← length_deleted, List.filter_append, filter_backspaces, htap,
    filter_sendText (b := false) (by simp +contextual)]
  simp

theorem text_keys (r : EditRegion cur prev) :
    presses (r.keys.filter fun k => k.code = none) = (Utf16.decode r.inserted).filter (· ≠ 0) := by
  have htap : (tap 0xff08 (some "Backspace")).filter (fun k => k.code = none) = [] := by
    decide
  rw [keys, List.filter_append, filter_backspaces, htap,
    filter_sendText (b := true) (by simp +contextual), if_pos rfl, ← presses_sendText]
  simp

end EditRegion

theorem exact_editRegion (cur prev : List ℕ) : (editRegion cur prev).Exact where
  prev_eq := (cut_editRegion cur prev).prev_eq
  cur_eq := (cut_editRegion cur prev).cur_eq
  keys_eq := by rw [EditRegion.keys, EditRegion.length_deleted]
  backspaces := EditRegion.backspaces_keys _
  text := EditRegion.text_keys _
  apart_first := (cut_editRegion cur prev).apart_first
  apart_last := (cut_editRegion cur prev).apart_last

/-! ### The texts that the handler compares -/

/-- What `keydown` reads of its event. -/
structure KeyDown where
  key : String
  code : String
  ctrlKey : Bool
  altKey : Bool

def namedKeysyms : List (String × ℕ) :=
  [("Enter", 0xff0d), ("Backspace", 0xff08), ("Tab", 0xff09), ("Escape", 0xff1b),
    ("Delete", 0xffff), ("Home", 0xff50), ("End", 0xff57),
    ("ArrowLeft", 0xff51), ("ArrowUp", 0xff52), ("ArrowRight", 0xff53), ("ArrowDown", 0xff54),
    ("PageUp", 0xff55), ("PageDown", 0xff56),
    ("F1", 0xffbe), ("F2", 0xffbf), ("F3", 0xffc0), ("F4", 0xffc1),
    ("F5", 0xffc2), ("F6", 0xffc3), ("F7", 0xffc4), ("F8", 0xffc5),
    ("F9", 0xffc6), ("F10", 0xffc7), ("F11", 0xffc8), ("F12", 0xffc9)]

/-- A key that is none of these has the keysym 0. `keyTable` is `window.KeyTable`, if there is
one. -/
def specialKeysym (keyTable : Option (String → Option ℕ)) (e : KeyDown) : ℕ :=
  if e.ctrlKey || e.altKey then
    match (keyTable.bind (· e.code)).filter (· ≠ 0) with
    | some keysym => keysym
    | none =>
      match Utf16.encode e.key.toList with
      | [u] => u
      | _ => 0
  else (namedKeysyms.lookup e.key).getD 0

/-- What happens to the text area, and to the object that its handlers send to. -/
inductive FieldEvent
  | rfb (present : Bool)
  | keydown (e : KeyDown)
  | kbd (e : KbdEvent)

namespace SoftKeyboard

open Transition

/-- The handler of `keydown`. -/
def onKeyDown (keyTable : Option (String → Option ℕ)) (k : SoftKeyboard) (e : KeyDown) :
    SoftKeyboard :=
  if !k.rfb then k
  else
    let keysym := specialKeysym keyTable e
    if keysym = 0 then k else { k with sent := k.sent ++ tap keysym (some e.code) }

def fieldStep (keyTable : Option (String → Option ℕ)) (k : SoftKeyboard) :
    FieldEvent → SoftKeyboard
  | .rfb present => { k with rfb := present }
  | .keydown e => k.onKeyDown keyTable e
  | .kbd e => k.step e

/-- The last value is the seed, or the empty one of the start. -/
def Based (k : SoftKeyboard) : Prop := k.kbdPrevValue = [] ∨ k.kbdPrevValue = kbdSeed

variable {k : SoftKeyboard} {keyTable : Option (String → Option ℕ)}

theorem Based.step (h : k.Based) (e : KbdEvent) : (k.step e).Based := by
  have hset : ∀ value, (k.setValue value).Based := fun _ => h
  cases e with
  | input value isComposing =>
    simp only [SoftKeyboard.step, onInput]
    split_ifs
    · exact hset value
    · exact hset value
    · exact .inr rfl
  | compositionend value data =>
    simp only [SoftKeyboard.step, onCompositionEnd]
    split_ifs
    · exact hset value
    · exact .inr rfl

theorem Based.fieldStep (h : k.Based) (e : FieldEvent) : (k.fieldStep keyTable e).Based := by
  cases e with
  | rfb present => exact h
  | keydown e =>
    simp only [SoftKeyboard.fieldStep, onKeyDown]
    split_ifs
    · exact h
    · exact h
    · exact h
  | kbd e => exact h.step e

def SplitsPair (us : List ℕ) (i : ℕ) : Prop :=
  ∃ pre post high low, us = pre ++ high :: low :: post ∧ i = pre.length + 1 ∧
    Utf16.IsHigh high ∧ Utf16.IsLow low

theorem halves_of_splitsPair {ws us vs : List ℕ} (hws : ws = us ++ vs)
    (h : SplitsPair ws us.length) :
    (∃ u ∈ us, Utf16.IsHigh u) ∧ ∃ v ∈ vs.head?, Utf16.IsLow v := by
  obtain ⟨pre, post, high, low, heq, hlen, hhigh, hlow⟩ := h
  have hcut : us ++ vs = (pre ++ [high]) ++ low :: post := by simpa [← hws] using heq
  obtain ⟨rfl, rfl⟩ := List.append_inj hcut (by simpa using hlen)
  exact ⟨⟨high, by simp, hhigh⟩, low, rfl, hlow⟩

theorem high_of_splitsPair {us : List ℕ} {i : ℕ} (h : SplitsPair us i) :
    ∃ u ∈ us, Utf16.IsHigh u := by
  obtain ⟨pre, post, high, low, rfl, -, hhigh, -⟩ := h
  exact ⟨high, by simp, hhigh⟩

theorem Based.no_half (h : k.Based) :
    ∀ u ∈ k.kbdPrevValue, ¬ Utf16.IsHigh u ∧ ¬ Utf16.IsLow u := by
  intro u hu
  rcases h with hnil | hseed
  · rw [hnil] at hu
    cases hu
  · rw [hseed] at hu
    obtain rfl := List.mem_singleton.mp hu
    exact ⟨by decide, by decide⟩

/-- The handler of `input` sends the keys of the region, and no cut of it is between two halves of
a surrogate pair. -/
structure CutsWhole (k : SoftKeyboard) (value : List ℕ) : Prop where
  sent : k.rfb = true → (k.step (.input value false)).sent =
    k.sent ++ (editRegion value k.kbdPrevValue).keys
  start : ¬ SplitsPair value (editRegion value k.kbdPrevValue).start.length
  ending : ¬ SplitsPair value ((editRegion value k.kbdPrevValue).start ++
    (editRegion value k.kbdPrevValue).inserted).length
  prev : ∀ i, ¬ SplitsPair k.kbdPrevValue i

theorem Based.cutsWhole (h : k.Based) (value : List ℕ) : k.CutsWhole value := by
  have hexact := exact_editRegion value k.kbdPrevValue
  generalize hr : editRegion value k.kbdPrevValue = r at hexact
  have hkeys : r.keys = editKeys value k.kbdPrevValue := by rw [← hr, keys_editRegion]
  have hmem : ∀ u, u ∈ r.start ∨ u ∈ r.ending → ¬ Utf16.IsHigh u ∧ ¬ Utf16.IsLow u := by
    intro u hu
    refine h.no_half u ?_
    rw [hexact.prev_eq, List.append_assoc, List.mem_append, List.mem_append]
    rcases hu with hu | hu
    · exact .inl hu
    · exact .inr (.inr hu)
  constructor
  · intro hrfb
    rw [hr, hkeys]
    simp [SoftKeyboard.step, onInput, setValue, hrfb, kbdSeedField]
  · rw [hr]
    intro hsplit
    have hvalue : value = r.start ++ (r.inserted ++ r.ending) := by
      rw [← List.append_assoc]
      exact hexact.cur_eq
    obtain ⟨⟨u, hu, hhigh⟩, -⟩ := halves_of_splitsPair hvalue hsplit
    exact (hmem u (.inl hu)).1 hhigh
  · rw [hr]
    intro hsplit
    obtain ⟨-, v, hv, hlow⟩ := halves_of_splitsPair hexact.cur_eq hsplit
    exact (hmem v (.inr (List.mem_of_mem_head? hv))).2 hlow
  · intro i hsplit
    obtain ⟨u, hu, hhigh⟩ := high_of_splitsPair hsplit
    exact (h.no_half u hu).1 hhigh

/-- For all texts, the loops cut out the edit; and whatever the three handlers have done before, the
last value is empty or the seed, so that no surrogate pair is cut. -/
theorem edit_region_exact (keyTable : Option (String → Option ℕ)) (rfb : Bool)
    (es : List FieldEvent) :
    (∀ cur prev : List ℕ, (editRegion cur prev).Exact) ∧
      (run (fieldStep keyTable) { new with rfb := rfb } es).Based ∧
      ∀ value, (run (fieldStep keyTable) { new with rfb := rfb } es).CutsWhole value := by
  have hnew : { new with rfb := rfb }.Based := .inl rfl
  have hbased : (run (fieldStep keyTable) { new with rfb := rfb } es).Based :=
    run_invariant (fun _ e h => h.fieldStep e) hnew es
  exact ⟨exact_editRegion, hbased, hbased.cutsWhole⟩

end SoftKeyboard

end Urc
