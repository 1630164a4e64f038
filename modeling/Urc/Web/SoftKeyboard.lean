import Urc.Library.Run
import Urc.Library.Utf16
import Urc.Web.Keysymdef

/-! # Text of soft keyboards

The page takes the text of a soft keyboard, of a dictation or of an input method from a text area,
by the difference between its value and the last one, and from the ends of compositions. Texts are
lists of code units here.
-/

namespace Urc

/-- A call of `rfb.sendKey`. -/
structure SentKey where
  keysym : ℕ
  code : Option String
  down : Bool
  deriving DecidableEq

def tap (keysym : ℕ) (code : Option String) : List SentKey :=
  [⟨keysym, code, true⟩, ⟨keysym, code, false⟩]

def charKeysym (codePoint : ℕ) : ℕ := codePoint

def sendText (text : List ℕ) : List SentKey :=
  (Utf16.decode text).flatMap fun ch => if charKeysym ch = 0 then [] else tap (charKeysym ch) none

def presses (sent : List SentKey) : List ℕ := (sent.filter (·.down)).map (·.keysym)

def commonLength : List ℕ → List ℕ → ℕ
  | u :: us, v :: vs => if u = v then commonLength us vs + 1 else 0
  | _, _ => 0

/-- The edit region: how many code units of the last value were deleted, and what was inserted. -/
def edit (cur prev : List ℕ) : ℕ × List ℕ :=
  let prefixLen := commonLength cur prev
  let suffixLen := commonLength (cur.drop prefixLen).reverse (prev.drop prefixLen).reverse
  (prev.length - prefixLen - suffixLen,
    (cur.drop prefixLen).take (cur.length - prefixLen - suffixLen))

def editKeys (cur prev : List ℕ) : List SentKey :=
  (List.replicate (edit cur prev).1 (tap 0xff08 (some "Backspace"))).flatten ++
    sendText (edit cur prev).2

/-- `KBD_SEED`. -/
def kbdSeed : List ℕ := Utf16.encode ['x']

/-- `rfb` says whether there is an RFB object; the page makes one when it boots. -/
structure SoftKeyboard where
  rfb : Bool
  value : List ℕ
  kbdPrevValue : List ℕ
  sent : List SentKey
  deriving DecidableEq

namespace SoftKeyboard

open Transition

def new : SoftKeyboard := ⟨true, [], [], []⟩

def kbdSeedField (k : SoftKeyboard) : SoftKeyboard :=
  { k with value := kbdSeed, kbdPrevValue := kbdSeed }

/-- The handler of `input`. -/
def onInput (k : SoftKeyboard) (isComposing : Bool) : SoftKeyboard :=
  if !k.rfb then k
  else if isComposing then k
  else { k with sent := k.sent ++ editKeys k.value k.kbdPrevValue }.kbdSeedField

/-- The handler of `compositionend`. -/
def onCompositionEnd (k : SoftKeyboard) (data : Option (List ℕ)) : SoftKeyboard :=
  if !k.rfb then k
  else { k with sent := k.sent ++ sendText (data.getD []) }.kbdSeedField

def setValue (k : SoftKeyboard) (value : List ℕ) : SoftKeyboard := { k with value := value }

end SoftKeyboard

/-- An event of the text area, with the value that it has then. -/
inductive KbdEvent
  | input (value : List ℕ) (isComposing : Bool)
  | compositionend (value : List ℕ) (data : Option (List ℕ))
  deriving DecidableEq

def SoftKeyboard.step (k : SoftKeyboard) : KbdEvent → SoftKeyboard
  | .input value isComposing => (k.setValue value).onInput isComposing
  | .compositionend value data => (k.setValue value).onCompositionEnd data

/-! ### What is sent for a text -/

variable {us vs : List ℕ} {text : List Char} {c : Char}

theorem presses_append (sent sent' : List SentKey) :
    presses (sent ++ sent') = presses sent ++ presses sent' := by
  simp [presses]

theorem presses_sendText (us : List ℕ) :
    presses (sendText us) = (Utf16.decode us).filter (· ≠ 0) := by
  rw [sendText]
  induction Utf16.decode us with
  | nil => rfl
  | cons u us ih =>
    rw [List.flatMap_cons, presses_append, ih]
    by_cases hu : u = 0
    · simp [charKeysym, hu, presses]
    · simp [charKeysym, hu, presses, tap]

theorem commonLength_nil_right (us : List ℕ) : commonLength us [] = 0 := by
  cases us <;> rfl

theorem edit_nil (us : List ℕ) : edit us [] = (0, us) := by
  simp [edit, commonLength_nil_right]

theorem edit_cons (u : ℕ) (us : List ℕ) : edit (u :: us) [u] = (0, us) := by
  simp [edit, commonLength, commonLength_nil_right]

theorem edit_append {u : ℕ} (h : us.head? ≠ some u) : edit (us ++ [u]) [u] = (0, us) := by
  cases us with
  | nil => exact edit_cons u []
  | cons v us =>
    have hne : v ≠ u := fun heq => h (by rw [heq]; rfl)
    simp [edit, commonLength, commonLength_nil_right, hne]

/-- A text in front of a seed that starts as the seed does is taken for one behind it. -/
theorem edit_rotate (u : ℕ) (us : List ℕ) : edit (u :: us ++ [u]) [u] = (0, us ++ [u]) :=
  edit_cons u (us ++ [u])

theorem editKeys_of_edit (h : edit us vs = (0, Utf16.encode text)) :
    editKeys us vs = sendText (Utf16.encode text) := by
  rw [editKeys, h]
  rfl

/-! ### Keysyms that denote their characters -/

/-- The keysym that denotes a character: Return for the end of a line. -/
def keysymOf (c : Char) : ℕ := if c = '\n' then 0xff0d else Keysymdef.lookup c.toNat

/-- The characters of which the code point is the keysym: those of Latin-1 from the space on, and
the euro sign. -/
def OwnKeysym (c : Char) : Prop := 0x20 ≤ c.toNat ∧ c.toNat ≤ 0xff ∨ c.toNat = 0x20ac

instance (c : Char) : Decidable (OwnKeysym c) := inferInstanceAs (Decidable (_ ∨ _))

theorem ownKeysym_iff (c : Char) : OwnKeysym c ↔ c.toNat = keysymOf c := by
  have hlt := Utf16.toNat_lt c
  unfold keysymOf
  split_ifs with hc
  · subst hc
    decide
  · rw [eq_comm, Keysymdef.lookup_eq_self (by omega), OwnKeysym]

theorem filter_ne_zero_iff {codes keysyms : List ℕ} (hlen : codes.length = keysyms.length) :
    codes.filter (· ≠ 0) = keysyms ↔ codes = keysyms ∧ ∀ u ∈ codes, u ≠ 0 := by
  constructor
  · intro h
    have hall : (codes.filter (· ≠ 0)).length = codes.length := by rw [h, hlen]
    have hne : ∀ u ∈ codes, u ≠ 0 := by
      simpa using List.length_filter_eq_length_iff.mp hall
    rw [List.filter_eq_self.mpr (by simpa using hne)] at h
    exact ⟨h, hne⟩
  · rintro ⟨rfl, hne⟩
    exact List.filter_eq_self.mpr (by simpa using hne)

/-- The presses for a text denote its characters exactly if these are their own keysyms. -/
theorem presses_eq_keysyms_iff (text : List Char) :
    presses (sendText (Utf16.encode text)) = text.map keysymOf ↔ ∀ c ∈ text, OwnKeysym c := by
  rw [presses_sendText, Utf16.decode_encode, filter_ne_zero_iff (by simp), List.map_inj_left]
  constructor
  · rintro ⟨h, -⟩ c hc
    exact (ownKeysym_iff c).mpr (h c hc)
  · intro h
    refine ⟨fun c hc => (ownKeysym_iff c).mp (h c hc), fun u hu => ?_⟩
    obtain ⟨c, hc, rfl⟩ := List.mem_map.mp hu
    have hown := h c hc
    unfold OwnKeysym at hown
    omega

theorem keysymOf_x : keysymOf 'x' = 120 := by
  decide +kernel

/-- Behind its rest, an `x` is sent well only if the rest has nothing else. -/
theorem rotated_iff (text : List Char) :
    (text ++ ['x']).map Char.toNat = ('x' :: text).map keysymOf ↔ ∀ c ∈ text, c = 'x' := by
  rw [List.map_cons, keysymOf_x, List.map_append]
  induction text with
  | nil => simp
  | cons c text ih =>
    rw [List.map_cons, List.map_cons, List.cons_append, List.cons.injEq, List.forall_mem_cons]
    have hc : c.toNat = 120 ↔ c = 'x' := Char.toNat_inj (c := c) (d := 'x')
    rw [hc]
    refine and_congr_right fun heq => ?_
    rw [List.map_cons, heq, keysymOf_x]
    exact ih

theorem presses_rotated_iff (text : List Char) :
    presses (sendText (Utf16.encode (text ++ ['x']))) = ('x' :: text).map keysymOf ↔
      ∀ c ∈ text, c = 'x' := by
  rw [presses_sendText, Utf16.decode_encode, filter_ne_zero_iff (by simp), rotated_iff]
  refine and_iff_left_of_imp fun h u hu => ?_
  obtain ⟨c, hc, rfl⟩ := List.mem_map.mp hu
  have hx : c = 'x' := by
    rcases List.mem_append.mp hc with hc | hc
    · exact h c hc
    · exact List.mem_singleton.mp hc
  rw [hx]
  decide

namespace SoftKeyboard

open Transition

/-- The last value is the seed, or the empty one of the start. -/
structure Seeded (k : SoftKeyboard) : Prop where
  rfb : k.rfb = true
  prev : k.kbdPrevValue = [] ∨ k.kbdPrevValue = kbdSeed

variable {k : SoftKeyboard}

theorem Seeded.onInput (h : k.Seeded) (isComposing : Bool) : (k.onInput isComposing).Seeded := by
  simp only [SoftKeyboard.onInput, h.rfb, Bool.not_true, Bool.false_eq_true, if_false]
  split_ifs
  · exact h
  · exact ⟨rfl, .inr rfl⟩

theorem Seeded.onCompositionEnd (h : k.Seeded) (data : Option (List ℕ)) :
    (k.onCompositionEnd data).Seeded := by
  simp only [SoftKeyboard.onCompositionEnd, h.rfb, Bool.not_true, Bool.false_eq_true, if_false]
  exact ⟨rfl, .inr rfl⟩

theorem Seeded.setValue (h : k.Seeded) (value : List ℕ) : (k.setValue value).Seeded :=
  ⟨h.rfb, h.prev⟩

theorem Seeded.step (h : k.Seeded) (e : KbdEvent) : (k.step e).Seeded := by
  cases e with
  | input value isComposing => exact (h.setValue value).onInput isComposing
  | compositionend value data => exact (h.setValue value).onCompositionEnd data

theorem seeded_new : new.Seeded := ⟨rfl, .inl rfl⟩

theorem seeded_run (es : List KbdEvent) : (run SoftKeyboard.step new es).Seeded :=
  run_invariant (fun _ e h => h.step e) seeded_new es

theorem sent_onInput (h : k.Seeded) :
    (k.onInput false).sent = k.sent ++ editKeys k.value k.kbdPrevValue := by
  simp [SoftKeyboard.onInput, h.rfb, kbdSeedField]

theorem sent_onCompositionEnd (h : k.Seeded) (data : Option (List ℕ)) :
    (k.onCompositionEnd data).sent = k.sent ++ sendText (data.getD []) := by
  simp [SoftKeyboard.onCompositionEnd, h.rfb, kbdSeedField]

theorem editKeys_insert {pre post : List ℕ} (h : k.Seeded) (hprev : pre ++ post = k.kbdPrevValue)
    (text : List Char) :
    presses (editKeys (pre ++ Utf16.encode text ++ post) k.kbdPrevValue) = text.map keysymOf ↔
      (∀ c ∈ text, OwnKeysym c) ∧
        (post = [] ∨ text.head? ≠ some 'x' ∨ ∀ c ∈ text, c = 'x') := by
  have hown : edit (pre ++ Utf16.encode text ++ post) k.kbdPrevValue = (0, Utf16.encode text) →
      (presses (editKeys (pre ++ Utf16.encode text ++ post) k.kbdPrevValue) = text.map keysymOf ↔
        ∀ c ∈ text, OwnKeysym c) := by
    intro hedit
    rw [editKeys_of_edit hedit]
    exact presses_eq_keysyms_iff text
  rcases h.prev with hnil | hseed
  · obtain ⟨rfl, rfl⟩ := List.append_eq_nil_iff.mp (hprev.trans hnil)
    rw [hown (by simp [hnil, edit_nil])]
    simp
  · rcases List.append_eq_singleton_iff.mp (hprev.trans hseed) with ⟨rfl, rfl⟩ | ⟨rfl, rfl⟩
    · by_cases hx : text.head? = some 'x'
      · obtain ⟨rest, rfl⟩ : ∃ rest, text = 'x' :: rest := List.head?_eq_some_iff.mp hx
        have hrotate : edit ([] ++ Utf16.encode ('x' :: rest) ++ ['x'.toNat])
            k.kbdPrevValue = (0, Utf16.encode (rest ++ ['x'])) := by
          rw [hseed, Utf16.encode_append]
          exact edit_rotate 120 (Utf16.encode rest)
        have hx' : OwnKeysym 'x' := by decide
        rw [editKeys_of_edit hrotate, presses_rotated_iff]
        constructor
        · intro hall
          have hall' : ∀ c ∈ 'x' :: rest, c = 'x' := List.forall_mem_cons.mpr ⟨rfl, hall⟩
          exact ⟨fun c hc => hall' c hc ▸ hx', .inr (.inr hall')⟩
        · rintro ⟨-, hpost | hhead | hall⟩
          · cases hpost
          · exact absurd rfl hhead
          · exact fun c hc => hall c (List.mem_cons_of_mem _ hc)
      · have hhead : (Utf16.encode text).head? ≠ some 120 :=
          fun heq => hx ((Utf16.head?_encode (c := 'x') (by decide)).mp heq)
        rw [hown (by rw [hseed]; exact edit_append hhead)]
        simp [hx]
    · rw [hown (by rw [hseed, List.append_nil]; exact edit_cons 120 (Utf16.encode text))]
      simp

/-- A text arrives as it was typed exactly if its characters are their own keysyms and, where it is
inserted in front of the seed, it does not start with an `x` of its own, unless there is nothing
else. -/
theorem text_arrives_iff (es : List KbdEvent) (pre post : List ℕ) (text : List Char)
    (h : pre ++ post = (run step new es).kbdPrevValue) :
    let k := run step new es
    (presses (k.step (.input (pre ++ Utf16.encode text ++ post) false)).sent =
        presses k.sent ++ text.map keysymOf ↔
      (∀ c ∈ text, OwnKeysym c) ∧
        (post = [] ∨ text.head? ≠ some 'x' ∨ ∀ c ∈ text, c = 'x')) ∧
    ∀ value, presses (k.step (.compositionend value (some (Utf16.encode text)))).sent =
        presses k.sent ++ text.map keysymOf ↔ ∀ c ∈ text, OwnKeysym c := by
  intro k
  have hk : k.Seeded := seeded_run es
  refine ⟨?_, fun value => ?_⟩
  · rw [SoftKeyboard.step, sent_onInput (hk.setValue _), presses_append]
    exact (List.append_right_inj _).trans (editKeys_insert hk h text)
  · rw [SoftKeyboard.step, sent_onCompositionEnd (hk.setValue _), presses_append]
    exact (List.append_right_inj _).trans (presses_eq_keysyms_iff text)

theorem text_arrives_latin :
    presses (step new (.input (Utf16.encode "Grüße für 5 €".toList) false)).sent =
      "Grüße für 5 €".toList.map keysymOf := by
  have hiff := (text_arrives_iff [] [] [] "Grüße für 5 €".toList rfl).1
  have hown : ("Grüße für 5 €".toList.all fun c => decide (OwnKeysym c)) = true := by decide
  exact hiff.mpr ⟨fun c hc => of_decide_eq_true (List.all_eq_true.mp hown c hc), .inl rfl⟩

/-- A full-width parenthesis is sent as BackSpace. -/
theorem parenthesis_deletes : ¬ ∀ (es : List KbdEvent) (pre post : List ℕ) (text : List Char),
    pre ++ post = (run step new es).kbdPrevValue →
    presses ((run step new es).step (.input (pre ++ Utf16.encode text ++ post) false)).sent =
      presses (run step new es).sent ++ text.map keysymOf := by
  intro h
  have hsent : presses (step new (.input (Utf16.encode ['（']) false)).sent = [0xff08] := by
    decide +kernel
  have hall := h [] [] [] ['（'] rfl
  have hkeysym : keysymOf '（' = 0x0100ff08 := by
    decide +kernel
  rw [List.append_nil, List.nil_append, run_nil, hsent, List.map_singleton, hkeysym] at hall
  exact absurd hall (by decide)

end SoftKeyboard

/-! ### Compositions -/

/-- When a composition ends, the browser may deliver an input event that shows the text: before
`compositionend` or behind it, where it may write the text anew or leave the value as it is. -/
inductive FinalInput
  | absent
  | before
  | after (rewritten : Bool)
  deriving DecidableEq

/-- An edit outside of compositions, a text that a composition shows, with an input event or without
one, and the text that an input method commits. -/
inductive ImeEvent
  | edit (value : List ℕ)
  | compose (buffer : List ℕ) (fires : Bool)
  | commit (text : List ℕ) (final : FinalInput)
  deriving DecidableEq

/-- The text area in a browser: what a composition stands behind, while there is one, and the keys
that are due, once for each text that was committed. A value that is set has the caret behind it. -/
structure ImeSession where
  kbd : SoftKeyboard
  composing : Option (List ℕ)
  due : List SentKey
  deriving DecidableEq

namespace ImeSession

open Transition

def new : ImeSession := ⟨.new, none, []⟩

def base (s : ImeSession) : List ℕ := s.composing.getD s.kbd.value

/-- The events of a commit, with the committed text in the text area. -/
def deliver (k : SoftKeyboard) (text : List ℕ) : FinalInput → SoftKeyboard
  | .absent => k.onCompositionEnd (some text)
  | .before => (k.onInput false).onCompositionEnd (some text)
  | .after false => (k.onCompositionEnd (some text)).onInput false
  | .after true =>
    let k := k.onCompositionEnd (some text)
    (k.setValue (k.value ++ text)).onInput false

def step (s : ImeSession) : ImeEvent → ImeSession
  | .edit value =>
    -- an input event is no edit of its own while a composition goes on
    if s.composing.isSome then s
    else
      { s with
        kbd := (s.kbd.setValue value).onInput false
        due := s.due ++ editKeys value s.kbd.kbdPrevValue }
  | .compose buffer fires =>
    let k := s.kbd.setValue (s.base ++ buffer)
    { s with kbd := if fires then k.onInput true else k, composing := some s.base }
  | .commit text final =>
    { kbd := deliver (s.kbd.setValue (s.base ++ text)) text final
      composing := none
      due := s.due ++ sendText text }

def SentOnce (s : ImeSession) : Prop := s.kbd.sent = s.due

def Unseen (_ : ImeSession) : ImeEvent → Prop
  | .commit text final => final = .absent ∨ final = .after false ∨ ∀ u ∈ text, u = 0
  | _ => True

/-- Outside of compositions, and behind the start of one, the text area has its last value. -/
structure Inv (s : ImeSession) : Prop where
  seeded : s.kbd.Seeded
  base : s.base = s.kbd.kbdPrevValue
  sent : s.SentOnce

variable {s : ImeSession} {k : SoftKeyboard} {e : ImeEvent}

theorem editKeys_append (h : k.Seeded) (text : List ℕ) :
    editKeys (k.kbdPrevValue ++ text) k.kbdPrevValue = sendText text := by
  have hedit : edit (k.kbdPrevValue ++ text) k.kbdPrevValue = (0, text) := by
    rcases h.prev with hnil | hseed
    · rw [hnil]
      exact edit_nil text
    · rw [hseed]
      exact edit_cons 120 text
  rw [editKeys, hedit]
  rfl

theorem sendText_eq_nil {text : List ℕ} : sendText text = [] ↔ ∀ u ∈ text, u = 0 := by
  rw [← Utf16.forall_decode_eq_zero, sendText, List.flatMap_eq_nil_iff]
  refine forall₂_congr fun u _ => ?_
  rw [charKeysym]
  split_ifs with hu <;> simp [hu, tap]

theorem value_onInput (h : k.Seeded) :
    (k.onInput false).value = kbdSeed ∧ (k.onInput false).kbdPrevValue = kbdSeed := by
  simp [SoftKeyboard.onInput, h.rfb, SoftKeyboard.kbdSeedField]

theorem value_onCompositionEnd (h : k.Seeded) (data : Option (List ℕ)) :
    (k.onCompositionEnd data).value = kbdSeed ∧
      (k.onCompositionEnd data).kbdPrevValue = kbdSeed := by
  simp [SoftKeyboard.onCompositionEnd, h.rfb, SoftKeyboard.kbdSeedField]

theorem seeded_deliver (h : k.Seeded) (text : List ℕ) (final : FinalInput) :
    (deliver k text final).Seeded := by
  cases final with
  | absent => exact h.onCompositionEnd _
  | before => exact (h.onInput false).onCompositionEnd _
  | after rewritten =>
    cases rewritten with
    | false => exact (h.onCompositionEnd _).onInput false
    | true => exact ((h.onCompositionEnd _).setValue _).onInput false

theorem value_deliver (h : k.Seeded) (text : List ℕ) (final : FinalInput) :
    (deliver k text final).value = kbdSeed ∧ (deliver k text final).kbdPrevValue = kbdSeed := by
  cases final with
  | absent => exact value_onCompositionEnd h _
  | before => exact value_onCompositionEnd (h.onInput false) _
  | after rewritten =>
    cases rewritten with
    | false => exact value_onInput (h.onCompositionEnd _)
    | true => exact value_onInput ((h.onCompositionEnd _).setValue _)

/-- What the events of a commit send: the text, and once more where an input event shows it. -/
theorem sent_deliver (h : k.Seeded) (text : List ℕ) (final : FinalInput) :
    (deliver (k.setValue (k.kbdPrevValue ++ text)) text final).sent = k.sent ++ sendText text ++
      if final = .absent ∨ final = .after false then [] else sendText text := by
  have hset := h.setValue (k.kbdPrevValue ++ text)
  have hinput : ((k.setValue (k.kbdPrevValue ++ text)).onInput false).sent =
      k.sent ++ sendText text := by
    rw [SoftKeyboard.sent_onInput hset]
    exact congrArg _ (editKeys_append h text)
  have hend : ((k.setValue (k.kbdPrevValue ++ text)).onCompositionEnd (some text)).sent =
      k.sent ++ sendText text := SoftKeyboard.sent_onCompositionEnd hset _
  have hseeded := hset.onCompositionEnd (some text)
  obtain ⟨hvalue, hprev⟩ := value_onCompositionEnd hset (some text)
  cases final with
  | absent => simp [deliver, hend]
  | before =>
    rw [deliver, SoftKeyboard.sent_onCompositionEnd (hset.onInput false), hinput]
    simp
  | after rewritten =>
    cases rewritten with
    | false =>
      have hnone := editKeys_append hseeded []
      rw [List.append_nil, hprev] at hnone
      rw [deliver, SoftKeyboard.sent_onInput hseeded, hend, hvalue, hprev, hnone]
      simp [sendText, Utf16.decode]
    | true =>
      have honce := editKeys_append hseeded text
      rw [hprev, ← hvalue] at honce
      rw [deliver, SoftKeyboard.sent_onInput (hseeded.setValue _)]
      simp only [SoftKeyboard.setValue] at hend hvalue hprev honce ⊢
      rw [hend, hprev, ← hvalue, honce]
      simp

/-- A commit sends its text once exactly if no input event shows it. -/
theorem sentOnce_commit (h : s.Inv) (text : List ℕ) (final : FinalInput) :
    (s.step (.commit text final)).SentOnce ↔ s.Unseen (.commit text final) := by
  have hsent := sent_deliver h.seeded text final
  rw [← h.base, h.sent] at hsent
  rw [SentOnce, step, hsent, Unseen, ← sendText_eq_nil]
  split_ifs with hfinal
  · exact iff_of_true (List.append_nil _) (by tauto)
  · rw [List.append_right_eq_self]
    tauto

theorem Inv.step (h : s.Inv) (hgood : s.Unseen e) : (s.step e).Inv := by
  cases e with
  | edit value =>
    simp only [ImeSession.step]
    split_ifs with hc
    · exact h
    · have hset := h.seeded.setValue value
      obtain ⟨hvalue, hprev⟩ := value_onInput hset
      refine ⟨hset.onInput false, ?_, ?_⟩
      · have hnone : s.composing = none := by simpa using hc
        simp [ImeSession.base, hnone, hvalue, hprev]
      · exact (SoftKeyboard.sent_onInput hset).trans (congrArg (· ++ _) h.sent)
  | compose buffer fires =>
    have hset := h.seeded.setValue (s.base ++ buffer)
    have hno : (s.kbd.setValue (s.base ++ buffer)).onInput true =
        s.kbd.setValue (s.base ++ buffer) := by
      simp [SoftKeyboard.onInput]
    simp only [ImeSession.step, hno, ite_self]
    exact ⟨hset, h.base, h.sent⟩
  | commit text final =>
    have hset := h.seeded.setValue (s.base ++ text)
    obtain ⟨hvalue, hprev⟩ := value_deliver hset text final
    exact ⟨seeded_deliver hset text final, hvalue.trans hprev.symm,
      (sentOnce_commit h text final).mpr hgood⟩

theorem inv_new : new.Inv := ⟨SoftKeyboard.seeded_new, rfl, rfl⟩

/-- Over all sessions, what was committed is sent once, and nothing else that compositions show,
exactly if no commit has an input event that shows its text, before `compositionend` or anew behind
it. -/
theorem sentOnce_iff (es : List ImeEvent) :
    Always step SentOnce new es ↔ Steps step Unseen new es := by
  refine always_iff_steps_of_all (fun _ _ h => h.step) (fun _ h => h.sent) ?_ inv_new
  intro s e h hp
  cases e with
  | commit text final => exact (sentOnce_commit h text final).mp hp
  | edit value => trivial
  | compose buffer fires => trivial

/-- A text is sent twice where its input event comes before the end of the composition. -/
theorem commit_sent_twice : ¬ ∀ es : List ImeEvent, Always step SentOnce new es := by
  intro h
  have hs := h [.compose (Utf16.encode ['n', 'i']) true, .commit (Utf16.encode ['你']) .before] _
    List.prefix_rfl
  revert hs
  unfold SentOnce
  decide +kernel

end ImeSession

end Urc
