import Mathlib.Data.List.Sort
import Urc.Library.OrderedMap
import Urc.Library.Run

/-! # The keys that are held

The vendored `Keyboard` keeps the keys that are down in an object, by their codes. The server does
not repeat keys, so each repeat of the viewer is a release and a fresh press.
-/

namespace Urc

/-- What is passed as a keysym: one of X11 or null, or a property that an object inherits, or
`undefined`. -/
inductive Keysym
  | key (keysym : Option ℕ)
  | inherited (name : String)
  | undefined
  deriving DecidableEq

structure Locks where
  numlock : Option Bool
  capslock : Option Bool
  deriving DecidableEq

def Locks.unknown : Locks := ⟨none, none⟩

/-- A call of `onkeyevent`. -/
structure KeyEvent where
  keysym : Keysym
  code : String
  down : Bool
  locks : Locks
  deriving DecidableEq

/-- `inherits` says whether the object `_keyDownList` still has the prototype of all objects. -/
structure Keyboard where
  keyDownList : OrderedMap String Keysym
  inherits : Bool
  events : List KeyEvent

/-- The calls that reach `_sendKeyEvent`. A release passes the keysym that is stored. -/
inductive KeyCall
  | press (keysym : Option ℕ) (code : String) (locks : Locks)
  | release (code : String) (locks : Locks)
  | allKeysUp

def objectPrototype : List String :=
  ["constructor", "__defineGetter__", "__defineSetter__", "hasOwnProperty", "__lookupGetter__",
    "__lookupSetter__", "isPrototypeOf", "propertyIsEnumerable", "toString", "valueOf",
    "__proto__", "toLocaleString"]

def arrayIndex (name : String) : Option ℕ :=
  name.toNat?.filter fun n => toString n = name && n < 0xFFFFFFFF

/-- The order of `for ... in`: the indices of arrays come first, by their numbers. -/
def enumerate (names : List String) : List String :=
  (names.filter fun n => (arrayIndex n).isSome).mergeSort
      (fun n n' => (arrayIndex n).getD 0 ≤ (arrayIndex n').getD 0) ++
    names.filter fun n => !(arrayIndex n).isSome

namespace Keyboard

open Transition

def new : Keyboard := ⟨∅, true, []⟩

/-- `code in this._keyDownList`. -/
def has (s : Keyboard) (code : String) : Bool :=
  (s.keyDownList.get code).isSome || s.inherits && objectPrototype.contains code

/-- `this._keyDownList[code]`. -/
def stored (s : Keyboard) (code : String) : Keysym :=
  match s.keyDownList.get code with
  | some keysym => keysym
  | none => if s.has code then .inherited code else .undefined

/-- `this._keyDownList[code] = keysym`. The name `__proto__` stands for the prototype, which null
takes away and a number leaves as it is. -/
def store (s : Keyboard) (code : String) (keysym : Keysym) : Keyboard :=
  if s.inherits && code = "__proto__" then { s with inherits := keysym ≠ .key none }
  else { s with keyDownList := s.keyDownList.insert code keysym }

def emit (s : Keyboard) (e : KeyEvent) : Keyboard := { s with events := s.events ++ [e] }

def sendKeyEvent (s : Keyboard) (keysym : Keysym) (code : String) (down : Bool) (locks : Locks) :
    Keyboard :=
  if down then
    let s := if s.has code then s.emit ⟨s.stored code, code, false, locks⟩ else s
    (s.store code keysym).emit ⟨keysym, code, true, locks⟩
  else if s.has code then
    { s with keyDownList := s.keyDownList.erase code }.emit ⟨keysym, code, false, locks⟩
  else s

/-- A release of `_handleKeyUp` or of `_allKeysUp`. -/
def release (s : Keyboard) (code : String) (locks : Locks) : Keyboard :=
  s.sendKeyEvent (s.stored code) code false locks

def allKeysUp (s : Keyboard) : Keyboard :=
  (enumerate s.keyDownList.keys).foldl (fun s code => s.release code .unknown) s

def step (s : Keyboard) : KeyCall → Keyboard
  | .press keysym code locks => s.sendKeyEvent (.key keysym) code true locks
  | .release code locks => s.release code locks
  | .allKeysUp => s.allKeysUp

def eventsOf (s : Keyboard) (code : String) : List KeyEvent := s.events.filter (·.code = code)

end Keyboard

/-- The code of a call is no property of all objects, as no code of a keyboard is. -/
def KeyCall.Plain : KeyCall → Prop
  | .press _ code _ => code ∉ objectPrototype
  | .release code _ => code ∉ objectPrototype
  | .allKeysUp => True

/-- Presses and releases that alternate, from a held keysym or none to one, where each release has
the keysym of the press that it ends. -/
def Alternates : Option Keysym → List KeyEvent → Option Keysym → Prop
  | held, [], final => held = final
  | none, e :: es, final => e.down = true ∧ Alternates (some e.keysym) es final
  | some keysym, e :: es, final => e.down = false ∧ e.keysym = keysym ∧ Alternates none es final

theorem alternates_append {held held' held'' : Option Keysym} {es es' : List KeyEvent}
    (h : Alternates held es held') (h' : Alternates held' es' held'') :
    Alternates held (es ++ es') held'' := by
  induction es generalizing held with
  | nil =>
    obtain rfl : held = held' := h
    exact h'
  | cons e es ih =>
    cases held with
    | none => exact ⟨h.1, ih h.2⟩
    | some keysym => exact ⟨h.1, h.2.1, ih h.2.2⟩

theorem enumerate_perm (names : List String) : (enumerate names).Perm names :=
  ((List.mergeSort_perm _ _).append_right _).trans (List.filter_append_perm _ names)

namespace Keyboard

open Transition

variable {s : Keyboard} {code : String} {keysym : Keysym} {locks : Locks} {codes : List String}

/-! ### What one call does -/

theorem has_of_plain (hcode : code ∉ objectPrototype) :
    s.has code = (s.keyDownList.get code).isSome := by
  simp [has, hcode]

theorem stored_of_get (h : s.keyDownList.get code = some keysym) : s.stored code = keysym := by
  simp [stored, h]

theorem not_proto (hcode : code ∉ objectPrototype) : code ≠ "__proto__" := by
  rintro rfl
  exact hcode (by decide)

/-- A press ends the press before it, and is stored. -/
theorem press_eq (hcode : code ∉ objectPrototype) :
    s.sendKeyEvent keysym code true locks =
      { s with
        keyDownList := s.keyDownList.insert code keysym
        events := s.events ++ ((s.keyDownList.get code).toList.map
          fun keysym => ⟨keysym, code, false, locks⟩) ++ [⟨keysym, code, true, locks⟩] } := by
  have hstore : ∀ s : Keyboard, s.store code keysym =
      { s with keyDownList := s.keyDownList.insert code keysym } := by
    intro s
    simp [store, not_proto hcode]
  rw [sendKeyEvent, if_pos rfl, has_of_plain hcode]
  cases hget : s.keyDownList.get code with
  | none => simp [hstore, emit]
  | some keysym' => simp [hstore, emit, stored_of_get hget]

theorem release_eq (h : s.keyDownList.get code = some keysym) : s.release code locks =
    { s with
      keyDownList := s.keyDownList.erase code
      events := s.events ++ [⟨keysym, code, false, locks⟩] } := by
  simp [release, sendKeyEvent, has, h, stored_of_get h, emit]

theorem release_of_free (hcode : code ∉ objectPrototype) (h : s.keyDownList.get code = none) :
    s.release code locks = s := by
  simp [release, sendKeyEvent, has_of_plain hcode, h]

/-- Different codes that are held are released one after another. -/
theorem releases_eq (hnodup : codes.Nodup) (h : ∀ code ∈ codes, code ∈ s.keyDownList.keys) :
    codes.foldl (fun s code => s.release code .unknown) s =
      { s with
        keyDownList := codes.foldl .erase s.keyDownList
        events := s.events ++ codes.map fun code => ⟨s.stored code, code, false, .unknown⟩ } := by
  induction codes generalizing s with
  | nil => simp
  | cons code codes ih =>
    obtain ⟨hnot, hnodup⟩ := List.nodup_cons.mp hnodup
    obtain ⟨keysym, hget⟩ := Option.isSome_iff_exists.mp
      (OrderedMap.isSome_get.mpr (h code List.mem_cons_self))
    have hne : ∀ code' ∈ codes, code ≠ code' := fun code' hmem heq => hnot (heq ▸ hmem)
    have hkeep : ∀ code' ∈ codes, (s.keyDownList.erase code).get code' =
        s.keyDownList.get code' := by
      intro code' hmem
      rw [OrderedMap.get_erase, if_neg (hne code' hmem)]
    rw [List.foldl_cons, release_eq hget, ih hnodup]
    · have hmap : ∀ code' ∈ codes, KeyEvent.mk (stored { s with
          keyDownList := s.keyDownList.erase code
          events := s.events ++ [⟨keysym, code, false, .unknown⟩] } code') code' false .unknown =
          ⟨s.stored code', code', false, .unknown⟩ := by
        intro code' hmem
        simp [stored, has, hkeep code' hmem]
      rw [List.map_congr_left hmap, List.foldl_cons, List.map_cons, stored_of_get hget]
      simp
    · intro code' hmem
      rw [← OrderedMap.isSome_get, hkeep code' hmem, OrderedMap.isSome_get]
      exact h code' (List.mem_cons_of_mem _ hmem)

/-! ### Runs -/

/-- The events of each code alternate, up to what is stored for it. -/
structure Tracked (s : Keyboard) : Prop where
  plain : ∀ code ∈ s.keyDownList.keys, code ∉ objectPrototype
  alternates : ∀ code, Alternates none (s.eventsOf code) (s.keyDownList.get code)

theorem Tracked.append {m : OrderedMap String Keysym} {es : List KeyEvent} (h : s.Tracked)
    (hcode : code ∉ objectPrototype) (hes : ∀ e ∈ es, e.code = code)
    (halt : Alternates (s.keyDownList.get code) es (m.get code))
    (hother : ∀ code', code ≠ code' → m.get code' = s.keyDownList.get code') :
    Tracked { s with keyDownList := m, events := s.events ++ es } := by
  refine ⟨fun code' hmem => ?_, fun code' => ?_⟩
  · by_cases heq : code = code'
    · exact heq ▸ hcode
    · refine h.plain code' (OrderedMap.isSome_get.mp ?_)
      rw [← hother code' heq]
      exact OrderedMap.isSome_get.mpr hmem
  · rw [eventsOf, List.filter_append]
    by_cases heq : code = code'
    · subst heq
      have hall : es.filter (·.code = code) = es :=
        List.filter_eq_self.mpr fun e he => decide_eq_true (hes e he)
      rw [hall]
      exact alternates_append (h.alternates code) halt
    · have hnone : es.filter (·.code = code') = [] := by
        refine List.filter_eq_nil_iff.mpr fun e he => ?_
        simpa [hes e he] using heq
      rw [hnone, List.append_nil, hother code' heq]
      exact h.alternates code'

theorem Tracked.press (h : s.Tracked) (hcode : code ∉ objectPrototype) :
    (s.sendKeyEvent keysym code true locks).Tracked := by
  rw [press_eq hcode]
  simp only [List.append_assoc]
  refine h.append hcode ?_ ?_ fun code' hne => by rw [OrderedMap.get_insert, if_neg hne]
  · intro e he
    rcases List.mem_append.mp he with he | he
    · obtain ⟨_, -, rfl⟩ := List.mem_map.mp he
      rfl
    · rw [List.mem_singleton.mp he]
  · rw [OrderedMap.get_insert, if_pos rfl]
    cases s.keyDownList.get code with
    | none => exact ⟨rfl, rfl⟩
    | some keysym' => exact ⟨rfl, rfl, rfl, rfl⟩

theorem Tracked.release (h : s.Tracked) (hcode : code ∉ objectPrototype) (locks : Locks) :
    (s.release code locks).Tracked := by
  cases hget : s.keyDownList.get code with
  | none => rwa [release_of_free hcode hget]
  | some keysym =>
    rw [release_eq hget]
    refine h.append hcode (by simp) ?_ fun code' hne => by rw [OrderedMap.get_erase, if_neg hne]
    rw [hget, OrderedMap.get_erase, if_pos rfl]
    exact ⟨rfl, rfl, rfl⟩

theorem Tracked.allKeysUp (h : s.Tracked) : s.allKeysUp.Tracked := by
  have hplain : ∀ code ∈ enumerate s.keyDownList.keys, code ∉ objectPrototype :=
    fun code hmem => h.plain code ((enumerate_perm _).mem_iff.mp hmem)
  rw [Keyboard.allKeysUp]
  generalize enumerate s.keyDownList.keys = codes at hplain
  induction codes generalizing s with
  | nil => exact h
  | cons code codes ih =>
    exact ih (h.release (hplain code List.mem_cons_self) .unknown)
      fun code hmem => hplain code (List.mem_cons_of_mem _ hmem)

theorem Tracked.step {c : KeyCall} (h : s.Tracked) (hc : c.Plain) : (s.step c).Tracked := by
  cases c with
  | press keysym code locks => exact h.press hc
  | release code locks => exact h.release hc locks
  | allKeysUp => exact h.allKeysUp

theorem tracked_run {calls : List KeyCall} (h : ∀ c ∈ calls, c.Plain) (hs : s.Tracked) :
    (run step s calls).Tracked := by
  induction calls generalizing s with
  | nil => exact hs
  | cons c calls ih =>
    exact ih (fun c hc => h c (List.mem_cons_of_mem _ hc)) (hs.step (h c List.mem_cons_self))

theorem tracked_new : new.Tracked := by
  refine ⟨fun code hmem => ?_, fun code => rfl⟩
  cases hmem

theorem press_events (s : Keyboard) (keysym : Keysym) (code : String) (locks : Locks) :
    ∃ es, (s.sendKeyEvent keysym code true locks).events = s.events ++ es ∧
      ∀ e ∈ es, e.code = code := by
  have hstore : ∀ s : Keyboard, (s.store code keysym).events = s.events := by
    intro s
    unfold store
    split_ifs <;> rfl
  rw [sendKeyEvent, if_pos rfl]
  split_ifs with hhas
  · refine ⟨[⟨s.stored code, code, false, locks⟩, ⟨keysym, code, true, locks⟩], ?_, by simp⟩
    simp [emit, hstore]
  · exact ⟨[⟨keysym, code, true, locks⟩], by simp [emit, hstore], by simp⟩

theorem get_foldl_erase (m : OrderedMap String Keysym) (code : String) :
    (codes.foldl .erase m).get code = if code ∈ codes then none else m.get code := by
  induction codes generalizing m with
  | nil => simp
  | cons code' codes ih =>
    rw [List.foldl_cons, ih, OrderedMap.get_erase]
    by_cases hmem : code ∈ codes
    · simp [hmem]
    · by_cases heq : code' = code
      · simp [heq]
      · simp [hmem, heq, Ne.symm heq]

/-- `_allKeysUp` releases what is held, each code once, and nothing is held behind it. -/
theorem allKeysUp_eq (s : Keyboard) : ∃ codes : List String, codes.Perm s.keyDownList.keys ∧
    s.allKeysUp.events =
      s.events ++ codes.map (fun code => ⟨s.stored code, code, false, .unknown⟩) ∧
    s.allKeysUp.keyDownList.entries = [] := by
  have hperm := enumerate_perm s.keyDownList.keys
  have heq := releases_eq (s := s) (hperm.nodup_iff.mpr s.keyDownList.nodup)
    fun code hmem => hperm.mem_iff.mp hmem
  refine ⟨_, hperm, by rw [allKeysUp, heq], OrderedMap.entries_eq_nil fun code => ?_⟩
  rw [allKeysUp, heq, get_foldl_erase]
  split_ifs with hmem
  · rfl
  · rw [hperm.mem_iff, ← OrderedMap.isSome_get] at hmem
    simpa using hmem

/-- Over all sequences of calls for codes that are no properties of all objects: the events of each
code alternate, and a release has the keysym of its press; a press has events of its own code only;
and `_allKeysUp` releases each code that is held once, so that none is held. -/
theorem calls_balanced (calls : List KeyCall) (h : ∀ c ∈ calls, c.Plain) :
    let s := run step new calls
    (∀ code, Alternates none (s.eventsOf code) (s.keyDownList.get code)) ∧
    (∀ keysym code locks, ∃ es,
      (s.step (.press keysym code locks)).events = s.events ++ es ∧ ∀ e ∈ es, e.code = code) ∧
    (∃ codes : List String, codes.Nodup ∧ codes.Perm s.keyDownList.keys ∧
      s.allKeysUp.events =
        s.events ++ codes.map fun code => ⟨s.stored code, code, false, .unknown⟩) ∧
    s.allKeysUp.keyDownList.entries = [] ∧
    ∀ code, Alternates none (s.allKeysUp.eventsOf code) none := by
  intro s
  have hs : s.Tracked := tracked_run h tracked_new
  obtain ⟨codes, hperm, hevents, hnil⟩ := s.allKeysUp_eq
  refine ⟨hs.alternates, fun keysym code locks => s.press_events _ code locks,
    ⟨codes, hperm.nodup_iff.mpr s.keyDownList.nodup, hperm, hevents⟩, hnil, fun code => ?_⟩
  have hfree : s.allKeysUp.keyDownList.get code = none := by
    rw [OrderedMap.get, hnil]
    rfl
  have halt := hs.allKeysUp.alternates code
  rwa [hfree] at halt

def repeats : List KeyCall :=
  [.press (some 0xffe1) "ShiftLeft" .unknown, .press (some 65) "KeyA" .unknown,
    .press (some 65) "KeyA" .unknown, .release "KeyB" .unknown, .allKeysUp]

theorem repeats_balanced :
    (∀ c ∈ repeats, c.Plain) ∧ (run step new repeats).allKeysUp.keyDownList.entries = [] := by
  have hplain : ∀ c ∈ repeats, c.Plain := by
    simp [repeats, KeyCall.Plain, objectPrototype]
  exact ⟨hplain, (calls_balanced repeats hplain).2.2.2.1⟩

/-- The first press of a code that is a property of all objects comes behind a release. -/
theorem constructor_released : ¬ ∀ (calls : List KeyCall) (code : String), ∃ final,
    Alternates none ((run step new calls).eventsOf code) final := by
  intro h
  obtain ⟨final, hfinal⟩ := h [.press (some 65) "constructor" .unknown] "constructor"
  have hevents : (run step new [.press (some 65) "constructor" .unknown]).eventsOf "constructor" =
      [⟨.inherited "constructor", "constructor", false, .unknown⟩,
        ⟨.key (some 65), "constructor", true, .unknown⟩] := by
    decide +kernel
  rw [hevents] at hfinal
  exact absurd hfinal.1 (by decide)

end Keyboard

end Urc
