import Mathlib.Logic.Function.Basic
import Urc.Library.Run
import Urc.Web.Viewport

/-! # The drag lock

A button of the page presses the left mouse button on noVNC's canvas and releases it at the next
click; in between, touch moves become mouse moves. The flag of the lock belongs to the page, the
canvas with its listeners and the button mask to one connection.
-/

namespace Urc

inductive DragMouse
  | press (p : Point)
  | move (p : Point)
  | release (p : Point)
  deriving DecidableEq

/-- `rfb` numbers the RFB object and its canvas, which is in the page while `attached`; `buttonMask`
is the left bit of its mask. `listening` says on which canvases `onDragTouchMove` is. `drag` are
the events that were dispatched since the last press, `completed` those of the drags that ended. -/
structure DragLock where
  dragLocked : Bool
  dragOrigin : Option Point
  rfb : ℕ
  attached : Bool
  buttonMask : Bool
  listening : ℕ → Bool
  drag : List DragMouse
  completed : List (List DragMouse)

/-- `button` carries the centre of the canvas, `touchMove` the canvas that the touch began on. -/
inductive DragEvent
  | button (centre : Point)
  | touchMove (canvas : ℕ) (touches : List Point)
  | disconnect
  | startVNC
  deriving DecidableEq

namespace DragLock

open Transition

def new : DragLock := ⟨false, none, 0, true, false, fun _ => false, [], []⟩

def lock (s : DragLock) (centre : Point) : DragLock :=
  { s with
    dragLocked := true
    dragOrigin := some centre
    buttonMask := true
    listening := Function.update s.listening s.rfb true
    drag := [.press centre] }

/-- The release at the origin of the drag, if there is one. -/
def unlock (s : DragLock) : DragLock :=
  let s := match s.dragOrigin with
    | some origin =>
      { s with
        buttonMask := false
        drag := []
        completed := s.completed ++ [s.drag ++ [DragMouse.release origin]] }
    | none => s
  { s with
    dragLocked := false
    dragOrigin := none
    listening := Function.update s.listening s.rfb false }

def onButton (s : DragLock) (centre : Point) : DragLock :=
  if !s.attached then s
  else if !s.dragLocked then s.lock centre
  else s.unlock

def onDragTouchMove (s : DragLock) (touches : List Point) : DragLock :=
  match touches with
  | [] => s
  | t :: _ => if s.attached then { s with drag := s.drag ++ [.move t] } else s

def startVNC (s : DragLock) : DragLock :=
  { s with rfb := s.rfb + 1, attached := true, buttonMask := false }

def step (s : DragLock) : DragEvent → DragLock
  | .button centre => s.onButton centre
  | .touchMove canvas touches => if s.listening canvas then s.onDragTouchMove touches else s
  | .disconnect => { s with attached := false }
  | .startVNC => s.startVNC

def dragged (p : Point) (moves : List Point) : List DragMouse := .press p :: moves.map .move

def WellFormedDrag (events : List DragMouse) : Prop :=
  ∃ p moves, events = dragged p moves ++ [.release (moves.getLast?.getD p)]

/-- The lock holds the left button in the current connection, and hears the touches of its
canvas. -/
def Holds (s : DragLock) : Prop :=
  s.attached = true ∧ s.buttonMask = true ∧ s.listening s.rfb = true

/-- The flag says what the lock holds, and every drag that was completed is well formed. -/
structure Coherent (s : DragLock) : Prop where
  flag : s.dragLocked = true ↔ s.Holds
  drags : ∀ events ∈ s.completed, WellFormedDrag events

/-- No connection ends or begins under the lock, and a release is where the last move led. -/
def Undragged (s : DragLock) : DragEvent → Prop
  | .button _ => ∀ p, s.attached = true → s.dragLocked = true → s.drag.getLast? = some (.move p) →
    s.dragOrigin = some p
  | .touchMove _ _ => True
  | .disconnect | .startVNC => s.dragLocked = false

structure Held (s : DragLock) : Prop where
  drags : ∀ events ∈ s.completed, WellFormedDrag events
  locked : s.dragLocked = true →
    s.Holds ∧ ∃ p moves, s.dragOrigin = some p ∧ s.drag = dragged p moves
  unlocked : s.dragLocked = false → s.buttonMask = false
  silent : ∀ c, s.listening c = true → s.dragLocked = true ∧ c = s.rfb

variable {s : DragLock} {e : DragEvent}

theorem Held.coherent (h : s.Held) : s.Coherent where
  flag := by
    constructor
    · exact fun hl => (h.locked hl).1
    · intro hh
      by_contra hl
      have hmask := h.unlocked (by simpa using hl)
      exact absurd (hmask.symm.trans hh.2.1) (by decide)
  drags := h.drags

theorem held_new : new.Held where
  drags := by simp [new]
  locked := fun h => by cases h
  unlocked := fun _ => rfl
  silent := fun c h => by cases h

/-- A drag is well formed exactly when its release is where the last move led. -/
theorem wellFormedDrag_iff {p r : Point} {moves : List Point} :
    WellFormedDrag (dragged p moves ++ [.release r]) ↔ r = moves.getLast?.getD p := by
  constructor
  · rintro ⟨p', moves', heq⟩
    obtain ⟨hdrag, hr⟩ := List.append_inj' heq rfl
    obtain ⟨hp, hmoves⟩ := List.cons.inj hdrag
    obtain rfl : p = p' := by simpa using hp
    have hinj : Function.Injective DragMouse.move := fun a b h => by simpa using h
    obtain rfl := hinj.list_map hmoves
    simpa using hr
  · rintro rfl
    exact ⟨p, moves, rfl⟩

theorem getLast?_dragged {p q : Point} {moves : List Point} :
    (dragged p moves).getLast? = some (.move q) ↔ moves.getLast? = some q := by
  rw [dragged, List.getLast?_cons, List.getLast?_map]
  cases moves.getLast? <;> simp

theorem origin_iff {p : Point} {moves : List Point} :
    (∀ q, (dragged p moves).getLast? = some (.move q) → some p = some q) ↔
      p = moves.getLast?.getD p := by
  simp only [getLast?_dragged]
  cases moves.getLast? <;> simp

theorem Held.lock (h : s.Held) (ha : s.attached = true) (hl : s.dragLocked = false)
    (centre : Point) : (s.lock centre).Held := by
  refine ⟨h.drags, fun _ => ⟨⟨ha, rfl, ?_⟩, centre, [], rfl, rfl⟩, ?_, fun c hc => ⟨rfl, ?_⟩⟩
  · simp [DragLock.lock]
  · exact fun hno => by cases hno
  · by_contra hne
    have hne' : c ≠ s.rfb := hne
    have hold : s.listening c = true := by simpa [DragLock.lock, hne'] using hc
    exact absurd (hl.symm.trans (h.silent c hold).1) (by decide)

theorem unlock_eq {p : Point} (h : s.dragOrigin = some p) : s.unlock =
    { s with
      dragLocked := false
      dragOrigin := none
      buttonMask := false
      listening := Function.update s.listening s.rfb false
      drag := []
      completed := s.completed ++ [s.drag ++ [.release p]] } := by
  simp [unlock, h]

theorem Held.unlock (h : s.Held) (hl : s.dragLocked = true)
    (hgood : ∀ q, s.drag.getLast? = some (.move q) → s.dragOrigin = some q) : s.unlock.Held := by
  obtain ⟨-, p, moves, horigin, hdrag⟩ := h.locked hl
  rw [unlock_eq horigin]
  refine ⟨fun events hmem => ?_, fun hno => ?_, fun _ => rfl, fun c hc => ?_⟩
  · rcases List.mem_append.mp hmem with hold | hnew
    · exact h.drags events hold
    · obtain rfl := List.mem_singleton.mp hnew
      rw [horigin, hdrag] at hgood
      rw [hdrag]
      exact wellFormedDrag_iff.mpr (origin_iff.mp hgood)
  · cases hno
  · by_cases hcur : c = s.rfb
    · simp [hcur] at hc
    · have hold : s.listening c = true := by simpa [hcur] using hc
      exact absurd (h.silent c hold).2 hcur

theorem Held.onButton {centre : Point} (h : s.Held) (hgood : s.Undragged (.button centre)) :
    (s.onButton centre).Held := by
  unfold DragLock.onButton
  cases ha : s.attached with
  | false => exact h
  | true =>
    cases hl : s.dragLocked with
    | false => exact h.lock ha hl centre
    | true => exact h.unlock hl fun q hq => hgood q ha hl hq

theorem Held.onDragTouchMove {touches : List Point} (h : s.Held) (hl : s.dragLocked = true) :
    (s.onDragTouchMove touches).Held := by
  obtain ⟨hh, p, moves, horigin, hdrag⟩ := h.locked hl
  cases touches with
  | nil => exact h
  | cons t touches =>
    simp only [DragLock.onDragTouchMove]
    split_ifs
    · refine ⟨h.drags, fun _ => ⟨hh, p, moves ++ [t], horigin, ?_⟩, h.unlocked, h.silent⟩
      simp [hdrag, dragged]
    · exact h

theorem Held.step (h : s.Held) (hgood : s.Undragged e) : (s.step e).Held := by
  cases e with
  | button centre => exact h.onButton hgood
  | touchMove canvas touches =>
    simp only [DragLock.step]
    split_ifs with hc
    · exact h.onDragTouchMove (h.silent canvas hc).1
    · exact h
  | disconnect =>
    have hl : s.dragLocked = false := hgood
    exact ⟨h.drags, fun hl' => absurd (hl.symm.trans hl') (by decide), h.unlocked, h.silent⟩
  | startVNC =>
    have hl : s.dragLocked = false := hgood
    refine ⟨h.drags, fun hl' => absurd (hl.symm.trans hl') (by decide), fun _ => rfl,
      fun c hc => ?_⟩
    exact absurd (hl.symm.trans (h.silent c hc).1) (by decide)

/-- A step that leaves the lock coherent meets the condition. -/
theorem Held.undragged (h : s.Held) (hc : (s.step e).Coherent) : s.Undragged e := by
  cases e with
  | button centre =>
    intro q ha hl hlast
    obtain ⟨-, p, moves, horigin, hdrag⟩ := h.locked hl
    have hstep : s.step (.button centre) = s.unlock := by
      simp [DragLock.step, DragLock.onButton, ha, hl]
    have hwell : WellFormedDrag (s.drag ++ [.release p]) := by
      apply hc.drags
      rw [hstep, unlock_eq horigin]
      exact List.mem_append_right _ List.mem_cons_self
    rw [hdrag] at hwell hlast
    exact horigin.trans (origin_iff.mpr (wellFormedDrag_iff.mp hwell) q hlast)
  | touchMove canvas touches => trivial
  | disconnect =>
    by_contra hl
    have hlocked : s.dragLocked = true := by simpa [Undragged] using hl
    have hgone : (s.step .disconnect).attached = false := rfl
    exact absurd (hgone.symm.trans (hc.flag.mp hlocked).1) (by decide)
  | startVNC =>
    by_contra hl
    have hlocked : s.dragLocked = true := by simpa [Undragged] using hl
    have hfree : (s.step .startVNC).buttonMask = false := rfl
    exact absurd (hfree.symm.trans (hc.flag.mp hlocked).2.1) (by decide)

/-- The lock is coherent along a run exactly when no connection ends or begins under it and every
drag is released where its last move led. -/
theorem drag_lock_coherent_iff (es : List DragEvent) :
    Always step Coherent new es ↔ Steps step Undragged new es :=
  always_iff_steps_of_all (fun _ _ h hgood => h.step hgood) (fun _ h => h.coherent)
    (fun _ _ h hc => h.undragged hc) held_new

/-- A drag is released where it began, not where its move led. -/
theorem drag_released_at_origin : ¬ ∀ es, Always step Coherent new es := by
  intro h
  have hc := h [.button ⟨400, 300⟩, .touchMove 0 [⟨500, 300⟩], .button ⟨400, 300⟩] _ List.prefix_rfl
  have hdrag : WellFormedDrag (dragged ⟨400, 300⟩ [⟨500, 300⟩] ++ [.release ⟨400, 300⟩]) :=
    hc.drags _ (by decide +kernel)
  exact absurd (wellFormedDrag_iff.mp hdrag) (by decide +kernel)

end DragLock

end Urc
