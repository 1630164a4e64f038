import Mathlib.Data.Fintype.Basic
import Mathlib.Data.Rat.Defs
import Mathlib.Algebra.Order.Group.Unbundled.Abs
import Urc.Web.Viewport

/-! # The gesture handler of noVNC

The vendored handler sees the touches of the canvas, tracks those that may form a gesture, and
dispatches the events of the gesture that it detects. It excludes gestures from a set until one is
left. A handler that throws leaves behind what it has written.
-/

namespace Urc

inductive Gesture
  | onetap
  | twotap
  | threetap
  | drag
  | longpress
  | twodrag
  | pinch
  deriving DecidableEq

instance : Fintype Gesture where
  elems := {.onetap, .twotap, .threetap, .drag, .longpress, .twodrag, .pinch}
  complete := fun g => by cases g <;> decide

inductive GesturePhase
  | start
  | move
  | stop
  deriving DecidableEq

structure GestureEvent where
  phase : GesturePhase
  gesture : Gesture
  client : Point
  magnitude : Option Point
  deriving DecidableEq

structure TrackedTouch where
  id : ℕ
  started : ℕ
  active : Bool
  first : Point
  last : Point
  deriving DecidableEq

/-- The full set of gestures is the initial state, the empty set the one without a gesture.
The timers are under way when they are true; `twoTouchId` says that the number of the second has
not been cleared, which its end does not do. -/
structure GestureHandler where
  state : Finset Gesture
  tracked : List TrackedTouch
  ignored : List ℕ
  waitingRelease : Bool
  releaseStart : ℕ
  longpressTimer : Bool
  twoTouchTimer : Bool
  twoTouchId : Bool
  pushed : List GestureEvent
  deriving DecidableEq

def sqDist (p q : Point) : ℚ := (p.x - q.x) ^ 2 + (p.y - q.y) ^ 2

def average (ps : List Point) : Point :=
  ⟨(ps.map (·.x)).sum / ps.length, (ps.map (·.y)).sum / ps.length⟩

namespace GestureHandler

open Gesture

/-- What a method leaves behind, when it returns and when it throws. -/
abbrev Outcome := Except GestureHandler GestureHandler

def settle : Outcome → GestureHandler
  | .ok h => h
  | .error h => h

def moveThreshold : ℚ := 50

def multitouchTimeout : ℕ := 250

def tapTimeout : ℕ := 1000

def new : GestureHandler := ⟨Finset.univ, [], [], false, 0, false, false, false, []⟩

def stateToGesture (state : Finset Gesture) : Option Gesture :=
  [onetap, twotap, threetap, drag, longpress, twodrag, pinch].find? fun g => state = {g}

def hasDetectedGesture (h : GestureHandler) : Bool :=
  match stateToGesture h.state with
  | none => false
  | some onetap | some twotap | some threetap => !h.tracked.any (·.active)
  | some _ => true

def stopLongpress (h : GestureHandler) : GestureHandler := { h with longpressTimer := false }

def startTwoTouch (h : GestureHandler) : GestureHandler :=
  { h with twoTouchTimer := true, twoTouchId := true }

def stopTwoTouch (h : GestureHandler) : GestureHandler :=
  { h with twoTouchTimer := false, twoTouchId := false }

def getAverageMovement (tracked : List TrackedTouch) : Point :=
  let first := average (tracked.map (·.first))
  let last := average (tracked.map (·.last))
  ⟨last.x - first.x, last.y - first.y⟩

/-- The distance of the first and the last touch, at their first or their last places. -/
def getAverageDistance (tracked : List TrackedTouch) (place : TrackedTouch → Point) : Point :=
  match tracked.head?, tracked.getLast? with
  | some first, some last =>
    ⟨|(place last).x - (place first).x|, |(place last).y - (place first).y|⟩
  | _, _ => ⟨0, 0⟩

/-- The event of a phase. It throws without a gesture, or without a tracked touch. -/
def pushEvent (h : GestureHandler) (phase : GesturePhase) : Outcome :=
  match stateToGesture h.state with
  | none => .error h
  | some gesture =>
    if h.tracked = [] then .error h
    else
      let client :=
        if phase = .start ∨ gesture = twodrag ∨ gesture = pinch then
          average (h.tracked.map (·.first))
        else average (h.tracked.map (·.last))
      let magnitude := match gesture, phase with
        | pinch, .start => some (getAverageDistance h.tracked (·.first))
        | pinch, _ => some (getAverageDistance h.tracked (·.last))
        | twodrag, .start => some ⟨0, 0⟩
        | twodrag, _ => some (getAverageMovement h.tracked)
        | _, _ => none
      .ok { h with pushed := h.pushed ++ [⟨phase, gesture, client, magnitude⟩] }

def touchStart (h : GestureHandler) (id : ℕ) (p : Point) (now : ℕ) : GestureHandler :=
  if h.hasDetectedGesture ∨ h.state = ∅ then { h with ignored := h.ignored ++ [id] }
  else if h.tracked.head?.any fun t => multitouchTimeout < now - t.started then
    { h with state := ∅, ignored := h.ignored ++ [id] }
  else if h.waitingRelease then { h with state := ∅, ignored := h.ignored ++ [id] }
  else
    let touch : TrackedTouch := ⟨id, now, true, p, p⟩
    let h := { h with tracked := h.tracked ++ [touch] }
    match h.tracked.length with
    | 1 => { h with longpressTimer := true }
    | 2 => { h with state := h.state \ {onetap, drag, longpress}, longpressTimer := false }
    | 3 => { h with state := h.state \ {twotap, twodrag, pinch} }
    | _ => { h with state := ∅ }

def updateTouch (h : GestureHandler) (id : ℕ) (f : TrackedTouch → TrackedTouch) :
    GestureHandler :=
  { h with tracked := h.tracked.modify (h.tracked.findIdx (·.id = id)) f }

def opposed (t t' : TrackedTouch) : Bool :=
  (t.last.x - t.first.x) * (t'.last.x - t'.first.x) +
    (t.last.y - t.first.y) * (t'.last.y - t'.first.y) < 0

def excludeTwoTouch (h : GestureHandler) (touch : TrackedTouch) : Outcome :=
  match h.tracked.find? (·.id ≠ touch.id) with
  | none => .error h
  | some prevTouch =>
    if moveThreshold ^ 2 < sqDist prevTouch.first prevTouch.last then
      let excluded := if opposed touch prevTouch then twodrag else pinch
      let h := { h with state := h.state.erase excluded }
      .ok (if h.twoTouchId then h.stopTwoTouch else h)
    else if !h.twoTouchId then .ok h.startTwoTouch
    else .ok h

def exclude (h : GestureHandler) (touch : TrackedTouch) : Outcome :=
  let h := { h with state := h.state \ {onetap, twotap, threetap, longpress} }.stopLongpress
  let h := if h.tracked.length ≠ 1 then { h with state := h.state.erase drag } else h
  let h := if h.tracked.length ≠ 2 then { h with state := h.state \ {twodrag, pinch} } else h
  if h.tracked.length = 2 then h.excludeTwoTouch touch else .ok h

def touchMove (h : GestureHandler) (id : ℕ) (p : Point) : Outcome :=
  match h.tracked.find? (·.id = id) with
  | none => .ok h
  | some touch => do
    let h := h.updateTouch id fun t => { t with last := p }
    if h.hasDetectedGesture then h.pushEvent .move
    else if sqDist p touch.first < moveThreshold ^ 2 then return h
    else
      let h ← h.exclude { touch with last := p }
      if h.hasDetectedGesture then
        let h ← h.pushEvent .start
        h.pushEvent .move
      else return h

/-- The reset once no touch is left, at the end of an ignored touch and of a gesture. -/
def reset (h : GestureHandler) : GestureHandler :=
  { h with state := Finset.univ, waitingRelease := false }

/-- A release before the timer has decided between a pinch and a drag. -/
def releaseEarly (h : GestureHandler) : GestureHandler :=
  if !h.hasDetectedGesture && h.twoTouchId then { h.stopTwoTouch with state := ∅ } else h

def otherTaps : ℕ → Finset Gesture
  | 1 => {twotap, threetap}
  | 2 => {onetap, threetap}
  | _ => ∅

def excludeRelease (h : GestureHandler) (now : ℕ) : GestureHandler :=
  if h.hasDetectedGesture then h
  else
    let h := { h with state := h.state \ {drag, twodrag, pinch, longpress} }.stopLongpress
    if h.waitingRelease then h
    else
      { h with
        releaseStart := now
        waitingRelease := true
        state := h.state \ otherTaps h.tracked.length }

/-- The touches were not released at roughly the same time, or one of them is too old for a tap. -/
def releasedLate (h : GestureHandler) (now : ℕ) : Bool :=
  multitouchTimeout < now - h.releaseStart ||
    h.tracked.any fun t => tapTimeout < now - t.started

/-- The end of the gesture. Touches that are still there are ignored from now on. -/
def finish (h : GestureHandler) (id : ℕ) : Outcome := do
  let h ← if h.hasDetectedGesture then h.pushEvent .stop else pure h
  let h := { h with
    ignored := (h.ignored ++ (h.tracked.filter (·.active)).map (·.id)).erase id
    tracked := []
    state := ∅ }
  return if h.ignored = [] then h.reset else h

/-- The release of a touch, when all are awaited. It throws when the touch is not tracked. -/
def release (h : GestureHandler) (id : ℕ) (now : ℕ) : Outcome :=
  let h := { h with state := if h.releasedLate now then ∅ else h.state }
  if !h.tracked.any (·.id = id) then .error h
  else do
    let h := h.updateTouch id fun t => { t with active := false }
    if h.hasDetectedGesture then
      let h ← h.pushEvent .start
      h.finish id
    else if h.state ≠ ∅ then return h
    else h.finish id

def touchEnd (h : GestureHandler) (id : ℕ) (now : ℕ) : Outcome :=
  if id ∈ h.ignored then
    let h := { h with ignored := h.ignored.erase id }
    .ok (if h.ignored = [] ∧ h.tracked = [] then h.reset else h)
  else
    let h := h.releaseEarly.excludeRelease now
    if h.waitingRelease then h.release id now else h.finish id

def longpressTimeout (h : GestureHandler) : Outcome :=
  let h := { h with longpressTimer := false }
  if h.hasDetectedGesture then .error h
  else { h with state := {longpress} }.pushEvent .start

/-- A pinch changes the distance of the touches by more than they move together. The distance
changes by more than `v` when the sum of the squares exceeds `v ^ 2` by more than twice the product
of the distances. -/
def changesDistance (tracked : List TrackedTouch) (v : ℚ) : Bool :=
  let first := getAverageDistance tracked (·.first)
  let last := getAverageDistance tracked (·.last)
  let a := first.x ^ 2 + first.y ^ 2
  let b := last.x ^ 2 + last.y ^ 2
  0 < a + b - v ^ 2 ∧ 4 * a * b < (a + b - v ^ 2) ^ 2

/-- The end of the timer for a decision between a pinch and a drag of two fingers. -/
def twoTouchTimeout (h : GestureHandler) : Outcome :=
  let h := { h with twoTouchTimer := false }
  if h.tracked = [] then .error h
  else do
    let avgM := getAverageMovement h.tracked
    let isPinch := changesDistance h.tracked |avgM.y| && changesDistance h.tracked |avgM.x|
    let h ← { h with state := {if isPinch then pinch else twodrag} }.pushEvent .start
    h.pushEvent .move

/-! ### A handler without a tracked touch -/

/-- The handler tracks no touch and has dispatched no more than the events. -/
structure Idle (events : List GestureEvent) (h : GestureHandler) : Prop where
  tracked : h.tracked = []
  pushed : h.pushed = events

variable {h : GestureHandler} {events : List GestureEvent} {id now : ℕ} {p : Point}

@[simp] theorem settle_ok : settle (.ok h) = h := rfl

@[simp] theorem settle_error : settle (.error h) = h := rfl

@[simp] theorem settle_pure : settle (pure h) = h := rfl

/-- What every method keeps, a sequence of calls keeps that ends with the first that throws. -/
theorem settle_foldlM {α : Type*} {f : GestureHandler → α → Outcome} {P : GestureHandler → Prop}
    (hf : ∀ h a, P h → P (settle (f h a))) (hh : P h) (as : List α) :
    P (settle (as.foldlM f h)) := by
  induction as generalizing h with
  | nil => exact hh
  | cons a as ih =>
    have ha := hf h a hh
    rw [List.foldlM_cons]
    cases hr : f h a with
    | error h' =>
      rw [hr] at ha
      exact ha
    | ok h' =>
      rw [hr] at ha
      exact ih ha

@[simp] theorem touchStart_pushed : (h.touchStart id p now).pushed = h.pushed := by
  simp only [touchStart]
  repeat' split
  all_goals rfl

theorem Idle.pushEvent {phase : GesturePhase} (hh : h.Idle events) :
    h.pushEvent phase = .error h := by
  unfold GestureHandler.pushEvent
  cases stateToGesture h.state with
  | none => rfl
  | some gesture => simp [hh.tracked]

theorem Idle.touchMove (hh : h.Idle events) : h.touchMove id p = .ok h := by
  simp [GestureHandler.touchMove, hh.tracked]

theorem Idle.finish (hh : h.Idle events) : (settle (h.finish id)).Idle events := by
  unfold GestureHandler.finish
  cases h.hasDetectedGesture with
  | true => simpa [hh.pushEvent] using hh
  | false =>
    simp only [Bool.false_eq_true, if_false, pure_bind, settle_pure]
    split_ifs
    · exact ⟨rfl, hh.pushed⟩
    · exact ⟨rfl, hh.pushed⟩

theorem Idle.releaseEarly (hh : h.Idle events) : h.releaseEarly.Idle events := by
  unfold GestureHandler.releaseEarly
  split_ifs
  · exact ⟨hh.tracked, hh.pushed⟩
  · exact hh

theorem Idle.excludeRelease (hh : h.Idle events) : (h.excludeRelease now).Idle events := by
  unfold GestureHandler.excludeRelease
  cases h.hasDetectedGesture with
  | true => exact hh
  | false =>
    cases hw : h.waitingRelease with
    | true => simpa [stopLongpress, hw] using ⟨hh.tracked, hh.pushed⟩
    | false => simpa [stopLongpress, hw] using ⟨hh.tracked, hh.pushed⟩

theorem Idle.release (hh : h.Idle events) : (settle (h.release id now)).Idle events := by
  have hnone : h.tracked.any (·.id = id) = false := by simp [hh.tracked]
  simp only [GestureHandler.release, hnone, Bool.not_false, if_true, settle_error]
  exact ⟨hh.tracked, hh.pushed⟩

theorem Idle.touchEnd (hh : h.Idle events) : (settle (h.touchEnd id now)).Idle events := by
  unfold GestureHandler.touchEnd
  split
  · rw [settle_ok]
    split_ifs
    · exact ⟨hh.tracked, hh.pushed⟩
    · exact ⟨hh.tracked, hh.pushed⟩
  · have hrelease : (h.releaseEarly.excludeRelease now).Idle events :=
      hh.releaseEarly.excludeRelease
    dsimp only
    split
    · exact hrelease.release
    · exact hrelease.finish

theorem Idle.longpressTimeout (hh : h.Idle events) : (settle h.longpressTimeout).Idle events := by
  unfold GestureHandler.longpressTimeout
  dsimp only
  split
  · exact ⟨hh.tracked, hh.pushed⟩
  · have hidle : Idle events { h with longpressTimer := false, state := {longpress} } :=
      ⟨hh.tracked, hh.pushed⟩
    rw [hidle.pushEvent]
    exact hidle

theorem Idle.twoTouchTimeout (hh : h.Idle events) : (settle h.twoTouchTimeout).Idle events := by
  simp only [GestureHandler.twoTouchTimeout, hh.tracked, if_true, settle_error]
  exact ⟨rfl, hh.pushed⟩

end GestureHandler

end Urc
