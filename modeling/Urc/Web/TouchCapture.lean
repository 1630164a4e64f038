import Urc.Library.Marks
import Urc.Library.Run
import Urc.Web.GestureHandler

/-! # The capture of touches

On a touch device the page hears the touches of its wrapper before noVNC's canvas does, and stops
those that it takes for a pan or a pinch of its own. Distances of fingers are squared here: of a
distance the page only asks how much it has changed.
-/

namespace Urc

/-- Where a finger came down, which all its touches go to: noVNC's canvas, noVNC's element around
it, the wrapper `#screen` itself, which outlives the two, or the rest of the page. -/
inductive TouchTarget
  | canvas
  | frame
  | wrapper
  | elsewhere
  deriving DecidableEq

def TouchTarget.inScreen (t : TouchTarget) : Bool := t ≠ .elsewhere

def TouchTarget.removed : TouchTarget → TouchTarget
  | .wrapper => .wrapper
  | _ => .elsewhere

inductive PinchMode
  | pending
  | active
  deriving DecidableEq

/-- The `gesture` of the page, less its midpoint, which only pans. -/
structure PinchGesture where
  startSqDist : ℚ
  mode : PinchMode
  deriving DecidableEq

structure NewTouch where
  id : ℕ
  target : TouchTarget
  pos : Point
  deriving DecidableEq

/-- A finger that is down. `magnified` says that it made the fingers two while the page was
magnified. -/
structure Finger extends NewTouch where
  magnified : Bool
  deriving DecidableEq

/-- `stream` are the starts and the ends of touches that were let through to the present canvas. -/
structure TouchPage where
  zoomLevel : ℚ
  gesture : Option PinchGesture
  fingers : List Finger
  handler : GestureHandler
  stream : List (Mark ℕ)

/-- Touches start, move and end together; `lift` is a `touchend` or a `touchcancel`. The zoom level
changes by a pinch, by a button or by the reassertion, and `startVNC` takes the canvas away. -/
inductive TouchEvent
  | start (touches : List NewTouch) (now : ℕ)
  | move (moves : List (ℕ × Point))
  | lift (ids : List ℕ) (now : ℕ)
  | zoom (level : ℚ)
  | longpressTimeout
  | twoTouchTimeout
  | startVNC
  deriving DecidableEq

def pinchTakeoverRatio : ℚ := 8 / 100

/-- The ratio of the change to the distance at the start, or to one where that is zero. -/
def PinchGesture.takenOver (g : PinchGesture) (sqDist : ℚ) : Bool :=
  if g.startSqDist = 0 then pinchTakeoverRatio ^ 2 < sqDist
  else (1 + pinchTakeoverRatio) ^ 2 * g.startSqDist < sqDist ∨
    sqDist < (1 - pinchTakeoverRatio) ^ 2 * g.startSqDist

def PinchGesture.rescales (g : PinchGesture) (sqDist : ℚ) : Bool :=
  0 < g.startSqDist ∧ ((1 + 1 / 1000) ^ 2 * g.startSqDist < sqDist ∨
    sqDist < (1 - 1 / 1000) ^ 2 * g.startSqDist)

/-- The gesture, and whether the event is stopped. -/
def onTouchStartCapture (zoomLevel : ℚ) : List Point → Option PinchGesture × Bool
  | [p, q] =>
    let mode := if 1 < zoomLevel then PinchMode.active else .pending
    (some ⟨sqDist p q, mode⟩, mode = .active)
  | _ => (none, false)

def onTouchMoveCapture : Option PinchGesture → List Point → Option PinchGesture × Bool
  | some g, [p, q] =>
    let d := sqDist p q
    if g.mode = .pending ∧ !g.takenOver d then (some g, false)
    else
      let g := if g.mode = .pending then ⟨d, .active⟩ else g
      (some (if g.rescales d then { g with startSqDist := d } else g), true)
  | gesture, _ => (gesture, false)

/-- The end of a touch is never stopped. -/
def onTouchEndCapture (gesture : Option PinchGesture) (touches : List Point) :
    Option PinchGesture :=
  if touches.length < 2 then none else gesture

namespace TouchPage

open Transition GestureHandler

def new : TouchPage := ⟨1, none, [], .new, []⟩

/-- The `touches` of every event. -/
def touches (s : TouchPage) : List Point := s.fingers.map (·.pos)

def inScreen (s : TouchPage) (id : ℕ) : Bool :=
  s.fingers.any fun f => f.id = id && f.target.inScreen

def onCanvas (s : TouchPage) (id : ℕ) : Bool :=
  s.fingers.any fun f => f.id = id && f.target = .canvas

def Fresh (s : TouchPage) (touches : List NewTouch) : Prop :=
  (touches.map (·.id)).Nodup ∧ ∀ t ∈ touches, t.id ∉ s.fingers.map (·.id)

def Down (s : TouchPage) (ids : List ℕ) : Prop := ids.Nodup ∧ ids ⊆ s.fingers.map (·.id)

instance (s : TouchPage) (touches : List NewTouch) : Decidable (s.Fresh touches) :=
  inferInstanceAs (Decidable (_ ∧ _))

instance (s : TouchPage) (ids : List ℕ) : Decidable (s.Down ids) :=
  inferInstanceAs (Decidable (_ ∧ ∀ id ∈ ids, _))

def Pair (s : TouchPage) (touches : List NewTouch) : Prop :=
  s.fingers.length + touches.length = 2 ∧ 1 < s.zoomLevel

instance (s : TouchPage) (touches : List NewTouch) : Decidable (s.Pair touches) :=
  inferInstanceAs (Decidable (_ ∧ _))

def addFingers (s : TouchPage) (touches : List NewTouch) : TouchPage :=
  { s with fingers := s.fingers ++ touches.map fun t => ⟨t, s.Pair touches⟩ }

/-- The touches that reach the canvas start in its handler. -/
def hearStart (s : TouchPage) (heard : List NewTouch) (now : ℕ) : TouchPage :=
  { s with
    handler := heard.foldl (fun h t => h.touchStart t.id t.pos now) s.handler
    stream := s.stream ++ (heard.map (·.id)).map .start }

def captureStart (s : TouchPage) (touches : List NewTouch) : Option PinchGesture × Bool :=
  if touches.any (·.target.inScreen) then onTouchStartCapture s.zoomLevel s.touches
  else (s.gesture, false)

def touchStart (s : TouchPage) (touches : List NewTouch) (now : ℕ) : TouchPage :=
  if s.Fresh touches then
    let s := s.addFingers touches
    let capture := s.captureStart touches
    let s := { s with gesture := capture.1 }
    if capture.2 then s else s.hearStart (touches.filter (·.target = .canvas)) now
  else s

def moveFingers (s : TouchPage) (moves : List (ℕ × Point)) : TouchPage :=
  { s with fingers := s.fingers.map fun f => { f with pos := (moves.lookup f.id).getD f.pos } }

def captureMove (s : TouchPage) (moves : List (ℕ × Point)) : Option PinchGesture × Bool :=
  if moves.any fun m => s.inScreen m.1 then onTouchMoveCapture s.gesture s.touches
  else (s.gesture, false)

def touchMove (s : TouchPage) (moves : List (ℕ × Point)) : TouchPage :=
  let s := s.moveFingers moves
  let capture := s.captureMove moves
  let s := { s with gesture := capture.1 }
  if capture.2 then s
  else
    let heard := moves.filter fun m => s.onCanvas m.1
    { s with handler := settle (heard.foldlM (fun h m => h.touchMove m.1 m.2) s.handler) }

def touchEnd (s : TouchPage) (ids : List ℕ) (now : ℕ) : TouchPage :=
  if s.Down ids then
    let heard := ids.filter s.onCanvas
    let captured := ids.any s.inScreen
    let s := { s with fingers := s.fingers.filter (·.id ∉ ids) }
    { s with
      gesture := if captured then onTouchEndCapture s.gesture s.touches else s.gesture
      handler := settle (heard.foldlM (fun h id => h.touchEnd id now) s.handler)
      stream := s.stream ++ heard.map .stop }
  else s

/-- A new canvas with a handler of its own. Fingers on the old one are heard no more. -/
def startVNC (s : TouchPage) : TouchPage :=
  { zoomLevel := 1
    gesture := none
    fingers := s.fingers.map fun f => { f with target := f.target.removed }
    handler := .new
    stream := [] }

def step (s : TouchPage) : TouchEvent → TouchPage
  | .start touches now => s.touchStart touches now
  | .move moves => s.touchMove moves
  | .lift ids now => s.touchEnd ids now
  | .zoom level => { s with zoomLevel := level }
  | .longpressTimeout =>
    if s.handler.longpressTimer then { s with handler := settle s.handler.longpressTimeout } else s
  | .twoTouchTimeout =>
    if s.handler.twoTouchTimer then { s with handler := settle s.handler.twoTouchTimeout } else s
  | .startVNC => s.startVNC

def owned (s : TouchPage) : Bool := s.gesture.any (·.mode = .active)

/-- The touches that the canvas sees are matched, and it tracks none while the page owns the
gesture. -/
structure WellFormed (s : TouchPage) : Prop where
  matched : Mark.Matched s.stream
  untracked : s.owned = true → s.handler.tracked = []

/-- While the page owns the gesture, noVNC detects none of its own. -/
def Silent (s : TouchPage) (e : TouchEvent) : Prop :=
  s.owned = true → (s.step e).handler.pushed <+: s.handler.pushed

def TakesOver (s : TouchPage) (moves : List (ℕ × Point)) : Prop :=
  (∃ m ∈ moves, s.inScreen m.1 = true) ∧ ∃ g p q, s.gesture = some g ∧ g.mode = .pending ∧
    (s.moveFingers moves).touches = [p, q] ∧ g.takenOver (sqDist p q) = true

/-- noVNC tracks no touch when the page takes the gesture of two fingers, and no finger is lifted on
the canvas that made the fingers two on a magnified page. -/
def Apart (s : TouchPage) : TouchEvent → Prop
  | .start touches _ => s.Fresh touches → s.Pair touches →
    (∃ t ∈ touches, t.target.inScreen = true) → s.handler.tracked = []
  | .move moves => s.TakesOver moves → s.handler.tracked = []
  | .lift ids _ => s.Down ids →
    ∀ f ∈ s.fingers, f.id ∈ ids → f.target = .canvas → f.magnified = false
  | _ => True

/-- What is known of a page in a well-formed run: which touches are open on the canvas. -/
structure Heard (s : TouchPage) : Prop extends s.WellFormed where
  nodup : (s.fingers.map (·.id)).Nodup
  opened : ∀ id, Mark.Open s.stream id ↔
    ∃ f ∈ s.fingers, f.id = id ∧ f.target = .canvas ∧ f.magnified = false

variable {s : TouchPage} {e : TouchEvent} {touches : List NewTouch} {moves : List (ℕ × Point)}
  {ids : List ℕ} {now : ℕ}

theorem heard_new : new.Heard where
  matched := Mark.matched_nil
  untracked := fun _ => rfl
  nodup := List.nodup_nil
  opened := by simp [new]

/-! ### What the captures do -/

/-- The start of a touch is stopped exactly when it makes two of them on a magnified page, and the
page then owns the gesture. -/
theorem onTouchStartCapture_snd (zoomLevel : ℚ) (ps : List Point) :
    (onTouchStartCapture zoomLevel ps).2 = decide (ps.length = 2 ∧ 1 < zoomLevel) := by
  match ps with
  | [] | [_] => simp [onTouchStartCapture]
  | [p, q] => by_cases h : 1 < zoomLevel <;> simp [onTouchStartCapture, h]
  | _ :: _ :: _ :: _ => simp [onTouchStartCapture]

theorem onTouchStartCapture_fst (zoomLevel : ℚ) (ps : List Point) :
    (onTouchStartCapture zoomLevel ps).1.any (·.mode = .active) =
      (onTouchStartCapture zoomLevel ps).2 := by
  match ps with
  | [] | [_] => rfl
  | [p, q] => simp [onTouchStartCapture]
  | _ :: _ :: _ :: _ => rfl

theorem onTouchMoveCapture_of_passed {gesture : Option PinchGesture} {ps : List Point}
    (h : (onTouchMoveCapture gesture ps).2 = false) :
    (onTouchMoveCapture gesture ps).1 = gesture := by
  unfold onTouchMoveCapture at h ⊢
  split at h
  · dsimp only at h ⊢
    split_ifs at h ⊢
    rfl
  · rfl

theorem onTouchMoveCapture_of_stopped {gesture : Option PinchGesture} {ps : List Point}
    (h : (onTouchMoveCapture gesture ps).2 = true) :
    gesture.any (·.mode = .active) = true ∨ ∃ g p q, gesture = some g ∧ g.mode = .pending ∧
      ps = [p, q] ∧ g.takenOver (sqDist p q) = true := by
  unfold onTouchMoveCapture at h
  split at h
  · next g p q =>
    cases hm : g.mode with
    | active => exact .inl (by simp [hm])
    | pending =>
      cases ht : g.takenOver (sqDist p q) with
      | false => simp [hm, ht] at h
      | true => exact .inr ⟨g, p, q, rfl, hm, rfl, ht⟩
  · cases h

theorem onTouchMoveCapture_of_takenOver {g : PinchGesture} {p q : Point} (hg : g.mode = .pending)
    (h : g.takenOver (sqDist p q) = true) :
    (onTouchMoveCapture (some g) [p, q]).2 = true ∧
      (onTouchMoveCapture (some g) [p, q]).1.any (·.mode = .active) = true := by
  simp only [onTouchMoveCapture, hg, h]
  split_ifs <;> simp_all

theorem owned_of_onTouchEndCapture {gesture : Option PinchGesture} {ps : List Point}
    (h : (onTouchEndCapture gesture ps).any (·.mode = .active) = true) :
    gesture.any (·.mode = .active) = true := by
  unfold onTouchEndCapture at h
  split_ifs at h
  · cases h
  · exact h

/-! ### Starts -/

theorem mem_addFingers {f : Finger} : f ∈ (s.addFingers touches).fingers ↔
    f ∈ s.fingers ∨ ∃ t ∈ touches, f = ⟨t, s.Pair touches⟩ := by
  simp [addFingers, eq_comm]

theorem length_addFingers :
    (s.addFingers touches).touches.length = s.fingers.length + touches.length := by
  simp [addFingers, TouchPage.touches]

theorem captureStart_snd : ((s.addFingers touches).captureStart touches).2 = true ↔
    (∃ t ∈ touches, t.target.inScreen = true) ∧ s.Pair touches := by
  cases h : touches.any (·.target.inScreen) with
  | false =>
    have hout : ¬ ∃ t ∈ touches, t.target.inScreen = true := by simpa using h
    simp [captureStart, h, hout]
  | true =>
    have hin : ∃ t ∈ touches, t.target.inScreen = true := by simpa using h
    have hlevel : (s.addFingers touches).zoomLevel = s.zoomLevel := rfl
    rw [captureStart, if_pos h, onTouchStartCapture_snd, length_addFingers, hlevel,
      decide_eq_true_iff]
    exact ⟨fun hpair => ⟨hin, hpair⟩, fun hboth => hboth.2⟩

/-- A start that is stopped takes the gesture, and another one leaves it untaken, unless it is
not heard in the wrapper. -/
theorem captureStart_fst (h : ∃ t ∈ touches, t.target.inScreen = true) :
    (s.captureStart touches).1.any (·.mode = .active) = (s.captureStart touches).2 := by
  rw [captureStart, if_pos (by simpa using h), onTouchStartCapture_fst]

theorem nodup_addFingers (h : (s.fingers.map (·.id)).Nodup) (hfresh : s.Fresh touches) :
    ((s.addFingers touches).fingers.map (·.id)).Nodup := by
  have hids : (s.addFingers touches).fingers.map (·.id) =
      s.fingers.map (·.id) ++ touches.map (·.id) := by
    simp [addFingers, Function.comp_def]
  rw [hids, List.nodup_append']
  refine ⟨h, hfresh.1, fun id hold hnew => ?_⟩
  obtain ⟨t, ht, rfl⟩ := List.mem_map.mp hnew
  exact hfresh.2 t ht hold

theorem heard_addFingers {id : ℕ} :
    (∃ f ∈ (s.addFingers touches).fingers, f.id = id ∧ f.target = .canvas ∧
      f.magnified = false) ↔
    (∃ f ∈ s.fingers, f.id = id ∧ f.target = .canvas ∧ f.magnified = false) ∨
      ∃ t ∈ touches, t.id = id ∧ t.target = .canvas ∧ ¬ s.Pair touches := by
  simp only [mem_addFingers, or_and_right, exists_or]
  refine or_congr Iff.rfl ⟨?_, ?_⟩
  · rintro ⟨f, ⟨t, ht, rfl⟩, hid, hcanvas, hpair⟩
    exact ⟨t, ht, hid, hcanvas, by simpa using hpair⟩
  · rintro ⟨t, ht, hid, hcanvas, hpair⟩
    exact ⟨⟨t, s.Pair touches⟩, ⟨t, ht, rfl⟩, hid, hcanvas, by simpa using hpair⟩

theorem mem_heard {id : ℕ} : id ∈ (touches.filter (·.target = .canvas)).map (·.id) ↔
    ∃ t ∈ touches, t.id = id ∧ t.target = .canvas := by
  simp only [List.mem_map, List.mem_filter, decide_eq_true_iff, and_assoc]
  exact exists_congr fun t => and_congr Iff.rfl and_comm

theorem foldl_touchStart_pushed (h : GestureHandler) (heard : List NewTouch) (now : ℕ) :
    (heard.foldl (fun h t => h.touchStart t.id t.pos now) h).pushed = h.pushed := by
  induction heard generalizing h with
  | nil => rfl
  | cons t heard ih => rw [List.foldl_cons, ih, touchStart_pushed]

theorem touchStart_of_stopped (hfresh : s.Fresh touches)
    (h : ((s.addFingers touches).captureStart touches).2 = true) : s.touchStart touches now =
      { s.addFingers touches with gesture := ((s.addFingers touches).captureStart touches).1 } := by
  simp [touchStart, hfresh, h]

theorem touchStart_of_passed (hfresh : s.Fresh touches)
    (h : ((s.addFingers touches).captureStart touches).2 = false) : s.touchStart touches now =
      hearStart
        { s.addFingers touches with gesture := ((s.addFingers touches).captureStart touches).1 }
        (touches.filter (·.target = .canvas)) now := by
  simp [touchStart, hfresh, h]

theorem Heard.touchStart (h : s.Heard) (hgood : s.Apart (.start touches now)) :
    (s.touchStart touches now).Heard := by
  by_cases hfresh : s.Fresh touches
  swap
  · rw [TouchPage.touchStart, if_neg hfresh]
    exact h
  have hnodup := nodup_addFingers h.nodup hfresh
  have hstop : ((s.addFingers touches).captureStart touches).2 = true ↔ _ := captureStart_snd
  cases hc : ((s.addFingers touches).captureStart touches).2 with
  | true =>
    obtain ⟨hin, hpair⟩ := hstop.mp hc
    rw [touchStart_of_stopped hfresh hc]
    refine ⟨⟨h.matched, fun _ => hgood hfresh hpair hin⟩, hnodup, fun id => ?_⟩
    refine (h.opened id).trans (heard_addFingers.trans (or_iff_left ?_)).symm
    exact fun ⟨t, _, _, _, hno⟩ => hno hpair
  | false =>
    have hpass : ∀ t ∈ touches, t.target = .canvas → ¬ s.Pair touches := by
      intro t ht hcanvas hpair
      have hin : t.target.inScreen = true := by simp [hcanvas, TouchTarget.inScreen]
      simp [hstop.mpr ⟨⟨t, ht, hin⟩, hpair⟩] at hc
    rw [touchStart_of_passed hfresh hc]
    refine ⟨⟨Mark.matched_starts.mpr h.matched, fun howned => ?_⟩, hnodup, fun id => ?_⟩
    · by_cases hin : ∃ t ∈ touches, t.target.inScreen = true
      · exact absurd (hc.symm.trans ((captureStart_fst hin).symm.trans howned)) (by decide)
      · have hnone : touches.filter (·.target = .canvas) = [] := by
          rw [List.filter_eq_nil_iff]
          intro t ht hcanvas
          exact hin ⟨t, ht, by simp_all [TouchTarget.inScreen]⟩
        have hgesture : ((s.addFingers touches).captureStart touches).1 = s.gesture :=
          congrArg Prod.fst (if_neg (by simpa using hin))
        have howned' : s.owned = true := by
          rw [TouchPage.owned, ← hgesture]
          exact howned
        simpa [hearStart, hnone, addFingers] using h.untracked howned'
    · refine Mark.open_starts.trans (Iff.trans ?_ heard_addFingers.symm)
      refine or_congr (h.opened id) (mem_heard.trans ?_)
      exact exists_congr fun t => and_congr_right fun ht => and_congr_right fun _ =>
        (and_iff_left_of_imp (hpass t ht)).symm

/-! ### Moves and ends -/

theorem ids_moveFingers : (s.moveFingers moves).fingers.map (·.id) = s.fingers.map (·.id) := by
  simp [moveFingers, Function.comp_def]

theorem Heard.moveFingers (h : s.Heard) : (s.moveFingers moves).Heard where
  matched := h.matched
  untracked := h.untracked
  nodup := by
    rw [ids_moveFingers]
    exact h.nodup
  opened := by simpa [TouchPage.moveFingers] using h.opened

theorem untracked_foldlM {α : Type*} {f : GestureHandler → α → GestureHandler.Outcome}
    {h : GestureHandler} (hf : ∀ events h a, h.Idle events → (settle (f h a)).Idle events)
    (hh : h.tracked = [])
    (as : List α) : (settle (as.foldlM f h)).Idle h.pushed :=
  settle_foldlM (fun h' a => hf h.pushed h' a) ⟨hh, rfl⟩ as

theorem idle_moves (h : s.handler.tracked = []) (heard : List (ℕ × Point)) :
    (settle (heard.foldlM (fun h m => h.touchMove m.1 m.2) s.handler)).Idle s.handler.pushed :=
  untracked_foldlM (fun events h m hh => by rwa [hh.touchMove]) h heard

theorem idle_ends (h : s.handler.tracked = []) (heard : List ℕ) (now : ℕ) :
    (settle (heard.foldlM (fun h id => h.touchEnd id now) s.handler)).Idle s.handler.pushed :=
  untracked_foldlM (fun _ _ _ hh => hh.touchEnd) h heard

theorem captureMove_of_passed (h : (s.captureMove moves).2 = false) :
    (s.captureMove moves).1 = s.gesture := by
  unfold captureMove at h ⊢
  split_ifs at h ⊢
  · exact onTouchMoveCapture_of_passed h
  · rfl

theorem captureMove_of_stopped (h : ((s.moveFingers moves).captureMove moves).2 = true) :
    s.owned = true ∨ s.TakesOver moves := by
  unfold captureMove at h
  split_ifs at h with hin
  rcases onTouchMoveCapture_of_stopped h with howned | htake
  · exact .inl howned
  · refine .inr ⟨?_, htake⟩
    simpa [inScreen, TouchPage.moveFingers] using hin

theorem captureMove_of_takesOver (h : s.TakesOver moves) :
    ((s.moveFingers moves).captureMove moves).2 = true ∧
      ((s.moveFingers moves).captureMove moves).1.any (·.mode = .active) = true := by
  obtain ⟨hin, g, p, q, hgesture, hpending, htouches, htake⟩ := h
  have hin' : (moves.any fun m => (s.moveFingers moves).inScreen m.1) = true := by
    simpa [inScreen, TouchPage.moveFingers] using hin
  have hgesture' : (s.moveFingers moves).gesture = some g := hgesture
  rw [captureMove, if_pos hin', hgesture', htouches]
  exact onTouchMoveCapture_of_takenOver hpending htake

theorem Heard.touchMove (h : s.Heard) (hgood : s.Apart (.move moves)) :
    (s.touchMove moves).Heard := by
  have hmoved : (s.moveFingers moves).Heard := h.moveFingers
  unfold TouchPage.touchMove
  dsimp only
  split_ifs with hc
  · refine ⟨⟨hmoved.matched, fun _ => ?_⟩, hmoved.nodup, hmoved.opened⟩
    rcases captureMove_of_stopped hc with howned | htake
    · exact h.untracked howned
    · exact hgood htake
  · refine ⟨⟨hmoved.matched, fun howned => ?_⟩, hmoved.nodup, hmoved.opened⟩
    have hgesture := captureMove_of_passed (by simpa using hc)
    rw [owned, hgesture] at howned
    exact (idle_moves (hmoved.untracked howned) _).tracked

theorem Heard.open_iff (h : s.Heard) {f : Finger} (hf : f ∈ s.fingers)
    (hcanvas : f.target = .canvas) : Mark.Open s.stream f.id ↔ f.magnified = false := by
  rw [h.opened]
  constructor
  · rintro ⟨f', hf', hid, -, hheard⟩
    obtain rfl := List.inj_on_of_nodup_map h.nodup hf' hf hid
    exact hheard
  · exact fun hheard => ⟨f, hf, rfl, hcanvas, hheard⟩

theorem onCanvas_iff {id : ℕ} :
    s.onCanvas id = true ↔ ∃ f ∈ s.fingers, f.id = id ∧ f.target = .canvas := by
  simp [onCanvas]

/-- The ends that reach the canvas are matched exactly when none of them is of a finger that the
page has stopped. -/
theorem Heard.matched_ends (h : s.Heard) (hdown : s.Down ids) :
    Mark.Matched (s.stream ++ (ids.filter s.onCanvas).map .stop) ↔
      ∀ f ∈ s.fingers, f.id ∈ ids → f.target = .canvas → f.magnified = false := by
  rw [Mark.matched_stops (hdown.1.filter _), and_iff_right h.matched]
  constructor
  · intro hopen f hf hid hcanvas
    refine (h.open_iff hf hcanvas).mp (hopen f.id (List.mem_filter.mpr ⟨hid, ?_⟩))
    exact onCanvas_iff.mpr ⟨f, hf, rfl, hcanvas⟩
  · intro hheard id hid
    obtain ⟨hmem, hon⟩ := List.mem_filter.mp hid
    obtain ⟨f, hf, rfl, hcanvas⟩ := onCanvas_iff.mp hon
    exact (h.open_iff hf hcanvas).mpr (hheard f hf hmem hcanvas)

theorem Heard.touchEnd (h : s.Heard) (hgood : s.Apart (.lift ids now)) :
    (s.touchEnd ids now).Heard := by
  unfold TouchPage.touchEnd
  split_ifs with hdown
  swap
  · exact h
  refine ⟨⟨(h.matched_ends hdown).mpr (hgood hdown), fun howned => ?_⟩, ?_, fun id => ?_⟩
  · have howned' : s.owned = true := by
      simp only [owned] at howned
      split_ifs at howned
      · exact owned_of_onTouchEndCapture howned
      · exact howned
    exact (idle_ends (h.untracked howned') _ now).tracked
  · exact h.nodup.sublist (List.filter_sublist.map _)
  · rw [Mark.open_stops, h.opened]
    constructor
    · rintro ⟨⟨f, hf, rfl, hcanvas, hheard⟩, hstays⟩
      have hid : f.id ∉ ids := fun hid =>
        hstays (List.mem_filter.mpr ⟨hid, onCanvas_iff.mpr ⟨f, hf, rfl, hcanvas⟩⟩)
      exact ⟨f, List.mem_filter.mpr ⟨hf, by simpa using hid⟩, rfl, hcanvas, hheard⟩
    · rintro ⟨f, hf, rfl, hcanvas, hheard⟩
      obtain ⟨hf, hid⟩ := List.mem_filter.mp hf
      refine ⟨⟨f, hf, rfl, hcanvas, hheard⟩, fun hstops => ?_⟩
      exact absurd (List.mem_filter.mp hstops).1 (by simpa using hid)

/-! ### Runs -/

theorem Heard.timeout (h : s.Heard) {handler : GestureHandler}
    (hidle : s.handler.tracked = [] → handler.tracked = []) :
    Heard { s with handler := handler } :=
  ⟨⟨h.matched, fun howned => hidle (h.untracked howned)⟩, h.nodup, h.opened⟩

theorem Heard.startVNC (h : s.Heard) : s.startVNC.Heard where
  matched := Mark.matched_nil
  untracked := fun _ => rfl
  nodup := by simpa [TouchPage.startVNC, Function.comp_def] using h.nodup
  opened := by
    have hgone : ∀ t : TouchTarget, t.removed ≠ .canvas := fun t => by cases t <;> decide
    simp [TouchPage.startVNC, hgone]

theorem Heard.step (h : s.Heard) (hgood : s.Apart e) : (s.step e).Heard := by
  cases e with
  | start touches now => exact h.touchStart hgood
  | move moves => exact h.touchMove hgood
  | lift ids now => exact h.touchEnd hgood
  | zoom level => exact ⟨⟨h.matched, h.untracked⟩, h.nodup, h.opened⟩
  | longpressTimeout =>
    unfold TouchPage.step
    dsimp only
    split_ifs
    · exact h.timeout fun hh => (Idle.longpressTimeout ⟨hh, rfl⟩).tracked
    · exact h
  | twoTouchTimeout =>
    unfold TouchPage.step
    dsimp only
    split_ifs
    · exact h.timeout fun hh => (Idle.twoTouchTimeout ⟨hh, rfl⟩).tracked
    · exact h
  | startVNC => exact h.startVNC

/-- A step that leaves the page well formed meets the condition. -/
theorem Heard.apart (h : s.Heard) (hwf : (s.step e).WellFormed) : s.Apart e := by
  cases e with
  | start touches now =>
    intro hfresh hpair hin
    have hc := captureStart_snd.mpr ⟨hin, hpair⟩
    have hstep : s.step (.start touches now) = _ := touchStart_of_stopped hfresh hc
    rw [hstep] at hwf
    exact hwf.untracked ((captureStart_fst hin).trans hc)
  | move moves =>
    intro htake
    obtain ⟨hc, howned⟩ := captureMove_of_takesOver htake
    have hstep : s.step (.move moves) =
        { s.moveFingers moves with
          gesture := ((s.moveFingers moves).captureMove moves).1 } := if_pos hc
    rw [hstep] at hwf
    exact hwf.untracked howned
  | lift ids now =>
    intro hdown
    have hstep : (s.step (.lift ids now)).stream =
        s.stream ++ (ids.filter s.onCanvas).map .stop := by
      simp [TouchPage.step, TouchPage.touchEnd, hdown]
    exact (h.matched_ends hdown).mp (hstep ▸ hwf.matched)
  | zoom level => trivial
  | longpressTimeout => trivial
  | twoTouchTimeout => trivial
  | startVNC => trivial

/-- While the page owns the gesture of a well-formed page, noVNC detects none. -/
theorem WellFormed.silent (h : s.WellFormed) (e : TouchEvent) : s.Silent e := by
  intro howned
  have hh := h.untracked howned
  have hkept : ∀ {handler : GestureHandler}, handler.Idle s.handler.pushed →
      handler.pushed <+: s.handler.pushed := fun hidle => hidle.pushed ▸ List.prefix_rfl
  cases e with
  | start touches now =>
    by_cases hfresh : s.Fresh touches
    swap
    · simp [TouchPage.step, TouchPage.touchStart, hfresh]
    unfold TouchPage.step
    dsimp only
    cases hc : ((s.addFingers touches).captureStart touches).2 with
    | true => rw [touchStart_of_stopped hfresh hc]; exact List.prefix_rfl
    | false =>
      rw [touchStart_of_passed hfresh hc, hearStart, foldl_touchStart_pushed]
      exact List.prefix_rfl
  | move moves =>
    simp only [TouchPage.step, TouchPage.touchMove]
    split_ifs
    · exact List.prefix_rfl
    · exact hkept (idle_moves hh _)
  | lift ids now =>
    have hidle := hkept (idle_ends hh (ids.filter s.onCanvas) now)
    by_cases hdown : s.Down ids
    · simpa [TouchPage.step, TouchPage.touchEnd, hdown] using hidle
    · simp [TouchPage.step, TouchPage.touchEnd, hdown]
  | zoom level => exact List.prefix_rfl
  | longpressTimeout =>
    unfold TouchPage.step
    dsimp only
    split_ifs
    · exact hkept (Idle.longpressTimeout ⟨hh, rfl⟩)
    · exact List.prefix_rfl
  | twoTouchTimeout =>
    unfold TouchPage.step
    dsimp only
    split_ifs
    · exact hkept (Idle.twoTouchTimeout ⟨hh, rfl⟩)
    · exact List.prefix_rfl
  | startVNC => exact List.nil_prefix

end TouchPage

end Urc
