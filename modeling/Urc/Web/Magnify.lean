import Urc.Library.Run
import Urc.Web.Viewport

/-! # Local magnification

The page drives the viewport of noVNC to magnify: it takes the scale away from noVNC, which scales
to the window by itself, and gives it back at fit. noVNC sets its scale on events of its own, so
the page sets its scale again two frames behind a resize of the container. Callbacks of animation
frames run in the order in which they were registered.
-/

namespace Urc

/-- A callback that waits for an animation frame: of an RFB object, the first of the page's two,
and `reassertZoom`. -/
inductive FrameCallback
  | novnc (id : ℕ)
  | outer
  | reassert
  deriving DecidableEq

/-- `hasTouch` says whether the page observes its container and takes gestures. -/
structure Magnifier where
  hasTouch : Bool
  layout : Layout
  rfb : RfbViewport
  zoomLevel : ℚ
  baseFitScale : Option JsNumber
  reassertScheduled : Bool
  frames : List FrameCallback

/-- `containerResize` brings both observers into action, `screenResize` only the one of noVNC's own
element: at its first observation, or when its scroll bars change. -/
inductive ZoomEvent
  | zoomIn
  | zoomOut
  | fit
  | pinch (scaleFactor : ℚ)
  | containerResize (layout : Layout)
  | screenResize (client : Pixels)
  | serverResize (fb : Pixels)
  | disconnect
  | startVNC
  | frame
  deriving DecidableEq

def maxZoom : ℚ := 4

/-- A product of JavaScript, where `null` counts as zero. -/
def times : Option JsNumber → ℚ → JsNumber
  | none, _ => some 0
  | some x, z => x.map (· * z)

def JsNumber.positive : JsNumber → Bool
  | some x => 0 < x
  | none => false

namespace Magnifier

open Transition

def fitScaleNow (s : Magnifier) : JsNumber := s.rfb.display.scale

def resetToFit (s : Magnifier) : Magnifier :=
  { s with
    zoomLevel := 1
    baseFitScale := none
    rfb := (s.rfb.setClipViewport s.layout false).setScaleViewport s.layout true }

/-- `applyZoom` from where the new scale is known. -/
def magnify (s : Magnifier) (z newScale : ℚ) : Magnifier :=
  let s := if s.zoomLevel ≤ 1 then
      { s with
        baseFitScale := some s.fitScaleNow
        rfb := (s.rfb.setScaleViewport s.layout false).setClipViewport s.layout true }
    else s
  let d := s.rfb.display.viewportChangeSize (s.layout.container.w / newScale)
    (s.layout.container.h / newScale)
  { s with
    rfb := { s.rfb with display := { d with scale := some newScale } }
    zoomLevel := z }

def applyZoom (s : Magnifier) (z : ℚ) : Magnifier :=
  -- the canvas is gone with its RFB object's element
  if !s.rfb.attached then s
  else
    let z := max 1 (min maxZoom z)
    if z ≤ 1 then s.resetToFit
    else
      let s := if (times s.baseFitScale z).positive then s
        else { s with baseFitScale := some s.fitScaleNow }
      match times s.baseFitScale z with
      | some newScale => if 0 < newScale then s.magnify z newScale else s
      | none => s

def zoomStep (s : Magnifier) (factor : ℚ) : Magnifier := s.applyZoom (s.zoomLevel * factor)

/-- A step of a pinch, by the ratio of two distances of the fingers. -/
def pinch (s : Magnifier) (scaleFactor : ℚ) : Magnifier :=
  if 1 / 1000 < |scaleFactor - 1| then s.applyZoom (s.zoomLevel * scaleFactor) else s

def reassertZoom (s : Magnifier) : Magnifier :=
  let s := { s with reassertScheduled := false }
  if s.zoomLevel ≤ 1 ∨ s.rfb.attached = false then s
  else
    let s := if s.rfb.scaleViewport then
        { s with rfb := (s.rfb.setScaleViewport s.layout false).setClipViewport s.layout true }
      else s
    s.applyZoom s.zoomLevel

def onContainerResize (s : Magnifier) : Magnifier :=
  if s.zoomLevel ≤ 1 ∨ s.reassertScheduled then s
  else { s with reassertScheduled := true, frames := s.frames ++ [.outer] }

def handleResize (s : Magnifier) : Magnifier :=
  if s.rfb.attached ∧ s.rfb.expectedClient ≠ some (s.rfb.currentClientSize s.layout) then
    { s with frames := s.frames ++ [.novnc s.rfb.id] }
  else s

def runCallback (s : Magnifier) : FrameCallback → Magnifier
  | .novnc id => if id = s.rfb.id then { s with rfb := s.rfb.onFrame s.layout } else s
  | .outer => { s with frames := s.frames ++ [.reassert] }
  | .reassert => s.reassertZoom

/-- The RFB object that `startVNC` makes. -/
def fitRfb (id : ℕ) (l : Layout) : RfbViewport :=
  ((RfbViewport.new id).setScaleViewport l true).setClipViewport l false

def startVNC (s : Magnifier) : Magnifier :=
  { s with rfb := fitRfb (s.rfb.id + 1) s.layout, zoomLevel := 1, baseFitScale := none }

def new (hasTouch : Bool) (l : Layout) : Magnifier :=
  ⟨hasTouch, l, fitRfb 0 l, 1, none, false, []⟩

def step (s : Magnifier) : ZoomEvent → Magnifier
  | .zoomIn => s.zoomStep (7 / 5)
  | .zoomOut => s.zoomStep (5 / 7)
  | .fit => s.resetToFit
  | .pinch scaleFactor => if s.hasTouch then s.pinch scaleFactor else s
  | .containerResize l =>
    let s := { s with layout := l }
    -- the page made its observer before the one of any RFB object
    (if s.hasTouch then s.onContainerResize else s).handleResize
  | .screenResize client => handleResize { s with layout := { s.layout with client := client } }
  | .serverResize fb =>
    if s.rfb.attached then { s with rfb := s.rfb.resize s.layout fb } else s
  | .disconnect => { s with rfb := { s.rfb with attached := false } }
  | .startVNC => s.startVNC
  | .frame =>
    match s.frames with
    | callback :: frames => runCallback { s with frames := frames } callback
    | [] => s

def target (s : Magnifier) : JsNumber := times s.baseFitScale s.zoomLevel

structure InStep (s : Magnifier) : Prop where
  low : 1 ≤ s.zoomLevel
  high : s.zoomLevel ≤ maxZoom
  magnified : 1 < s.zoomLevel → ∃ b, s.baseFitScale = some (some b) ∧ 0 < b ∧
    s.rfb.scaleViewport = false ∧ s.rfb.clipViewport = true ∧
    s.rfb.display.scale = some (b * s.zoomLevel)
  fit : s.zoomLevel = 1 → s.rfb.scaleViewport = true ∧ s.rfb.clipViewport = false

/-- Where noVNC sets its scale to one, this is at fit, or the scale is one anyway, or the page will
set its own behind it. -/
def Harmless (s : Magnifier) : Prop :=
  s.zoomLevel ≤ 1 ∨ s.target = some 1 ∨ s.rfb.attached = true ∧ s.reassertScheduled = true

/-- noVNC sets its scale only where a reassertion follows, and no connection ends in between. -/
def Reasserted (s : Magnifier) : ZoomEvent → Prop
  | .serverResize _ => s.rfb.attached = true → s.Harmless
  | .frame => s.frames.head? = some (.novnc s.rfb.id) → s.Harmless
  | .disconnect => s.rfb.attached = true → s.zoomLevel ≤ 1 ∨ s.rfb.display.scale = s.target
  | _ => True

/-- The invariant without the scale: the level is in its bounds and agrees with the modes and with
the fit scale that was captured. -/
structure Sound (s : Magnifier) : Prop where
  low : 1 ≤ s.zoomLevel
  high : s.zoomLevel ≤ maxZoom
  magnified : 1 < s.zoomLevel → ∃ b, s.baseFitScale = some (some b) ∧ 0 < b ∧
    s.rfb.scaleViewport = false ∧ s.rfb.clipViewport = true
  fit : s.zoomLevel = 1 → s.rfb.scaleViewport = true ∧ s.rfb.clipViewport = false ∧
    ∀ b, s.baseFitScale = some (some b) → b ≤ 0

/-- The scale is the one that the page wants, where it wants one. -/
def Scaled (s : Magnifier) : Prop := 1 < s.zoomLevel → s.rfb.display.scale = s.target

/-- The scale is right, or will be set by a reassertion that is still to run. -/
structure Tracked (s : Magnifier) : Prop where
  sound : s.Sound
  scaled : s.Scaled ∨ s.rfb.attached = true ∧ s.reassertScheduled = true
  queued : s.reassertScheduled = true → .outer ∈ s.frames ∨ .reassert ∈ s.frames

variable {s s' : Magnifier} {z : ℚ}

theorem Tracked.inStep (h : s.Tracked) (hq : s.frames = []) : s.InStep := by
  have hno : s.reassertScheduled = false := by
    by_contra hs
    have := h.queued (by simpa using hs)
    simp [hq] at this
  have hscaled : s.Scaled := by
    rcases h.scaled with hs | ⟨-, hs⟩
    · exact hs
    · rw [hno] at hs
      cases hs
  refine ⟨h.sound.low, h.sound.high, fun hz => ?_, fun hz => ?_⟩
  · obtain ⟨b, hb, hpos, hscale, hclip⟩ := h.sound.magnified hz
    refine ⟨b, hb, hpos, hscale, hclip, ?_⟩
    rw [hscaled hz, target, hb]
    rfl
  · obtain ⟨hscale, hclip, -⟩ := h.sound.fit hz
    exact ⟨hscale, hclip⟩

/-! ### What the page does -/

theorem Sound.modes (h : s.Sound) (hz : 1 < s.zoomLevel) :
    s.rfb.scaleViewport = false ∧ s.rfb.clipViewport = true := by
  obtain ⟨b, -, -, hmode⟩ := h.magnified hz
  exact hmode

theorem Sound.congr (h : s.Sound) (hz : s'.zoomLevel = s.zoomLevel)
    (hb : s'.baseFitScale = s.baseFitScale) (hscale : s'.rfb.scaleViewport = s.rfb.scaleViewport)
    (hclip : s'.rfb.clipViewport = s.rfb.clipViewport) : s'.Sound := by
  refine ⟨by rw [hz]; exact h.low, by rw [hz]; exact h.high, fun hlt => ?_, fun heq => ?_⟩
  · rw [hb, hscale, hclip]
    exact h.magnified (hz ▸ hlt)
  · rw [hb, hscale, hclip]
    exact h.fit (hz ▸ heq)

theorem sound_of_fit (hz : s.zoomLevel = 1) (hb : s.baseFitScale = none)
    (hscale : s.rfb.scaleViewport = true) (hclip : s.rfb.clipViewport = false) : s.Sound := by
  refine ⟨by rw [hz], by rw [hz]; decide, fun hlt => ?_, fun _ => ⟨hscale, hclip, ?_⟩⟩
  · rw [hz] at hlt
    exact absurd hlt (lt_irrefl 1)
  · simp [hb]

theorem scaled_of_fit (hz : s.zoomLevel ≤ 1) : s.Scaled := fun hlt => absurd hz (not_le.mpr hlt)

/-- What the page calls on noVNC leaves the RFB object and the callbacks as they are. -/
structure SamePage (s s' : Magnifier) : Prop where
  attached : s'.rfb.attached = s.rfb.attached
  reassertScheduled : s'.reassertScheduled = s.reassertScheduled
  frames : s'.frames = s.frames

theorem resetToFit_samePage (s : Magnifier) : s.SamePage s.resetToFit := by
  refine ⟨?_, rfl, rfl⟩
  exact (RfbViewport.setScaleViewport_sameMode _ _ _).attached.trans
    (RfbViewport.setClipViewport_sameMode _ _ _).attached

theorem resetToFit_sound (s : Magnifier) : s.resetToFit.Sound := by
  have hscale := RfbViewport.setScaleViewport_sameMode (s.rfb.setClipViewport s.layout false)
    s.layout true
  have hclip := RfbViewport.setClipViewport_sameMode s.rfb s.layout false
  exact sound_of_fit rfl rfl hscale.scaleViewport (hscale.clipViewport.trans hclip.clipViewport)

theorem magnify_modes (newScale : ℚ) (hmode : 1 < s.zoomLevel →
    s.rfb.scaleViewport = false ∧ s.rfb.clipViewport = true) :
    (s.magnify z newScale).rfb.attached = s.rfb.attached ∧
      (s.magnify z newScale).rfb.scaleViewport = false ∧
      (s.magnify z newScale).rfb.clipViewport = true := by
  unfold magnify
  dsimp only
  split_ifs with hz
  · have hclip := RfbViewport.setClipViewport_sameMode (s.rfb.setScaleViewport s.layout false)
      s.layout true
    have hscale := RfbViewport.setScaleViewport_sameMode s.rfb s.layout false
    exact ⟨hclip.attached.trans hscale.attached, hclip.scaleViewport.trans hscale.scaleViewport,
      hclip.clipViewport⟩
  · exact ⟨rfl, hmode (not_le.mp hz)⟩

theorem magnify_samePage (newScale : ℚ) (hmode : 1 < s.zoomLevel →
    s.rfb.scaleViewport = false ∧ s.rfb.clipViewport = true) :
    s.SamePage (s.magnify z newScale) := by
  refine ⟨(magnify_modes newScale hmode).1, ?_, ?_⟩
  all_goals
    unfold magnify
    dsimp only
    split_ifs <;> rfl

theorem exists_of_times {x : Option JsNumber} {newScale : ℚ} (hz : 0 < z) (hpos : 0 < newScale)
    (h : times x z = some newScale) : ∃ b, x = some (some b) ∧ 0 < b := by
  cases x with
  | none =>
    obtain rfl : 0 = newScale := by simpa [times] using h
    exact absurd hpos (lt_irrefl 0)
  | some x =>
    cases x with
    | none => cases h
    | some b =>
      have hb : b * z = newScale := by simpa [times] using h
      exact ⟨b, rfl, pos_of_mul_pos_left (by rwa [hb]) hz.le⟩

theorem magnify_base (newScale : ℚ)
    (hfit : s.zoomLevel ≤ 1 → s.baseFitScale = some s.fitScaleNow) :
    (s.magnify z newScale).baseFitScale = s.baseFitScale := by
  unfold magnify
  dsimp only
  split_ifs with hz
  · exact (hfit hz).symm
  · rfl

theorem magnify_scale (newScale : ℚ) :
    (s.magnify z newScale).rfb.display.scale = some newScale := rfl

/-- `applyZoom` keeps the state sound, sets the scale that it wants, and touches nothing else. -/
structure Applied (s s' : Magnifier) : Prop where
  sound : s'.Sound
  scaled : s'.Scaled
  page : s.SamePage s'

theorem magnify_sound {newScale : ℚ} (hlow : 1 < z) (hhigh : z ≤ maxZoom) (hpos : 0 < newScale)
    (hbase : times s.baseFitScale z = some newScale)
    (hfit : s.zoomLevel ≤ 1 → s.baseFitScale = some s.fitScaleNow)
    (hmode : 1 < s.zoomLevel → s.rfb.scaleViewport = false ∧ s.rfb.clipViewport = true) :
    Applied s (s.magnify z newScale) := by
  have hkeep := magnify_base (z := z) newScale hfit
  obtain ⟨-, hscale, hclip⟩ := magnify_modes (z := z) newScale hmode
  refine ⟨⟨hlow.le, hhigh, fun _ => ?_, fun heq => ?_⟩, fun _ => ?_,
    magnify_samePage newScale hmode⟩
  · obtain ⟨b, hb, hbpos⟩ := exists_of_times (zero_lt_one.trans hlow) hpos hbase
    exact ⟨b, hkeep.trans hb, hbpos, hscale, hclip⟩
  · exact absurd (heq : z = 1) hlow.ne'
  · rw [magnify_scale, target, hkeep]
    exact hbase.symm

/-- Magnified, the captured scale gives a positive product; at fit it does not. -/
theorem times_positive_iff (h : s.Sound) (hlow : 1 < z) :
    (times s.baseFitScale z).positive = true ↔ 1 < s.zoomLevel := by
  have hzpos : 0 < z := zero_lt_one.trans hlow
  constructor
  · intro hp
    by_contra hz
    obtain ⟨-, -, hbad⟩ := h.fit (le_antisymm (not_lt.mp hz) h.low)
    cases htimes : times s.baseFitScale z with
    | none => simp [htimes, JsNumber.positive] at hp
    | some newScale =>
      have hpos : 0 < newScale := by simpa [htimes, JsNumber.positive] using hp
      obtain ⟨b, hb, hbpos⟩ := exists_of_times hzpos hpos htimes
      exact absurd (hbad b hb) (not_le.mpr hbpos)
  · intro hz
    obtain ⟨b, hb, hbpos, -⟩ := h.magnified hz
    simp [hb, times, JsNumber.positive, mul_pos hbpos hzpos]

/-- The last part of `applyZoom`, from a scale that is captured at fit. -/
theorem scaleTo_applied (hlow : 1 < z) (hhigh : z ≤ maxZoom)
    (hfit : s.zoomLevel ≤ 1 → s.baseFitScale = some s.fitScaleNow)
    (hmode : 1 < s.zoomLevel → s.rfb.scaleViewport = false ∧ s.rfb.clipViewport = true)
    (hkeep : (times s.baseFitScale z).positive = false → s.Sound ∧ s.Scaled) :
    Applied s (match times s.baseFitScale z with
      | some newScale => if 0 < newScale then s.magnify z newScale else s
      | none => s) := by
  have hstay : (times s.baseFitScale z).positive = false → Applied s s := fun hp =>
    ⟨(hkeep hp).1, (hkeep hp).2, rfl, rfl, rfl⟩
  cases htimes : times s.baseFitScale z with
  | none => exact hstay (by simp [htimes, JsNumber.positive])
  | some newScale =>
    dsimp only
    split_ifs with hpos
    · exact magnify_sound hlow hhigh hpos htimes hfit hmode
    · exact hstay (by simp [htimes, JsNumber.positive, not_lt.mp hpos])

/-- The last part of `applyZoom` at fit, behind the capture of the fit scale. -/
theorem captured_applied (hlow : 1 < z) (hhigh : z ≤ maxZoom) (hz : s.zoomLevel = 1)
    (hscale : s.rfb.scaleViewport = true) (hclip : s.rfb.clipViewport = false) :
    let t : Magnifier := { s with baseFitScale := some s.fitScaleNow }
    Applied t (match times t.baseFitScale z with
      | some newScale => if 0 < newScale then t.magnify z newScale else t
      | none => t) := by
  have hno : ∀ {P : Prop}, 1 < s.zoomLevel → P := fun hlt => absurd hlt (by simp [hz])
  refine scaleTo_applied hlow hhigh (fun _ => rfl) hno fun hbad => ?_
  refine ⟨⟨by simp [hz], by simp [hz, maxZoom], hno, fun _ => ⟨hscale, hclip, fun b hb => ?_⟩⟩, hno⟩
  by_contra hbpos
  obtain hb : s.fitScaleNow = some b := by simpa using hb
  have hprod : 0 < b * z := mul_pos (not_le.mp hbpos) (zero_lt_one.trans hlow)
  simp [times, hb, JsNumber.positive, hprod.not_ge] at hbad

theorem applyZoom_applied (h : s.Sound) (ha : s.rfb.attached = true) (z : ℚ) :
    Applied s (s.applyZoom z) := by
  unfold applyZoom
  rw [ha]
  simp only [Bool.not_true, Bool.false_eq_true, if_false]
  generalize hw : max 1 (min maxZoom z) = w
  have hhigh : w ≤ maxZoom := by
    rw [← hw]
    exact max_le (by decide) (min_le_left _ _)
  split_ifs with hone hpos
  · exact ⟨s.resetToFit_sound, scaled_of_fit le_rfl, s.resetToFit_samePage⟩
  · have hlow : 1 < w := not_le.mp hone
    have hz := (times_positive_iff h hlow).mp hpos
    refine scaleTo_applied hlow hhigh (fun hle => absurd hle (not_le.mpr hz)) h.modes ?_
    intro hno
    rw [hpos] at hno
    cases hno
  · have hlow : 1 < w := not_le.mp hone
    have hz : s.zoomLevel = 1 := by
      refine le_antisymm (not_lt.mp fun hlt => hpos ?_) h.low
      exact (times_positive_iff h hlow).mpr hlt
    obtain ⟨hscale, hclip, -⟩ := h.fit hz
    have happlied := captured_applied (s := s) hlow hhigh hz hscale hclip
    exact ⟨happlied.sound, happlied.scaled, happlied.page.attached,
      happlied.page.reassertScheduled, happlied.page.frames⟩

/-! ### Every step keeps track of the scale -/

theorem Tracked.of_applied (h : s.Tracked) (ha : Applied s s') : s'.Tracked where
  sound := ha.sound
  scaled := .inl ha.scaled
  queued := by
    rw [ha.page.reassertScheduled, ha.page.frames]
    exact h.queued

theorem Tracked.applyZoom (h : s.Tracked) (z : ℚ) : (s.applyZoom z).Tracked := by
  cases ha : s.rfb.attached with
  | true => exact h.of_applied (applyZoom_applied h.sound ha z)
  | false => simpa [Magnifier.applyZoom, ha] using h

theorem Tracked.resetToFit (h : s.Tracked) : s.resetToFit.Tracked :=
  h.of_applied ⟨s.resetToFit_sound, scaled_of_fit le_rfl, s.resetToFit_samePage⟩

theorem fitRfb_modes (id : ℕ) (l : Layout) :
    (fitRfb id l).scaleViewport = true ∧ (fitRfb id l).clipViewport = false := by
  have hclip := RfbViewport.setClipViewport_sameMode ((RfbViewport.new id).setScaleViewport l true)
    l false
  have hscale := RfbViewport.setScaleViewport_sameMode (.new id) l true
  exact ⟨hclip.scaleViewport.trans hscale.scaleViewport, hclip.clipViewport⟩

theorem Tracked.startVNC (h : s.Tracked) : s.startVNC.Tracked where
  sound := sound_of_fit rfl rfl (fitRfb_modes _ _).1 (fitRfb_modes _ _).2
  scaled := .inl (scaled_of_fit le_rfl)
  queued := h.queued

theorem tracked_new (hasTouch : Bool) (l : Layout) : (new hasTouch l).Tracked where
  sound := sound_of_fit rfl rfl (fitRfb_modes _ _).1 (fitRfb_modes _ _).2
  scaled := .inl (scaled_of_fit le_rfl)
  queued := fun hs => by cases hs

theorem Tracked.observe (h : s.Tracked) (l : Layout) (callbacks : List FrameCallback) :
    { s with layout := l, frames := s.frames ++ callbacks }.Tracked := by
  refine ⟨h.sound.congr rfl rfl rfl rfl, h.scaled, fun hs => ?_⟩
  exact (h.queued hs).imp (List.mem_append_left _) (List.mem_append_left _)

theorem Tracked.layout (h : s.Tracked) (l : Layout) : { s with layout := l }.Tracked := by
  have := h.observe l []
  rwa [List.append_nil] at this

theorem Tracked.onContainerResize (h : s.Tracked) : s.onContainerResize.Tracked := by
  unfold Magnifier.onContainerResize
  split_ifs with hz
  · exact h
  · refine ⟨h.sound.congr rfl rfl rfl rfl, h.scaled.imp id ?_, fun _ => ?_⟩
    · exact fun ha => ⟨ha.1, rfl⟩
    · exact .inl (by simp)

theorem Tracked.handleResize (h : s.Tracked) : s.handleResize.Tracked := by
  unfold Magnifier.handleResize
  split_ifs with ha
  · exact h.observe s.layout [.novnc s.rfb.id]
  · exact h

theorem Tracked.stomp {r : RfbViewport} (h : s.Tracked) (hharm : s.Harmless)
    (hm : s.rfb.SameMode r) (hr : s.rfb.scaleViewport = false → r.display.scale = some 1) :
    { s with rfb := r }.Tracked := by
  refine ⟨h.sound.congr rfl rfl hm.scaleViewport hm.clipViewport, ?_, h.queued⟩
  rcases hharm with hz | hone | ⟨ha, hs⟩
  · exact .inl (scaled_of_fit hz)
  · refine .inl fun hz => ?_
    exact (hr (h.sound.modes hz).1).trans hone.symm
  · exact .inr ⟨hm.attached.trans ha, hs⟩

theorem Tracked.reassertZoom (h : s.Tracked) (frames : List FrameCallback) :
    (Magnifier.reassertZoom { s with frames := frames }).Tracked := by
  obtain ⟨t, ht⟩ : ∃ t : Magnifier, t = { s with frames := frames, reassertScheduled := false } :=
    ⟨_, rfl⟩
  have hsound : t.Sound := by
    rw [ht]
    exact h.sound.congr rfl rfl rfl rfl
  have hqueued : ∀ t', t.SamePage t' → t'.reassertScheduled = true →
      .outer ∈ t'.frames ∨ .reassert ∈ t'.frames := by
    intro t' hpage hs
    rw [hpage.reassertScheduled, ht] at hs
    cases hs
  unfold Magnifier.reassertZoom
  rw [← ht]
  dsimp only
  split_ifs with hoff hscale
  · refine ⟨hsound, .inl fun hlt => ?_, hqueued t ⟨rfl, rfl, rfl⟩⟩
    have ha : t.rfb.attached = false := hoff.resolve_left (not_le.mpr hlt)
    rw [ht] at hlt ha ⊢
    rcases h.scaled with hs | ⟨hs, -⟩
    · exact hs hlt
    · exact absurd (ha.symm.trans hs) (by decide)
  · obtain ⟨hz, -⟩ := not_or.mp hoff
    rw [(hsound.modes (not_le.mp hz)).1] at hscale
    cases hscale
  · obtain ⟨-, ha⟩ := not_or.mp hoff
    have happlied := applyZoom_applied hsound (by simpa using ha) t.zoomLevel
    exact ⟨happlied.sound, .inl happlied.scaled, hqueued _ happlied.page⟩

theorem Tracked.frame (h : s.Tracked) (hgood : s.Reasserted .frame) :
    (s.step .frame).Tracked := by
  unfold Magnifier.step
  dsimp only
  split
  · rename_i callback frames hframes
    have hrest : callback ≠ .outer → callback ≠ .reassert →
        { s with frames := frames }.Tracked := by
      intro hout hre
      refine ⟨h.sound.congr rfl rfl rfl rfl, h.scaled, fun hs => ?_⟩
      have hq := h.queued hs
      rw [hframes] at hq
      exact hq.imp (fun hm => (List.mem_cons.mp hm).resolve_left hout.symm)
        fun hm => (List.mem_cons.mp hm).resolve_left hre.symm
    cases callback with
    | novnc id =>
      have ht := hrest (by simp) (by simp)
      simp only [runCallback]
      split_ifs with hid
      · have hharm : s.Harmless := hgood (by rw [hframes, hid]; rfl)
        exact ht.stomp hharm (RfbViewport.onFrame_sameMode _ _) RfbViewport.onFrame_scale
      · exact ht
    | outer =>
      refine ⟨h.sound.congr rfl rfl rfl rfl, h.scaled, fun _ => .inr ?_⟩
      simp [runCallback]
    | reassert => exact h.reassertZoom frames
  · exact h

theorem Tracked.step {e : ZoomEvent} (h : s.Tracked) (hgood : s.Reasserted e) :
    (s.step e).Tracked := by
  cases e with
  | zoomIn => exact h.applyZoom _
  | zoomOut => exact h.applyZoom _
  | fit => exact h.resetToFit
  | pinch scaleFactor =>
    simp only [Magnifier.step, pinch]
    split_ifs with ht hp
    · exact h.applyZoom _
    · exact h
    · exact h
  | containerResize l =>
    unfold Magnifier.step
    dsimp only
    apply Tracked.handleResize
    split_ifs with ht
    · exact (h.layout l).onContainerResize
    · exact h.layout l
  | screenResize client => exact (h.layout _).handleResize
  | serverResize fb =>
    unfold Magnifier.step
    dsimp only
    split_ifs with ha
    · exact h.stomp (hgood ha) (RfbViewport.resize_sameMode _ _ _) RfbViewport.resize_scale
    · exact h
  | disconnect =>
    cases ha : s.rfb.attached with
    | false =>
      refine ⟨h.sound.congr rfl rfl rfl rfl, ?_, h.queued⟩
      exact h.scaled.imp id fun hs => absurd (ha.symm.trans hs.1) (by decide)
    | true =>
      refine ⟨h.sound.congr rfl rfl rfl rfl, .inl fun hz => ?_, h.queued⟩
      exact (hgood ha).resolve_left (not_le.mpr hz)
  | startVNC => exact h.startVNC
  | frame => exact h.frame hgood

/-- In every run in which noVNC sets its scale only where a reassertion follows, the zoom state and
noVNC agree whenever no callback waits for a frame. -/
theorem zoom_in_step (hasTouch : Bool) (l : Layout) (es : List ZoomEvent)
    (h : Steps step Reasserted (new hasTouch l) es) :
    Always step (fun s => s.frames = [] → s.InStep) (new hasTouch l) es :=
  (h.always (fun _ _ ht hgood => ht.step hgood) (tracked_new hasTouch l)).mono
    fun _ ht hq => ht.inStep hq

def window : Layout := ⟨⟨800, 600⟩, ⟨800, 600⟩, ⟨800, 600⟩⟩

/-- A zoom, and a resize that is reasserted. -/
theorem zoom_in_step_window : Always step (fun s => s.frames = [] → s.InStep) (new true window)
    [.serverResize ⟨1600, 1200⟩, .zoomIn, .containerResize ⟨⟨800, 500⟩, ⟨800, 500⟩, ⟨800, 500⟩⟩,
      .frame, .frame, .frame] := by
  apply zoom_in_step
  refine ⟨fun _ => .inl (by decide +kernel), trivial, trivial, fun h => ?_, fun _ => ?_,
    fun h => ?_, trivial⟩
  · exact absurd h (by decide +kernel)
  · exact .inr (.inr (by decide +kernel))
  · exact absurd h (by decide +kernel)

/-- A framebuffer of another size takes the magnified scale away. -/
theorem server_resize_stomps : ¬ ∀ (hasTouch : Bool) (l : Layout) (es : List ZoomEvent),
    Always step (fun s => s.frames = [] → s.InStep) (new hasTouch l) es := by
  intro h
  have hs := h true window [.serverResize ⟨1600, 1200⟩, .zoomIn, .serverResize ⟨1024, 768⟩] _
    List.prefix_rfl (by decide +kernel)
  obtain ⟨t, ht⟩ : ∃ t, t = run step (new true window)
    [.serverResize ⟨1600, 1200⟩, .zoomIn, .serverResize ⟨1024, 768⟩] := ⟨_, rfl⟩
  have hrun : t.zoomLevel = 7 / 5 ∧ t.baseFitScale = some (some (1 / 2)) ∧
      t.rfb.display.scale = some 1 := by
    rw [ht]
    decide +kernel
  rw [← ht] at hs
  obtain ⟨hz, hbase, hone⟩ := hrun
  obtain ⟨b, hb, -, -, -, hscale⟩ := hs.magnified (by rw [hz]; norm_num)
  obtain rfl : 1 / 2 = b := by simpa [hbase] using hb
  rw [hone, hz, Option.some.injEq] at hscale
  norm_num at hscale

end Magnifier

end Urc
