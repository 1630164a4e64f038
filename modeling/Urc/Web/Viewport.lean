import Mathlib.Data.NNRat.Defs
import Mathlib.Data.Rat.Floor

/-! # The viewport of noVNC

The scale and the clipping of the vendored `Display` and `RFB`, as far as they depend on sizes.
Where the viewport lies in the framebuffer and what is drawn is left out: no scale depends on it.
-/

namespace Urc

/-- A number of JavaScript that is exact, or none where it is `Infinity` or `NaN`. -/
abbrev JsNumber := Option ℚ

structure Point where
  x : ℚ
  y : ℚ
  deriving DecidableEq

structure CssSize where
  width : ℚ≥0
  height : ℚ≥0
  deriving DecidableEq

structure Pixels where
  w : ℕ
  h : ℕ
  deriving DecidableEq

/-- `viewport` is the size of `_viewportLoc`. -/
structure Display where
  scale : JsNumber
  clipViewport : Bool
  viewport : Pixels
  fb : Pixels
  deriving DecidableEq

namespace Display

def new : Display := ⟨some 1, false, ⟨0, 0⟩, ⟨0, 0⟩⟩

def viewportChangeSize (d : Display) (width height : ℚ) : Display :=
  { d with viewport :=
      if d.clipViewport then ⟨min ⌊width⌋₊ d.fb.w, min ⌊height⌋₊ d.fb.h⟩ else d.fb }

/-- The setter of `clipViewport`. -/
def setClipViewport (d : Display) (on : Bool) : Display :=
  viewportChangeSize { d with clipViewport := on } d.viewport.w d.viewport.h

def resize (d : Display) (fb : Pixels) : Display :=
  viewportChangeSize { d with fb := fb } d.viewport.w d.viewport.h

/-- `autoscale`. A viewport without an extent divides by zero. -/
def autoscale (d : Display) (container : CssSize) : Display :=
  { d with scale :=
      if container.width = 0 ∨ container.height = 0 then some 0
      else if d.viewport.h = 0 then
        if d.viewport.w = 0 then none else some (container.width / d.viewport.w)
      else if (container.width / container.height : ℚ) ≤ d.viewport.w / d.viewport.h then
        some (container.width / d.viewport.w)
      else some (container.height / d.viewport.h) }

end Display

/-- What the browser lays out: the rectangle of `#screen` and of noVNC's own element in it, which
fills it, and the client sizes of the two. -/
structure Layout where
  rect : CssSize
  container : Pixels
  client : Pixels
  deriving DecidableEq

/-- The RFB object of a connection. Its element is `attached` until it disconnects. -/
structure RfbViewport where
  id : ℕ
  attached : Bool
  scaleViewport : Bool
  clipViewport : Bool
  display : Display
  expectedClient : Option Pixels
  deriving DecidableEq

namespace RfbViewport

def new (id : ℕ) : RfbViewport := ⟨id, true, false, false, .new, none⟩

def screenSize (r : RfbViewport) (l : Layout) : CssSize := if r.attached then l.rect else ⟨0, 0⟩

def currentClientSize (r : RfbViewport) (l : Layout) : Pixels :=
  if r.attached then l.client else ⟨0, 0⟩

def saveExpectedClientSize (r : RfbViewport) (l : Layout) : RfbViewport :=
  { r with expectedClient := some (r.currentClientSize l) }

def updateClip (r : RfbViewport) (l : Layout) : RfbViewport :=
  let newClip := r.clipViewport && !r.scaleViewport
  let changed := r.display.clipViewport != newClip
  let d := if changed then r.display.setClipViewport newClip else r.display
  let size := r.screenSize l
  let r := { r with
    display := if newClip then d.viewportChangeSize size.width size.height else d }
  if changed then r.saveExpectedClientSize l else r

def updateScale (r : RfbViewport) (l : Layout) : RfbViewport :=
  { r with display :=
      if r.scaleViewport then r.display.autoscale (r.screenSize l)
      else { r.display with scale := some 1 } }

/-- The setter of `clipViewport`. -/
def setClipViewport (r : RfbViewport) (l : Layout) (on : Bool) : RfbViewport :=
  updateClip { r with clipViewport := on } l

/-- The setter of `scaleViewport`. Scaling trumps clipping. -/
def setScaleViewport (r : RfbViewport) (l : Layout) (on : Bool) : RfbViewport :=
  let r := { r with scaleViewport := on }
  let r := if on && r.clipViewport then r.updateClip l else r
  let r := r.updateScale l
  if !on && r.clipViewport then r.updateClip l else r

/-- `_resize`, on a size that the server announces. -/
def resize (r : RfbViewport) (l : Layout) (fb : Pixels) : RfbViewport :=
  ((updateClip { r with display := r.display.resize fb } l).updateScale l).saveExpectedClientSize l

/-- The callback that `_handleResize` leaves to an animation frame. -/
def onFrame (r : RfbViewport) (l : Layout) : RfbViewport := (r.updateClip l).updateScale l

/-! ### What the operations leave as it is -/

variable {r : RfbViewport} {l : Layout} {on : Bool} {fb : Pixels}

structure SameMode (r r' : RfbViewport) : Prop where
  id : r'.id = r.id
  attached : r'.attached = r.attached
  scaleViewport : r'.scaleViewport = r.scaleViewport
  clipViewport : r'.clipViewport = r.clipViewport

theorem SameMode.trans {r r' r'' : RfbViewport} (h : SameMode r r') (h' : SameMode r' r'') :
    SameMode r r'' :=
  ⟨h'.id.trans h.id, h'.attached.trans h.attached, h'.scaleViewport.trans h.scaleViewport,
    h'.clipViewport.trans h.clipViewport⟩

theorem updateClip_sameMode (r : RfbViewport) (l : Layout) : SameMode r (r.updateClip l) := by
  unfold updateClip saveExpectedClientSize
  dsimp only
  split_ifs <;> exact ⟨rfl, rfl, rfl, rfl⟩

theorem updateScale_sameMode (r : RfbViewport) (l : Layout) : SameMode r (r.updateScale l) :=
  ⟨rfl, rfl, rfl, rfl⟩

theorem setClipViewport_sameMode (r : RfbViewport) (l : Layout) (on : Bool) :
    SameMode { r with clipViewport := on } (r.setClipViewport l on) :=
  updateClip_sameMode _ l

theorem setScaleViewport_sameMode (r : RfbViewport) (l : Layout) (on : Bool) :
    SameMode { r with scaleViewport := on } (r.setScaleViewport l on) := by
  have hclip : ∀ (b : Bool) (r : RfbViewport), SameMode r (if b then r.updateClip l else r) := by
    intro b r
    split_ifs
    · exact r.updateClip_sameMode l
    · exact ⟨rfl, rfl, rfl, rfl⟩
  exact ((hclip _ _).trans (updateScale_sameMode _ l)).trans (hclip _ _)

theorem onFrame_sameMode (r : RfbViewport) (l : Layout) : SameMode r (r.onFrame l) :=
  (r.updateClip_sameMode l).trans (updateScale_sameMode _ l)

theorem resize_sameMode (r : RfbViewport) (l : Layout) (fb : Pixels) :
    SameMode r (r.resize l fb) := by
  have h := (updateClip_sameMode { r with display := r.display.resize fb } l).trans
    (updateScale_sameMode _ l)
  exact ⟨h.id, h.attached, h.scaleViewport, h.clipViewport⟩

/-- An RFB object that does not scale shows the framebuffer at its own size. -/
theorem updateScale_scale (h : r.scaleViewport = false) :
    (r.updateScale l).display.scale = some 1 := by
  simp [updateScale, h]

theorem onFrame_scale (h : r.scaleViewport = false) : (r.onFrame l).display.scale = some 1 :=
  updateScale_scale ((r.updateClip_sameMode l).scaleViewport.trans h)

theorem resize_scale (h : r.scaleViewport = false) :
    (r.resize l fb).display.scale = some 1 := by
  have hmode := updateClip_sameMode { r with display := r.display.resize fb } l
  exact updateScale_scale (hmode.scaleViewport.trans h)

theorem updateClip_clip (r : RfbViewport) (l : Layout) :
    (r.updateClip l).display.clipViewport = (r.clipViewport && !r.scaleViewport) := by
  unfold updateClip saveExpectedClientSize
  dsimp only
  split_ifs with hchanged hnew hnew
  · rfl
  · rfl
  · simpa [Display.viewportChangeSize] using hchanged
  · simpa using hchanged

theorem updateClip_fb (r : RfbViewport) (l : Layout) :
    (r.updateClip l).display.fb = r.display.fb := by
  unfold updateClip saveExpectedClientSize
  dsimp only
  split_ifs <;> rfl

theorem updateScale_fb (r : RfbViewport) (l : Layout) :
    (r.updateScale l).display.fb = r.display.fb := by
  unfold updateScale
  dsimp only
  split_ifs <;> rfl

theorem setScaleViewport_fb (r : RfbViewport) (l : Layout) (on : Bool) :
    (r.setScaleViewport l on).display.fb = r.display.fb := by
  unfold setScaleViewport
  dsimp only
  split_ifs <;> simp only [updateClip_fb, updateScale_fb]

theorem manual_display (r : RfbViewport) (l : Layout) :
    let r' := (r.setScaleViewport l false).setClipViewport l true
    r'.display.clipViewport = true ∧ r'.display.fb = r.display.fb := by
  refine ⟨?_, (updateClip_fb _ l).trans (setScaleViewport_fb r l false)⟩
  have hscale := (setScaleViewport_sameMode r l false).scaleViewport
  rw [setClipViewport, updateClip_clip]
  simpa using hscale

end RfbViewport

end Urc
