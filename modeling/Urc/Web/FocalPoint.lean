import Mathlib.Algebra.Order.Group.MinMax
import Mathlib.Tactic.FieldSimp
import Mathlib.Tactic.Linarith
import Urc.Web.Magnify

/-! # The focal point of a zoom

Where the viewport lies in the framebuffer, beside the sizes and the scale of `Display`. A zoom
moves the viewport so that the framebuffer point under the focus stays under it; it measures the
focus from the canvas as it was, while the automatic margins centre the new canvas anew.
-/

namespace Urc

/-- A display with the corner of `_viewportLoc`. -/
structure PlacedDisplay where
  display : Display
  x : ℤ
  y : ℤ
  deriving DecidableEq

namespace PlacedDisplay

def viewportChangePos (d : PlacedDisplay) (deltaX deltaY : ℚ) : PlacedDisplay :=
  let vp := d.display.viewport
  let fb := d.display.fb
  let deltaX := if d.display.clipViewport then ⌊deltaX⌋ else -(vp.w : ℤ)
  let deltaY := if d.display.clipViewport then ⌊deltaY⌋ else -(vp.h : ℤ)
  let vx2 := d.x + vp.w - 1
  let vy2 := d.y + vp.h - 1
  let deltaX := if deltaX < 0 ∧ d.x + deltaX < 0 then -d.x else deltaX
  let deltaX := if fb.w ≤ vx2 + deltaX then deltaX - (vx2 + deltaX - fb.w + 1) else deltaX
  let deltaY := if d.y + deltaY < 0 then -d.y else deltaY
  let deltaY := if fb.h ≤ vy2 + deltaY then deltaY - (vy2 + deltaY - fb.h + 1) else deltaY
  { d with x := d.x + deltaX, y := d.y + deltaY }

def viewportChangeSize (d : PlacedDisplay) (width height : ℚ) : PlacedDisplay :=
  let resized := d.display.viewportChangeSize width height
  if resized.viewport = d.display.viewport then d
  else viewportChangePos { d with display := resized } 0 0

/-- The setter of `clipViewport`. -/
def setClipViewport (d : PlacedDisplay) (on : Bool) : PlacedDisplay :=
  let vp := d.display.viewport
  (viewportChangeSize { d with display := { d.display with clipViewport := on } }
    vp.w vp.h).viewportChangePos 0 0

@[simp]
theorem viewportChangePos_display (d : PlacedDisplay) (deltaX deltaY : ℚ) :
    (d.viewportChangePos deltaX deltaY).display = d.display := rfl

@[simp]
theorem viewportChangeSize_display (d : PlacedDisplay) (width height : ℚ) :
    (d.viewportChangeSize width height).display = d.display.viewportChangeSize width height := by
  unfold viewportChangeSize
  dsimp only
  split_ifs with h
  · have hsize : d.display.viewportChangeSize width height =
        { d.display with viewport := (d.display.viewportChangeSize width height).viewport } := rfl
    rw [hsize, h]
  · rfl

@[simp]
theorem setClipViewport_display (d : PlacedDisplay) (on : Bool) :
    (d.setClipViewport on).display = d.display.setClipViewport on :=
  viewportChangeSize_display _ _ _

theorem viewportChangePos_eq (d : PlacedDisplay) (wantX wantY : ℚ)
    (hclip : d.display.clipViewport = true)
    (hx : 0 ≤ ⌊wantX⌋ ∧ ⌊wantX⌋ + d.display.viewport.w ≤ d.display.fb.w)
    (hy : 0 ≤ ⌊wantY⌋ ∧ ⌊wantY⌋ + d.display.viewport.h ≤ d.display.fb.h) :
    d.viewportChangePos (wantX - d.x) (wantY - d.y) = ⟨d.display, ⌊wantX⌋, ⌊wantY⌋⟩ := by
  have hwx : ⌊wantX - d.x⌋ = ⌊wantX⌋ - d.x := Int.floor_sub_intCast _ _
  have hwy : ⌊wantY - d.y⌋ = ⌊wantY⌋ - d.y := Int.floor_sub_intCast _ _
  unfold viewportChangePos
  simp only [hclip, if_true, hwx, hwy]
  rw [if_neg (by omega), if_neg (by omega), if_neg (by omega), if_neg (by omega)]
  congr 1 <;> omega

end PlacedDisplay

structure PlacedRfb where
  rfb : RfbViewport
  x : ℤ
  y : ℤ
  deriving DecidableEq

namespace PlacedRfb

def display (p : PlacedRfb) : PlacedDisplay := ⟨p.rfb.display, p.x, p.y⟩

/-- The sizes change as in `RfbViewport.updateClip`. -/
def updateClip (p : PlacedRfb) (l : Layout) : PlacedRfb :=
  let newClip := p.rfb.clipViewport && !p.rfb.scaleViewport
  let d := if p.rfb.display.clipViewport != newClip then p.display.setClipViewport newClip
    else p.display
  let size := p.rfb.screenSize l
  let d := if newClip then d.viewportChangeSize size.width size.height else d
  ⟨p.rfb.updateClip l, d.x, d.y⟩

def updateScale (p : PlacedRfb) (l : Layout) : PlacedRfb := { p with rfb := p.rfb.updateScale l }

/-- The setter of `clipViewport`. -/
def setClipViewport (p : PlacedRfb) (l : Layout) (on : Bool) : PlacedRfb :=
  updateClip { p with rfb := { p.rfb with clipViewport := on } } l

/-- The setter of `scaleViewport`. -/
def setScaleViewport (p : PlacedRfb) (l : Layout) (on : Bool) : PlacedRfb :=
  let p := { p with rfb := { p.rfb with scaleViewport := on } }
  let p := if on && p.rfb.clipViewport then p.updateClip l else p
  let p := p.updateScale l
  if !on && p.rfb.clipViewport then p.updateClip l else p

theorem updateClip_display (p : PlacedRfb) (l : Layout) :
    let newClip := p.rfb.clipViewport && !p.rfb.scaleViewport
    let d := if p.rfb.display.clipViewport != newClip then p.display.setClipViewport newClip
      else p.display
    let size := p.rfb.screenSize l
    (if newClip then d.viewportChangeSize size.width size.height else d).display =
      (p.rfb.updateClip l).display := by
  unfold RfbViewport.updateClip RfbViewport.saveExpectedClientSize
  dsimp only
  split_ifs <;> simp [display]

theorem updateClip_rfb (p : PlacedRfb) (l : Layout) :
    (p.updateClip l).rfb = p.rfb.updateClip l := rfl

theorem updateScale_rfb (p : PlacedRfb) (l : Layout) :
    (p.updateScale l).rfb = p.rfb.updateScale l := rfl

theorem setClipViewport_rfb (p : PlacedRfb) (l : Layout) (on : Bool) :
    (p.setClipViewport l on).rfb = p.rfb.setClipViewport l on := rfl

theorem setScaleViewport_rfb (p : PlacedRfb) (l : Layout) (on : Bool) :
    (p.setScaleViewport l on).rfb = p.rfb.setScaleViewport l on := by
  simp only [setScaleViewport, RfbViewport.setScaleViewport, apply_ite rfb, updateClip_rfb,
    updateScale_rfb]

end PlacedRfb

def truncate (x : ℚ) : ℤ := if 0 ≤ x then ⌊x⌋ else ⌈x⌉

def toSigned32bit (x : ℚ) : ℤ := (truncate x).bmod 4294967296

theorem toSigned32bit_of_abs_lt {x : ℚ} (h : |x| < 2147483648) :
    toSigned32bit x = truncate x := by
  obtain ⟨hlow, hhigh⟩ := abs_lt.mp h
  have hbounds : -2147483648 ≤ truncate x ∧ truncate x < 2147483648 := by
    unfold truncate
    split_ifs with hx
    · exact ⟨(by norm_num : (-2147483648 : ℤ) ≤ 0).trans (Int.floor_nonneg.mpr hx),
        Int.floor_lt.mpr (by exact_mod_cast hhigh)⟩
    · exact ⟨Int.le_ceil_iff.mpr (by push_cast; linarith),
        (Int.ceil_le.mpr (by exact_mod_cast (not_le.mp hx).le)).trans_lt (by norm_num)⟩
  exact Int.bmod_eq_of_le (by omega) (by omega)

/-- Truncation sends a number to the pixel of another one, from whose left border it is `t` away. -/
theorem truncate_eq_iff {n : ℤ} (hn : 0 ≤ n) (t : ℚ) :
    truncate (n + t) = n ↔ t < 1 ∧ (0 ≤ t ∨ n = 0 ∧ -1 < t) := by
  have hn' : (0 : ℚ) ≤ n := by exact_mod_cast hn
  unfold truncate
  split_ifs with hx
  · rw [Int.floor_intCast_add, add_eq_left, Int.floor_eq_zero_iff, Set.mem_Ico]
    constructor
    · exact fun h => ⟨h.2, .inl h.1⟩
    · rintro ⟨hlt, h | ⟨rfl, -⟩⟩
      · exact ⟨h, hlt⟩
      · exact ⟨by simpa using hx, hlt⟩
  · have hneg : t < 0 := by linarith
    rw [Int.ceil_intCast_add, add_eq_left, Int.ceil_eq_zero_iff, Set.mem_Ioc]
    constructor
    · rintro ⟨hlow, -⟩
      have hzero : n = 0 := by
        have hlt : (n : ℚ) < 1 := by linarith
        have : n < 1 := by exact_mod_cast hlt
        omega
      exact ⟨by linarith, .inr ⟨hzero, hlow⟩⟩
    · rintro ⟨-, h | ⟨-, hlow⟩⟩
      · exact absurd hneg (not_lt.mpr h)
      · exact ⟨hlow, hneg.le⟩

/-- One axis of the page: where noVNC's element begins and its extent, the client pixels of
`#screen`, and the framebuffer with the viewport in it. -/
structure Axis where
  origin : ℚ
  rect : ℚ≥0
  client : ℕ
  fb : ℕ
  viewport : ℕ
  pos : ℤ
  deriving DecidableEq

namespace Axis

/-- Where a canvas begins, with margins on both sides that share the space it leaves. -/
def edge (a : Axis) (scale : ℚ) (viewport : ℕ) : ℚ :=
  a.origin + max 0 ((a.rect - scale * viewport) / 2)

def point (a : Axis) (scale focus : ℚ) : ℚ := (focus - a.edge scale a.viewport) / scale + a.pos

/-- The viewport lies in the framebuffer, whose size the protocol sends in 16 bits. -/
structure Placed (a : Axis) : Prop where
  low : 0 ≤ a.pos
  high : a.pos + a.viewport ≤ a.fb
  bound : a.fb ≤ 65535

structure Inside (a : Axis) (scale focus : ℚ) : Prop where
  low : a.edge scale a.viewport ≤ focus
  high : focus < a.edge scale a.viewport + scale * a.viewport

def newViewport (a : Axis) (newScale : ℚ) : ℕ := min ⌊a.client / newScale⌋₊ a.fb

/-- Where the viewport would begin to have the point under the focus, measured from the canvas as it
was. -/
def want (a : Axis) (scale newScale focus : ℚ) : ℚ :=
  a.point scale focus - (focus - a.edge scale a.viewport) / newScale

structure Unclamped (a : Axis) (scale newScale focus : ℚ) : Prop where
  low : 0 ≤ ⌊a.want scale newScale focus⌋
  high : ⌊a.want scale newScale focus⌋ + a.newViewport newScale ≤ a.fb

/-- How far the canvas moves back, in framebuffer pixels of the new scale. -/
def shift (a : Axis) (scale newScale : ℚ) : ℚ :=
  (a.edge scale a.viewport - a.edge newScale (a.newViewport newScale)) / newScale

/-- What the point under the focus moves by: the shift of the canvas, and what is floored. -/
def drift (a : Axis) (scale newScale focus : ℚ) : ℚ :=
  a.shift scale newScale - Int.fract (a.want scale newScale focus)

/-- The drift leaves the point in its pixel. Truncation extends the first pixel to the left. -/
def Stays (a : Axis) (scale newScale focus : ℚ) : Prop :=
  let inPixel := Int.fract (a.point scale focus) + a.drift scale newScale focus
  inPixel < 1 ∧ (0 ≤ inPixel ∨ ⌊a.point scale focus⌋ = 0 ∧ -1 < inPixel)

def zoomed (a : Axis) (scale newScale focus : ℚ) : Axis :=
  { a with viewport := a.newViewport newScale, pos := ⌊a.want scale newScale focus⌋ }

variable {a : Axis} {scale newScale focus : ℚ}

instance : Decidable a.Placed :=
  decidable_of_iff (0 ≤ a.pos ∧ a.pos + a.viewport ≤ a.fb ∧ a.fb ≤ 65535)
    ⟨fun h => ⟨h.1, h.2.1, h.2.2⟩, fun h => ⟨h.low, h.high, h.bound⟩⟩

instance : Decidable (a.Inside scale focus) :=
  decidable_of_iff (a.edge scale a.viewport ≤ focus ∧
    focus < a.edge scale a.viewport + scale * a.viewport)
    ⟨fun h => ⟨h.1, h.2⟩, fun h => ⟨h.low, h.high⟩⟩

instance : Decidable (a.Unclamped scale newScale focus) :=
  decidable_of_iff (0 ≤ ⌊a.want scale newScale focus⌋ ∧
    ⌊a.want scale newScale focus⌋ + a.newViewport newScale ≤ a.fb)
    ⟨fun h => ⟨h.1, h.2⟩, fun h => ⟨h.low, h.high⟩⟩

instance : Decidable (a.Stays scale newScale focus) :=
  inferInstanceAs (Decidable
    (Int.fract (a.point scale focus) + a.drift scale newScale focus < 1 ∧
      (0 ≤ Int.fract (a.point scale focus) + a.drift scale newScale focus ∨
        ⌊a.point scale focus⌋ = 0 ∧
          -1 < Int.fract (a.point scale focus) + a.drift scale newScale focus)))

theorem point_zoomed : (a.zoomed scale newScale focus).point newScale focus =
    a.point scale focus + a.drift scale newScale focus := by
  have hfract := Int.self_sub_floor (a.want scale newScale focus)
  have hedge : (a.zoomed scale newScale focus).edge newScale (a.newViewport newScale) =
      a.edge newScale (a.newViewport newScale) := rfl
  rw [point, drift, shift, ← hfract]
  simp only [zoomed] at hedge ⊢
  rw [hedge, want]
  ring

theorem Inside.scale_pos (h : a.Inside scale focus) : 0 < scale := by
  have hlt : 0 < scale * a.viewport := by linarith [h.low, h.high]
  exact pos_of_mul_pos_left hlt (Nat.cast_nonneg _)

theorem Inside.point_lt (h : a.Inside scale focus) (hp : a.Placed) :
    0 ≤ a.point scale focus ∧ a.point scale focus < a.fb := by
  have hs := h.scale_pos
  have hlow : 0 ≤ (focus - a.edge scale a.viewport) / scale :=
    div_nonneg (by linarith [h.low]) hs.le
  have hhigh : (focus - a.edge scale a.viewport) / scale < a.viewport := by
    rw [div_lt_iff₀ hs]
    linarith [h.high]
  have hpos : (0 : ℚ) ≤ a.pos := by exact_mod_cast hp.low
  have hfb : (a.pos : ℚ) + a.viewport ≤ a.fb := by exact_mod_cast hp.high
  rw [point]
  constructor <;> linarith

/-- The canvas moves by at most half of what its extent changes by. -/
theorem abs_edge_sub_le (a : Axis) (scale newScale : ℚ) (w w' : ℕ) :
    |a.edge scale w - a.edge newScale w'| ≤ |scale * w - newScale * w'| / 2 := by
  have h := abs_max_sub_max_le_max 0 ((a.rect - scale * w) / 2) 0 ((a.rect - newScale * w') / 2)
  have hdiff : (a.rect - scale * w) / 2 - (a.rect - newScale * w') / 2 =
      -((scale * w - newScale * w') / 2) := by ring
  rw [sub_self, abs_zero, hdiff, abs_neg, abs_div, abs_two] at h
  rw [edge, edge, add_sub_add_left_eq_sub]
  exact h.trans (max_le (by positivity) le_rfl)

theorem abs_shift_le (hp : a.Placed) (hscale : 0 < scale) (hnew : 0 < newScale)
    (hratio : scale ≤ 4 * newScale) : |a.shift scale newScale| ≤ 163838 := by
  have hw : (a.viewport : ℚ) ≤ 65535 := by
    have := hp.low
    have := hp.high
    have := hp.bound
    exact_mod_cast (by omega : a.viewport ≤ 65535)
  have hw' : (a.newViewport newScale : ℚ) ≤ 65535 := by
    exact_mod_cast (min_le_right _ _).trans hp.bound
  have hold : scale * a.viewport ≤ 4 * newScale * 65535 :=
    mul_le_mul hratio hw (Nat.cast_nonneg _) (by linarith)
  have hnewer : newScale * a.newViewport newScale ≤ newScale * 65535 :=
    mul_le_mul_of_nonneg_left hw' hnew.le
  have hold' : 0 ≤ scale * a.viewport := by positivity
  have hnewer' : 0 ≤ newScale * a.newViewport newScale := by positivity
  have hdiff : |scale * a.viewport - newScale * a.newViewport newScale| ≤
      4 * newScale * 65535 := by
    rw [abs_le]
    constructor <;> linarith
  have hedge := a.abs_edge_sub_le scale newScale a.viewport (a.newViewport newScale)
  rw [shift, abs_div, abs_of_pos hnew, div_le_iff₀ hnew]
  linarith

theorem abs_drift_le (focus : ℚ) (hp : a.Placed) (hscale : 0 < scale) (hnew : 0 < newScale)
    (hratio : scale ≤ 4 * newScale) : |a.drift scale newScale focus| ≤ 163839 := by
  have hshift := abs_le.mp (a.abs_shift_le hp hscale hnew hratio)
  have hlow := Int.fract_nonneg (a.want scale newScale focus)
  have hhigh := (Int.fract_lt_one (a.want scale newScale focus)).le
  rw [drift, abs_le]
  constructor <;> linarith

/-- The pixels on this axis before and after a zoom agree where the drift leaves the point in its
pixel. No conversion to 32 bits wraps. -/
theorem pixel_zoomed_iff (hp : a.Placed) (hi : a.Inside scale focus) (hnew : 0 < newScale)
    (hratio : scale ≤ 4 * newScale) :
    |toSigned32bit ((a.zoomed scale newScale focus).point newScale focus) -
      toSigned32bit (a.point scale focus)| < 1 ↔ a.Stays scale newScale focus := by
  obtain ⟨hlow, hhigh⟩ := hi.point_lt hp
  have hdrift := abs_le.mp (a.abs_drift_le focus hp hi.scale_pos hnew hratio)
  have hbound : (a.fb : ℚ) ≤ 65535 := by exact_mod_cast hp.bound
  have hbefore : toSigned32bit (a.point scale focus) = ⌊a.point scale focus⌋ := by
    rw [toSigned32bit_of_abs_lt (by rw [abs_lt]; constructor <;> linarith), truncate, if_pos hlow]
  have hafter : toSigned32bit ((a.zoomed scale newScale focus).point newScale focus) =
      truncate (a.point scale focus + a.drift scale newScale focus) := by
    rw [point_zoomed]
    exact toSigned32bit_of_abs_lt (by rw [abs_lt]; constructor <;> linarith)
  have hsplit : a.point scale focus + a.drift scale newScale focus =
      ⌊a.point scale focus⌋ + (Int.fract (a.point scale focus) +
        a.drift scale newScale focus) := by
    rw [← add_assoc, Int.floor_add_fract]
  rw [hbefore, hafter, Int.abs_lt_one_iff, sub_eq_zero, hsplit,
    truncate_eq_iff (Int.floor_nonneg.mpr hlow)]
  rfl

theorem point_zoomed_sub : (a.zoomed scale newScale focus).point newScale focus -
    a.point scale focus = a.drift scale newScale focus := by
  rw [point_zoomed, add_sub_cancel_left]

end Axis

/-- The page, where noVNC's element begins, and the corner of `_viewportLoc`. -/
structure FocalPage where
  page : Magnifier
  origin : Point
  x : ℤ
  y : ℤ

namespace FocalPage

def rfb (s : FocalPage) : PlacedRfb := ⟨s.page.rfb, s.x, s.y⟩

def horizontal (s : FocalPage) : Axis :=
  ⟨s.origin.x, (s.page.rfb.screenSize s.page.layout).width, s.page.layout.container.w,
    s.page.rfb.display.fb.w, s.page.rfb.display.viewport.w, s.x⟩

def vertical (s : FocalPage) : Axis :=
  ⟨s.origin.y, (s.page.rfb.screenSize s.page.layout).height, s.page.layout.container.h,
    s.page.rfb.display.fb.h, s.page.rfb.display.viewport.h, s.y⟩

/-- The corner of the canvas, which has no known size where the scale is not a number. -/
def canvasCorner (s : FocalPage) : Option Point :=
  s.page.rfb.display.scale.map fun scale =>
    ⟨s.horizontal.edge scale s.horizontal.viewport, s.vertical.edge scale s.vertical.viewport⟩

def absX (s : FocalPage) (x : ℚ) : ℤ :=
  match s.page.rfb.display.scale with
  | some scale => if scale = 0 then 0 else toSigned32bit (x / scale + s.x)
  | none => 0

def absY (s : FocalPage) (y : ℚ) : ℤ :=
  match s.page.rfb.display.scale with
  | some scale => if scale = 0 then 0 else toSigned32bit (y / scale + s.y)
  | none => 0

/-- `applyZoom` from where the new scale is known, or none where the viewport gets a place that is
not a number. -/
def magnify (s : FocalPage) (z newScale : ℚ) (focus : Point) (prevScale : JsNumber) :
    Option FocalPage :=
  match s.canvasCorner, prevScale with
  | some corner, some prevScale =>
    if prevScale = 0 then none
    else
      let offX := focus.x - corner.x
      let offY := focus.y - corner.y
      let fbFocusX := offX / prevScale + s.x
      let fbFocusY := offY / prevScale + s.y
      let p := if s.page.zoomLevel ≤ 1 then
          (s.rfb.setScaleViewport s.page.layout false).setClipViewport s.page.layout true
        else s.rfb
      let d := p.display.viewportChangeSize (s.page.layout.container.w / newScale)
        (s.page.layout.container.h / newScale)
      let wantX := fbFocusX - offX / newScale
      let wantY := fbFocusY - offY / newScale
      let d := d.viewportChangePos (wantX - d.x) (wantY - d.y)
      some { s with page := s.page.magnify z newScale, x := d.x, y := d.y }
  | _, _ => none

def resetToFit (s : FocalPage) : FocalPage :=
  let p := (s.rfb.setClipViewport s.page.layout false).setScaleViewport s.page.layout true
  { s with page := s.page.resetToFit, x := p.x, y := p.y }

/-- A zoom about a client point. Its callers give the scale that they take to be the present one, or
nothing. -/
def applyZoom (s : FocalPage) (z : ℚ) (focus : Point) (prevScaleOverride : Option JsNumber) :
    Option FocalPage :=
  if !s.page.rfb.attached then some s
  else
    let z := max 1 (min maxZoom z)
    if z ≤ 1 then some s.resetToFit
    else
      let prevScale := prevScaleOverride.getD s.page.rfb.display.scale
      let s := if (times s.page.baseFitScale z).positive then s
        else { s with page := { s.page with baseFitScale := some s.page.fitScaleNow } }
      match times s.page.baseFitScale z with
      | some newScale => if 0 < newScale then s.magnify z newScale focus prevScale else some s
      | none => some s

def point (s : FocalPage) (p : Point) : Option Point :=
  s.page.rfb.display.scale.map fun scale =>
    ⟨s.horizontal.point scale p.x, s.vertical.point scale p.y⟩

def pixel (s : FocalPage) (p : Point) : Option (ℤ × ℤ) :=
  s.canvasCorner.map fun corner => (s.absX (p.x - corner.x), s.absY (p.y - corner.y))

/-- noVNC assigns to the client point what it assigned before, up to less than one on each axis. -/
def Keeps (s s' : FocalPage) (p : Point) : Prop :=
  ∃ a a', s.pixel p = some a ∧ s'.pixel p = some a' ∧ |a'.1 - a.1| < 1 ∧ |a'.2 - a.2| < 1

def KeepsExactly (s s' : FocalPage) (p : Point) : Prop :=
  ∃ a a', s.point p = some a ∧ s'.point p = some a' ∧ |a'.x - a.x| < 1 ∧ |a'.y - a.y| < 1

def scaleAt (s : FocalPage) (scale z : ℚ) : ℚ := scale * (z / s.page.zoomLevel)

/-- The page fits or magnifies, its focus is on the canvas, and the new viewport will not be clamped
at a border of the framebuffer. -/
structure Ready (s : FocalPage) (scale z : ℚ) (focus : Point)
    (prevScaleOverride : Option JsNumber) : Prop where
  attached : s.page.rfb.attached = true
  sound : s.page.Sound
  scaled : s.page.Scaled
  clipped : 1 < s.page.zoomLevel → s.page.rfb.display.clipViewport = true
  atScale : s.page.rfb.display.scale = some scale
  prevScale : prevScaleOverride.getD (some scale) = some scale
  low : 1 < z
  high : z ≤ maxZoom
  placed : s.horizontal.Placed ∧ s.vertical.Placed
  inside : s.horizontal.Inside scale focus.x ∧ s.vertical.Inside scale focus.y
  unclamped : s.horizontal.Unclamped scale (s.scaleAt scale z) focus.x ∧
    s.vertical.Unclamped scale (s.scaleAt scale z) focus.y

variable {s s' : FocalPage} {scale z newScale : ℚ} {focus : Point}
  {prevScaleOverride : Option JsNumber}

theorem pixel_eq (hscale : s.page.rfb.display.scale = some scale) (hne : scale ≠ 0) (p : Point) :
    s.pixel p = some (toSigned32bit (s.horizontal.point scale p.x),
      toSigned32bit (s.vertical.point scale p.y)) := by
  simp [pixel, canvasCorner, absX, absY, hscale, hne, Axis.point, horizontal, vertical]

theorem point_eq (hscale : s.page.rfb.display.scale = some scale) (p : Point) :
    s.point p = some ⟨s.horizontal.point scale p.x, s.vertical.point scale p.y⟩ := by
  simp [point, hscale]

/-! ### The zoom -/

theorem magnify_page {prevScale : JsNumber}
    (h : s.magnify z newScale focus prevScale = some s') :
    s'.page = s.page.magnify z newScale := by
  unfold magnify at h
  split at h
  · split at h
    · cases h
    · obtain rfl := Option.some.inj h
      rfl
  · cases h

theorem scaleTo_page {prevScale : JsNumber}
    (h : (match times s.page.baseFitScale z with
      | some newScale => if 0 < newScale then s.magnify z newScale focus prevScale else some s
      | none => some s) = some s') :
    s'.page = match times s.page.baseFitScale z with
      | some newScale => if 0 < newScale then s.page.magnify z newScale else s.page
      | none => s.page := by
  cases htimes : times s.page.baseFitScale z with
  | none =>
    rw [htimes] at h
    obtain rfl := Option.some.inj h
    rfl
  | some newScale =>
    rw [htimes] at h
    dsimp only at h ⊢
    split_ifs at h ⊢
    · exact magnify_page h
    · obtain rfl := Option.some.inj h
      rfl

/-- But for the place of the viewport, the zoom is the one of the page. -/
theorem applyZoom_page (h : s.applyZoom z focus prevScaleOverride = some s') :
    s'.page = s.page.applyZoom z := by
  unfold applyZoom at h
  unfold Magnifier.applyZoom
  cases hattached : s.page.rfb.attached with
  | false =>
    simp only [hattached, Bool.not_false, if_true] at h ⊢
    obtain rfl := Option.some.inj h
    rfl
  | true =>
    simp only [hattached, Bool.not_true, Bool.false_eq_true, if_false] at h ⊢
    split_ifs at h ⊢ with hone hpos
    · obtain rfl := Option.some.inj h
      rfl
    · exact scaleTo_page h
    · exact scaleTo_page h

theorem manual_rfb (hclip : 1 < s.page.zoomLevel → s.page.rfb.display.clipViewport = true) :
    let p := if s.page.zoomLevel ≤ 1 then
        (s.rfb.setScaleViewport s.page.layout false).setClipViewport s.page.layout true
      else s.rfb
    p.rfb.display.clipViewport = true ∧ p.rfb.display.fb = s.page.rfb.display.fb := by
  dsimp only
  split_ifs with hz
  · rw [PlacedRfb.setClipViewport_rfb, PlacedRfb.setScaleViewport_rfb]
    exact RfbViewport.manual_display _ _
  · exact ⟨hclip (not_le.mp hz), rfl⟩

/-- Where the viewport is not clamped, it begins at the floor of where the page wants it. -/
theorem magnify_eq (hclip : 1 < s.page.zoomLevel → s.page.rfb.display.clipViewport = true)
    (hscale : s.page.rfb.display.scale = some scale) (hne : scale ≠ 0)
    (hx : s.horizontal.Unclamped scale newScale focus.x)
    (hy : s.vertical.Unclamped scale newScale focus.y) :
    s.magnify z newScale focus (some scale) = some { s with
      page := s.page.magnify z newScale
      x := ⌊s.horizontal.want scale newScale focus.x⌋
      y := ⌊s.vertical.want scale newScale focus.y⌋ } := by
  have hmanual := manual_rfb hclip
  unfold magnify canvasCorner
  simp only [hscale, Option.map_some, if_neg hne]
  dsimp only at hmanual
  generalize (if s.page.zoomLevel ≤ 1 then
    (s.rfb.setScaleViewport s.page.layout false).setClipViewport s.page.layout true
    else s.rfb) = p at hmanual ⊢
  obtain ⟨hon, hfb⟩ := hmanual
  have hsize : (p.display.viewportChangeSize (s.page.layout.container.w / newScale)
      (s.page.layout.container.h / newScale)).display =
      { p.rfb.display with
        viewport := ⟨s.horizontal.newViewport newScale, s.vertical.newViewport newScale⟩ } := by
    rw [PlacedDisplay.viewportChangeSize_display, PlacedRfb.display, Display.viewportChangeSize,
      if_pos hon]
    simp only [horizontal, vertical, Axis.newViewport, hfb]
  generalize p.display.viewportChangeSize (s.page.layout.container.w / newScale)
    (s.page.layout.container.h / newScale) = d at hsize ⊢
  have hpos := d.viewportChangePos_eq (s.horizontal.want scale newScale focus.x)
    (s.vertical.want scale newScale focus.y) (by rw [hsize]; exact hon)
    (by rw [hsize, hfb]; exact ⟨hx.low, hx.high⟩) (by rw [hsize, hfb]; exact ⟨hy.low, hy.high⟩)
  exact congrArg (fun d : PlacedDisplay =>
    some { s with page := s.page.magnify z newScale, x := d.x, y := d.y }) hpos

theorem page_magnify (newScale : ℚ)
    (hmode : 1 < s.page.zoomLevel →
      s.page.rfb.scaleViewport = false ∧ s.page.rfb.clipViewport = true)
    (hclip : 1 < s.page.zoomLevel → s.page.rfb.display.clipViewport = true) :
    let m := s.page.magnify z newScale
    m.layout = s.page.layout ∧ m.rfb.attached = s.page.rfb.attached ∧
      m.rfb.display.fb = s.page.rfb.display.fb ∧ m.rfb.display.viewport =
        ⟨s.horizontal.newViewport newScale, s.vertical.newViewport newScale⟩ := by
  have hmodes := Magnifier.magnify_modes (z := z) newScale hmode
  refine ⟨?_, hmodes.1, ?_⟩
  · unfold Magnifier.magnify
    dsimp only
    split_ifs <;> rfl
  · unfold Magnifier.magnify
    dsimp only
    split_ifs with hz
    · obtain ⟨hon, hfb⟩ := RfbViewport.manual_display s.page.rfb s.page.layout
      refine ⟨hfb, ?_⟩
      simp only [Display.viewportChangeSize, if_pos hon, hfb]
      rfl
    · refine ⟨rfl, ?_⟩
      simp only [Display.viewportChangeSize, if_pos (hclip (not_le.mp hz))]
      rfl

theorem Ready.scaleAt_pos (h : s.Ready scale z focus prevScaleOverride) :
    0 < s.scaleAt scale z ∧ scale ≤ 4 * s.scaleAt scale z := by
  have hscale := h.inside.1.scale_pos
  have hlevel : 0 < s.page.zoomLevel := zero_lt_one.trans_le h.sound.low
  have hhigh : s.page.zoomLevel ≤ 4 := h.sound.high
  have hz := h.low
  refine ⟨mul_pos hscale (div_pos (zero_lt_one.trans hz) hlevel), ?_⟩
  have hquarter : 1 ≤ 4 * (z / s.page.zoomLevel) := by
    rw [← mul_div_assoc, le_div_iff₀ hlevel]
    linarith
  calc scale = scale * 1 := (mul_one scale).symm
    _ ≤ scale * (4 * (z / s.page.zoomLevel)) := mul_le_mul_of_nonneg_left hquarter hscale.le
    _ = 4 * s.scaleAt scale z := by rw [scaleAt]; ring

/-- At the level one the present scale is captured, and above it the captured scale makes the
present one. -/
theorem Ready.applyZoom_eq (h : s.Ready scale z focus prevScaleOverride) :
    ∃ base, s.applyZoom z focus prevScaleOverride =
      ({ s with page := { s.page with baseFitScale := base } } : FocalPage).magnify z
        (s.scaleAt scale z) focus (some scale) := by
  have hz : max 1 (min maxZoom z) = z := by
    rw [min_eq_right h.high, max_eq_right h.low.le]
  have hlevel : 0 < s.page.zoomLevel := zero_lt_one.trans_le h.sound.low
  have hnew := h.scaleAt_pos.1
  unfold applyZoom
  simp only [h.attached, Bool.not_true, Bool.false_eq_true, if_false, hz, if_neg h.low.not_ge,
    h.atScale, h.prevScale]
  split_ifs with hpos
  · have hlt := (Magnifier.times_positive_iff h.sound h.low).mp hpos
    obtain ⟨b, hb, -⟩ := h.sound.magnified hlt
    have hpresent : scale = b * s.page.zoomLevel := by
      have hscaled := h.scaled hlt
      rw [h.atScale, Magnifier.target, hb] at hscaled
      simpa [times] using hscaled
    have htimes : times s.page.baseFitScale z = some (s.scaleAt scale z) := by
      rw [hb, times, Option.map_some, scaleAt, hpresent]
      field_simp
    refine ⟨s.page.baseFitScale, ?_⟩
    simp only [htimes, if_pos hnew]
  · have hone : s.page.zoomLevel = 1 := by
      refine le_antisymm (not_lt.mp fun hlt => hpos ?_) h.sound.low
      exact (Magnifier.times_positive_iff h.sound h.low).mpr hlt
    have hat : s.scaleAt scale z = scale * z := by rw [scaleAt, hone, div_one]
    refine ⟨some (some scale), ?_⟩
    simp only [Magnifier.fitScaleNow, h.atScale, times, Option.map_some, ← hat, if_pos hnew]

theorem Ready.applyZoom_spec (h : s.Ready scale z focus prevScaleOverride) :
    ∃ s', s.applyZoom z focus prevScaleOverride = some s' ∧
      s'.page.rfb.display.scale = some (s.scaleAt scale z) ∧
      s'.horizontal = s.horizontal.zoomed scale (s.scaleAt scale z) focus.x ∧
      s'.vertical = s.vertical.zoomed scale (s.scaleAt scale z) focus.y := by
  obtain ⟨base, happly⟩ := h.applyZoom_eq
  have hmagnify := magnify_eq (z := z)
    (s := { s with page := { s.page with baseFitScale := base } })
    h.clipped h.atScale h.inside.1.scale_pos.ne' h.unclamped.1 h.unclamped.2
  obtain ⟨hlayout, hattached, hfb, hviewport⟩ := page_magnify (z := z)
    (s := { s with page := { s.page with baseFitScale := base } }) (s.scaleAt scale z)
    h.sound.modes h.clipped
  refine ⟨_, happly.trans hmagnify, rfl, ?_, ?_⟩
  · simp only [horizontal, Axis.zoomed, RfbViewport.screenSize, hlayout, hattached, hfb, hviewport]
  · simp only [vertical, Axis.zoomed, RfbViewport.screenSize, hlayout, hattached, hfb, hviewport]

/-- A zoom keeps the focal point where the drift leaves it in its pixel on both axes, and keeps it
exactly where the drift is less than a pixel. -/
theorem keeps_iff (h : s.Ready scale z focus prevScaleOverride) :
    ∃ s', s.applyZoom z focus prevScaleOverride = some s' ∧
      (s.Keeps s' focus ↔ s.horizontal.Stays scale (s.scaleAt scale z) focus.x ∧
        s.vertical.Stays scale (s.scaleAt scale z) focus.y) ∧
      (s.KeepsExactly s' focus ↔
        |s.horizontal.drift scale (s.scaleAt scale z) focus.x| < 1 ∧
        |s.vertical.drift scale (s.scaleAt scale z) focus.y| < 1) := by
  obtain ⟨s', happly, hscale, hx, hy⟩ := h.applyZoom_spec
  obtain ⟨hnew, hratio⟩ := h.scaleAt_pos
  refine ⟨s', happly, ?_, ?_⟩
  · unfold Keeps
    rw [pixel_eq h.atScale h.inside.1.scale_pos.ne', pixel_eq hscale hnew.ne', hx, hy,
      ← Axis.pixel_zoomed_iff h.placed.1 h.inside.1 hnew hratio,
      ← Axis.pixel_zoomed_iff h.placed.2 h.inside.2 hnew hratio]
    simp
  · unfold KeepsExactly
    rw [point_eq h.atScale, point_eq hscale, hx, hy]
    simp [Axis.point_zoomed_sub]

/-- The page on a screen, at fit, behind the first size that the server announces. -/
def fitting (container fb : Pixels) : FocalPage :=
  let l : Layout := ⟨⟨container.w, container.h⟩, container, container⟩
  ⟨(Magnifier.new true l).step (.serverResize fb), ⟨0, 0⟩, 0, 0⟩

theorem fitting_ready {container fb : Pixels} {scale z : ℚ} {focus : Point}
    (hfit : (fitting container fb).page.zoomLevel = 1 ∧
      (fitting container fb).page.baseFitScale = none ∧
      (fitting container fb).page.rfb.attached = true ∧
      (fitting container fb).page.rfb.scaleViewport = true ∧
      (fitting container fb).page.rfb.clipViewport = false)
    (hscale : (fitting container fb).page.rfb.display.scale = some scale)
    (hz : 1 < z ∧ z ≤ maxZoom)
    (hplaced : (fitting container fb).horizontal.Placed ∧ (fitting container fb).vertical.Placed)
    (hinside : (fitting container fb).horizontal.Inside scale focus.x ∧
      (fitting container fb).vertical.Inside scale focus.y)
    (hunclamped : (fitting container fb).horizontal.Unclamped scale
        ((fitting container fb).scaleAt scale z) focus.x ∧
      (fitting container fb).vertical.Unclamped scale
        ((fitting container fb).scaleAt scale z) focus.y) :
    (fitting container fb).Ready scale z focus none where
  attached := hfit.2.2.1
  sound := Magnifier.sound_of_fit hfit.1 hfit.2.1 hfit.2.2.2.1 hfit.2.2.2.2
  scaled := Magnifier.scaled_of_fit hfit.1.le
  clipped := fun hlt => absurd hfit.1 hlt.ne'
  atScale := hscale
  prevScale := rfl
  low := hz.1
  high := hz.2
  placed := hplaced
  inside := hinside
  unclamped := hunclamped

/-- A zoom to two in the middle of a window of the shape of the framebuffer. -/
theorem keeps_iff_window :
    ∃ s', (fitting ⟨800, 600⟩ ⟨1600, 1200⟩).applyZoom 2 ⟨400, 300⟩ none = some s' ∧
      (fitting ⟨800, 600⟩ ⟨1600, 1200⟩).Keeps s' ⟨400, 300⟩ := by
  have hready : (fitting ⟨800, 600⟩ ⟨1600, 1200⟩).Ready (1 / 2) 2 ⟨400, 300⟩ none :=
    fitting_ready (by decide +kernel) (by decide +kernel) (by decide +kernel)
      (by decide +kernel) (by decide +kernel) (by decide +kernel)
  obtain ⟨s', happly, hkeeps, -⟩ := keeps_iff hready
  exact ⟨s', happly, hkeeps.mpr (by decide +kernel)⟩

/-- On an upright phone the canvas has margins above and below at fit, and none magnified: the point
under the focus moves by 250 pixels. -/
theorem upright_moves : ¬ ∀ (s : FocalPage) (scale z : ℚ) (focus : Point)
    (prevScaleOverride : Option JsNumber), s.Ready scale z focus prevScaleOverride →
    ∃ s', s.applyZoom z focus prevScaleOverride = some s' ∧
      (s.Keeps s' focus ∨ s.KeepsExactly s' focus) := by
  intro h
  have hready : (fitting ⟨400, 800⟩ ⟨1600, 1200⟩).Ready (1 / 4) 4 ⟨200, 350⟩ none :=
    fitting_ready (by decide +kernel) (by decide +kernel) (by decide +kernel)
      (by decide +kernel) (by decide +kernel) (by decide +kernel)
  obtain ⟨s', happly, hkeep⟩ := h _ _ _ _ _ hready
  have hbefore : (fitting ⟨400, 800⟩ ⟨1600, 1200⟩).pixel ⟨200, 350⟩ = some (800, 400) ∧
      (fitting ⟨400, 800⟩ ⟨1600, 1200⟩).point ⟨200, 350⟩ = some ⟨800, 400⟩ := by
    decide +kernel
  have hafter : ((fitting ⟨400, 800⟩ ⟨1600, 1200⟩).applyZoom 4 ⟨200, 350⟩ none).bind
      (fun s => s.pixel ⟨200, 350⟩) = some (800, 650) ∧
      ((fitting ⟨400, 800⟩ ⟨1600, 1200⟩).applyZoom 4 ⟨200, 350⟩ none).bind
      (fun s => s.point ⟨200, 350⟩) = some ⟨800, 650⟩ := by
    decide +kernel
  rw [happly, Option.bind_some, Option.bind_some] at hafter
  rcases hkeep with ⟨a, a', ha, ha', -, hy⟩ | ⟨a, a', ha, ha', -, hy⟩
  · obtain rfl : (800, 400) = a := by simpa [hbefore.1] using ha
    obtain rfl : (800, 650) = a' := by simpa [hafter.1] using ha'
    exact absurd hy (by decide)
  · obtain rfl : (⟨800, 400⟩ : Point) = a := by simpa [hbefore.2] using ha
    obtain rfl : (⟨800, 650⟩ : Point) = a' := by simpa [hafter.2] using ha'
    exact absurd hy (by decide +kernel)

end FocalPage

end Urc
