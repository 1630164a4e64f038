import Urc.Web.RfbSession

/-! # The rectangle decoders of noVNC

Each `decodeRect` takes what has arrived of a rectangle, draws what it can and keeps the rest for
its next call: it resumes where it stopped.
-/

namespace Urc

open Consumer Websock

variable {Z Q : Type} [ReadQueue Q UInt8]

/-- A byte of an array, where an index behind its end stores a zero. -/
def byteAt (data : List UInt8) (i : ℕ) : UInt8 := data.getD i 0

/-! ### Raw -/

namespace RawDecoder

def channel (b shift : UInt8) : UInt8 := ((b >>> shift) &&& 3) * 85

def setAlpha : List UInt8 → List UInt8
  | r :: g :: b :: _ :: rest => r :: g :: b :: 255 :: setAlpha rest
  | rest => rest

def pixels (depth : ℕ) (data : List UInt8) : List UInt8 :=
  if depth = 8 then data.flatMap fun b => [channel b 0, channel b 2, channel b 4, 255]
  else setAlpha data

def line (r : Rect) : Consumer (RfbSession Z Q) :=
  readThen RfbSession.socket (fun s => take (r.width * if s.fbDepth = 8 then 1 else 4)) fun data =>
    perform fun s =>
      { s with rawLines := s.rawLines - 1 }.draw
        (.blitImage ⟨r.x, r.y + (r.height - s.rawLines), r.width, 1⟩ (pixels s.fbDepth data))

def decodeRect (r : Rect) : Consumer (RfbSession Z Q) :=
  if r.width = 0 ∨ r.height = 0 then perform id
  else
    phase (fun s => s.rawLines = 0) (perform fun s => { s with rawLines := r.height })
      (loopWhile (fun s => s.rawLines ≠ 0) (fun s => s.rawLines) (line r))

end RawDecoder

/-! ### CopyRect -/

namespace CopyRectDecoder

def source : SafeReader UInt8 (ℕ × ℕ) where
  program := do
    rQwait 4 0
    let deltaX ← rQshift16
    let deltaY ← rQshift16
    return (deltaX, deltaY)
  tidy := by simp
  guarded := by simp

def decodeRect (r : Rect) : Consumer (RfbSession Z Q) :=
  readThen RfbSession.socket (fun _ => source) fun (deltaX, deltaY) =>
    perform fun s =>
      if r.width = 0 ∨ r.height = 0 then s else s.draw (.copyImage deltaX deltaY r)

end CopyRectDecoder

/-! ### RRE -/

namespace RREDecoder

def header : SafeReader UInt8 (ℕ × List UInt8) where
  program := do
    rQwait (4 + 4) 0
    let subrects ← rQshift32
    let color ← rQshiftBytes 4
    return (subrects, color)
  tidy := by simp
  guarded := by simp

def subrect : SafeReader UInt8 (List UInt8 × Rect) where
  program := do
    rQwait (4 + 8) 0
    let color ← rQshiftBytes 4
    let sx ← rQshift16
    let sy ← rQshift16
    let swidth ← rQshift16
    let sheight ← rQshift16
    return (color, ⟨sx, sy, swidth, sheight⟩)
  tidy := by simp
  guarded := by simp

def decodeRect (r : Rect) : Consumer (RfbSession Z Q) :=
  phase (fun s => s.rreSubrects = 0)
    (readThen RfbSession.socket (fun _ => header) fun (subrects, color) =>
      perform fun s => { s with rreSubrects := subrects }.draw (.fillRect r color))
    (loopWhile (fun s => s.rreSubrects ≠ 0) (fun s => s.rreSubrects)
      (readThen RfbSession.socket (fun _ => subrect) fun (color, sub) =>
        perform fun s =>
          { s with rreSubrects := s.rreSubrects - 1 }.draw
            (.fillRect ⟨r.x + sub.x, r.y + sub.y, sub.width, sub.height⟩ color)))

end RREDecoder

/-! ### Hextile -/

namespace HextileDecoder

def tile (d : HextileDecoder) (r : Rect) : Rect :=
  let currTile := d.totalTiles - d.tiles
  let tx := r.x + currTile % d.tilesX * 16
  let ty := r.y + currTile / d.tilesX * 16
  ⟨tx, ty, min 16 (r.x + r.width - tx), min 16 (r.y + r.height - ty)⟩

/-- The subencoding of a tile, with the bytes behind it; nothing where it is illegal. -/
def readBody (t : Rect) : QueueReader UInt8 (Option (ℕ × List UInt8)) := do
  rQwait 1 0
  let subencoding ← rQpeek8
  if 30 < subencoding then
    return none
  else if subencoding &&& 0x01 ≠ 0 then
    rQwait (1 + t.width * t.height * 4) 0
    rQskipBytes 1
    let data ← rQshiftBytes (t.width * t.height * 4)
    return some (subencoding, data)
  else
    let colors := (if subencoding &&& 0x02 ≠ 0 then 4 else 0) +
      if subencoding &&& 0x04 ≠ 0 then 4 else 0
    if subencoding &&& 0x08 ≠ 0 then
      rQwait (1 + colors + 1) 0
      let front ← rQpeekBytes (1 + colors + 1)
      let subrects := (byteAt front (1 + colors)).toNat
      let size := if subencoding &&& 0x10 ≠ 0 then 4 + 2 else 2
      rQwait (1 + colors + 1 + subrects * size) 0
      rQskipBytes 1
      let data ← rQshiftBytes (colors + 1 + subrects * size)
      return some (subencoding, data)
    else
      rQwait (1 + colors) 0
      rQskipBytes 1
      let data ← rQshiftBytes colors
      return some (subencoding, data)

theorem readBody_safe (t : Rect) : (readBody t).Tidy 0 ∧ (readBody t).Guarded 0 := by
  constructor
  · simp only [readBody, rQwait_bind, rQpeek8_bind, QueueReader.Tidy, true_and]
    intro v
    split_ifs <;> simp
  · simp only [readBody, rQwait_bind, rQpeek8_bind, QueueReader.Guarded]
    refine ⟨by omega, fun v => ?_⟩
    split_ifs <;>
      simp only [rQskipBytes_bind, rQpeekBytes_bind, rQshiftBytes_bind, QueueReader.pure_eq,
        QueueReader.Guarded, forall_const] <;>
      push_cast <;> first | omega | exact ⟨by omega, fun _ => by omega⟩

def body (t : Rect) : SafeReader UInt8 (Option (ℕ × List UInt8)) :=
  ⟨readBody t, (readBody_safe t).1, (readBody_safe t).2⟩

def pixel (color : List UInt8) : List UInt8 := [byteAt color 0, byteAt color 1, byteAt color 2, 255]

/-- `_subTile`, on a tile buffer of pixels. -/
def subTile (width : ℕ) (buffer : List (List UInt8)) (x y w h : ℕ) (color : List UInt8) :
    List (List UInt8) :=
  (List.range h).foldl (fun buffer j =>
    (List.range w).foldl (fun buffer i => buffer.set (x + i + (y + j) * width) (pixel color))
      buffer) buffer

/-- The subrectangles of a tile. A colour that was never set throws. -/
def subrects (width : ℕ) (colored : Bool) (foreground : Option (List UInt8)) :
    ℕ → List UInt8 → List (List UInt8) → Option (List (List UInt8))
  | 0, _, buffer => some buffer
  | n + 1, data, buffer =>
    match if colored then some (data.take 4) else foreground with
    | none => none
    | some color =>
      let data := if colored then data.drop 4 else data
      let xy := (byteAt data 0).toNat
      let wh := (byteAt data 1).toNat
      subrects width colored foreground n (data.drop 2)
        (subTile width buffer (xy >>> 4) (xy &&& 0x0f) ((wh >>> 4) + 1) ((wh &&& 0x0f) + 1) color)

/-- What a whole tile does to the decoder and to the display. -/
def drawTile (d : HextileDecoder) (t : Rect) (subencoding : ℕ) (data : List UInt8) :
    Option (HextileDecoder × List DrawCall) :=
  if subencoding = 0 then
    if d.lastsubencoding &&& 0x01 ≠ 0 then some (d, [])
    else d.background.map fun color => (d, [.fillRect t color])
  else if subencoding &&& 0x01 ≠ 0 then some (d, [.blitImage t (RawDecoder.setAlpha data)])
  else
    let (background, data) :=
      if subencoding &&& 0x02 ≠ 0 then (some (data.take 4), data.drop 4) else (d.background, data)
    let (foreground, data) :=
      if subencoding &&& 0x04 ≠ 0 then (some (data.take 4), data.drop 4) else (d.foreground, data)
    match background with
    | none => none
    | some color =>
      let buffer := List.replicate (t.width * t.height) (pixel color)
      let drawn := if subencoding &&& 0x08 ≠ 0 then
        subrects t.width (subencoding &&& 0x10 ≠ 0) foreground (byteAt data 0).toNat
          (data.drop 1) buffer
        else some buffer
      drawn.map fun buffer =>
        ({ d with background := background, foreground := foreground },
          [.blitImage t buffer.flatten])

def finishTile (t : Rect) : Option (ℕ × List UInt8) → Consumer (RfbSession Z Q)
  | none => RfbSession.throw
  | some (subencoding, data) => fun s =>
    match s.hextile.drawTile t subencoding data with
    | none => RfbSession.throw s
    | some (d, calls) =>
      ({ s with
        hextile := { d with lastsubencoding := subencoding, tiles := d.tiles - 1 }
        drawn := s.drawn ++ calls }, .done)

def decodeRect (r : Rect) : Consumer (RfbSession Z Q) :=
  phase (fun s => s.hextile.tiles = 0)
    (perform fun s =>
      let tilesX := (r.width + 15) / 16
      let total := tilesX * ((r.height + 15) / 16)
      { s with hextile := { s.hextile with
        tilesX := tilesX, totalTiles := total, tiles := total } })
    (loopWhile (fun s => s.hextile.tiles ≠ 0) (fun s => s.hextile.tiles)
      (choose (fun s => s.hextile.tile r) fun t =>
        readThen RfbSession.socket (fun _ => body t) (finishTile t)))

end HextileDecoder

end Urc
