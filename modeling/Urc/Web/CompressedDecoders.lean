import Urc.Web.Decoders

/-! # The decoders of compressed rectangles

Tight, TightPNG, ZRLE and JPEG. What is compressed is taken from the socket as a whole before it is
expanded; the state keeps which of its parts have arrived.
-/

namespace Urc

open Consumer Websock

variable {Z Q : Type} [ReadQueue Q UInt8] (zlib : Inflate Z)

/-! ### Tight -/

namespace TightDecoder

/-- A change of the decoder of Tight rectangles, or of that of TightPNG ones. -/
def update (png : Bool) (f : TightDecoder Z → TightDecoder Z) (s : RfbSession Z Q) :
    RfbSession Z Q :=
  { s with tight := fun b => if b = png then f (s.tight png) else s.tight b }

def control : SafeReader UInt8 ℕ where
  program := do
    rQwait 1 0
    rQshift8
  tidy := by simp [rQshift8]
  guarded := by simp [rQshift8]

def setControl (png : Bool) (ctl : ℕ) : Consumer (RfbSession Z Q) :=
  perform (update png fun t => { t with
    ctl := some (ctl >>> 4)
    zlibs := fun i => if ctl.testBit i then zlib.reset (t.zlibs i) else t.zlibs i })

def readLength : QueueReader UInt8 ℕ := do
  rQwait 3 0
  let byte ← rQshift8
  if byte &&& 0x80 = 0 then return byte &&& 0x7f
  else
    let byte' ← rQshift8
    let len := (byte &&& 0x7f) ||| ((byte' &&& 0x7f) <<< 7)
    if byte' &&& 0x80 = 0 then return len
    else
      let byte'' ← rQshift8
      return len ||| (byte'' <<< 14)

theorem readLength_safe : readLength.Tidy 0 ∧ readLength.Guarded 0 := by
  constructor
  · simp only [readLength, rQwait_bind, rQshift8_bind, QueueReader.Tidy, true_and]
    intro v
    split_ifs
    · simp
    · simp only [QueueReader.Tidy]
      intro v
      split_ifs <;> simp
  · simp only [readLength, rQwait_bind, rQshift8_bind, QueueReader.Guarded]
    refine ⟨by omega, fun v => ?_⟩
    split_ifs
    · simp only [QueueReader.pure_eq, QueueReader.Guarded]
      omega
    · simp only [QueueReader.Guarded]
      refine ⟨by omega, fun v => ?_⟩
      split_ifs <;> simp only [QueueReader.pure_eq, QueueReader.Guarded, forall_const] <;> omega

def dataLength : SafeReader UInt8 ℕ := ⟨readLength, readLength_safe.1, readLength_safe.2⟩

/-- `_readData`, and what is done with the data. -/
def readData (png : Bool) (k : List UInt8 → Consumer (RfbSession Z Q)) :
    Consumer (RfbSession Z Q) :=
  phase (fun s => (s.tight png).len = 0)
    (readThen RfbSession.socket (fun _ => dataLength) fun len =>
      perform (update png fun t => { t with len := len }))
    (readThen RfbSession.socket (fun s => take (s.tight png).len) fun data s =>
      k data (update png (fun t => { t with len := 0 }) s))

def expand (png : Bool) (streamId : Fin 4) (size : ℕ) (k : List UInt8 → Consumer (RfbSession Z Q))
    (data : List UInt8) : Consumer (RfbSession Z Q) := fun s =>
  match zlib.inflate (zlib.setInput ((s.tight png).zlibs streamId) (some data)) size with
  | none => RfbSession.throw s
  | some (z, out) =>
    k out (update png (fun t => { t with
      zlibs := fun i => if i = streamId then zlib.setInput z none else t.zlibs i }) s)

/-- The pixel data of a filter: few bytes come as they are, more are compressed. -/
def pixelData (png : Bool) (streamId : Fin 4) (uncompressedSize : ℕ)
    (k : List UInt8 → Consumer (RfbSession Z Q)) : Consumer (RfbSession Z Q) :=
  if uncompressedSize < 12 then
    readThen RfbSession.socket (fun _ => take uncompressedSize) k
  else readData png (expand zlib png streamId uncompressedSize k)

def fillRect (r : Rect) : Consumer (RfbSession Z Q) :=
  readThen RfbSession.socket (fun _ => take 3) fun pixel =>
    perform fun s => s.draw (.fillRect r pixel)

def jpegRect (png : Bool) (r : Rect) : Consumer (RfbSession Z Q) :=
  readData png fun data => perform fun s => s.imageRect r "image/jpeg" data

/-- `_pngRect`, which only a TightPNG rectangle may have. -/
def pngRect (png : Bool) (r : Rect) : Consumer (RfbSession Z Q) :=
  if png then readData png fun data => perform fun s => s.imageRect r "image/png" data
  else RfbSession.throw

def rgbx (data : List UInt8) (i : ℕ) : List UInt8 :=
  [byteAt data (3 * i), byteAt data (3 * i + 1), byteAt data (3 * i + 2), 255]

def copyPixels (r : Rect) (data : List UInt8) : List UInt8 :=
  (List.range (r.width * r.height)).flatMap (rgbx data)

def copyFilter (png : Bool) (streamId : Fin 4) (r : Rect) : Consumer (RfbSession Z Q) :=
  if r.width * r.height * 3 = 0 then perform id
  else
    pixelData zlib png streamId (r.width * r.height * 3) fun data =>
      perform fun s => s.draw (.blitImage r (copyPixels r data))

/-- The number of colours, which is sent less by one, and the colours. -/
def readPalette : QueueReader UInt8 (ℕ × List UInt8) := do
  rQwait 1 0
  let numColors ← rQpeek8
  rQwait (1 + (numColors + 1) * 3) 0
  rQskipBytes 1
  let colors ← rQshiftBytes ((numColors + 1) * 3)
  return (numColors, colors)

theorem readPalette_safe : readPalette.Tidy 0 ∧ readPalette.Guarded 0 := by
  constructor
  · simp [readPalette]
  · simp only [readPalette, rQwait_bind, rQpeek8_bind, rQskipBytes_bind, rQshiftBytes_bind,
      QueueReader.pure_eq, QueueReader.Guarded, forall_const]
    refine ⟨by omega, fun v => ?_⟩
    push_cast
    omega

def paletteColors : SafeReader UInt8 (ℕ × List UInt8) :=
  ⟨readPalette, readPalette_safe.1, readPalette_safe.2⟩

/-- A row of `_monoRect` begins with a new byte. -/
def monoRect (r : Rect) (data colors : List UInt8) : List UInt8 :=
  (List.range r.height).flatMap fun y =>
    (List.range r.width).flatMap fun x =>
      rgbx colors (((byteAt data (y * ((r.width + 7) / 8) + x / 8)).toNat >>> (7 - x % 8)) &&& 1)

/-- A single colour comes with less data than there are pixels: no colour has the index that is
missing, and its channels are stored as zeros. -/
def paletteRect (r : Rect) (data colors : List UInt8) : List UInt8 :=
  (List.range (r.width * r.height)).flatMap fun j =>
    if j < data.length then rgbx colors (byteAt data j).toNat else [0, 0, 0, 255]

/-- The size of the data of a palette rectangle: colours of a small palette are single bits. -/
def paletteSize (r : Rect) (numColors : ℕ) : ℕ :=
  let bpp := if numColors ≤ 2 then 1 else 8
  (r.width * bpp + 7) / 8 * r.height

/-- `_paletteFilter`, behind its palette. An empty rectangle keeps the palette. -/
def paletteData (png : Bool) (streamId : Fin 4) (r : Rect) (numColors : ℕ) :
    Consumer (RfbSession Z Q) :=
  if paletteSize r numColors = 0 then perform id
  else
    pixelData zlib png streamId (paletteSize r numColors) fun data =>
      perform fun s =>
        let colors := (s.tight png).palette
        update png (fun t => { t with numColors := 0 })
          (s.draw (.blitImage r
            (if numColors = 2 then monoRect r data colors else paletteRect r data colors)))

def paletteFilter (png : Bool) (streamId : Fin 4) (r : Rect) : Consumer (RfbSession Z Q) :=
  phase (fun s => (s.tight png).numColors = 0)
    (readThen RfbSession.socket (fun _ => paletteColors) fun (numColors, colors) =>
      perform (update png fun t => { t with
        numColors := numColors + 1
        palette := colors ++ t.palette.drop colors.length }))
    (choose (fun s => (s.tight png).numColors) (paletteData zlib png streamId r))

/-- A channel of a pixel, predicted from those to the left, above and above to the left. -/
def predicted (left upper upperleft value : UInt8) : UInt8 :=
  value + UInt8.ofNat (min (left.toNat + upper.toNat - upperleft.toNat) 255)

def gradientRow : List (List UInt8) → List UInt8 → List UInt8 → List UInt8 → List (List UInt8)
  | [], _, _, _ => []
  | upper :: above, left, upperleft, data =>
    let value := (List.range 3).map fun c =>
      predicted (byteAt left c) (byteAt upper c) (byteAt upperleft c) (byteAt data c)
    value :: gradientRow above value upper (data.drop 3)

/-- The first row is below one of zeros, where the prediction is the pixel to the left. -/
def gradientRows (width : ℕ) : ℕ → List (List UInt8) → List UInt8 → List (List UInt8)
  | 0, _, _ => []
  | height + 1, above, data =>
    let row := gradientRow above [0, 0, 0] [0, 0, 0] data
    row ++ gradientRows width height row (data.drop (3 * width))

def gradientPixels (r : Rect) (data : List UInt8) : List UInt8 :=
  (gradientRows r.width r.height (List.replicate r.width [0, 0, 0]) data).flatMap (· ++ [255])

def gradientFilter (png : Bool) (streamId : Fin 4) (r : Rect) : Consumer (RfbSession Z Q) :=
  if r.width * r.height * 3 = 0 then perform id
  else
    pixelData zlib png streamId (r.width * r.height * 3) fun data =>
      perform fun s => s.draw (.blitImage r (gradientPixels r data))

def filterRect (png : Bool) (streamId : Fin 4) (r : Rect) : Option ℕ → Consumer (RfbSession Z Q)
  | some 0 => copyFilter zlib png streamId r
  | some 1 => paletteFilter zlib png streamId r
  | some 2 => gradientFilter zlib png streamId r
  | _ => RfbSession.throw

/-- `_basicRect`, which a TightPNG rectangle may not have. -/
def basicRect (png : Bool) (ctl : ℕ) (r : Rect) : Consumer (RfbSession Z Q) :=
  if png then RfbSession.throw
  else
    (phase (fun s => (s.tight png).filter = none)
      (if ctl &&& 0x4 ≠ 0 then
        readThen RfbSession.socket (fun _ => control) fun filter =>
          perform (update png fun t => { t with filter := some filter })
      else perform (update png fun t => { t with filter := some 0 }))
      (choose (fun s => (s.tight png).filter)
        (filterRect zlib png (Fin.ofNat 4 (ctl &&& 0x3)) r))).andThen
      (perform (update png fun t => { t with filter := none }))

def controlRect (png : Bool) (r : Rect) : Option ℕ → Consumer (RfbSession Z Q)
  | some 0x08 => fillRect r
  | some 0x09 => jpegRect png r
  | some 0x0A => pngRect png r
  | some ctl => if ctl &&& 0x08 = 0 then basicRect zlib png ctl r else RfbSession.throw
  | none => RfbSession.throw

def decodeRect (png : Bool) (r : Rect) : Consumer (RfbSession Z Q) :=
  (phase (fun s => (s.tight png).ctl = none)
    (readThen RfbSession.socket (fun _ => control) (setControl zlib png))
    (choose (fun s => (s.tight png).ctl) (controlRect zlib png r))).andThen
    (perform (update png fun t => { t with ctl := none }))

end TightDecoder

/-! ### ZRLE -/

namespace ZrleDecoder

def dataLength : SafeReader UInt8 ℕ where
  program := do
    rQwait 4 0
    rQshift32
  tidy := by simp [rQshift32]
  guarded := by simp [rQshift32]

def inflateByte (z : Z) : Option (Z × ℕ) :=
  (zlib.inflate z 1).map fun (z, out) => (z, (byteAt out 0).toNat)

/-- `_readPixels`: the pixels are left in the pixel buffer, before what was in it. -/
def readPixels (d : ZrleDecoder Z) (pixels : ℕ) : Option (ZrleDecoder Z) :=
  (zlib.inflate d.inflator (3 * pixels)).map fun (z, buffer) =>
    { d with
      inflator := z
      pixelBuffer := (List.range pixels).flatMap (TightDecoder.rgbx buffer) ++
        d.pixelBuffer.drop (4 * pixels) }

def pixelAt (buffer : List UInt8) (i : ℕ) : List UInt8 :=
  (List.range 4).map fun c => byteAt buffer (4 * i + c)

/-- `_readRLELength`. -/
def readRLELength (z : Z) : Option (Z × ℕ) :=
  match h : zlib.inflate z 1 with
  | none => none
  | some (z', out) =>
    if byteAt out 0 = 255 then (readRLELength z').map fun (z, length) => (z, length + 255)
    else some (z', (byteAt out 0).toNat + 1)
termination_by zlib.left z
decreasing_by exact zlib.left_lt one_ne_zero h

def bitsPerPixelInPalette (paletteSize : ℕ) : ℕ :=
  if paletteSize ≤ 2 then 1 else if paletteSize ≤ 4 then 2 else 4

/-- The indices of a row of a palette tile from here on: `unread` bits of the byte are left. -/
def rowIndices (bitsPerPixel : ℕ) : (tilew unread encoded : ℕ) → Z → Option (Z × List ℕ)
  | 0, _, _, z => some (z, [])
  | tilew + 1, unread, encoded, z => do
    let (z, encoded, unread) ←
      if unread = 0 then (inflateByte zlib z).map fun (z, encoded) => (z, encoded, 8)
      else some (z, encoded, unread)
    let (z, indices) ← rowIndices bitsPerPixel tilew (unread - bitsPerPixel) encoded z
    return (z, ((encoded >>> (unread - bitsPerPixel)) &&& (2 ^ bitsPerPixel - 1)) :: indices)

/-- Each row begins with a new byte. -/
def tileIndices (bitsPerPixel tilew : ℕ) : (tileh : ℕ) → Z → Option (Z × List ℕ)
  | 0, z => some (z, [])
  | tileh + 1, z => do
    let (z, encoded) ← inflateByte zlib z
    let (z, row) ← rowIndices zlib bitsPerPixel tilew 8 encoded z
    let (z, rows) ← tileIndices bitsPerPixel tilew tileh z
    return (z, row ++ rows)

/-- `_decodeRLETile`, from a pixel on; what a run has beyond the tile is not shown. -/
def rleTile (d : ZrleDecoder Z) : (tileSize : ℕ) → Option (ZrleDecoder Z × List UInt8)
  | 0 => some (d, [])
  | tileSize + 1 => do
    let d ← readPixels zlib d 1
    let (z, length) ← readRLELength zlib d.inflator
    let run := List.replicate (min length (tileSize + 1)) (pixelAt d.pixelBuffer 0)
    let (d, data) ← rleTile { d with inflator := z } (tileSize - (length - 1))
    return (d, run.flatten ++ data)
termination_by tileSize => tileSize

/-- The indices of `_decodeRLEPaletteTile`, from a pixel on. -/
def rleIndices (paletteSize : ℕ) : (tileSize : ℕ) → Z → Option (Z × List ℕ)
  | 0, z => some (z, [])
  | tileSize + 1, z => do
    let (z, code) ← inflateByte zlib z
    let (z, length) ← if 128 ≤ code then readRLELength zlib z else some (z, 1)
    let indexInPalette := code % 128
    if paletteSize < indexInPalette ∨ tileSize + 1 < length then none
    else
      let (z, indices) ← rleIndices paletteSize (tileSize - (length - 1)) z
      return (z, List.replicate length indexInPalette ++ indices)
termination_by tileSize => tileSize
decreasing_by exact Nat.lt_succ_of_le (Nat.sub_le ..)

/-- A tile whose pixels are indices of a palette. An index behind the palette finds what an earlier
tile has left in the pixel buffer. -/
def paletteTile (d : ZrleDecoder Z) (paletteSize : ℕ) (t : Rect)
    (indices : Z → Option (Z × List ℕ)) : Option (ZrleDecoder Z × DrawCall) := do
  let d ← readPixels zlib d paletteSize
  let (z, indices) ← indices d.inflator
  return ({ d with inflator := z }, .blitImage t (indices.flatMap (pixelAt d.pixelBuffer)))

/-- One round of the loop over the tiles of a rectangle; nothing where it throws. -/
def decodeTile (d : ZrleDecoder Z) (t : Rect) : Option (ZrleDecoder Z × DrawCall) := do
  let (z, subencoding) ← inflateByte zlib d.inflator
  let d := { d with inflator := z }
  let tileSize := t.width * t.height
  if subencoding = 0 then
    let d ← readPixels zlib d tileSize
    return (d, .blitImage t (d.pixelBuffer.take (4 * tileSize)))
  else if subencoding = 1 then
    let d ← readPixels zlib d 1
    return (d, .fillRect t (d.pixelBuffer.take 3))
  else if subencoding ≤ 16 then
    paletteTile zlib d subencoding t
      (tileIndices zlib (bitsPerPixelInPalette subencoding) t.width t.height)
  else if subencoding = 128 then
    let (d, data) ← rleTile zlib d tileSize
    return (d, .blitImage t data)
  else if 130 ≤ subencoding then
    paletteTile zlib d (subencoding - 128) t (rleIndices zlib (subencoding - 128) tileSize)
  else none

/-- The tiles of a rectangle, of 64 by 64 pixels up to its borders. -/
def tilesOf (r : Rect) : List Rect :=
  (List.range ((r.height + 63) / 64)).flatMap fun j =>
    (List.range ((r.width + 63) / 64)).map fun i =>
      ⟨r.x + 64 * i, r.y + 64 * j, min 64 (r.width - 64 * i), min 64 (r.height - 64 * j)⟩

/-- The loop over the tiles, and whether it came to its end: the tiles before an exception are
drawn. -/
def decodeTiles (d : ZrleDecoder Z) : List Rect → ZrleDecoder Z × List DrawCall × Bool
  | [] => (d, [], true)
  | t :: ts =>
    match decodeTile zlib d t with
    | none => (d, [], false)
    | some (d, call) =>
      let (d, calls, ended) := decodeTiles d ts
      (d, call :: calls, ended)

def drawTiles : ZrleDecoder Z × List DrawCall × Bool → Consumer (RfbSession Z Q)
  | (d, calls, true) =>
    perform fun s => { s with zrle := { d with length := 0 }, drawn := s.drawn ++ calls }
  | (d, calls, false) => fun s =>
    RfbSession.throw { s with zrle := d, drawn := s.drawn ++ calls }

def tiles (r : Rect) (data : List UInt8) : Consumer (RfbSession Z Q) :=
  choose (fun s => decodeTiles zlib
    { s.zrle with inflator := zlib.setInput s.zrle.inflator (some data) } (tilesOf r)) drawTiles

def decodeRect (r : Rect) : Consumer (RfbSession Z Q) :=
  phase (fun s => s.zrle.length = 0)
    (readThen RfbSession.socket (fun _ => dataLength) fun length =>
      perform fun s => { s with zrle := { s.zrle with length := length } })
    (readThen RfbSession.socket (fun s => take s.zrle.length) (tiles zlib r))

end ZrleDecoder

/-! ### JPEG -/

namespace JpegDecoder

/-- The marker behind the data of a scan is no stuffed byte and no restart marker. -/
def scanEnds (data : List UInt8) : Bool :=
  let last := (byteAt data (data.length - 1)).toNat
  byteAt data (data.length - 2) = 0xFF && last ≠ 0 && !(0xD0 ≤ last && last ≤ 0xD7)

def segmentData (type length : ℕ) : QueueReader UInt8 (Option (List UInt8)) :=
  let front := [0xFF, UInt8.ofNat type, UInt8.ofNat (length >>> 8), UInt8.ofNat length]
  if type = 0xDA then do
    rQwait (length - 2) 4
    let scanned ← rQsearch length 4 scanEnds
    let data ← rQshiftBytes (scanned - 2)
    return some (front ++ data)
  else do
    rQwait (length - 2) 4
    let data ← rQshiftBytes (length - 2)
    return some (front ++ data)

/-- `_readSegment`; nothing where it throws. -/
def readSegment : QueueReader UInt8 (Option (List UInt8)) := do
  rQwait 2 0
  let marker ← rQshift8
  if marker ≠ 0xFF then return none
  else
    let type ← rQshift8
    if (0xD0 ≤ type ∧ type ≤ 0xD9) ∨ type = 0x01 then
      return some [0xFF, UInt8.ofNat type]
    else
      rQwait 2 2
      let length ← rQshift16
      if length < 2 then return none
      else segmentData type length

theorem readSegment_safe : readSegment.Tidy 0 ∧ readSegment.Guarded 0 := by
  constructor
  · have hdata : ∀ type length, (segmentData type length).Tidy 4 := by
      intro type length
      unfold segmentData
      split_ifs <;> simp
    simp only [readSegment, rQwait_bind, rQshift8_bind, QueueReader.Tidy, true_and]
    intro v
    split_ifs
    · simp
    · simp only [QueueReader.Tidy]
      intro v
      split_ifs
      · simp
      · simp only [rQshift16_bind, QueueReader.Tidy]
        refine ⟨trivial, fun v => ?_⟩
        split_ifs
        · simp
        · exact hdata _ _
  · have hdata : ∀ (type length : ℕ) (n : ℤ), 2 ≤ length →
        (segmentData type length).Guarded n := by
      intro type length n hlen
      unfold segmentData
      split_ifs
      · simp only [rQwait_bind, rQsearch_bind, rQshiftBytes_bind, QueueReader.pure_eq,
          QueueReader.Guarded, forall_const]
        omega
      · simp only [rQwait_bind, rQshiftBytes_bind, QueueReader.pure_eq, QueueReader.Guarded,
          forall_const]
        omega
    simp only [readSegment, rQwait_bind, rQshift8_bind, QueueReader.Guarded]
    refine ⟨by omega, fun v => ?_⟩
    split_ifs
    · simp only [QueueReader.pure_eq, QueueReader.Guarded]
      omega
    · simp only [QueueReader.Guarded]
      refine ⟨by omega, fun v => ?_⟩
      split_ifs
      · simp only [QueueReader.pure_eq, QueueReader.Guarded]
        omega
      · simp only [rQshift16_bind, QueueReader.Guarded]
        refine ⟨by omega, fun v => ?_⟩
        split_ifs with hlen
        · simp only [QueueReader.pure_eq, QueueReader.Guarded]
          omega
        · exact hdata _ _ _ (not_lt.mp hlen)

def segment : SafeReader UInt8 (Option (List UInt8)) :=
  ⟨readSegment, readSegment_safe.1, readSegment_safe.2⟩

def typeOf (segment : List UInt8) : UInt8 := byteAt segment 1

def unended (d : JpegDecoder) : Bool :=
  match d.segments.getLast? with
  | none => true
  | some segment => typeOf segment ≠ 0xD9

/-- The image of the segments, with the tables of an earlier one where it has none of its own, and
the decoder for the image to come; nothing where it throws. -/
def assemble (d : JpegDecoder) : Option (List UInt8 × JpegDecoder) :=
  let huffmanTables := d.segments.filter fun segment => typeOf segment = 0xC4
  let quantTables := d.segments.filter fun segment => typeOf segment = 0xDB
  (d.segments.findIdx? fun segment => typeOf segment = 0xC0 || typeOf segment = 0xC2).map
    fun sofIndex =>
      let splice := fun segments tables =>
        segments.take (sofIndex + 1) ++ tables ++ segments.drop (sofIndex + 1)
      let segments := if quantTables = [] then splice d.segments d.cachedQuantTables else d.segments
      let segments := if huffmanTables = [] then splice segments d.cachedHuffmanTables else segments
      (segments.flatten, ⟨[], if quantTables = [] then d.cachedQuantTables else quantTables,
        if huffmanTables = [] then d.cachedHuffmanTables else huffmanTables⟩)

def finish (r : Rect) : Consumer (RfbSession Z Q) := fun s =>
  match s.jpeg.assemble with
  | none => RfbSession.throw s
  | some (image, d) => ({ s with jpeg := d }.imageRect r "image/jpeg" image, .done)

def addSegment : Option (List UInt8) → Consumer (RfbSession Z Q)
  | none => RfbSession.throw
  | some segment =>
    perform fun s => { s with jpeg := { s.jpeg with segments := s.jpeg.segments ++ [segment] } }

def decodeRect (r : Rect) : Consumer (RfbSession Z Q) :=
  (loopWhile (fun s => s.jpeg.unended) (fun s => ReadQueue.length s.sock + 1)
    (readThen RfbSession.socket (fun _ => segment) addSegment)).andThen (finish r)

end JpegDecoder

end Urc
