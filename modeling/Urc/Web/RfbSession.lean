import Mathlib.Algebra.Order.Ring.Int
import Urc.Library.Resumable

/-! # The state of an RFB session

What the `RFB` object of the vendored noVNC and its decoders keep between two messages of the
socket, once the handshake is through. The calls on the display, the messages to the server and
the events for the page are logs.
-/

namespace Urc

/-- The number that `_rQshift` makes of bytes. -/
def bigEndian (bytes : List UInt8) : ℕ := bytes.foldl (fun n b => n * 256 + b.toNat) 0

namespace Websock

/-! ### The methods of the receive queue, as scripts -/

def rQwait (num goback : ℕ) : QueueReader UInt8 Unit := .wait num goback (.done ())

def rQshiftBytes (len : ℕ) : QueueReader UInt8 (List UInt8) := .shift len .done

def rQshift8 : QueueReader UInt8 ℕ := .shift 1 fun v => .done (bigEndian v)

def rQshift16 : QueueReader UInt8 ℕ := .shift 2 fun v => .done (bigEndian v)

def rQshift32 : QueueReader UInt8 ℕ := .shift 4 fun v => .done (bigEndian v)

def rQskipBytes (bytes : ℕ) : QueueReader UInt8 Unit := .skip bytes (.done ())

def rQpeekBytes (len : ℕ) : QueueReader UInt8 (List UInt8) := .peek len .done

def rQpeek8 : QueueReader UInt8 ℕ := .peek 1 fun v => .done (bigEndian v)

/-- Waits for more and more bytes until those from here on are found. -/
def rQsearch (start goback : ℕ) (found : List UInt8 → Bool) : QueueReader UInt8 ℕ :=
  .search start goback found .done

variable {α : Type}

@[simp] theorem rQwait_bind (num goback : ℕ) (f : Unit → QueueReader UInt8 α) :
    (rQwait num goback >>= f) = .wait num goback (f ()) := rfl

@[simp] theorem rQshiftBytes_bind (len : ℕ) (f : List UInt8 → QueueReader UInt8 α) :
    (rQshiftBytes len >>= f) = .shift len f := rfl

@[simp] theorem rQshift8_bind (f : ℕ → QueueReader UInt8 α) :
    (rQshift8 >>= f) = .shift 1 fun v => f (bigEndian v) := rfl

@[simp] theorem rQshift16_bind (f : ℕ → QueueReader UInt8 α) :
    (rQshift16 >>= f) = .shift 2 fun v => f (bigEndian v) := rfl

@[simp] theorem rQshift32_bind (f : ℕ → QueueReader UInt8 α) :
    (rQshift32 >>= f) = .shift 4 fun v => f (bigEndian v) := rfl

@[simp] theorem rQskipBytes_bind (bytes : ℕ) (f : Unit → QueueReader UInt8 α) :
    (rQskipBytes bytes >>= f) = .skip bytes (f ()) := rfl

@[simp] theorem rQpeekBytes_bind (len : ℕ) (f : List UInt8 → QueueReader UInt8 α) :
    (rQpeekBytes len >>= f) = .peek len f := rfl

@[simp] theorem rQpeek8_bind (f : ℕ → QueueReader UInt8 α) :
    (rQpeek8 >>= f) = .peek 1 fun v => f (bigEndian v) := rfl

@[simp] theorem rQsearch_bind (start goback : ℕ) (found : List UInt8 → Bool)
    (f : ℕ → QueueReader UInt8 α) :
    (rQsearch start goback found >>= f) = .search start goback found f := rfl

def take (len : ℕ) : SafeReader UInt8 (List UInt8) where
  program := do
    rQwait len 0
    rQshiftBytes len
  tidy := by simp [rQshiftBytes]
  guarded := by simp [rQshiftBytes]

end Websock

structure Rect where
  x : ℕ
  y : ℕ
  width : ℕ
  height : ℕ
  deriving DecidableEq

inductive DrawCall
  | fillRect (r : Rect) (color : List UInt8)
  | copyImage (oldX oldY : ℕ) (r : Rect)
  | blitImage (r : Rect) (data : List UInt8)
  | imageRect (r : Rect) (mime : String) (data : List UInt8)
  | resize (width height : ℕ)
  | flip
  deriving DecidableEq

/-- The messages to the server that messages of the server give rise to. -/
inductive ClientReply
  | fbUpdateRequest (incremental : Bool) (x y w h : ℕ)
  | enableContinuousUpdates (enable : Bool) (x y w h : ℕ)
  | clientFence (flags : ℕ) (payload : List UInt8)
  | extendedClipboardCaps
  | extendedClipboardProvide (text : String)
  | extendedClipboardNotify (hasText : Bool)
  | extendedClipboardRequest
  deriving DecidableEq

inductive RfbNotice
  | bell
  | clipboard (text : String)
  | desktopname (name : String)
  | capabilities (power : Bool)
  deriving DecidableEq

structure CursorImage where
  rgba : List UInt8
  hotx : ℕ
  hoty : ℕ
  w : ℕ
  h : ℕ
  deriving DecidableEq

/-- The class `Inflate`, on the streams of the vendored zlib. `inflate` gives nothing where it
throws; `left` is how much a stream can still give of its input, which every call takes from. -/
structure Inflate (Z : Type) where
  new : Z
  setInput : Z → Option (List UInt8) → Z
  inflate : Z → ℕ → Option (Z × List UInt8)
  reset : Z → Z
  left : Z → ℕ
  left_lt : ∀ {z z' expected out}, expected ≠ 0 → inflate z expected = some (z', out) →
    left z' < left z

structure HextileDecoder where
  tiles : ℕ
  tilesX : ℕ
  totalTiles : ℕ
  lastsubencoding : ℕ
  background : Option (List UInt8)
  foreground : Option (List UInt8)
  deriving DecidableEq

structure TightDecoder (Z : Type) where
  ctl : Option ℕ
  filter : Option ℕ
  numColors : ℕ
  palette : List UInt8
  len : ℕ
  zlibs : Fin 4 → Z

structure ZrleDecoder (Z : Type) where
  length : ℕ
  inflator : Z
  pixelBuffer : List UInt8

structure JpegDecoder where
  segments : List (List UInt8)
  cachedQuantTables : List (List UInt8)
  cachedHuffmanTables : List (List UInt8)
  deriving DecidableEq

/-- `imagesWait` says which images take time to load, by the calls on the display before them, and
`pending` whether one is loading.
`stray` marks a session that is not followed any further: what the source does from there on depends
on how the messages of the socket are cut, or on bytes of the receive queue that it has not waited
for. -/
structure RfbSession (Z Q : Type) where
  sock : Q
  rects : ℕ
  rect : Rect
  encoding : Option ℤ
  rawLines : ℕ
  rreSubrects : ℕ
  hextile : HextileDecoder
  /-- The decoder of Tight rectangles, and that of TightPNG ones. -/
  tight : Bool → TightDecoder Z
  zrle : ZrleDecoder Z
  jpeg : JpegDecoder
  fbWidth : ℕ
  fbHeight : ℕ
  fbName : String
  fbDepth : ℕ
  supportsFence : Bool
  supportsContinuousUpdates : Bool
  enabledContinuousUpdates : Bool
  supportsSetDesktopSize : Bool
  screenID : ℕ
  screenFlags : ℕ
  qemuExtKeyEventSupported : Bool
  remoteCapsLock : Option Bool
  remoteNumLock : Option Bool
  rfbXvpVer : ℕ
  clipboardText : Option String
  clipboardServerFormats : ℕ
  clipboardServerActions : ℕ
  cursorImage : Option CursorImage
  imagesWait : List DrawCall → Bool
  pending : Bool
  flushing : Bool
  connected : Bool
  stray : Bool
  drawn : List DrawCall
  sent : List ClientReply
  notices : List RfbNotice

namespace RfbSession

variable {Z Q : Type}

def socket : Port (RfbSession Z Q) Q where
  get s := s.sock
  set s q := { s with sock := q }
  get_set _ _ := rfl
  set_get _ := rfl
  set_set _ _ _ := rfl

def draw (s : RfbSession Z Q) (c : DrawCall) : RfbSession Z Q :=
  { s with drawn := s.drawn ++ [c] }

def send (s : RfbSession Z Q) (m : ClientReply) : RfbSession Z Q := { s with sent := s.sent ++ [m] }

def dispatch (s : RfbSession Z Q) (e : RfbNotice) : RfbSession Z Q :=
  { s with notices := s.notices ++ [e] }

/-- `_fail`, on an open connection. -/
def fail (s : RfbSession Z Q) : RfbSession Z Q := { s with connected := false }

/-- An exception of a decoder, which `_handleDataRect` turns into a failure. -/
def throw : Consumer (RfbSession Z Q) := fun s => (s.fail, .lost false)

/-- `imageRect` of the display, which queues an image that is not complete. -/
def imageRect (s : RfbSession Z Q) (r : Rect) (mime : String) (data : List UInt8) :
    RfbSession Z Q :=
  if r.width = 0 ∨ r.height = 0 then s
  else { s.draw (.imageRect r mime data) with pending := s.pending || s.imagesWait s.drawn }

end RfbSession

end Urc
