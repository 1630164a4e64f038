import Urc.Web.CompressedDecoders

/-! # The messages of a VNC server in noVNC

What the `RFB` object of the vendored noVNC does with the messages of a connected server. A message
is read as a whole before it is acted on, but for the rectangles of a framebuffer update, of which
each is decoded as far as it has arrived. The page neither sets `viewOnly` nor `resizeSession`.
-/

namespace Urc

open Consumer Websock

/-- `toSigned32bit`, of a number that `rQshift32` reads. -/
def signed32 (n : ℕ) : ℤ := if n < 2147483648 then n else n - 4294967296

/-- The string that `rQshiftStr` makes of bytes. -/
def latin1 (bytes : List UInt8) : String := .ofList (bytes.map fun b => Char.ofNat b.toNat)

/-- `decodeUTF8`; nothing where it throws. -/
def decodeUTF8 (bytes : List UInt8) : Option String := String.fromUTF8? ⟨bytes.toArray⟩

/-- The messages, with what is read of them. `stray` is an extended clipboard message that is
shorter than what the source reads of it, which are bytes that it has not waited for. -/
inductive ServerMessage
  | framebufferUpdate (rects : ℕ)
  | setColorMapEntries
  | bell
  | serverCutText (text : List UInt8)
  | extendedCutText (flags : ℕ) (zlibStream : List UInt8)
  | endOfContinuousUpdates
  | serverFence (flags : ℕ) (payload : List UInt8)
  | xvp (xvpVer xvpMsg : ℕ)
  | unexpected (msgType : ℕ)
  | stray
  deriving DecidableEq

namespace ServerMessage

def actionCaps : ℕ := 1 <<< 24
def actionRequest : ℕ := 1 <<< 25
def actionPeek : ℕ := 1 <<< 26
def actionNotify : ℕ := 1 <<< 27
def actionProvide : ℕ := 1 <<< 28
def formatText : ℕ := 1

def formatsOf (flags : ℕ) : ℕ := flags &&& 0x0000FFFF
def actionsOf (flags : ℕ) : ℕ := flags &&& 0xFF000000

/-- The formats of which the capabilities give a size. -/
def formatCount (flags : ℕ) : ℕ := ((List.range 16).filter (formatsOf flags).testBit).length

def readExtended (length : ℕ) : QueueReader UInt8 ServerMessage := do
  let flags ← rQshift32
  if actionsOf flags &&& actionCaps ≠ 0 then
    if length < 4 + 4 * formatCount flags then return .stray
    else
      rQskipBytes (4 * formatCount flags)
      return .extendedCutText flags []
  else if actionsOf flags = actionProvide ∧ formatsOf flags &&& formatText ≠ 0 then
    let zlibStream ← rQshiftBytes (length - 4)
    return .extendedCutText flags zlibStream
  else return .extendedCutText flags []

/-- `_handleServerCutText`, behind the type. -/
def readCutText : QueueReader UInt8 ServerMessage := do
  rQwait 7 1
  rQskipBytes 3
  let length ← rQshift32
  if 0 ≤ signed32 length then
    rQwait length 8
    let text ← rQshiftBytes length
    return .serverCutText text
  else
    let length := (signed32 length).natAbs
    rQwait length 8
    if length < 4 then return .stray else readExtended length

/-- `_handleServerFenceMsg`, behind the type. -/
def readFence : QueueReader UInt8 ServerMessage := do
  rQwait 8 1
  rQskipBytes 3
  let flags ← rQshift32
  let length ← rQshift8
  rQwait length 9
  let payload ← rQshiftBytes (min length 64)
  return .serverFence flags payload

def readXvp : QueueReader UInt8 ServerMessage := do
  rQwait 3 1
  rQskipBytes 1
  let xvpVer ← rQshift8
  let xvpMsg ← rQshift8
  return .xvp xvpVer xvpMsg

def readFramebufferUpdate : QueueReader UInt8 ServerMessage := do
  rQwait 3 1
  rQskipBytes 1
  let rects ← rQshift16
  return .framebufferUpdate rects

def readBody (msgType : ℕ) : QueueReader UInt8 ServerMessage :=
  if msgType = 0 then readFramebufferUpdate
  else if msgType = 1 then return .setColorMapEntries
  else if msgType = 2 then return .bell
  else if msgType = 3 then readCutText
  else if msgType = 150 then return .endOfContinuousUpdates
  else if msgType = 248 then readFence
  else if msgType = 250 then readXvp
  else return .unexpected msgType

theorem readExtended_safe {length : ℕ} (h : 4 ≤ length) :
    (readExtended length).Tidy 8 ∧ (readExtended length).Guarded length := by
  constructor
  · simp only [readExtended, rQshift32_bind, QueueReader.Tidy]
    intro v
    split_ifs <;> simp
  · simp only [readExtended, rQshift32_bind, QueueReader.Guarded]
    refine ⟨by omega, fun v => ?_⟩
    split_ifs <;>
      simp only [rQskipBytes_bind, rQshiftBytes_bind, QueueReader.pure_eq, QueueReader.Guarded,
        forall_const] <;> omega

theorem readCutText_safe : readCutText.Tidy 1 ∧ readCutText.Guarded 0 := by
  constructor
  · simp only [readCutText, rQwait_bind, rQskipBytes_bind, rQshift32_bind, QueueReader.Tidy,
      true_and]
    intro v
    split_ifs with hpos hlen
    · simp
    · simp
    · exact ⟨rfl, (readExtended_safe (not_lt.mp hlen)).1⟩
  · simp only [readCutText, rQwait_bind, rQskipBytes_bind, rQshift32_bind, QueueReader.Guarded]
    refine ⟨by omega, fun v => ?_⟩
    split_ifs with hpos hlen
    · simp only [rQshiftBytes_bind, QueueReader.pure_eq, QueueReader.Guarded, forall_const]
      omega
    · simp only [QueueReader.pure_eq, QueueReader.Guarded]
      omega
    · have hleft : max (max 0 ((7 : ℕ) : ℤ) - (3 : ℕ) - (4 : ℕ))
          (signed32 (bigEndian v)).natAbs = (signed32 (bigEndian v)).natAbs := by omega
      rw [QueueReader.Guarded, hleft]
      exact (readExtended_safe (not_lt.mp hlen)).2

theorem readFence_safe : readFence.Tidy 1 ∧ readFence.Guarded 0 := by
  constructor
  · simp [readFence]
  · simp only [readFence, rQwait_bind, rQskipBytes_bind, rQshift32_bind, rQshift8_bind,
      rQshiftBytes_bind, QueueReader.pure_eq, QueueReader.Guarded, forall_const]
    refine ⟨by omega, by omega, fun v => ?_⟩
    push_cast
    omega

theorem readBody_safe (msgType : ℕ) : (readBody msgType).Tidy 1 ∧ (readBody msgType).Guarded 0 := by
  unfold readBody
  split_ifs
  · simp only [readFramebufferUpdate, rQwait_bind, rQskipBytes_bind, rQshift16_bind,
      QueueReader.pure_eq, QueueReader.Tidy, QueueReader.Guarded, forall_const, and_true, true_and]
    omega
  · simp
  · simp
  · exact readCutText_safe
  · simp
  · exact readFence_safe
  · simp only [readXvp, rQwait_bind, rQskipBytes_bind, rQshift8_bind, QueueReader.pure_eq,
      QueueReader.Tidy, QueueReader.Guarded, forall_const, and_true, true_and]
    omega
  · simp

def reader : SafeReader UInt8 ServerMessage where
  program := do
    rQwait 1 0
    let msgType ← rQshift8
    readBody msgType
  tidy := by
    simp only [rQwait_bind, rQshift8_bind, QueueReader.Tidy, true_and]
    exact fun v => (readBody_safe _).1
  guarded := by
    simp only [rQwait_bind, rQshift8_bind, QueueReader.Guarded]
    exact ⟨le_max_right _ _, fun v => (readBody_safe _).2⟩

end ServerMessage

namespace RfbSession

variable {Z Q : Type} [ReadQueue Q UInt8] (zlib : Inflate Z)

/-! ### Pseudo-encodings -/

/-- `_resize`, with `_updateContinuousUpdates`. -/
def resize (s : RfbSession Z Q) (width height : ℕ) : RfbSession Z Q :=
  let s := { s with fbWidth := width, fbHeight := height }.draw (.resize width height)
  if s.enabledContinuousUpdates then s.send (.enableContinuousUpdates true 0 0 width height) else s

def classicPixel (andMask xorMask : ℕ) : List UInt8 :=
  if andMask = 0 then
    [UInt8.ofNat (xorMask >>> 8), UInt8.ofNat (xorMask >>> 16), UInt8.ofNat (xorMask >>> 24), 0xff]
  else if andMask >>> 8 = 0xffffff ∧ xorMask = 0 then [0, 0, 0, 0]
  else [0, 0, 0, 0xff]

/-- `rQshift32` at an index of an array of numbers. -/
def wordAt (data : List UInt8) (i : ℕ) : ℕ := bigEndian ((data.drop (4 * i)).take 4)

/-- The type of a cursor of VMware and the bytes of its pixels. -/
inductive VMwareCursor
  | classic (masks : List UInt8)
  | alpha (pixels : List UInt8)
  | unsupported

/-- A byte of padding follows the type. -/
def readVMwareCursor (r : Rect) : QueueReader UInt8 VMwareCursor := do
  rQwait 1 0
  let cursorType ← rQshift8
  if cursorType = 0 then
    rQskipBytes 1
    rQwait (r.width * r.height * 4 * 2) 2
    let masks ← rQshiftBytes (r.width * r.height * 4 * 2)
    return .classic masks
  else if cursorType = 1 then
    rQskipBytes 1
    rQwait (r.width * r.height * 4) 2
    let pixels ← rQshiftBytes (r.width * r.height * 4)
    return .alpha pixels
  else return .unsupported

theorem readVMwareCursor_safe (r : Rect) :
    (readVMwareCursor r).Tidy 0 ∧ (readVMwareCursor r).Guarded 0 := by
  constructor
  · simp only [readVMwareCursor, rQwait_bind, rQshift8_bind, QueueReader.Tidy, true_and]
    intro v
    split_ifs <;> simp
  · simp only [readVMwareCursor, rQwait_bind, rQshift8_bind, QueueReader.Guarded]
    refine ⟨by omega, fun v => ?_⟩
    split_ifs <;>
      simp only [rQskipBytes_bind, rQshiftBytes_bind, QueueReader.pure_eq, QueueReader.Guarded,
        forall_const] <;> omega

def vmwareCursor (r : Rect) : SafeReader UInt8 VMwareCursor :=
  ⟨readVMwareCursor r, (readVMwareCursor_safe r).1, (readVMwareCursor_safe r).2⟩

/-- `_updateCursor`. -/
def updateCursor (r : Rect) (rgba : List UInt8) (s : RfbSession Z Q) : RfbSession Z Q :=
  { s with cursorImage := some ⟨rgba, r.x, r.y, r.width, r.height⟩ }

/-- The session is not followed any further, as behind an exception that leaves the handlers: the
socket stays open, and its next message is handled from where the handler has stopped. -/
def unfollowed : Consumer (RfbSession Z Q) := fun s => ({ s with stray := true }, .lost false)

/-- `_handleVMwareCursor`. A type that is not supported ends the handler as if it had to wait, but
with the type taken: the next message of the socket is taken for the type. -/
def handleVMwareCursor (r : Rect) : Consumer (RfbSession Z Q) :=
  readThen socket (fun _ => vmwareCursor r) fun
    | .classic masks => perform (updateCursor r
        ((List.range (r.width * r.height)).flatMap fun pixel =>
          classicPixel (wordAt masks pixel) (wordAt masks (r.width * r.height + pixel))))
    | .alpha pixels => perform (updateCursor r pixels)
    | .unsupported => unfollowed

/-- The pixels of `_handleCursor`, with their bit mask. -/
def cursorPixels (r : Rect) (pixels mask : List UInt8) : List UInt8 :=
  (List.range r.height).flatMap fun y =>
    (List.range r.width).flatMap fun x =>
      let i := (y * r.width + x) * 4
      let bit := (byteAt mask (y * ((r.width + 7) / 8) + x / 8)).toNat.testBit (7 - x % 8)
      [byteAt pixels (i + 2), byteAt pixels (i + 1), byteAt pixels i, if bit then 255 else 0]

def handleCursor (r : Rect) : Consumer (RfbSession Z Q) :=
  let pixelslength := r.width * r.height * 4
  readThen socket (fun _ => take (pixelslength + (r.width + 7) / 8 * r.height)) fun data =>
    perform (updateCursor r (cursorPixels r (data.take pixelslength) (data.drop pixelslength)))

def readDesktopName : QueueReader UInt8 (List UInt8) := do
  rQwait 4 0
  let length ← rQshift32
  rQwait length 4
  rQshiftBytes length

theorem readDesktopName_safe : readDesktopName.Tidy 0 ∧ readDesktopName.Guarded 0 := by
  constructor
  · simp [readDesktopName, rQshiftBytes]
  · simp only [readDesktopName, rQwait_bind, rQshift32_bind, rQshiftBytes, QueueReader.Guarded,
      forall_const]
    refine ⟨by omega, fun v => ?_⟩
    omega

def desktopName : SafeReader UInt8 (List UInt8) :=
  ⟨readDesktopName, readDesktopName_safe.1, readDesktopName_safe.2⟩

def handleDesktopName : Consumer (RfbSession Z Q) :=
  readThen socket (fun _ => desktopName) fun bytes =>
    perform fun s =>
      let name := (decodeUTF8 bytes).getD (latin1 bytes)
      { s with fbName := name }.dispatch (.desktopname name)

def handleLedEvent : Consumer (RfbSession Z Q) :=
  readThen socket (fun _ => take 1) fun data =>
    perform fun s => { s with
      remoteCapsLock := some ((byteAt data 0).toNat.testBit 2)
      remoteNumLock := some ((byteAt data 0).toNat.testBit 1) }

/-- The id and the flags of the first screen, if there is one. -/
def readScreens : QueueReader UInt8 (Option (ℕ × ℕ)) := do
  rQwait 4 0
  let numberOfScreens ← rQpeek8
  rQwait (4 + numberOfScreens * 16) 0
  rQskipBytes 4
  if numberOfScreens = 0 then return none
  else
    let screenID ← rQshift32
    rQskipBytes 8
    let screenFlags ← rQshift32
    rQskipBytes ((numberOfScreens - 1) * 16)
    return some (screenID, screenFlags)

theorem readScreens_safe : readScreens.Tidy 0 ∧ readScreens.Guarded 0 := by
  constructor
  · simp only [readScreens, rQwait_bind, rQpeek8_bind, rQskipBytes_bind, QueueReader.Tidy, true_and]
    intro v
    split_ifs <;> simp
  · simp only [readScreens, rQwait_bind, rQpeek8_bind, rQskipBytes_bind, QueueReader.Guarded]
    refine ⟨by omega, fun v => ?_⟩
    split_ifs <;>
      simp only [rQshift32_bind, QueueReader.pure_eq, QueueReader.Guarded, forall_const] <;>
      push_cast <;> omega

def screens : SafeReader UInt8 (Option (ℕ × ℕ)) :=
  ⟨readScreens, readScreens_safe.1, readScreens_safe.2⟩

def setScreen (screen : Option (ℕ × ℕ)) (s : RfbSession Z Q) : RfbSession Z Q :=
  { s with
    supportsSetDesktopSize := true
    screenID := (screen.map Prod.fst).getD s.screenID
    screenFlags := (screen.map Prod.snd).getD s.screenFlags }

/-- `_handleExtendedDesktopSize`. A refused request of this client changes no size. -/
def handleExtendedDesktopSize (r : Rect) : Consumer (RfbSession Z Q) :=
  readThen socket (fun _ => screens) fun screen =>
    perform fun s =>
      if r.x = 1 ∧ r.y ≠ 0 then setScreen screen s
      else (setScreen screen s).resize r.width r.height

/-! ### Framebuffer updates -/

def handleDataRect (encoding : ℤ) (r : Rect) : Consumer (RfbSession Z Q) :=
  if encoding = 0 then RawDecoder.decodeRect r
  else if encoding = 1 then CopyRectDecoder.decodeRect r
  else if encoding = 2 then RREDecoder.decodeRect r
  else if encoding = 5 then HextileDecoder.decodeRect r
  else if encoding = 7 then TightDecoder.decodeRect zlib false r
  else if encoding = -260 then TightDecoder.decodeRect zlib true r
  else if encoding = 16 then ZrleDecoder.decodeRect zlib r
  else if encoding = 21 then JpegDecoder.decodeRect r
  else throw

def handleRect (encoding : ℤ) (r : Rect) : Consumer (RfbSession Z Q) :=
  if encoding = -224 then perform fun s => { s with rects := 1 }
  else if encoding = 0x574d5664 then handleVMwareCursor r
  else if encoding = -239 then handleCursor r
  else if encoding = -258 then perform fun s => { s with qemuExtKeyEventSupported := true }
  else if encoding = -307 then handleDesktopName
  else if encoding = -223 then perform fun s => s.resize r.width r.height
  else if encoding = -308 then handleExtendedDesktopSize r
  else if encoding = -261 then handleLedEvent
  else handleDataRect zlib encoding r

def rectHeader : SafeReader UInt8 (Rect × ℤ) where
  program := do
    rQwait 12 0
    let x ← rQshift16
    let y ← rQshift16
    let width ← rQshift16
    let height ← rQshift16
    let encoding ← rQshift32
    return (⟨x, y, width, height⟩, signed32 encoding)
  tidy := by simp
  guarded := by simp

def currentRect : Option ℤ × Rect → Consumer (RfbSession Z Q)
  | (some encoding, r) => handleRect zlib encoding r
  | (none, _) => perform id

def nextRect : Consumer (RfbSession Z Q) :=
  (phase (fun s => s.encoding = none)
    (readThen socket (fun _ => rectHeader) fun (r, encoding) =>
      perform fun s => { s with rect := r, encoding := some encoding })
    (choose (fun s => (s.encoding, s.rect)) (currentRect zlib))).andThen
    (perform fun s => { s with rects := s.rects - 1, encoding := none })

/-- The end of an update: the frame is shown and the next one requested. -/
def finishUpdate (s : RfbSession Z Q) : RfbSession Z Q :=
  let s := s.draw .flip
  if s.enabledContinuousUpdates then s
  else s.send (.fbUpdateRequest true 0 0 s.fbWidth s.fbHeight)

/-- `_framebufferUpdate`, behind its header. -/
def framebufferUpdate : Consumer (RfbSession Z Q) :=
  (loopWhile (fun s => s.rects ≠ 0) (fun s => s.rects) (nextRect zlib)).andThen
    (perform finishUpdate)

/-! ### The other messages -/

/-- The data of the formats of an extended clipboard message; of the text, the first one, the data
is kept. -/
def inflateFormats (formats : ℕ) : List ℕ → Z → Option (List UInt8) → Option (Option (List UInt8))
  | [], _, text => some text
  | i :: rest, z, text =>
    if formats.testBit i then
      match zlib.inflate z 4 with
      | none => none
      | some (z, sizeArray) =>
        if 2147483648 ≤ bigEndian sizeArray then none
        else
          match zlib.inflate z (bigEndian sizeArray) with
          | none => none
          | some (z, chunk) => inflateFormats formats rest z (if i = 0 then some chunk else text)
    else inflateFormats formats rest z text

/-- A final NUL of a text is dropped, and its line ends are made plain. -/
def plainText (text : String) : String :=
  let chars := text.toList
  let chars := if chars.getLast? = some '\x00' then chars.dropLast else chars
  (String.ofList chars).replace "\r\n" "\n"

/-- The answers to a request, a peek or a notification, by the clipboard of the client and by what
the server has said it can do. -/
def clipboardReplies (clipboardText : Option String) (serverActions flags : ℕ) :
    List ClientReply :=
  let hasText := ServerMessage.formatsOf flags &&& ServerMessage.formatText ≠ 0
  if ServerMessage.actionsOf flags = ServerMessage.actionRequest then
    match clipboardText with
    | none => []
    | some text =>
      if serverActions &&& ServerMessage.actionProvide ≠ 0 ∧ hasText then
        [.extendedClipboardProvide text]
      else []
  else if ServerMessage.actionsOf flags = ServerMessage.actionPeek then
    if serverActions &&& ServerMessage.actionNotify ≠ 0 then
      [.extendedClipboardNotify clipboardText.isSome]
    else []
  else if serverActions &&& ServerMessage.actionRequest ≠ 0 ∧ hasText then
    [.extendedClipboardRequest]
  else []

/-- `_handleServerCutText`, on an extended message. -/
def handleExtendedCutText (flags : ℕ) (zlibStream : List UInt8) : Consumer (RfbSession Z Q) :=
  let formats := ServerMessage.formatsOf flags
  let actions := ServerMessage.actionsOf flags
  if actions &&& ServerMessage.actionCaps ≠ 0 then
    perform fun s => { s with
      clipboardServerFormats := formats
      clipboardServerActions := actions }.send .extendedClipboardCaps
  else if actions = ServerMessage.actionRequest ∨ actions = ServerMessage.actionPeek ∨
      actions = ServerMessage.actionNotify then
    perform fun s => { s with
      sent := s.sent ++ clipboardReplies s.clipboardText s.clipboardServerActions flags }
  else if actions = ServerMessage.actionProvide then
    if formats &&& ServerMessage.formatText = 0 then perform id
    else
      match inflateFormats zlib formats (List.range 16) (zlib.setInput zlib.new (some zlibStream))
        none with
      | none => unfollowed
      | some none => perform fun s => { s with clipboardText := none }
      | some (some data) =>
        match decodeUTF8 data with
        | none => unfollowed
        | some text =>
          perform fun s => { s with clipboardText := none }.dispatch (.clipboard (plainText text))
  else throw

/-- What `_normalMsg` does with a message other than a framebuffer update. -/
def handleMessage : ServerMessage → Consumer (RfbSession Z Q)
  | .framebufferUpdate _ => perform id
  | .setColorMapEntries => throw
  | .bell => perform fun s => s.dispatch .bell
  | .serverCutText text => perform fun s => s.dispatch (.clipboard (latin1 text))
  | .extendedCutText flags zlibStream => handleExtendedCutText zlib flags zlibStream
  | .endOfContinuousUpdates =>
    perform fun s => { s with
      supportsContinuousUpdates := true
      enabledContinuousUpdates := !s.supportsContinuousUpdates
      sent := s.sent ++ if s.supportsContinuousUpdates then []
        else [.enableContinuousUpdates true 0 0 s.fbWidth s.fbHeight] }
  | .serverFence flags payload => fun s =>
    let s := { s with supportsFence := true }
    if flags.testBit 31 then (s.send (.clientFence (flags &&& 3) payload), .done) else throw s
  | .xvp xvpVer xvpMsg => fun s =>
    if xvpMsg = 0 then (s, .done)
    else if xvpMsg = 1 then
      ({ s with rfbXvpVer := xvpVer }.dispatch (.capabilities true), .done)
    -- the illegal message fails, and yet the loop over what has been received goes on
    else (s.fail, .lost true)
  | .unexpected _ => fun s => (s.fail, .lost true)
  | .stray => unfollowed

/-- The header of an update. Before it is decoded, the frame before it must be rendered. -/
def beginUpdate (rects : ℕ) : Consumer (RfbSession Z Q) := fun s =>
  if s.pending then ({ s with rects := rects, flushing := true }, .held)
  else framebufferUpdate zlib { s with rects := rects }

/-- What `_normalMsg` does with a message. -/
def dispatchMessage : ServerMessage → Consumer (RfbSession Z Q)
  | .framebufferUpdate rects => beginUpdate zlib rects
  | m => handleMessage zlib m

theorem dispatchMessage_of_ne {m : ServerMessage} (hm : ∀ rects, m ≠ .framebufferUpdate rects) :
    dispatchMessage (Q := Q) zlib m = handleMessage zlib m := by
  cases m with
  | framebufferUpdate rects => exact absurd rfl (hm rects)
  | _ => rfl

/-- `_normalMsg`. -/
def normalMsg : Consumer (RfbSession Z Q) := fun s =>
  if s.rects ≠ 0 then framebufferUpdate zlib s
  else readThen socket (fun _ => ServerMessage.reader) (dispatchMessage zlib) s

end RfbSession

end Urc
