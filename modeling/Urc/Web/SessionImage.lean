import Urc.Web.ServerMessages

/-! # One session seen as another

The handlers do the same to a session on another queue that looks alike to every reader, and to a
session whose display delays nothing: up to the point where an update waits for the display.
-/

namespace Urc

open Consumer Websock

variable {Z Q Q' : Type}

namespace RfbSession

/-- The session on another queue, and on a display that delays nothing if `keep` is false. -/
def image (f : Q → Q') (keep : Bool) (s : RfbSession Z Q) : RfbSession Z Q' :=
  { s with
    sock := f s.sock
    imagesWait := fun drawn => keep && s.imagesWait drawn
    pending := keep && s.pending
    flushing := keep && s.flushing }

variable {f : Q → Q'} {keep : Bool}

theorem portHom_image [ReadQueue Q UInt8] [ReadQueue Q' UInt8] (hf : QueueHom f) :
    PortHom socket socket (image (Z := Z) f keep) f where
  toQueueHom := hf
  get _ := rfl
  set _ _ := rfl

theorem follows_throw : Follows (image (Z := Z) f keep) throw throw := fun _ => rfl

theorem follows_unfollowed : Follows (image (Z := Z) f keep) unfollowed unfollowed := fun _ => rfl

theorem imageRect_image (s : RfbSession Z Q) (r : Rect) (mime : String) (data : List UInt8) :
    (image f keep s).imageRect r mime data = image f keep (s.imageRect r mime data) := by
  unfold imageRect
  split
  · rfl
  · simp [image, draw, Bool.and_or_distrib_left]

theorem resize_image (s : RfbSession Z Q) (width height : ℕ) :
    (image f keep s).resize width height = image f keep (s.resize width height) := by
  unfold resize
  dsimp only
  rw [apply_ite (image f keep)]
  rfl

end RfbSession

open RfbSession

variable (zlib : Inflate Z) [ReadQueue Q UInt8] [ReadQueue Q' UInt8] {f : Q → Q'}
  (hf : QueueHom f) {keep : Bool}

/-! ### Rectangles -/

include hf in
theorem RawDecoder.follows_decodeRect (r : Rect) :
    Follows (image (Z := Z) f keep) (decodeRect r) (decodeRect r) := by
  unfold decodeRect
  split
  · exact follows_perform fun _ => rfl
  · exact follows_phase (fun _ => rfl) (follows_perform fun _ => rfl)
      (follows_loopWhile (fun _ => rfl) (fun _ => rfl)
        (follows_readThen (portHom_image hf) (fun _ => rfl) fun _ => follows_perform fun _ => rfl))

include hf in
theorem CopyRectDecoder.follows_decodeRect (r : Rect) :
    Follows (image (Z := Z) f keep) (decodeRect r) (decodeRect r) :=
  follows_readThen (portHom_image hf) (fun _ => rfl) fun _ =>
    follows_perform fun _ => by split <;> rfl

include hf in
theorem RREDecoder.follows_decodeRect (r : Rect) :
    Follows (image (Z := Z) f keep) (decodeRect r) (decodeRect r) :=
  follows_phase (fun _ => rfl)
    (follows_readThen (portHom_image hf) (fun _ => rfl) fun _ => follows_perform fun _ => rfl)
    (follows_loopWhile (fun _ => rfl) (fun _ => rfl)
      (follows_readThen (portHom_image hf) (fun _ => rfl) fun _ => follows_perform fun _ => rfl))

namespace HextileDecoder

omit [ReadQueue Q UInt8] [ReadQueue Q' UInt8] in
theorem follows_finishTile (t : Rect) (b : Option (ℕ × List UInt8)) :
    Follows (image (Z := Z) f keep) (finishTile t b) (finishTile t b) := by
  cases b with
  | none => exact follows_throw
  | some b =>
    intro s
    simp only [finishTile, image]
    split
    · rfl
    · rfl

include hf in
theorem follows_decodeRect (r : Rect) :
    Follows (image (Z := Z) f keep) (decodeRect r) (decodeRect r) :=
  follows_phase (fun _ => rfl) (follows_perform fun _ => rfl)
    (follows_loopWhile (fun _ => rfl) (fun _ => rfl) (follows_choose (fun _ => rfl) fun t =>
      follows_readThen (portHom_image hf) (fun _ => rfl) (follows_finishTile t)))

end HextileDecoder

namespace TightDecoder

variable {png : Bool} {streamId : Fin 4} {size : ℕ} {k : List UInt8 → Consumer (RfbSession Z Q)}
  {k' : List UInt8 → Consumer (RfbSession Z Q')}

omit [ReadQueue Q UInt8] [ReadQueue Q' UInt8] in
theorem follows_expand (hk : ∀ data, Follows (image f keep) (k data) (k' data))
    (data : List UInt8) : Follows (image f keep) (expand zlib png streamId size k data)
      (expand zlib png streamId size k' data) := by
  intro s
  have htight : (image f keep s).tight = s.tight := rfl
  simp only [expand, htight]
  split
  · rfl
  · next z out _ =>
    have hnext : Follows (image f keep)
        (fun s => k out (update png (fun t => { t with
          zlibs := fun i => if i = streamId then zlib.setInput z none else t.zlibs i }) s))
        (fun s => k' out (update png (fun t => { t with
          zlibs := fun i => if i = streamId then zlib.setInput z none else t.zlibs i }) s)) :=
      (hk out).comp fun _ => rfl
    exact hnext s

include hf

theorem follows_readData (hk : ∀ data, Follows (image f keep) (k data) (k' data)) :
    Follows (image f keep) (readData png k) (readData png k') :=
  follows_phase (fun _ => rfl)
    (follows_readThen (portHom_image hf) (fun _ => rfl) fun _ => follows_perform fun _ => rfl)
    (follows_readThen (portHom_image hf) (fun _ => rfl) fun data =>
      (hk data).comp fun _ => rfl)

theorem follows_pixelData (hk : ∀ data, Follows (image f keep) (k data) (k' data)) :
    Follows (image f keep) (pixelData zlib png streamId size k)
      (pixelData zlib png streamId size k') := by
  unfold pixelData
  split
  · exact follows_readThen (portHom_image hf) (fun _ => rfl) hk
  · exact follows_readData hf (follows_expand zlib hk)

theorem follows_filterRect (r : Rect) (filter : Option ℕ) :
    Follows (image (Z := Z) f keep) (filterRect zlib png streamId r filter)
      (filterRect zlib png streamId r filter) := by
  unfold filterRect
  split
  · unfold copyFilter
    split
    · exact follows_perform fun _ => rfl
    · exact follows_pixelData zlib hf fun _ => follows_perform fun _ => rfl
  · refine follows_phase (fun _ => rfl)
      (follows_readThen (portHom_image hf) (fun _ => rfl) fun _ => follows_perform fun _ => rfl)
      (follows_choose (fun _ => rfl) fun numColors => ?_)
    unfold paletteData
    split
    · exact follows_perform fun _ => rfl
    · exact follows_pixelData zlib hf fun _ => follows_perform fun _ => rfl
  · unfold gradientFilter
    split
    · exact follows_perform fun _ => rfl
    · exact follows_pixelData zlib hf fun _ => follows_perform fun _ => rfl
  · exact follows_throw

theorem follows_basicRect (ctl : ℕ) (r : Rect) :
    Follows (image (Z := Z) f keep) (basicRect zlib png ctl r) (basicRect zlib png ctl r) := by
  unfold basicRect
  split
  · exact follows_throw
  · refine follows_andThen (follows_phase (fun _ => rfl) ?_
      (follows_choose (fun _ => rfl) (follows_filterRect zlib hf r))) (follows_perform fun _ => rfl)
    split
    · exact follows_readThen (portHom_image hf) (fun _ => rfl) fun _ => follows_perform fun _ => rfl
    · exact follows_perform fun _ => rfl

theorem follows_controlRect (r : Rect) (ctl : Option ℕ) :
    Follows (image (Z := Z) f keep) (controlRect zlib png r ctl) (controlRect zlib png r ctl) := by
  unfold controlRect
  split
  · exact follows_readThen (portHom_image hf) (fun _ => rfl) fun _ => follows_perform fun _ => rfl
  · exact follows_readData hf fun _ => follows_perform fun s => imageRect_image s _ _ _
  · unfold pngRect
    split
    · exact follows_readData hf fun _ => follows_perform fun s => imageRect_image s _ _ _
    · exact follows_throw
  · split
    · exact follows_basicRect zlib hf _ r
    · exact follows_throw
  · exact follows_throw

theorem follows_decodeRect (r : Rect) :
    Follows (image (Z := Z) f keep) (decodeRect zlib png r) (decodeRect zlib png r) :=
  follows_andThen (follows_phase (fun _ => rfl)
    (follows_readThen (portHom_image hf) (fun _ => rfl) fun _ => follows_perform fun _ => rfl)
    (follows_choose (fun _ => rfl) (follows_controlRect zlib hf r))) (follows_perform fun _ => rfl)

end TightDecoder

namespace ZrleDecoder

omit [ReadQueue Q UInt8] [ReadQueue Q' UInt8] in
theorem follows_drawTiles (out : ZrleDecoder Z × List DrawCall × Bool) :
    Follows (image f keep) (drawTiles out) (drawTiles out) := by
  obtain ⟨d, calls, _ | _⟩ := out
  · exact follows_throw.comp fun _ => rfl
  · exact follows_perform fun _ => rfl

include hf in
theorem follows_decodeRect (r : Rect) :
    Follows (image (Z := Z) f keep) (decodeRect zlib r) (decodeRect zlib r) :=
  follows_phase (fun _ => rfl)
    (follows_readThen (portHom_image hf) (fun _ => rfl) fun _ => follows_perform fun _ => rfl)
    (follows_readThen (portHom_image hf) (fun _ => rfl) fun _ =>
      follows_choose (fun _ => rfl) follows_drawTiles)

end ZrleDecoder

namespace JpegDecoder

omit [ReadQueue Q UInt8] [ReadQueue Q' UInt8] in
theorem follows_addSegment (segment : Option (List UInt8)) :
    Follows (image (Z := Z) f keep) (addSegment segment) (addSegment segment) := by
  cases segment with
  | none => exact follows_throw
  | some segment => exact follows_perform fun _ => rfl

omit [ReadQueue Q UInt8] [ReadQueue Q' UInt8] in
theorem follows_finish (r : Rect) : Follows (image (Z := Z) f keep) (finish r) (finish r) := by
  intro s
  have hjpeg : (image f keep s).jpeg = s.jpeg := rfl
  simp only [finish, hjpeg]
  split
  · rfl
  · next image d _ =>
    rw [← imageRect_image]
    rfl

include hf in
theorem follows_decodeRect (r : Rect) :
    Follows (image (Z := Z) f keep) (decodeRect r) (decodeRect r) :=
  follows_andThen (follows_loopWhile (fun _ => rfl)
    (fun s => congrArg Nat.succ (hf.length s.sock))
    (follows_readThen (portHom_image hf) (fun _ => rfl) follows_addSegment)) (follows_finish r)

end JpegDecoder

/-! ### Messages -/

namespace RfbSession

include hf

theorem follows_handleDataRect (encoding : ℤ) (r : Rect) :
    Follows (image (Z := Z) f keep) (handleDataRect zlib encoding r)
      (handleDataRect zlib encoding r) := by
  unfold handleDataRect
  split_ifs
  · exact RawDecoder.follows_decodeRect hf r
  · exact CopyRectDecoder.follows_decodeRect hf r
  · exact RREDecoder.follows_decodeRect hf r
  · exact HextileDecoder.follows_decodeRect hf r
  · exact TightDecoder.follows_decodeRect zlib hf r
  · exact TightDecoder.follows_decodeRect zlib hf r
  · exact ZrleDecoder.follows_decodeRect zlib hf r
  · exact JpegDecoder.follows_decodeRect hf r
  · exact follows_throw

theorem follows_handleRect (encoding : ℤ) (r : Rect) :
    Follows (image (Z := Z) f keep) (handleRect zlib encoding r) (handleRect zlib encoding r) := by
  unfold handleRect
  split_ifs
  · exact follows_perform fun _ => rfl
  · refine follows_readThen (portHom_image hf) (fun _ => rfl) fun cursor => ?_
    cases cursor with
    | classic masks => exact follows_perform fun _ => rfl
    | alpha pixels => exact follows_perform fun _ => rfl
    | unsupported => exact follows_unfollowed
  · exact follows_readThen (portHom_image hf) (fun _ => rfl) fun _ => follows_perform fun _ => rfl
  · exact follows_perform fun _ => rfl
  · exact follows_readThen (portHom_image hf) (fun _ => rfl) fun _ => follows_perform fun _ => rfl
  · exact follows_perform fun s => resize_image s _ _
  · refine follows_readThen (portHom_image hf) (fun _ => rfl) fun screen =>
      follows_perform fun s => ?_
    split
    · rfl
    · exact resize_image (setScreen screen s) _ _
  · exact follows_readThen (portHom_image hf) (fun _ => rfl) fun _ => follows_perform fun _ => rfl
  · exact follows_handleDataRect zlib hf encoding r

theorem follows_framebufferUpdate :
    Follows (image (Z := Z) f keep) (framebufferUpdate zlib) (framebufferUpdate zlib) := by
  refine follows_andThen (follows_loopWhile (fun _ => rfl) (fun _ => rfl) (follows_andThen
    (follows_phase (fun _ => rfl)
      (follows_readThen (portHom_image hf) (fun _ => rfl) fun _ => follows_perform fun _ => rfl)
      (follows_choose (fun _ => rfl) fun current => ?_)) (follows_perform fun _ => rfl)))
    (follows_perform fun s => ?_)
  · obtain ⟨_ | encoding, r⟩ := current
    · exact follows_perform fun _ => rfl
    · exact follows_handleRect zlib hf encoding r
  · unfold finishUpdate
    dsimp only
    rw [apply_ite (image f keep)]
    rfl

omit hf [ReadQueue Q UInt8] [ReadQueue Q' UInt8] in
theorem follows_handleMessage (m : ServerMessage) :
    Follows (image (Z := Z) f keep) (handleMessage zlib m) (handleMessage zlib m) := by
  cases m with
  | framebufferUpdate rects => exact follows_perform fun _ => rfl
  | setColorMapEntries => exact follows_throw
  | bell => exact follows_perform fun _ => rfl
  | serverCutText text => exact follows_perform fun _ => rfl
  | extendedCutText flags zlibStream =>
    simp only [handleMessage, handleExtendedCutText]
    split_ifs
    · exact follows_perform fun _ => rfl
    · exact follows_perform fun _ => rfl
    · exact follows_perform fun _ => rfl
    · split
      · exact follows_unfollowed
      · exact follows_perform fun _ => rfl
      · split
        · exact follows_unfollowed
        · exact follows_perform fun _ => rfl
    · exact follows_throw
  | endOfContinuousUpdates => exact follows_perform fun _ => rfl
  | serverFence flags payload =>
    intro s
    simp only [handleMessage]
    split <;> rfl
  | xvp xvpVer xvpMsg =>
    intro s
    simp only [handleMessage]
    split_ifs <;> rfl
  | unexpected msgType => exact fun _ => rfl
  | stray => exact follows_unfollowed

/-- A message that does not wait for the display is the same to a session that never does. -/
theorem dispatchMessage_image (m : ServerMessage) {s : RfbSession Z Q}
    (h : keep = true ∨ (dispatchMessage zlib m s).2 ≠ .held) :
    dispatchMessage zlib m (image f keep s) =
      (image f keep (dispatchMessage zlib m s).1, (dispatchMessage zlib m s).2) := by
  by_cases hm : ∀ rects, m ≠ .framebufferUpdate rects
  · rw [dispatchMessage_of_ne zlib hm, dispatchMessage_of_ne zlib hm]
    exact follows_handleMessage zlib m s
  · push Not at hm
    obtain ⟨rects, rfl⟩ := hm
    have hkeep : (image f keep s).pending = (keep && s.pending) := rfl
    simp only [dispatchMessage, beginUpdate, hkeep] at h ⊢
    by_cases hpending : s.pending = true
    · rw [if_pos hpending] at h ⊢
      have hk : keep = true := by simpa using h
      simp [hk, hpending, image]
    · rw [if_neg hpending, if_neg (by simp [hpending])]
      exact follows_framebufferUpdate zlib hf { s with rects := rects }

theorem normalMsg_image {s : RfbSession Z Q} (h : keep = true ∨ (normalMsg zlib s).2 ≠ .held) :
    normalMsg zlib (image f keep s) =
      (image f keep (normalMsg zlib s).1, (normalMsg zlib s).2) := by
  have hfetch : ReadQueue.fetch ServerMessage.reader (f s.sock) = _ := hf.fetch _ s.sock
  have hrects : (image f keep s).rects = s.rects := rfl
  have hsock : socket.get (image f keep s) = f s.sock := rfl
  have hget : socket.get s = s.sock := rfl
  unfold normalMsg at h ⊢
  rw [hrects]
  split_ifs at h ⊢
  · exact follows_framebufferUpdate zlib hf s
  · unfold readThen at h ⊢
    rw [hsock, hfetch]
    rw [hget] at h ⊢
    cases hread : ReadQueue.fetch ServerMessage.reader s.sock with
    | none => rfl
    | some r =>
      obtain ⟨m, rest⟩ := r
      simp only [hread] at h
      exact dispatchMessage_image zlib hf m h

end RfbSession

end Urc
