import Urc.Web.Resumption

/-! # A server's messages in pieces

The messages of a VNC server arrive in messages of the WebSocket, whose ends are anywhere. What a
session has drawn, answered and told the page behind a stream of them depends on the stream only.
-/

namespace Urc

open Consumer Websock

variable {Z : Type} (zlib : Inflate Z)

namespace RfbSession

/-! ### Rectangles -/

theorem resize_set (s : ByteSession Z) (q : List UInt8) (width height : ℕ) :
    (socket.set s q).resize width height = socket.set (s.resize width height) q := by
  unfold resize
  dsimp only
  rw [apply_ite (socket.set · q)]
  rfl

theorem outline_resize (s : ByteSession Z) (width height : ℕ) :
    (s.resize width height).outline = s.outline := by
  unfold resize
  dsimp only
  split <;> rfl

theorem outline_finishUpdate (s : ByteSession Z) : (finishUpdate s).outline = s.outline := by
  unfold finishUpdate
  dsimp only
  split <;> rfl

theorem instant_unfollowed : Instant socket (unfollowed (Z := Z) (Q := List UInt8)) :=
  fun _ => ⟨by simp [unfollowed], fun _ => rfl⟩

theorem steady_unfollowed : Obeys Steady (unfollowed (Z := Z) (Q := List UInt8)) := fun _ =>
  ⟨⟨⟨rfl, connects_of_eq rfl, by simp [unfollowed, alive], le_rfl, by simp [unfollowed]⟩,
    fun h => ⟨h, le_rfl⟩⟩, rfl⟩

theorem resumes_handleVMwareCursor (r : Rect) :
    Resumes feed (handleVMwareCursor (Z := Z) (Q := List UInt8) r) := by
  refine resumes_readThen (fun _ _ => rfl) fun cursor => ?_
  cases cursor with
  | classic masks => exact instant_perform fun _ _ => rfl
  | alpha pixels => exact instant_perform fun _ _ => rfl
  | unsupported => exact instant_unfollowed

theorem steady_handleVMwareCursor (r : Rect) :
    Obeys Steady (handleVMwareCursor (Z := Z) (Q := List UInt8) r) := by
  refine frame_steady.obeys_readThen fun cursor => ?_
  cases cursor with
  | classic masks => exact steady_perform fun _ => rfl
  | alpha pixels => exact steady_perform fun _ => rfl
  | unsupported => exact steady_unfollowed

theorem resumes_handleExtendedDesktopSize (r : Rect) :
    Resumes feed (handleExtendedDesktopSize (Z := Z) (Q := List UInt8) r) := by
  refine resumes_readThen (fun _ _ => rfl) fun screen => instant_perform fun s q => ?_
  split
  · rfl
  · exact resize_set (setScreen screen s) q _ _

theorem steady_handleExtendedDesktopSize (r : Rect) :
    Obeys Steady (handleExtendedDesktopSize (Z := Z) (Q := List UInt8) r) := by
  refine frame_steady.obeys_readThen fun screen => steady_perform fun s => ?_
  split
  · rfl
  · exact outline_resize (setScreen screen s) _ _

theorem resumes_handleDataRect (encoding : ℤ) (r : Rect) :
    Resumes feed (handleDataRect (Q := List UInt8) zlib encoding r) := by
  unfold handleDataRect
  split_ifs
  · exact RawDecoder.resumes_decodeRect r
  · exact CopyRectDecoder.resumes_decodeRect r
  · exact RREDecoder.resumes_decodeRect r
  · exact HextileDecoder.resumes_decodeRect r
  · exact TightDecoder.resumes_decodeRect zlib r
  · exact TightDecoder.resumes_decodeRect zlib r
  · exact ZrleDecoder.resumes_decodeRect zlib r
  · exact JpegDecoder.resumes_decodeRect r
  · exact instant_throw.resumes

theorem steady_handleDataRect (encoding : ℤ) (r : Rect) :
    Obeys Steady (handleDataRect (Q := List UInt8) zlib encoding r) := by
  unfold handleDataRect
  split_ifs
  · exact RawDecoder.steady_decodeRect r
  · exact CopyRectDecoder.steady_decodeRect r
  · exact RREDecoder.steady_decodeRect r
  · exact HextileDecoder.steady_decodeRect r
  · exact TightDecoder.steady_decodeRect zlib r
  · exact TightDecoder.steady_decodeRect zlib r
  · exact ZrleDecoder.steady_decodeRect zlib r
  · exact JpegDecoder.steady_decodeRect r
  · exact steady_throw

theorem resumes_handleRect (encoding : ℤ) (r : Rect) :
    Resumes feed (handleRect (Q := List UInt8) zlib encoding r) := by
  unfold handleRect
  split_ifs
  · exact (instant_perform fun _ _ => rfl).resumes
  · exact resumes_handleVMwareCursor r
  · exact resumes_readThen (fun _ _ => rfl) fun _ => instant_perform fun _ _ => rfl
  · exact (instant_perform fun _ _ => rfl).resumes
  · exact resumes_readThen (fun _ _ => rfl) fun _ => instant_perform fun _ _ => rfl
  · exact (instant_perform fun s q => resize_set s q _ _).resumes
  · exact resumes_handleExtendedDesktopSize r
  · exact resumes_readThen (fun _ _ => rfl) fun _ => instant_perform fun _ _ => rfl
  · exact resumes_handleDataRect zlib encoding r

theorem steady_handleRect (encoding : ℤ) (r : Rect) :
    Obeys Steady (handleRect (Q := List UInt8) zlib encoding r) := by
  unfold handleRect
  split_ifs
  · -- the last rectangle
    exact fun s => ⟨⟨⟨rfl, connects_of_eq rfl, by simp [perform, alive], le_rfl, by simp [perform]⟩,
      fun h => ⟨one_ne_zero, Nat.one_le_iff_ne_zero.mpr h⟩⟩, rfl⟩
  · exact steady_handleVMwareCursor r
  · exact frame_steady.obeys_readThen fun _ => steady_perform fun _ => rfl
  · exact steady_perform fun _ => rfl
  · exact frame_steady.obeys_readThen fun _ => steady_perform fun _ => rfl
  · exact steady_perform fun s => outline_resize s _ _
  · exact steady_handleExtendedDesktopSize r
  · exact frame_steady.obeys_readThen fun _ => steady_perform fun _ => rfl
  · exact steady_handleDataRect zlib encoding r

/-! ### Updates -/

theorem resumes_currentRect (current : Option ℤ × Rect) :
    Resumes feed (currentRect (Q := List UInt8) zlib current) := by
  obtain ⟨_ | encoding, r⟩ := current
  · exact (instant_perform fun _ _ => rfl).resumes
  · exact resumes_handleRect zlib encoding r

theorem steady_currentRect (current : Option ℤ × Rect) :
    Obeys Steady (currentRect (Q := List UInt8) zlib current) := by
  obtain ⟨_ | encoding, r⟩ := current
  · exact steady_perform fun _ => rfl
  · exact steady_handleRect zlib encoding r

theorem resumes_nextRect : Resumes feed (nextRect (Q := List UInt8) zlib) := by
  refine resumes_andThen (resumes_phase (fun _ _ => rfl)
    (resumes_readThen (fun _ _ => rfl) fun _ => instant_perform fun _ _ => rfl)
    (resumes_choose (fun _ _ => rfl) (resumes_currentRect zlib) ?_) ?_ ?_)
    (instant_perform fun _ _ => rfl)
  · intro s s' h
    have hsteady := steady_currentRect zlib (s.encoding, s.rect) s
    rw [h] at hsteady
    exact hsteady.2
  · intro s s' hs h
    rw [(readThen_more (fun _ => instant_perform fun _ _ => rfl) h).1]
    exact hs
  · intro s s' _ h
    have hsteady := steady_currentRect zlib (s.encoding, s.rect) s
    rw [choose] at h
    rw [h] at hsteady
    have hkeep : s'.encoding = s.encoding := congrArg Prod.fst hsteady.2
    rw [hkeep]
    refine decide_eq_false fun hnone => ?_
    simp only [hnone, currentRect] at h
    cases h

theorem calm_rect : Obeys (fun s r => Calm (Z := Z) s r ∧ KeepsRects s r)
    (phase (fun s => s.encoding = none)
      (readThen socket (fun _ => rectHeader) fun (r, encoding) =>
        perform fun s => { s with rect := r, encoding := some encoding })
      (choose (fun s => (s.encoding, s.rect)) (currentRect zlib))) := by
  have hframe := (frame_calm (Z := Z)).and frame_keepsRects
  refine hframe.obeys_phase (hframe.obeys_readThen fun _ s => ?_)
    (obeys_choose fun current s => (steady_currentRect zlib current s).1)
  exact ⟨⟨rfl, connects_of_eq rfl, by simp [perform, alive], le_rfl, by simp [perform]⟩,
    fun h => ⟨h, le_rfl⟩⟩

theorem calm_nextRect : Obeys Calm (nextRect (Q := List UInt8) zlib) :=
  frame_calm.obeys_andThen (fun s => (calm_rect zlib s).1)
    fun _ => ⟨rfl, connects_of_eq rfl, by simp [perform, alive], le_rfl, by simp [perform]⟩

variable {s s' : ByteSession Z}

theorem rects_lt_of_nextRect (hs : s.rects ≠ 0) (h : nextRect zlib s = (s', .done)) :
    s'.rects < s.rects := by
  obtain ⟨s₁, h₁, h⟩ := andThen_done h
  have hrects := (calm_rect zlib s).2 hs
  rw [h₁] at hrects
  cases h
  dsimp only at hrects ⊢
  omega

theorem rects_of_nextRect_more (hs : s.rects ≠ 0) (h : nextRect zlib s = (s', .more)) :
    s'.rects ≠ 0 := by
  obtain h | ⟨s₁, -, h⟩ := andThen_more h
  · have hrects := (calm_rect zlib s).2 hs
    rw [h] at hrects
    exact hrects.1
  · cases h

theorem resumes_framebufferUpdate : Resumes feed (framebufferUpdate (Q := List UInt8) zlib) := by
  refine resumes_andThen (resumes_loopWhile ?_ ?_ (fun _ _ => rfl) (resumes_nextRect zlib) ?_)
    (instant_perform fun s q => ?_)
  · intro s hs
    exact Nat.pos_of_ne_zero (of_decide_eq_true hs)
  · intro s s' hs
    exact rects_lt_of_nextRect zlib (of_decide_eq_true hs)
  · intro s s' hs h
    exact decide_eq_true (rects_of_nextRect_more zlib (of_decide_eq_true hs) h)
  · unfold finishUpdate
    dsimp only
    rw [apply_ite (socket.set · q)]
    rfl

theorem calm_framebufferUpdate : Obeys Calm (framebufferUpdate (Q := List UInt8) zlib) := by
  refine frame_calm.obeys_andThen (frame_calm.obeys_loopWhile (calm_nextRect zlib))
    fun s => (steady_of_outline (outline_finishUpdate s)).1.1

theorem rects_of_framebufferUpdate (h : framebufferUpdate zlib s = (s', .done)) :
    s'.rects = 0 := by
  obtain ⟨s₁, h₁, h⟩ := andThen_done h
  have hleft := not_left_of_done (fun s hs => Nat.pos_of_ne_zero (of_decide_eq_true hs))
    (fun s s' hs => rects_lt_of_nextRect zlib (of_decide_eq_true hs)) h₁
  cases h
  have hrects : (finishUpdate s₁).rects = s₁.rects :=
    congrArg (fun o => o.2.2.1) (outline_finishUpdate s₁)
  exact hrects.trans (by simpa using hleft)

theorem rects_of_framebufferUpdate_more (h : framebufferUpdate zlib s = (s', .more)) :
    s'.rects ≠ 0 := by
  obtain h | ⟨s₁, -, h⟩ := andThen_more h
  · have hleft := left_of_more (fun s hs => Nat.pos_of_ne_zero (of_decide_eq_true hs))
      (fun s s' hs => rects_lt_of_nextRect zlib (of_decide_eq_true hs))
      (fun s s' hs h => decide_eq_true (rects_of_nextRect_more zlib (of_decide_eq_true hs) h)) h
    simpa using hleft
  · cases h

/-! ### Messages -/

theorem instant_handleExtendedCutText (flags : ℕ) (zlibStream : List UInt8) :
    Instant socket (handleExtendedCutText (Q := List UInt8) zlib flags zlibStream) := by
  unfold handleExtendedCutText
  dsimp only
  split_ifs
  · exact instant_perform fun _ _ => rfl
  · exact instant_perform fun _ _ => rfl
  · exact instant_perform fun _ _ => rfl
  · split
    · exact instant_unfollowed
    · exact instant_perform fun _ _ => rfl
    · split
      · exact instant_unfollowed
      · exact instant_perform fun _ _ => rfl
  · exact instant_throw

theorem instant_handleMessage (m : ServerMessage) :
    Instant socket (handleMessage (Q := List UInt8) zlib m) := by
  cases m with
  | framebufferUpdate rects => exact instant_perform fun _ _ => rfl
  | setColorMapEntries => exact instant_throw
  | bell => exact instant_perform fun _ _ => rfl
  | serverCutText text => exact instant_perform fun _ _ => rfl
  | extendedCutText flags zlibStream => exact instant_handleExtendedCutText zlib flags zlibStream
  | endOfContinuousUpdates => exact instant_perform fun _ _ => rfl
  | serverFence flags payload =>
    intro s
    simp only [handleMessage, socket]
    split
    · exact ⟨by simp, fun _ => rfl⟩
    · exact ⟨by simp [throw], fun _ => rfl⟩
  | xvp xvpVer xvpMsg =>
    intro s
    simp only [handleMessage, socket]
    split_ifs <;> exact ⟨by simp, fun _ => rfl⟩
  | unexpected msgType => exact fun _ => ⟨by simp [handleMessage], fun _ => rfl⟩
  | stray => exact instant_unfollowed

/-- What is done with a message that is no update: the session is not held, and lost exactly if
the call says so. -/
structure Answers (s : ByteSession Z) (r : ByteSession Z × Verdict) : Prop where
  encoding : r.1.encoding = s.encoding
  rects : r.1.rects = s.rects
  flushing : r.1.flushing = s.flushing
  connects : Connects s r
  alive : r.1.alive = (s.alive && decide (r.2 ≠ .lost true ∧ r.2 ≠ .lost false))
  held : r.2 ≠ .held

theorem answers_perform {f : ByteSession Z → ByteSession Z} (h : ∀ s, (f s).outline = s.outline) :
    Obeys Answers (perform f) := by
  intro s
  have hs := h s
  simp only [outline, Prod.mk.injEq] at hs
  obtain ⟨hencoding, -, hrects, hflushing, hconnected, hstray, -⟩ := hs
  exact ⟨hencoding, hrects, hflushing, connects_of_eq hconnected,
    by simp [perform, RfbSession.alive, hconnected, hstray], by simp [perform]⟩

theorem answers_throw : Obeys Answers (throw (Z := Z)) := fun s =>
  ⟨rfl, rfl, rfl, connects_throw s, by simp [throw, fail, RfbSession.alive], by simp [throw]⟩

theorem answers_unfollowed : Obeys Answers (unfollowed (Z := Z)) := fun _ =>
  ⟨rfl, rfl, rfl, connects_of_eq rfl, by simp [unfollowed, RfbSession.alive], by simp [unfollowed]⟩

theorem answers_handleExtendedCutText (flags : ℕ) (zlibStream : List UInt8) :
    Obeys Answers (handleExtendedCutText (Q := List UInt8) zlib flags zlibStream) := by
  unfold handleExtendedCutText
  dsimp only
  split_ifs
  · exact answers_perform fun _ => rfl
  · exact answers_perform fun _ => rfl
  · exact answers_perform fun _ => rfl
  · split
    · exact answers_unfollowed
    · exact answers_perform fun _ => rfl
    · split
      · exact answers_unfollowed
      · exact answers_perform fun _ => rfl
  · exact answers_throw

theorem answers_handleMessage (m : ServerMessage) :
    Obeys Answers (handleMessage (Q := List UInt8) zlib m) := by
  cases m with
  | framebufferUpdate rects => exact answers_perform fun _ => rfl
  | setColorMapEntries => exact answers_throw
  | bell => exact answers_perform fun _ => rfl
  | serverCutText text => exact answers_perform fun _ => rfl
  | extendedCutText flags zlibStream => exact answers_handleExtendedCutText zlib flags zlibStream
  | endOfContinuousUpdates => exact answers_perform fun _ => rfl
  | serverFence flags payload =>
    intro s
    simp only [handleMessage]
    split
    · exact ⟨rfl, rfl, rfl, connects_of_eq rfl, by simp [RfbSession.alive, send], by simp⟩
    · exact ⟨rfl, rfl, rfl, ⟨fun h => absurd rfl (h false), fun _ => rfl⟩,
        by simp [throw, fail, RfbSession.alive], by simp [throw]⟩
  | xvp xvpVer xvpMsg =>
    intro s
    simp only [handleMessage]
    split_ifs
    · exact ⟨rfl, rfl, rfl, connects_of_eq rfl, by simp, by simp⟩
    · exact ⟨rfl, rfl, rfl, connects_of_eq rfl, by simp [RfbSession.alive, dispatch], by simp⟩
    · exact ⟨rfl, rfl, rfl, ⟨fun h => absurd rfl (h true), fun _ => rfl⟩,
        by simp [RfbSession.alive, fail], by simp⟩
  | unexpected msgType =>
    exact fun _ => ⟨rfl, rfl, rfl, ⟨fun h => absurd rfl (h true), fun _ => rfl⟩,
      by simp [handleMessage, RfbSession.alive, fail], by simp [handleMessage]⟩
  | stray => exact answers_unfollowed

/-- A message that waits for more is an update, in the middle of its rectangles; what its header
has begun then goes on. -/
theorem dispatchMessage_more {m : ServerMessage} (h : dispatchMessage zlib m s = (s', .more))
    (r : List UInt8) :
    s'.rects ≠ 0 ∧ dispatchMessage zlib m (feed s r) = framebufferUpdate zlib (feed s' r) := by
  by_cases hm : ∀ rects, m ≠ .framebufferUpdate rects
  · rw [dispatchMessage_of_ne zlib hm] at h
    exact absurd (by rw [h]) (instant_handleMessage zlib m s).1
  · push Not at hm
    obtain ⟨rects, rfl⟩ := hm
    simp only [dispatchMessage, beginUpdate] at h ⊢
    split at h
    · cases h
    · next hpending =>
      refine ⟨rects_of_framebufferUpdate_more zlib h, ?_⟩
      rw [if_neg (by exact hpending)]
      exact (resumes_framebufferUpdate zlib).more h r

theorem dispatchMessage_keep {m : ServerMessage} {v : Verdict}
    (h : dispatchMessage zlib m s = (s', v)) (hv : v ≠ .more) (r : List UInt8) :
    dispatchMessage zlib m (feed s r) = (feed s' r, v) := by
  by_cases hm : ∀ rects, m ≠ .framebufferUpdate rects
  · rw [dispatchMessage_of_ne zlib hm] at h ⊢
    exact (instant_handleMessage zlib m).resumes.keep h hv r
  · push Not at hm
    obtain ⟨rects, rfl⟩ := hm
    simp only [dispatchMessage, beginUpdate] at h ⊢
    split at h
    · next hpending =>
      rw [if_pos (by exact hpending)]
      cases h
      rfl
    · next hpending =>
      rw [if_neg (by exact hpending)]
      exact (resumes_framebufferUpdate zlib).keep h hv r

theorem fetch_feed {m : ServerMessage} {rest : List UInt8}
    (h : ReadQueue.fetch ServerMessage.reader s.sock = some (m, rest)) (r : List UInt8) :
    ReadQueue.fetch ServerMessage.reader (feed s r).sock = some (m, rest ++ r) :=
  SafeReader.exec_append h r

theorem resumes_normalMsg : Resumes feed (normalMsg (Q := List UInt8) zlib) where
  keep := by
    intro s s' v h hv r
    unfold normalMsg readThen at h ⊢
    split at h
    · next hs =>
      rw [if_pos (by exact hs)]
      exact (resumes_framebufferUpdate zlib).keep h hv r
    · next hs =>
      rw [if_neg (by exact hs)]
      split at h
      · cases h
        exact absurd rfl hv
      · next m rest hfetch =>
        simp only [socket, fetch_feed hfetch r]
        exact dispatchMessage_keep zlib h hv r
  more := by
    intro s s' h r
    unfold normalMsg readThen at h
    split at h
    · next hs =>
      have hs' := rects_of_framebufferUpdate_more zlib h
      unfold normalMsg
      rw [if_pos (by exact hs), if_pos (by exact hs'),
        (resumes_framebufferUpdate zlib).more h r]
    · next hs =>
      split at h
      · cases h
        rfl
      · next m rest hfetch =>
        obtain ⟨hs', hnext⟩ := dispatchMessage_more zlib h r
        unfold normalMsg readThen
        rw [if_neg (by exact hs), if_pos (by exact hs'), ← hnext]
        simp only [socket, fetch_feed hfetch r]
        rfl

/-- What a call of `_normalMsg` does: it holds the session or loses it exactly if it says so, and
if the loop goes on, bytes were taken or an update was finished. -/
structure Turns (s : ByteSession Z) (r : ByteSession Z × Verdict) : Prop where
  flushing : s.flushing = false → r.1.flushing = decide (r.2 = .held)
  connects : Connects s r
  alive : r.1.alive = (s.alive && decide (r.2 ≠ .lost true ∧ r.2 ≠ .lost false))
  taken : r.2 = .done ∨ r.2 = .lost true → r.1.rects = 0 ∧ r.1.sock.length ≤ s.sock.length

theorem Calm.turns {r : ByteSession Z × Verdict} (h : Calm s r)
    (hrects : r.2 = .done → r.1.rects = 0) : Turns s r where
  flushing := by
    intro hs
    rw [h.flushing, hs]
    simp [h.verdict.1]
  connects := h.connects
  alive := by simp [h.alive, h.verdict.2]
  taken := by
    rintro (hv | hv)
    · exact ⟨hrects hv, h.length⟩
    · exact absurd hv h.verdict.2

theorem turns_framebufferUpdate (s : ByteSession Z) : Turns s (framebufferUpdate zlib s) := by
  refine (calm_framebufferUpdate zlib s).turns fun hv => ?_
  exact rects_of_framebufferUpdate (s := s) zlib (Prod.ext rfl hv)

theorem turns_dispatchMessage (m : ServerMessage) (hs : s.rects = 0) :
    Turns s (dispatchMessage zlib m s) := by
  by_cases hm : ∀ rects, m ≠ .framebufferUpdate rects
  · rw [dispatchMessage_of_ne zlib hm]
    have hanswers := answers_handleMessage zlib m s
    have hsock := (instant_handleMessage zlib m).get s
    refine ⟨fun hf => ?_, hanswers.connects, hanswers.alive, fun _ => ⟨hanswers.rects.trans hs, ?_⟩⟩
    · rw [hanswers.flushing, hf]
      simp [hanswers.held]
    · exact le_of_eq (congrArg List.length hsock)
  · push Not at hm
    obtain ⟨rects, rfl⟩ := hm
    simp only [dispatchMessage, beginUpdate]
    split
    · exact ⟨by simp, connects_of_eq rfl, by simp [alive], by simp⟩
    · have hturns := turns_framebufferUpdate zlib { s with rects := rects }
      have hconnects := hturns.connects
      exact ⟨hturns.flushing, ⟨hconnects.same, hconnects.closed⟩, hturns.alive, hturns.taken⟩

/-- A call of `_normalMsg` that ends, and that the loop goes on from, gets on. -/
theorem measure_lt_of_normalMsg {v : Verdict} (h : normalMsg zlib s = (s', v))
    (hv : v = .done ∨ v = .lost true) :
    2 * s'.sock.length + (if s'.rects = 0 then 0 else 1) <
      2 * s.sock.length + (if s.rects = 0 then 0 else 1) := by
  unfold normalMsg readThen at h
  split at h
  · next hs =>
    have hturns := turns_framebufferUpdate zlib s
    rw [h] at hturns
    obtain ⟨hrects, hlen⟩ := hturns.taken hv
    dsimp only at hrects hlen
    rw [if_pos hrects, if_neg hs]
    omega
  · next hs =>
    split at h
    · cases h
      simp at hv
    · next m rest hfetch =>
      have hlt : rest.length < s.sock.length := SafeReader.length_exec_lt rfl Nat.one_pos hfetch
      have hturns := turns_dispatchMessage (s := socket.set s rest) zlib m (not_not.mp hs)
      rw [h] at hturns
      obtain ⟨hrects, hlen⟩ := hturns.taken hv
      have hlen' : s'.sock.length ≤ rest.length := hlen
      dsimp only at hrects
      rw [if_pos hrects]
      omega

theorem turns_normalMsg (s : ByteSession Z) :
    (s.flushing = false → (normalMsg zlib s).1.flushing = decide ((normalMsg zlib s).2 = .held)) ∧
      Connects s (normalMsg zlib s) ∧
      (normalMsg zlib s).1.alive = (s.alive && decide ((normalMsg zlib s).2 ≠ .lost true ∧
        (normalMsg zlib s).2 ≠ .lost false)) := by
  unfold normalMsg readThen
  split
  · have hturns := turns_framebufferUpdate zlib s
    exact ⟨hturns.flushing, hturns.connects, hturns.alive⟩
  · next hs =>
    split
    · exact ⟨by simp, connects_of_eq rfl, by simp⟩
    · next m rest _ =>
      have hturns := turns_dispatchMessage (s := socket.set s rest) zlib m (not_not.mp hs)
      have hconnects := hturns.connects
      exact ⟨hturns.flushing, ⟨hconnects.same, hconnects.closed⟩, hturns.alive⟩

/-! ### The stream -/

/-- The loop of `_handleMessage`. -/
def stream : StreamHandler (ByteSession Z) UInt8 where
  feed := feed
  handle := normalMsg zlib
  held s := s.flushing
  waiting s := !s.sock.isEmpty
  alive s := s.alive
  measure s := 2 * s.sock.length + if s.rects = 0 then 0 else 1
  feed_nil s := by simp [feed, feedAt, socket]
  feed_feed s a b := by simp [feed, feedAt, socket]
  held_feed _ _ := rfl
  alive_feed _ _ := rfl
  waiting_feed s r := by cases h : s.sock <;> simp [feed, feedAt, socket, h]
  resumes := resumes_normalMsg zlib
  measure_lt _ h hv := measure_lt_of_normalMsg zlib h hv
  held_handle := by
    intro s s' v hs h
    have hturns := (turns_normalMsg zlib s).1 hs
    rwa [h] at hturns
  alive_handle := by
    intro s s' v h
    have hturns := (turns_normalMsg zlib s).2.2
    rwa [h] at hturns

theorem lasting_closed : (stream zlib).Lasting fun s => s.connected = false where
  feed _ hs := hs
  handle := by
    intro s s' v h hs
    have hconnects := (turns_normalMsg zlib s).2.1
    rw [show normalMsg zlib s = (s', v) from h] at hconnects
    exact hconnects.closed hs
  more := by
    intro s s' h hs'
    have hconnects := (turns_normalMsg zlib s).2.1
    rw [show normalMsg zlib s = (s', .more) from h] at hconnects
    exact (hconnects.same nofun).symm.trans hs'

end RfbSession

end Urc
