import Urc.Web.ServerMessages

/-! # Decoding goes on where it stopped

Every decoder of noVNC that runs out of bytes in the middle of a rectangle goes on, when more have
arrived, as if they had been there from the beginning. On the way it leaves alone what the loop
over the messages depends on.
-/

namespace Urc

open Consumer Websock

variable {Z : Type} (zlib : Inflate Z)

/-- A session behind a socket that is a plain queue of bytes. -/
abbrev ByteSession (Z : Type) := RfbSession Z (List UInt8)

namespace RfbSession

def feed (s : ByteSession Z) (bytes : List UInt8) : ByteSession Z := feedAt socket s bytes

def alive {Q : Type} (s : RfbSession Z Q) : Bool := s.connected && !s.stray

/-! ### What is left alone -/

/-- A connection is closed only by a call that loses the session, and never opened again. -/
structure Connects (s : ByteSession Z) (r : ByteSession Z × Verdict) : Prop where
  same : (∀ again, r.2 ≠ .lost again) → r.1.connected = s.connected
  closed : s.connected = false → r.1.connected = false

/-- A call takes bytes from the front only, does not hold the session, and loses it exactly if it
says so; then the loop is left. -/
structure Calm (s : ByteSession Z) (r : ByteSession Z × Verdict) : Prop where
  flushing : r.1.flushing = s.flushing
  connects : Connects s r
  alive : r.1.alive = (s.alive && decide (r.2 ≠ .lost false))
  length : r.1.sock.length ≤ s.sock.length
  verdict : r.2 ≠ .held ∧ r.2 ≠ .lost true

/-- A rectangle is left over, and no more of them than before. -/
def KeepsRects (s : ByteSession Z) (r : ByteSession Z × Verdict) : Prop :=
  s.rects ≠ 0 → r.1.rects ≠ 0 ∧ r.1.rects ≤ s.rects

def Steady (s : ByteSession Z) (r : ByteSession Z × Verdict) : Prop :=
  (Calm s r ∧ KeepsRects s r) ∧ (r.1.encoding, r.1.rect) = (s.encoding, s.rect)

theorem connects_of_eq {s : ByteSession Z} {r : ByteSession Z × Verdict}
    (h : r.1.connected = s.connected) : Connects s r := ⟨fun _ => h, fun hs => h.trans hs⟩

theorem Connects.trans {s s' : ByteSession Z} {r : ByteSession Z × Verdict}
    (h : Connects s (s', .done)) (h' : Connects s' r) : Connects s r :=
  ⟨fun hr => (h'.same hr).trans (h.same nofun), fun hs => h'.closed (h.closed hs)⟩

theorem frame_calm : Frame socket (Calm (Z := Z)) where
  done := fun s => ⟨rfl, connects_of_eq rfl, by simp, le_rfl, by simp⟩
  more := fun s => ⟨rfl, connects_of_eq rfl, by simp, le_rfl, by simp⟩
  trans := fun h h' =>
    ⟨h'.flushing.trans h.flushing, h.connects.trans h'.connects, by simpa [h.alive] using h'.alive,
      le_trans h'.length h.length, h'.verdict⟩
  fetch := fun h =>
    ⟨rfl, connects_of_eq rfl, by simp [alive, socket], SafeReader.length_exec h, by simp⟩

theorem frame_keepsRects : Frame socket (KeepsRects (Z := Z)) where
  done := fun _ h => ⟨h, le_rfl⟩
  more := fun _ h => ⟨h, le_rfl⟩
  trans := fun h h' hs => ⟨(h' (h hs).1).1, le_trans (h' (h hs).1).2 (h hs).2⟩
  fetch := fun _ h => ⟨h, le_rfl⟩

theorem frame_steady : Frame socket (Steady (Z := Z)) :=
  (frame_calm.and frame_keepsRects).and
    (frame_field (f := fun s : ByteSession Z => (s.encoding, s.rect)) fun _ _ => rfl)

def outline (s : ByteSession Z) :=
  (s.encoding, s.rect, s.rects, s.flushing, s.connected, s.stray, s.sock)

theorem steady_of_outline {s s' : ByteSession Z} (h : s'.outline = s.outline) :
    Steady s (s', .done) := by
  simp only [outline, Prod.mk.injEq] at h
  obtain ⟨hencoding, hrect, hrects, hflushing, hconnected, hstray, hsock⟩ := h
  refine ⟨⟨⟨hflushing, connects_of_eq hconnected, ?_, by rw [hsock], by simp⟩, ?_⟩,
    by rw [hencoding, hrect]⟩
  · simp [alive, hconnected, hstray]
  · intro hs
    dsimp only
    rw [hrects]
    exact ⟨hs, le_rfl⟩

theorem steady_perform {f : ByteSession Z → ByteSession Z} (h : ∀ s, (f s).outline = s.outline) :
    Obeys Steady (perform f) := fun s => steady_of_outline (h s)

theorem steady_comp {h : Consumer (ByteSession Z)} (hh : Obeys Steady h)
    {f : ByteSession Z → ByteSession Z} (hf : ∀ s, (f s).outline = s.outline) :
    Obeys Steady fun s => h (f s) := fun s =>
  have hs : Steady s (f s, .done) := steady_of_outline (hf s)
  frame_steady.trans hs (hh (f s))

theorem connects_throw (s : ByteSession Z) : Connects s (throw s) :=
  ⟨fun h => absurd rfl (h false), fun _ => rfl⟩

theorem steady_throw : Obeys Steady (throw (Z := Z)) := fun s =>
  ⟨⟨⟨rfl, connects_throw s, by simp [throw, fail, alive], le_rfl, by simp [throw]⟩,
    fun h => ⟨h, le_rfl⟩⟩, rfl⟩

theorem instant_throw : Instant socket (throw (Z := Z) (Q := List UInt8)) :=
  fun _ => ⟨by simp [throw], fun _ => rfl⟩

theorem imageRect_set (s : ByteSession Z) (q : List UInt8) (r : Rect) (mime : String)
    (data : List UInt8) :
    (socket.set s q).imageRect r mime data = socket.set (s.imageRect r mime data) q := by
  unfold imageRect
  split <;> rfl

theorem outline_imageRect (s : ByteSession Z) (r : Rect) (mime : String) (data : List UInt8) :
    (s.imageRect r mime data).outline = s.outline := by
  unfold imageRect
  split <;> rfl

end RfbSession

open RfbSession

theorem Websock.exec_take_zero (q : List UInt8) : (take 0).exec q = some ([], q) := by
  simp [SafeReader.exec, take, QueueReader.run, rQshiftBytes]

/-! ### Raw -/

namespace RawDecoder

theorem resumes_decodeRect (r : Rect) : Resumes feed (decodeRect (Z := Z) r) := by
  have hmore : KeepsWaiting (fun s : ByteSession Z => s.rawLines) (line r) :=
    stays_readThen (fun _ _ => rfl) fun _ => stays_perform _
  have hbody : Resumes feed (line (Z := Z) r) :=
    resumes_readThen (fun _ _ => rfl) fun _ => instant_perform fun _ _ => rfl
  have hdone : ∀ s s' : ByteSession Z, s.rawLines ≠ 0 → line r s = (s', .done) →
      s'.rawLines < s.rawLines := by
    intro s s' hs h
    obtain ⟨data, q, -, h⟩ := readThen_done h
    cases h
    exact Nat.sub_lt (Nat.pos_of_ne_zero hs) Nat.one_pos
  unfold decodeRect
  split
  · exact (instant_perform fun _ _ => rfl).resumes
  · exact resumes_countdown (fun _ _ => rfl) (instant_perform fun _ _ => rfl).resumes
      (stays_perform _) hbody hmore hdone

theorem steady_decodeRect (r : Rect) : Obeys Steady (decodeRect (Z := Z) r) := by
  unfold decodeRect
  split
  · exact steady_perform fun _ => rfl
  · exact frame_steady.obeys_phase (steady_perform fun _ => rfl) (frame_steady.obeys_loopWhile
      (frame_steady.obeys_readThen fun _ => steady_perform fun _ => rfl))

end RawDecoder

/-! ### CopyRect -/

namespace CopyRectDecoder

theorem resumes_decodeRect (r : Rect) : Resumes feed (decodeRect (Z := Z) r) :=
  resumes_readThen (fun _ _ => rfl) fun _ => instant_perform fun _ _ => by split <;> rfl

theorem steady_decodeRect (r : Rect) : Obeys Steady (decodeRect (Z := Z) r) :=
  frame_steady.obeys_readThen fun _ => steady_perform fun _ => by split <;> rfl

end CopyRectDecoder

/-! ### RRE -/

namespace RREDecoder

theorem resumes_decodeRect (r : Rect) : Resumes feed (decodeRect (Z := Z) r) := by
  refine resumes_countdown (fun _ _ => rfl)
    (resumes_readThen (fun _ _ => rfl) fun _ => instant_perform fun _ _ => rfl)
    (stays_readThen (fun _ _ => rfl) fun _ => stays_perform _)
    (resumes_readThen (fun _ _ => rfl) fun _ => instant_perform fun _ _ => rfl)
    (stays_readThen (fun _ _ => rfl) fun _ => stays_perform _) ?_
  intro s s' hs h
  obtain ⟨sub, q, -, h⟩ := readThen_done h
  cases h
  exact Nat.sub_lt (Nat.pos_of_ne_zero hs) Nat.one_pos

theorem steady_decodeRect (r : Rect) : Obeys Steady (decodeRect (Z := Z) r) :=
  frame_steady.obeys_phase
    (frame_steady.obeys_readThen fun _ => steady_perform fun _ => rfl)
    (frame_steady.obeys_loopWhile
      (frame_steady.obeys_readThen fun _ => steady_perform fun _ => rfl))

end RREDecoder

/-! ### Hextile -/

namespace HextileDecoder

theorem tiles_drawTile {d d' : HextileDecoder} {t : Rect} {subencoding : ℕ} {data : List UInt8}
    {calls : List DrawCall} (h : d.drawTile t subencoding data = some (d', calls)) :
    d'.tiles = d.tiles := by
  unfold drawTile at h
  split at h
  · split at h
    · cases h
      rfl
    · obtain ⟨color, -, h⟩ := Option.map_eq_some_iff.mp h
      cases h
      rfl
  · split at h
    · cases h
      rfl
    · dsimp only at h
      split at h
      · cases h
      · obtain ⟨buffer, -, h⟩ := Option.map_eq_some_iff.mp h
        cases h
        rfl

theorem instant_finishTile (t : Rect) (b : Option (ℕ × List UInt8)) :
    Instant socket (finishTile (Z := Z) (Q := List UInt8) t b) := by
  cases b with
  | none => exact instant_throw
  | some b =>
    intro s
    simp only [finishTile, socket]
    split
    · exact instant_throw s
    · exact ⟨by simp, fun _ => rfl⟩

theorem steady_finishTile (t : Rect) (b : Option (ℕ × List UInt8)) :
    Obeys Steady (finishTile (Z := Z) t b) := by
  cases b with
  | none => exact steady_throw
  | some b =>
    intro s
    simp only [finishTile]
    split
    · exact steady_throw s
    · exact steady_of_outline rfl

theorem tiles_of_finishTile {t : Rect} {b : Option (ℕ × List UInt8)} {s s' : ByteSession Z}
    (h : finishTile t b s = (s', .done)) : s'.hextile.tiles = s.hextile.tiles - 1 := by
  cases b with
  | none => cases h
  | some b =>
    simp only [finishTile] at h
    split at h
    · cases h
    · next d calls hd =>
      cases h
      rw [← tiles_drawTile hd]

theorem resumes_decodeRect (r : Rect) : Resumes feed (decodeRect (Z := Z) r) := by
  have hstay : ∀ t (s s' : ByteSession Z),
      readThen socket (fun _ => body t) (finishTile t) s = (s', .more) → s'.hextile = s.hextile :=
    fun t => stays_readThen (fun _ _ => rfl) fun b => (instant_finishTile t b).stays _
  refine resumes_countdown (fun _ _ => rfl) (instant_perform fun _ _ => rfl).resumes
    (stays_perform _)
    (resumes_choose (fun _ _ => rfl)
      (fun t => resumes_readThen (fun _ _ => rfl) (instant_finishTile t)) ?_)
    (stays_choose fun t s s' h => congrArg HextileDecoder.tiles (hstay t s s' h)) ?_
  · intro s s' h
    rw [hstay _ s s' h]
  · intro s s' hs h
    rw [choose] at h
    obtain ⟨b, q, -, h⟩ := readThen_done h
    rw [tiles_of_finishTile h]
    exact Nat.sub_lt (Nat.pos_of_ne_zero hs) Nat.one_pos

theorem steady_decodeRect (r : Rect) : Obeys Steady (decodeRect (Z := Z) r) :=
  frame_steady.obeys_phase (steady_perform fun _ => rfl) (frame_steady.obeys_loopWhile
    (obeys_choose fun t => frame_steady.obeys_readThen (steady_finishTile t)))

end HextileDecoder

/-! ### Tight -/

namespace TightDecoder

variable {png : Bool} {k : List UInt8 → Consumer (ByteSession Z)} {ι : Type}
  {f : ByteSession Z → ι}

theorem resumes_readData (hk : ∀ data, Instant socket (k data)) :
    Resumes feed (readData png k) := by
  have hk' : ∀ data, Instant socket fun s => k data (update png (fun t => { t with len := 0 }) s) :=
    fun data => (hk data).comp fun _ _ => rfl
  refine resumes_phase (fun _ _ => rfl)
    (resumes_readThen (fun _ _ => rfl) fun _ => instant_perform fun _ _ => rfl)
    (resumes_readThen (fun _ _ => rfl) hk') ?_ ?_
  · intro s s' hs h
    rw [(readThen_more (fun _ => instant_perform fun _ _ => rfl) h).1]
    exact hs
  · intro s s' _ h
    obtain ⟨rfl, hnone⟩ := readThen_more hk' h
    -- no bytes would have been there
    refine decide_eq_false fun hzero => ?_
    rw [hzero] at hnone
    simp [ReadQueue.fetch, exec_take_zero] at hnone

theorem stays_readData (hk : ∀ data, Instant socket (k data))
    (hsock : ∀ s q, f (socket.set s q) = f s)
    (hlen : ∀ s len, f (update png (fun t => { t with len := len }) s) = f s) :
    KeepsWaiting f (readData png k) :=
  stays_phase ((frame_field hsock).obeys_readThen fun len s => hlen s len)
    (stays_readThen hsock fun data => ((hk data).comp fun _ _ => rfl).stays f)

theorem steady_readData (hk : ∀ data, Obeys Steady (k data)) : Obeys Steady (readData png k) :=
  frame_steady.obeys_phase (frame_steady.obeys_readThen fun _ => steady_perform fun _ => rfl)
    (frame_steady.obeys_readThen fun data => steady_comp (hk data) fun _ => rfl)

variable {streamId : Fin 4} {size : ℕ}

theorem instant_expand (hk : ∀ data, Instant socket (k data)) (data : List UInt8) :
    Instant socket (expand zlib png streamId size k data) := by
  intro s
  simp only [expand, socket]
  split
  · exact instant_throw s
  · next z out _ => exact (hk out).comp (fun _ _ => rfl) s

theorem steady_expand (hk : ∀ data, Obeys Steady (k data)) (data : List UInt8) :
    Obeys Steady (expand zlib png streamId size k data) := by
  intro s
  simp only [expand]
  split
  · exact steady_throw s
  · next z out _ => exact frame_steady.trans (steady_of_outline (by rfl)) (hk out _)

theorem resumes_pixelData (hk : ∀ data, Instant socket (k data)) :
    Resumes feed (pixelData zlib png streamId size k) := by
  unfold pixelData
  split
  · exact resumes_readThen (fun _ _ => rfl) hk
  · exact resumes_readData (instant_expand zlib hk)

theorem stays_pixelData (hk : ∀ data, Instant socket (k data))
    (hsock : ∀ s q, f (socket.set s q) = f s)
    (hlen : ∀ s len, f (update png (fun t => { t with len := len }) s) = f s) :
    KeepsWaiting f (pixelData zlib png streamId size k) := by
  unfold pixelData
  split
  · exact stays_readThen hsock fun data => (hk data).stays f
  · exact stays_readData (instant_expand zlib hk) hsock hlen

theorem steady_pixelData (hk : ∀ data, Obeys Steady (k data)) :
    Obeys Steady (pixelData zlib png streamId size k) := by
  unfold pixelData
  split
  · exact frame_steady.obeys_readThen hk
  · exact steady_readData (steady_expand zlib hk)

/-! #### The filters -/

theorem resumes_copyFilter (r : Rect) :
    Resumes feed (copyFilter (Z := Z) zlib png streamId r) := by
  unfold copyFilter
  split
  · exact (instant_perform fun _ _ => rfl).resumes
  · exact resumes_pixelData zlib fun _ => instant_perform fun _ _ => rfl

theorem resumes_gradientFilter (r : Rect) :
    Resumes feed (gradientFilter (Z := Z) zlib png streamId r) := by
  unfold gradientFilter
  split
  · exact (instant_perform fun _ _ => rfl).resumes
  · exact resumes_pixelData zlib fun _ => instant_perform fun _ _ => rfl

theorem resumes_paletteData (r : Rect) (numColors : ℕ) :
    Resumes feed (paletteData (Z := Z) zlib png streamId r numColors) := by
  unfold paletteData
  split
  · exact (instant_perform fun _ _ => rfl).resumes
  · exact resumes_pixelData zlib fun _ => instant_perform fun _ _ => rfl

section KeepsWaiting

variable (hsock : ∀ s q, f (socket.set s q) = f s)
  (hlen : ∀ s len, f (update png (fun t => { t with len := len }) s) = f s)

include hsock hlen

theorem stays_copyFilter (r : Rect) : KeepsWaiting f (copyFilter zlib png streamId r) := by
  unfold copyFilter
  split
  · exact stays_perform _
  · refine stays_pixelData zlib (fun _ => ?_) hsock hlen
    exact instant_perform fun _ _ => rfl

theorem stays_gradientFilter (r : Rect) : KeepsWaiting f (gradientFilter zlib png streamId r) := by
  unfold gradientFilter
  split
  · exact stays_perform _
  · refine stays_pixelData zlib (fun _ => ?_) hsock hlen
    exact instant_perform fun _ _ => rfl

theorem stays_paletteData (r : Rect) (numColors : ℕ) :
    KeepsWaiting f (paletteData zlib png streamId r numColors) := by
  unfold paletteData
  split
  · exact stays_perform _
  · refine stays_pixelData zlib (fun _ => ?_) hsock hlen
    exact instant_perform fun _ _ => rfl

theorem stays_paletteFilter (r : Rect)
    (hpalette : ∀ s g, (∀ t : TightDecoder Z, (g t).ctl = t.ctl ∧ (g t).filter = t.filter) →
      f (update png g s) = f s) :
    KeepsWaiting f (paletteFilter zlib png streamId r) := by
  refine stays_phase ((frame_field hsock).obeys_readThen fun (numColors, colors) s => ?_)
    (stays_choose (stays_paletteData zlib hsock hlen r))
  exact hpalette s (fun t => { t with
    numColors := numColors + 1, palette := colors ++ t.palette.drop colors.length })
    fun _ => ⟨rfl, rfl⟩

end KeepsWaiting

/-- The palette has at least one colour: behind it the filter does not begin anew. -/
theorem resumes_paletteFilter (r : Rect) :
    Resumes feed (paletteFilter (Z := Z) zlib png streamId r) := by
  have hstay : ∀ numColors (s s' : ByteSession Z),
      paletteData zlib png streamId r numColors s = (s', .more) →
      (s'.tight png).numColors = (s.tight png).numColors := fun numColors =>
    stays_paletteData (f := fun s => (s.tight png).numColors) zlib (fun _ _ => rfl)
      (fun _ _ => by simp [update]) r numColors
  refine resumes_phase (fun _ _ => rfl)
    (resumes_readThen (fun _ _ => rfl) fun _ => instant_perform fun _ _ => rfl)
    (resumes_choose (fun _ _ => rfl) (resumes_paletteData zlib r) fun s s' => hstay _ s s') ?_ ?_
  · intro s s' hs h
    rw [(readThen_more (fun _ => instant_perform fun _ _ => rfl) h).1]
    exact hs
  · intro s s' hs h
    rw [hstay _ s s' h]
    refine decide_eq_false fun hzero => ?_
    obtain ⟨s₀, h₀⟩ := hs (decide_eq_true hzero)
    obtain ⟨⟨numColors, colors⟩, q, -, h₀⟩ := readThen_done h₀
    cases h₀
    simp [update] at hzero

theorem steady_copyFilter (r : Rect) :
    Obeys Steady (copyFilter (Z := Z) zlib png streamId r) := by
  unfold copyFilter
  split
  · exact steady_perform fun _ => rfl
  · exact steady_pixelData zlib fun _ => steady_perform fun _ => rfl

theorem steady_gradientFilter (r : Rect) :
    Obeys Steady (gradientFilter (Z := Z) zlib png streamId r) := by
  unfold gradientFilter
  split
  · exact steady_perform fun _ => rfl
  · exact steady_pixelData zlib fun _ => steady_perform fun _ => rfl

theorem steady_paletteFilter (r : Rect) :
    Obeys Steady (paletteFilter (Z := Z) zlib png streamId r) := by
  refine frame_steady.obeys_phase (frame_steady.obeys_readThen fun _ => steady_perform fun _ => rfl)
    (obeys_choose fun numColors => ?_)
  unfold paletteData
  split
  · exact steady_perform fun _ => rfl
  · exact steady_pixelData zlib fun _ => steady_perform fun _ => rfl

theorem stays_filterRect (r : Rect) (hsock : ∀ s q, f (socket.set s q) = f s)
    (hupdate : ∀ s g, (∀ t : TightDecoder Z, (g t).ctl = t.ctl ∧ (g t).filter = t.filter) →
      f (update png g s) = f s) (filter : Option ℕ) :
    KeepsWaiting f (filterRect zlib png streamId r filter) := by
  have hlen : ∀ s len, f (update png (fun t => { t with len := len }) s) = f s :=
    fun s len => hupdate s _ fun _ => ⟨rfl, rfl⟩
  unfold filterRect
  split
  · exact stays_copyFilter zlib hsock hlen r
  · exact stays_paletteFilter zlib hsock hlen r hupdate
  · exact stays_gradientFilter zlib hsock hlen r
  · exact instant_throw.stays f

theorem resumes_filterRect (r : Rect) (filter : Option ℕ) :
    Resumes feed (filterRect (Z := Z) zlib png streamId r filter) := by
  unfold filterRect
  split
  · exact resumes_copyFilter zlib r
  · exact resumes_paletteFilter zlib r
  · exact resumes_gradientFilter zlib r
  · exact instant_throw.resumes

theorem steady_filterRect (r : Rect) (filter : Option ℕ) :
    Obeys Steady (filterRect (Z := Z) zlib png streamId r filter) := by
  unfold filterRect
  split
  · exact steady_copyFilter zlib r
  · exact steady_paletteFilter zlib r
  · exact steady_gradientFilter zlib r
  · exact steady_throw

/-! #### Rectangles -/

theorem stays_basicRect (ctl : ℕ) (r : Rect) :
    KeepsWaiting (fun s : ByteSession Z => (s.tight png).ctl) (basicRect zlib png ctl r) := by
  have hfilter : ∀ filter, KeepsWaiting (fun s : ByteSession Z => (s.tight png).ctl)
      (filterRect zlib png (Fin.ofNat 4 (ctl &&& 0x3)) r filter) :=
    stays_filterRect zlib r (fun _ _ => rfl) fun s g hg => by simp [update, (hg _).1]
  unfold basicRect
  split
  · exact instant_throw.stays _
  · intro s s' h
    obtain h | ⟨s₁, -, h⟩ := andThen_more h
    · refine stays_phase ?_ (stays_choose hfilter) s s' h
      split
      · exact (frame_field (f := fun s : ByteSession Z => (s.tight png).ctl)
          fun _ _ => rfl).obeys_readThen fun filter s => by simp [perform, update]
      · intro s
        simp [perform, update]
    · cases h

theorem resumes_basicRect (ctl : ℕ) (r : Rect) :
    Resumes feed (basicRect (Z := Z) zlib png ctl r) := by
  have hfilter : ∀ filter, KeepsWaiting (fun s : ByteSession Z => (s.tight png).filter)
      (filterRect zlib png (Fin.ofNat 4 (ctl &&& 0x3)) r filter) :=
    stays_filterRect zlib r (fun _ _ => rfl) fun s g hg => by simp [update, (hg _).2]
  unfold basicRect
  split
  · exact instant_throw.resumes
  · refine resumes_andThen (resumes_phase (fun _ _ => rfl) ?_ (resumes_choose (fun _ _ => rfl)
      (resumes_filterRect zlib r) fun s s' => hfilter _ s s') ?_ ?_)
      (instant_perform fun _ _ => rfl)
    · split
      · exact resumes_readThen (fun _ _ => rfl) fun _ => instant_perform fun _ _ => rfl
      · exact (instant_perform fun _ _ => rfl).resumes
    · intro s s' hs h
      split at h
      · rw [(readThen_more (fun _ => instant_perform fun _ _ => rfl) h).1]
        exact hs
      · cases h
    · intro s s' _ h
      have hkeep : (s'.tight png).filter = (s.tight png).filter := hfilter _ s s' h
      rw [hkeep]
      refine decide_eq_false fun hnone => ?_
      simp only [choose, hnone, filterRect] at h
      cases h

theorem steady_basicRect (ctl : ℕ) (r : Rect) :
    Obeys Steady (basicRect (Z := Z) zlib png ctl r) := by
  unfold basicRect
  split
  · exact steady_throw
  · refine frame_steady.obeys_andThen (frame_steady.obeys_phase ?_
      (obeys_choose (steady_filterRect zlib r))) (steady_perform fun _ => rfl)
    split
    · exact frame_steady.obeys_readThen fun _ => steady_perform fun _ => rfl
    · exact steady_perform fun _ => rfl

theorem resumes_controlRect (r : Rect) (ctl : Option ℕ) :
    Resumes feed (controlRect (Z := Z) zlib png r ctl) := by
  unfold controlRect
  split
  · exact resumes_readThen (fun _ _ => rfl) fun _ => instant_perform fun _ _ => rfl
  · exact resumes_readData fun _ => instant_perform fun s q => imageRect_set s q _ _ _
  · unfold pngRect
    split
    · exact resumes_readData fun _ => instant_perform fun s q => imageRect_set s q _ _ _
    · exact instant_throw.resumes
  · split
    · exact resumes_basicRect zlib _ r
    · exact instant_throw.resumes
  · exact instant_throw.resumes

theorem stays_controlRect (r : Rect) (ctl : Option ℕ) :
    KeepsWaiting (fun s : ByteSession Z => (s.tight png).ctl) (controlRect zlib png r ctl) := by
  have hdata : ∀ mime, KeepsWaiting (fun s : ByteSession Z => (s.tight png).ctl)
      (readData png fun data => perform fun s => s.imageRect r mime data) := fun mime =>
    stays_readData (fun _ => instant_perform fun s q => imageRect_set s q _ _ _) (fun _ _ => rfl)
      fun _ _ => by simp [update]
  unfold controlRect
  split
  · exact stays_readThen (fun _ _ => rfl) fun _ => stays_perform _
  · exact hdata _
  · unfold pngRect
    split
    · exact hdata _
    · exact instant_throw.stays _
  · split
    · exact stays_basicRect zlib _ r
    · exact instant_throw.stays _
  · exact instant_throw.stays _

theorem steady_controlRect (r : Rect) (ctl : Option ℕ) :
    Obeys Steady (controlRect (Z := Z) zlib png r ctl) := by
  unfold controlRect
  split
  · exact frame_steady.obeys_readThen fun _ => steady_perform fun _ => rfl
  · exact steady_readData fun _ => steady_perform fun s => outline_imageRect s _ _ _
  · unfold pngRect
    split
    · exact steady_readData fun _ => steady_perform fun s => outline_imageRect s _ _ _
    · exact steady_throw
  · split
    · exact steady_basicRect zlib _ r
    · exact steady_throw
  · exact steady_throw

theorem resumes_decodeRect (r : Rect) : Resumes feed (decodeRect (Z := Z) zlib png r) := by
  have hcontrol : ∀ ctl, Instant socket (setControl (Z := Z) (Q := List UInt8) zlib png ctl) :=
    fun _ => instant_perform fun _ _ => rfl
  refine resumes_andThen (resumes_phase (fun _ _ => rfl)
    (resumes_readThen (fun _ _ => rfl) hcontrol)
    (resumes_choose (fun _ _ => rfl) (resumes_controlRect zlib r) fun s s' =>
      stays_controlRect zlib r _ s s') ?_ ?_) (instant_perform fun _ _ => rfl)
  · intro s s' hs h
    rw [(readThen_more hcontrol h).1]
    exact hs
  · intro s s' _ h
    have hkeep : (s'.tight png).ctl = (s.tight png).ctl := stays_controlRect zlib r _ s s' h
    rw [hkeep]
    refine decide_eq_false fun hnone => ?_
    simp only [choose, hnone, controlRect] at h
    cases h

theorem steady_decodeRect (r : Rect) : Obeys Steady (decodeRect (Z := Z) zlib png r) :=
  frame_steady.obeys_andThen
    (frame_steady.obeys_phase (frame_steady.obeys_readThen fun _ => steady_perform fun _ => rfl)
      (obeys_choose (steady_controlRect zlib r))) (steady_perform fun _ => rfl)

end TightDecoder

/-! ### ZRLE -/

namespace ZrleDecoder

theorem instant_drawTiles (out : ZrleDecoder Z × List DrawCall × Bool) :
    Instant socket (drawTiles (Q := List UInt8) out) := by
  obtain ⟨d, calls, _ | _⟩ := out
  · exact instant_throw.comp fun _ _ => rfl
  · exact instant_perform fun _ _ => rfl

theorem steady_drawTiles (out : ZrleDecoder Z × List DrawCall × Bool) :
    Obeys Steady (drawTiles (Q := List UInt8) out) := by
  obtain ⟨d, calls, _ | _⟩ := out
  · exact steady_comp steady_throw fun _ => rfl
  · exact steady_perform fun _ => rfl

theorem instant_tiles (r : Rect) (data : List UInt8) :
    Instant socket (tiles (Z := Z) (Q := List UInt8) zlib r data) := fun s =>
  instant_drawTiles _ s

theorem resumes_decodeRect (r : Rect) : Resumes feed (decodeRect (Z := Z) zlib r) := by
  refine resumes_phase (fun _ _ => rfl)
    (resumes_readThen (fun _ _ => rfl) fun _ => instant_perform fun _ _ => rfl)
    (resumes_readThen (fun _ _ => rfl) (instant_tiles zlib r)) ?_ ?_
  · intro s s' hs h
    rw [(readThen_more (fun _ => instant_perform fun _ _ => rfl) h).1]
    exact hs
  · intro s s' _ h
    obtain ⟨rfl, hnone⟩ := readThen_more (instant_tiles zlib r) h
    refine decide_eq_false fun hzero => ?_
    rw [hzero] at hnone
    simp [ReadQueue.fetch, exec_take_zero] at hnone

theorem steady_decodeRect (r : Rect) : Obeys Steady (decodeRect (Z := Z) zlib r) := by
  refine frame_steady.obeys_phase (frame_steady.obeys_readThen fun _ => steady_perform fun _ => rfl)
    (frame_steady.obeys_readThen fun data s => ?_)
  exact steady_drawTiles _ s

end ZrleDecoder

/-! ### JPEG -/

namespace JpegDecoder

theorem instant_addSegment (segment : Option (List UInt8)) :
    Instant socket (addSegment (Z := Z) (Q := List UInt8) segment) := by
  cases segment with
  | none => exact instant_throw
  | some segment => exact instant_perform fun _ _ => rfl

theorem steady_addSegment (segment : Option (List UInt8)) :
    Obeys Steady (addSegment (Z := Z) segment) := by
  cases segment with
  | none => exact steady_throw
  | some segment => exact steady_perform fun _ => rfl

theorem instant_finish (r : Rect) : Instant socket (finish (Z := Z) (Q := List UInt8) r) := by
  intro s
  have hjpeg : ∀ q, (socket.set s q).jpeg = s.jpeg := fun _ => rfl
  simp only [finish, hjpeg]
  split
  · exact instant_throw s
  · next image d _ =>
    refine ⟨by simp, fun q => ?_⟩
    rw [← imageRect_set]
    rfl

theorem steady_finish (r : Rect) : Obeys Steady (finish (Z := Z) (Q := List UInt8) r) := by
  intro s
  simp only [finish]
  split
  · exact steady_throw s
  · exact steady_of_outline (outline_imageRect _ _ _ _)

theorem resumes_decodeRect (r : Rect) : Resumes feed (decodeRect (Z := Z) r) := by
  refine resumes_andThen (resumes_loopWhile (fun s _ => Nat.succ_pos _) ?_ (fun _ _ => rfl)
    (resumes_readThen (fun _ _ => rfl) instant_addSegment) ?_) (instant_finish r)
  · intro s s' _ h
    obtain ⟨segment, q, hfetch, h⟩ := readThen_done h
    have hlt : q.length < s.sock.length := SafeReader.length_exec_lt rfl Nat.one_pos hfetch
    cases segment with
    | none => cases h
    | some segment =>
      cases h
      exact Nat.succ_lt_succ hlt
  · intro s s' hs h
    rw [(readThen_more instant_addSegment h).1]
    exact hs

theorem steady_decodeRect (r : Rect) : Obeys Steady (decodeRect (Z := Z) (Q := List UInt8) r) :=
  frame_steady.obeys_andThen
    (frame_steady.obeys_loopWhile (frame_steady.obeys_readThen steady_addSegment))
    (steady_finish r)

end JpegDecoder

end Urc
