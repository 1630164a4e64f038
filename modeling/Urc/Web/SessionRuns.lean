import Urc.Library.Run
import Urc.Web.Chunking
import Urc.Web.SessionImage
import Urc.Web.Websock

/-! # Runs of a connected session

A session gets the messages of the server in messages of the WebSocket whose ends are anywhere, and
waits at times for its display. Behind a run it has drawn, answered and told the page what it would
have, had all bytes come at once and had the display delayed nothing.
-/

namespace Urc

open Consumer

/-- What happens to a connected session: a message of the WebSocket arrives, or the display has
rendered all that was queued. -/
inductive StreamEvent
  | message (u8 : List UInt8)
  | rendered

namespace RfbSession

variable {Z Q Q' : Type} [ReadQueue Q UInt8] [ReadQueue Q' UInt8] (zlib : Inflate Z)

/-- The loop of `_handleMessage`, for a number of calls. -/
def decode : ℕ → RfbSession Z Q → RfbSession Z Q
  | 0, s => s
  | fuel + 1, s =>
    if s.flushing || ReadQueue.length s.sock = 0 then s
    else
      match normalMsg zlib s with
      | (s', .done) | (s', .lost true) => decode fuel s'
      | (s', .more) | (s', .held) | (s', .lost false) => s'

/-- `_handleMessage`, of a connected session. -/
def handleMessages (s : RfbSession Z Q) : RfbSession Z Q :=
  decode zlib (2 * ReadQueue.length s.sock + (if s.rects = 0 then 0 else 1) + 1) s

/-- `recv` takes a message into the queue, and gives nothing where it throws; `beyond` is whatever
the source does with a session that is not followed. -/
def step (recv : Q → List UInt8 → Option Q) (beyond : RfbSession Z Q → StreamEvent → RfbSession Z Q)
    (s : RfbSession Z Q) (e : StreamEvent) : RfbSession Z Q :=
  if s.stray then beyond s e
  else
    match e with
    | .message u8 =>
      if s.connected then
        match recv s.sock u8 with
        | none => { s with stray := true }
        | some q => handleMessages zlib { s with sock := q }
      else s
    | .rendered =>
      if s.flushing && s.connected then
        handleMessages zlib { s with pending := false, flushing := false }
      else { s with pending := false, flushing := false }

def Followed (recv : Q → List UInt8 → Option Q)
    (beyond : RfbSession Z Q → StreamEvent → RfbSession Z Q) (s : RfbSession Z Q)
    (e : StreamEvent) : Prop :=
  (step zlib recv beyond s e).stray = false

section Step

variable {recv : Q → List UInt8 → Option Q} {beyond : RfbSession Z Q → StreamEvent → RfbSession Z Q}
  {s : RfbSession Z Q}

theorem step_message (hs : s.stray = false) (u8 : List UInt8) :
    step zlib recv beyond s (.message u8) =
      if s.connected then
        match recv s.sock u8 with
        | none => { s with stray := true }
        | some q => handleMessages zlib { s with sock := q }
      else s := by
  rw [step, if_neg (by simp [hs])]

theorem step_rendered (hs : s.stray = false) : step zlib recv beyond s .rendered =
    if s.flushing && s.connected then
      handleMessages zlib { s with pending := false, flushing := false }
    else { s with pending := false, flushing := false } := by
  rw [step, if_neg (by simp [hs])]

end Step

/-! ### Another queue -/

variable {f : Q → Q'} (hf : QueueHom f)

include hf

theorem decode_image (fuel : ℕ) (s : RfbSession Z Q) :
    decode zlib fuel (image f true s) = image f true (decode zlib fuel s) := by
  induction fuel generalizing s with
  | zero => rfl
  | succ fuel ih =>
    have hlen : ReadQueue.length (image f true s).sock = ReadQueue.length s.sock :=
      hf.length s.sock
    have hflushing : (image f true s).flushing = s.flushing := rfl
    unfold decode
    rw [hlen, hflushing, normalMsg_image zlib hf (.inl rfl)]
    split
    · rfl
    · rcases normalMsg zlib s with ⟨s', _ | _ | _ | (_ | _)⟩
      · exact ih s'
      · rfl
      · rfl
      · rfl
      · exact ih s'

theorem handleMessages_image (s : RfbSession Z Q) :
    handleMessages zlib (image f true s) = image f true (handleMessages zlib s) := by
  have hlen : ReadQueue.length (image f true s).sock = ReadQueue.length s.sock := hf.length s.sock
  unfold handleMessages
  rw [hlen]
  exact decode_image zlib hf _ s

theorem step_image {recv : Q → List UInt8 → Option Q} {recv' : Q' → List UInt8 → Option Q'}
    {beyond : RfbSession Z Q → StreamEvent → RfbSession Z Q}
    {beyond' : RfbSession Z Q' → StreamEvent → RfbSession Z Q'}
    (hrecv : ∀ q u8, recv' (f q) u8 = (recv q u8).map f) {s : RfbSession Z Q}
    (hs : s.stray = false) (e : StreamEvent) :
    step zlib recv' beyond' (image f true s) e = image f true (step zlib recv beyond s e) := by
  have hs' : (image f true s).stray = false := hs
  cases e with
  | message u8 =>
    have hconnected : (image f true s).connected = s.connected := rfl
    have hsock : recv' (image f true s).sock u8 = (recv s.sock u8).map f := hrecv s.sock u8
    rw [step_message zlib hs, step_message zlib hs', hconnected, hsock]
    split
    · cases recv s.sock u8 with
      | none => rfl
      | some q => exact handleMessages_image zlib hf { s with sock := q }
    · rfl
  | rendered =>
    have hready : ((image f true s).flushing && (image f true s).connected) =
        (s.flushing && s.connected) := rfl
    rw [step_rendered zlib hs, step_rendered zlib hs', hready]
    split
    · exact handleMessages_image zlib hf { s with pending := false, flushing := false }
    · rfl

omit hf

/-! ### A display that delays nothing -/

def Idle (s : ByteSession Z) : Prop := s.rects = 0 → s.encoding = none

def undelayed (s : ByteSession Z) : ByteSession Z := image id false s

theorem queueHom_id : QueueHom (id : List UInt8 → List UInt8) where
  fetch p q := by
    rw [id, show (fun r : _ × List UInt8 => (r.1, id r.2)) = id from rfl, Option.map_id, id]
  length _ := rfl

theorem frame_idle : Frame socket
    (fun (s : ByteSession Z) r => s.Idle → r.2 = .done → r.1.Idle) where
  done := fun _ h _ => h
  more := fun _ _ h => absurd h (by simp)
  trans := fun h h' hs hv => h' (h hs rfl) hv
  fetch := fun _ h _ => h

variable {s s' : ByteSession Z} {v : Verdict}

theorem idle_framebufferUpdate (hs : s.Idle) (h : framebufferUpdate zlib s = (s', .done)) :
    s'.Idle := by
  have hnext : Obeys (fun (s : ByteSession Z) r => s.Idle → r.2 = .done → r.1.Idle)
      (nextRect zlib) := by
    intro s _ hv
    obtain ⟨s₁, -, h⟩ := andThen_done (show nextRect zlib s = (_, .done) from Prod.ext rfl hv)
    rw [← congrArg Prod.fst h]
    exact fun _ => rfl
  have hloop : Obeys (fun (s : ByteSession Z) r => s.Idle → r.2 = .done → r.1.Idle)
      (loopWhile (fun s => s.rects ≠ 0) (fun s => s.rects) (nextRect zlib)) :=
    frame_idle.obeys_loopWhile hnext
  obtain ⟨s₁, h₁, h⟩ := andThen_done h
  have hidle := hloop s hs
  rw [h₁] at hidle
  cases h
  have hout := outline_finishUpdate s₁
  simp only [outline, Prod.mk.injEq] at hout
  intro hrects
  rw [hout.1]
  exact hidle rfl (hout.2.2.1 ▸ hrects)

theorem idle_normalMsg (hs : s.Idle) (h : normalMsg zlib s = (s', v)) (hv : v ≠ .lost false) :
    s'.Idle := by
  have hupdate : ∀ {s s' : ByteSession Z}, s.Idle → framebufferUpdate zlib s = (s', v) →
      s'.Idle := by
    intro s s' hs h
    have hcalm := calm_framebufferUpdate zlib s
    rw [h] at hcalm
    rcases v with _ | _ | _ | (_ | _)
    · exact idle_framebufferUpdate zlib hs h
    · exact fun hzero => absurd hzero (rects_of_framebufferUpdate_more zlib h)
    · exact absurd rfl hcalm.verdict.1
    · exact absurd rfl hv
    · exact absurd rfl hcalm.verdict.2
  unfold normalMsg readThen at h
  split at h
  · exact hupdate hs h
  · next hzero =>
    split at h
    · cases h
      exact hs
    · next m rest _ =>
      by_cases hm : ∀ rects, m ≠ .framebufferUpdate rects
      · rw [dispatchMessage_of_ne zlib hm] at h
        have hanswers := answers_handleMessage zlib m (socket.set s rest)
        rw [h] at hanswers
        intro hrects
        exact hanswers.encoding.trans (hs (hanswers.rects ▸ hrects))
      · push Not at hm
        obtain ⟨rects, rfl⟩ := hm
        simp only [dispatchMessage, beginUpdate] at h
        split at h
        · cases h
          exact fun _ => hs (not_not.mp hzero)
        · refine hupdate ?_ h
          exact fun _ => hs (not_not.mp hzero)

/-- An update that waits for the display has its header read; a display that delays nothing would
have gone on from there. -/
theorem normalMsg_held (h : normalMsg zlib s = (s', .held)) :
    (s'.flushing = true ∧ s'.connected = s.connected ∧ s'.encoding = s.encoding) ∧ s.rects = 0 ∧
      normalMsg zlib s.undelayed = framebufferUpdate zlib s'.undelayed := by
  have hupdate : ∀ s : ByteSession Z, framebufferUpdate zlib s ≠ (s', .held) := by
    intro s heq
    have hcalm := calm_framebufferUpdate zlib s
    rw [heq] at hcalm
    exact hcalm.verdict.1 rfl
  unfold normalMsg readThen at h
  split at h
  · exact absurd h (hupdate s)
  · next hzero =>
    split at h
    · cases h
    · next m rest hfetch =>
      by_cases hm : ∀ rects, m ≠ .framebufferUpdate rects
      · rw [dispatchMessage_of_ne zlib hm] at h
        have hanswers := answers_handleMessage zlib m (socket.set s rest)
        rw [h] at hanswers
        exact absurd rfl hanswers.held
      · push Not at hm
        obtain ⟨rects, rfl⟩ := hm
        simp only [dispatchMessage, beginUpdate] at h
        split at h
        · cases h
          refine ⟨⟨rfl, rfl, rfl⟩, not_not.mp hzero, ?_⟩
          have hsock : ReadQueue.fetch ServerMessage.reader (socket.get s.undelayed) =
              some (.framebufferUpdate rects, rest) := hfetch
          unfold normalMsg readThen
          rw [if_neg (by exact hzero), hsock]
          rfl
        · exact absurd h (hupdate _)

theorem normalMsg_undelayed (h : normalMsg zlib s = (s', v)) (hv : v ≠ .held) :
    normalMsg zlib s.undelayed = (s'.undelayed, v) := by
  have himage : normalMsg zlib (image id false s) = _ :=
    normalMsg_image zlib queueHom_id (.inr (by rw [h]; exact hv))
  rw [h] at himage
  exact himage

theorem framebufferUpdate_of_empty (hrects : s.rects ≠ 0) (hencoding : s.encoding = none)
    (hsock : s.sock = []) : framebufferUpdate zlib s = (s, .more) := by
  have hfetch : ReadQueue.fetch rectHeader (socket.get s) = none := by
    rw [show socket.get s = [] from hsock]
    rfl
  have hnext : nextRect zlib s = (s, .more) := by
    simp [nextRect, andThen, phase, readThen, hencoding, hfetch]
  unfold framebufferUpdate
  rw [andThen, loopWhile_of_left (fun s hs => Nat.pos_of_ne_zero (of_decide_eq_true hs))
    (fun s s' hs => rects_lt_of_nextRect zlib (of_decide_eq_true hs)) (decide_eq_true hrects),
    andThen, hnext]

/-! ### The loop -/

theorem decode_eq_loop (fuel : ℕ) (s : ByteSession Z) :
    decode zlib fuel s = (stream zlib).loop fuel s := by
  induction fuel generalizing s with
  | zero => rfl
  | succ fuel ih =>
    have hready : (stream zlib).ready s = !(s.flushing || ReadQueue.length s.sock = 0) := by
      cases h : s.sock <;> simp [StreamHandler.ready, stream, ReadQueue.length, h]
    unfold decode StreamHandler.loop
    rw [hready]
    cases s.flushing || decide (ReadQueue.length s.sock = 0) with
    | true => rfl
    | false =>
      have hhandle : (stream zlib).handle s = normalMsg zlib s := rfl
      simp only [Bool.false_eq_true, if_false, Bool.not_false, if_true, hhandle]
      rcases normalMsg zlib s with ⟨s', _ | _ | _ | (_ | _)⟩
      · exact ih s'
      · rfl
      · rfl
      · rfl
      · exact ih s'

theorem handleMessages_eq_drain (s : ByteSession Z) :
    handleMessages zlib s = (stream zlib).drain s :=
  decode_eq_loop zlib _ s

/-- What the loop makes of a session, seen from a display that delays nothing: whatever follows, the
rest of what that display would have let it do is still to be done. -/
structure Settles (s s' : ByteSession Z) : Prop where
  idle : s'.alive = true → s'.Idle
  same : s'.alive = true → ∀ r, (stream zlib).drain (feed s r).undelayed =
    (stream zlib).drain (feed s' r).undelayed
  quiet : s'.alive = true → s'.flushing = false → (stream zlib).drain s'.undelayed = s'.undelayed
  lost : s'.connected = false → ((stream zlib).drain s.undelayed).connected = false

variable {zlib}

theorem ready_undelayed (hwait : (stream zlib).waiting s = true) :
    (stream zlib).ready s.undelayed = true := by
  rw [StreamHandler.ready, show (stream zlib).waiting s.undelayed = true from hwait]
  rfl

theorem waiting_feed (hwait : (stream zlib).waiting s = true) (r : List UInt8) :
    (stream zlib).waiting (feed s r) = true := by
  rw [show feed s r = (stream zlib).feed s r from rfl, (stream zlib).waiting_feed, hwait,
    Bool.true_or]

theorem drain_undelayed_of_empty (hwait : (stream zlib).waiting s = false) :
    (stream zlib).drain s.undelayed = s.undelayed := by
  refine StreamHandler.drain_of_not_ready ?_
  rw [StreamHandler.ready, show (stream zlib).waiting s.undelayed = false from hwait,
    Bool.and_false]

theorem settles_of_empty (hs : s.Idle) (hwait : (stream zlib).waiting s = false) :
    Settles zlib s s where
  idle _ := hs
  same _ _ := rfl
  quiet _ _ := drain_undelayed_of_empty hwait
  lost hdead := by rwa [drain_undelayed_of_empty hwait]

theorem settles_of_more (hs : s.Idle) (hwait : (stream zlib).waiting s = true)
    (h : normalMsg zlib s = (s', .more)) : Settles zlib s s' := by
  have hmore := normalMsg_undelayed zlib h (by simp)
  have hdrain : (stream zlib).drain s.undelayed = s'.undelayed := by
    rw [StreamHandler.drain_of_ready (ready_undelayed hwait),
      show (stream zlib).handle s.undelayed = _ from hmore]
  -- the same call is made again, on the same bytes
  have hquiet : (stream zlib).drain s'.undelayed = s'.undelayed := by
    cases hwait' : (stream zlib).waiting s' with
    | false => exact drain_undelayed_of_empty hwait'
    | true =>
      have hagain := (stream zlib).resumes.more hmore []
      rw [(stream zlib).feed_nil, (stream zlib).feed_nil] at hagain
      rw [StreamHandler.drain_of_ready (ready_undelayed hwait'), ← hagain,
        show (stream zlib).handle s.undelayed = _ from hmore]
  refine ⟨fun _ => idle_normalMsg zlib hs h (by simp), fun ha r => ?_, fun _ _ => hquiet,
    fun hdead => ?_⟩
  · have hfeed := StreamHandler.drain_feed (H := stream zlib) s.undelayed r
    rw [hdrain] at hfeed
    exact (hfeed ha).symm
  · rw [hdrain]
    exact hdead

theorem drain_of_held (hs : s.Idle) (hwait : (stream zlib).waiting s = true)
    (h : normalMsg zlib s = (s', .held)) (hrects : s'.rects ≠ 0) :
    (stream zlib).drain s.undelayed = (stream zlib).drain s'.undelayed := by
  obtain ⟨⟨-, -, hencoding⟩, hzero, hnext⟩ := normalMsg_held zlib h
  have hupdate : normalMsg zlib s'.undelayed = framebufferUpdate zlib s'.undelayed := by
    rw [normalMsg, if_pos (by exact hrects)]
  rw [StreamHandler.drain_of_ready (ready_undelayed hwait),
    show (stream zlib).handle s.undelayed = _ from hnext]
  cases hwait' : (stream zlib).waiting s' with
  | true =>
    rw [StreamHandler.drain_of_ready (ready_undelayed hwait'),
      show (stream zlib).handle s'.undelayed = _ from hupdate]
  | false =>
    have hsock : s'.sock = [] := by simpa [stream] using hwait'
    have hwaits : framebufferUpdate zlib s'.undelayed = (s'.undelayed, .more) :=
      framebufferUpdate_of_empty zlib hrects (hencoding.trans (hs hzero)) hsock
    rw [hwaits, drain_undelayed_of_empty hwait']

theorem settles_of_held (hs : s.Idle) (hwait : (stream zlib).waiting s = true)
    (h : normalMsg zlib s = (s', .held)) (hrects : s'.rects ≠ 0) : Settles zlib s s' := by
  obtain ⟨⟨hflushing, hconnected, -⟩, -⟩ := normalMsg_held zlib h
  refine ⟨fun _ => idle_normalMsg zlib hs h (by simp), fun _ r => ?_, fun _ hf => ?_,
    fun hdead => (lasting_closed zlib).drain (hconnected.symm.trans hdead)⟩
  · have hkeep := (stream zlib).resumes.keep h (by simp) r
    exact drain_of_held hs (waiting_feed hwait r) hkeep hrects
  · rw [hflushing] at hf
    cases hf

theorem drain_of_next {s₁ : ByteSession Z} (hwait : (stream zlib).waiting s = true)
    (h : normalMsg zlib s = (s₁, v)) (hv : v = .done ∨ v = .lost true) :
    (stream zlib).drain s.undelayed = (stream zlib).drain s₁.undelayed := by
  have hnext := normalMsg_undelayed zlib h (by rcases hv with rfl | rfl <;> simp)
  rw [StreamHandler.drain_of_ready (ready_undelayed hwait),
    show (stream zlib).handle s.undelayed = _ from hnext]
  rcases hv with rfl | rfl <;> rfl

theorem settles_of_next {s₁ : ByteSession Z} (hwait : (stream zlib).waiting s = true)
    (h : normalMsg zlib s = (s₁, v)) (hv : v = .done ∨ v = .lost true)
    (hrest : Settles zlib s₁ s') : Settles zlib s s' := by
  refine ⟨hrest.idle, fun ha r => ?_, hrest.quiet, fun hdead => ?_⟩
  · have hkeep := (stream zlib).resumes.keep h (by rcases hv with rfl | rfl <;> simp) r
    exact (drain_of_next (waiting_feed hwait r) hkeep hv).trans (hrest.same ha r)
  · rw [drain_of_next hwait h hv]
    exact hrest.lost hdead

theorem settles_drain (hs : s.Idle) (hflushing : s.flushing = false)
    (hheld : ((stream zlib).drain s).flushing = true → ((stream zlib).drain s).rects ≠ 0) :
    Settles zlib s ((stream zlib).drain s) := by
  induction hm : (stream zlib).measure s using Nat.strongRecOn generalizing s with
  | _ m ih =>
    have hready : (stream zlib).ready s = (stream zlib).waiting s := by
      simp [StreamHandler.ready, show (stream zlib).held s = false from hflushing]
    cases hwait : (stream zlib).waiting s with
    | false =>
      rw [StreamHandler.drain_of_not_ready (hready.trans hwait)]
      exact settles_of_empty hs hwait
    | true =>
      rcases hh : normalMsg zlib s with ⟨s₁, v⟩
      have hheld₁ : s₁.flushing = decide (v = .held) := (stream zlib).held_handle hflushing hh
      have hlt := (stream zlib).measure_lt hwait hh
      have hdrain := StreamHandler.drain_of_ready (hready.trans hwait)
      rw [show (stream zlib).handle s = (s₁, v) from hh] at hdrain
      rw [hdrain] at hheld ⊢
      have hgo : v ≠ .lost false → v ≠ .held → s₁.Idle ∧ s₁.flushing = false :=
        fun hv hv' => ⟨idle_normalMsg zlib hs hh hv, by simpa [hv'] using hheld₁⟩
      rcases v with _ | _ | _ | (_ | _)
      · obtain ⟨hidle, hf⟩ := hgo (by simp) (by simp)
        exact settles_of_next hwait hh (.inl rfl) (ih _ (hm ▸ hlt (by simp)) hidle hf hheld rfl)
      · exact settles_of_more hs hwait hh
      · exact settles_of_held hs hwait hh (hheld (by simpa using hheld₁))
      · have hlost : s₁.alive = false := by
          rw [show s₁.alive = _ from (stream zlib).alive_handle hh]
          simp
        have hnext := normalMsg_undelayed zlib hh (by simp)
        have hdrain' : (stream zlib).drain s.undelayed = s₁.undelayed := by
          rw [StreamHandler.drain_of_ready (ready_undelayed hwait),
            show (stream zlib).handle s.undelayed = _ from hnext]
        refine ⟨fun ha => ?_, fun ha => ?_, fun ha => ?_, fun hdead => hdrain' ▸ hdead⟩ <;>
          exact absurd (hlost.symm.trans ha) Bool.false_ne_true
      · obtain ⟨hidle, hf⟩ := hgo (by simp) (by simp)
        exact settles_of_next hwait hh (.inr rfl) (ih _ (hm ▸ hlt (by simp)) hidle hf hheld rfl)

/-! ### Runs -/

variable (zlib)

def received (es : List StreamEvent) : List UInt8 :=
  es.flatMap fun
    | .message u8 => u8
    | .rendered => []

/-- A message that the queue takes, no update without rectangles that waits for the display, as the
source forgets to answer such an update, and nothing behind which the session is not followed. -/
structure Smooth (recv : Q → List UInt8 → Option Q)
    (beyond : RfbSession Z Q → StreamEvent → RfbSession Z Q) (s : RfbSession Z Q)
    (e : StreamEvent) : Prop where
  fits : ∀ u8, e = .message u8 → (recv s.sock u8).isSome
  held : (step zlib recv beyond s e).flushing = true → (step zlib recv beyond s e).rects ≠ 0
  followed : Followed zlib recv beyond s e

structure Fresh (s : ByteSession Z) : Prop where
  sock : s.sock = []
  idle : s.Idle
  flushing : s.flushing = false
  connected : s.connected = true
  followed : s.stray = false

/-- What has been done of the bytes that have arrived, and what is still to be done of them and of
those to come. -/
structure Tracks (s₀ s : ByteSession Z) (bytes : List UInt8) : Prop where
  followed : s.stray = false
  idle : s.alive = true → s.Idle
  same : s.alive = true → ∀ r, (stream zlib).drain (feed s r).undelayed =
    (stream zlib).drain (feed s₀ (bytes ++ r)).undelayed
  quiet : s.alive = true → s.flushing = false → (stream zlib).drain s.undelayed = s.undelayed
  lost : s.connected = false →
    ((stream zlib).drain (feed s₀ bytes).undelayed).connected = false

variable {zlib} {s₀ : ByteSession Z} {bytes : List UInt8}
  {beyond : ByteSession Z → StreamEvent → ByteSession Z}

omit [ReadQueue Q UInt8] in
theorem alive_of_followed {s : RfbSession Z Q} (hs : s.stray = false) : s.alive = s.connected := by
  rw [alive, hs, Bool.not_false, Bool.and_true]

theorem Fresh.tracks (h : s₀.Fresh) : Tracks zlib s₀ s₀ [] where
  followed := h.followed
  idle _ := h.idle
  same _ _ := rfl
  quiet _ _ := drain_undelayed_of_empty (by simp [stream, h.sock])
  lost hdead := absurd (h.connected.symm.trans hdead) Bool.noConfusion

/-- The loop takes up the session `s`, which has got all bytes. -/
theorem Settles.tracks (h : Settles zlib s s') (hs' : s'.stray = false)
    (hsame : ∀ r, (stream zlib).drain (feed s r).undelayed =
      (stream zlib).drain (feed s₀ (bytes ++ r)).undelayed) : Tracks zlib s₀ s' bytes where
  followed := hs'
  idle := h.idle
  same ha r := (h.same ha r).symm.trans (hsame r)
  quiet := h.quiet
  lost hdead := by
    have hnil := hsame []
    rw [List.append_nil, show feed s [] = s from (stream zlib).feed_nil s] at hnil
    rw [← hnil]
    exact h.lost hdead

theorem Tracks.message_lost (h : Tracks zlib s₀ s bytes) (hconnected : s.connected = false)
    (u8 : List UInt8) : Tracks zlib s₀ s (bytes ++ u8) := by
  have halive : s.alive = false := (alive_of_followed h.followed).trans hconnected
  have hfeed : feed s₀ (bytes ++ u8) = feed (feed s₀ bytes) u8 :=
    ((stream zlib).feed_feed _ _ _).symm
  refine ⟨h.followed, h.idle, fun ha => ?_, h.quiet, fun _ => ?_⟩
  · exact absurd (halive.symm.trans ha) Bool.false_ne_true
  · rw [hfeed]
    exact (lasting_closed zlib).drain_feed (h.lost hconnected) u8

theorem Tracks.message (h : Tracks zlib s₀ s bytes) {u8 : List UInt8}
    (hsmooth : Smooth zlib ReceiveArray.plainMessage beyond s (.message u8)) :
    Tracks zlib s₀ (RfbSession.step zlib ReceiveArray.plainMessage beyond s (.message u8))
      (bytes ++ u8) := by
  cases hconnected : s.connected with
  | false =>
    rw [step_message zlib h.followed, if_neg (by simp [hconnected])]
    exact h.message_lost hconnected u8
  | true =>
    have halive : s.alive = true := (alive_of_followed h.followed).trans hconnected
    have hfits : ReceiveArray.plainMessage s.sock u8 = some (s.sock ++ u8) := by
      have hsome := hsmooth.fits u8 rfl
      unfold ReceiveArray.plainMessage at hsome ⊢
      split at hsome
      · cases hsome
      · next hlong => rw [if_neg hlong]
    have hstep : RfbSession.step zlib ReceiveArray.plainMessage beyond s (.message u8) =
        (stream zlib).drain (feed s u8) := by
      rw [step_message zlib h.followed, if_pos hconnected, hfits]
      exact handleMessages_eq_drain zlib _
    have hfollowed : (RfbSession.step zlib ReceiveArray.plainMessage beyond s
      (.message u8)).stray = false := hsmooth.followed
    have hheld := hsmooth.held
    have hsame : ∀ r, (stream zlib).drain (feed (feed s u8) r).undelayed =
        (stream zlib).drain (feed s₀ (bytes ++ u8 ++ r)).undelayed := by
      intro r
      rw [List.append_assoc, ← h.same halive (u8 ++ r)]
      exact congrArg (fun s => (stream zlib).drain s.undelayed) ((stream zlib).feed_feed s u8 r)
    rw [hstep] at hheld hfollowed ⊢
    cases hflushing : s.flushing with
    | true =>
      rw [StreamHandler.drain_of_not_ready (by
        simp [StreamHandler.ready, show (stream zlib).held (feed s u8) = true from hflushing])]
      refine ⟨h.followed, h.idle, fun _ => hsame, fun _ hf => ?_, fun hdead => ?_⟩
      · exact absurd (hflushing.symm.trans hf) Bool.noConfusion
      · exact absurd (hconnected.symm.trans hdead) Bool.noConfusion
    | false =>
      have hsettles : Settles zlib (feed s u8) _ := settles_drain (h.idle halive) hflushing hheld
      exact hsettles.tracks hfollowed hsame

/-- The display has rendered what was queued. -/
theorem Tracks.rendered (h : Tracks zlib s₀ s bytes)
    (hsmooth : Smooth zlib ReceiveArray.plainMessage beyond s .rendered) :
    Tracks zlib s₀ (RfbSession.step zlib ReceiveArray.plainMessage beyond s .rendered) bytes := by
  have hfollowed : (RfbSession.step zlib ReceiveArray.plainMessage beyond s .rendered).stray =
    false := hsmooth.followed
  have hheld := hsmooth.held
  rw [step_rendered zlib h.followed] at hheld hfollowed ⊢
  cases hready : s.flushing && s.connected with
  | true =>
    rw [hready, if_pos rfl, handleMessages_eq_drain] at hheld hfollowed
    rw [if_pos rfl, handleMessages_eq_drain]
    have halive : s.alive = true :=
      (alive_of_followed h.followed).trans ((Bool.and_eq_true _ _).mp hready).2
    have hsettles : Settles zlib { s with pending := false, flushing := false } _ :=
      settles_drain (h.idle halive) rfl hheld
    exact hsettles.tracks hfollowed (h.same halive)
  | false =>
    rw [if_neg Bool.false_ne_true]
    refine ⟨h.followed, h.idle, h.same, fun ha _ => h.quiet ha ?_, h.lost⟩
    have hconnected : s.connected = true := (alive_of_followed h.followed).symm.trans ha
    simpa [hconnected] using hready

theorem received_append (es es' : List StreamEvent) :
    received (es ++ es') = received es ++ received es' := List.flatMap_append

theorem Fresh.tracks_run (h : s₀.Fresh) {es : List StreamEvent}
    (hes : Transition.Steps (RfbSession.step zlib ReceiveArray.plainMessage beyond)
      (Smooth zlib ReceiveArray.plainMessage beyond) s₀ es) :
    Tracks zlib s₀ (Transition.run (RfbSession.step zlib ReceiveArray.plainMessage beyond) s₀ es)
      (received es) := by
  induction es using List.reverseRecOn with
  | nil => exact h.tracks
  | append_singleton es e ih =>
    obtain ⟨hfront, hlast⟩ := Transition.steps_append.mp hes
    have hsmooth := (Transition.steps_cons.mp hlast).1
    rw [Transition.run_append, received_append]
    cases e with
    | message u8 => simpa [received] using (ih hfront).message hsmooth
    | rendered => simpa [received] using (ih hfront).rendered hsmooth

end RfbSession

open RfbSession ReceiveArray

variable {Z : Type} {zlib : Inflate Z} {s : RfbSession Z ReceiveArray} {es : List StreamEvent}
  {beyond : RfbSession Z ReceiveArray → StreamEvent → RfbSession Z ReceiveArray}
  {beyond' : ByteSession Z → StreamEvent → ByteSession Z}

theorem run_image (hs : s.stray = false)
    (hes : Transition.Steps (step zlib ReceiveArray.recvMessage beyond)
      (Followed zlib ReceiveArray.recvMessage beyond) s es) :
    Transition.run (step zlib plainMessage beyond') (image unread true s) es =
      image unread true (Transition.run (step zlib ReceiveArray.recvMessage beyond) s es) := by
  induction es generalizing s with
  | nil => rfl
  | cons e es ih =>
    obtain ⟨he, hes⟩ := Transition.steps_cons.mp hes
    rw [Transition.run_cons, Transition.run_cons,
      step_image zlib queueHom_unread plainMessage_unread hs, ih he hes]

theorem smooth_image (hs : s.stray = false) {e : StreamEvent}
    (h : Smooth zlib ReceiveArray.recvMessage beyond s e) :
    Smooth zlib plainMessage beyond' (image unread true s) e := by
  have hstep : step zlib plainMessage beyond' (image unread true s) e =
      image unread true (step zlib ReceiveArray.recvMessage beyond s e) :=
    step_image zlib queueHom_unread plainMessage_unread hs e
  refine ⟨fun u8 he => ?_, fun hflushing => ?_, ?_⟩
  · rw [show (image unread true s).sock = s.sock.unread from rfl, plainMessage_unread,
      Option.isSome_map]
    exact h.fits u8 he
  · rw [hstep] at hflushing ⊢
    exact h.held hflushing
  · rw [Followed, hstep]
    exact h.followed

theorem steps_image (hs : s.stray = false)
    (h : Transition.Steps (step zlib ReceiveArray.recvMessage beyond)
      (Smooth zlib ReceiveArray.recvMessage beyond) s es) :
    Transition.Steps (step zlib plainMessage beyond') (Smooth zlib plainMessage beyond')
      (image unread true s) es := by
  induction es generalizing s with
  | nil => trivial
  | cons e es ih =>
    obtain ⟨he, hes⟩ := Transition.steps_cons.mp h
    refine Transition.steps_cons.mpr ⟨smooth_image hs he, ?_⟩
    rw [step_image zlib queueHom_unread plainMessage_unread hs]
    exact ih he.followed hes

theorem run_decodes {s₀ : RfbSession Z ReceiveArray} (h₀ : (image unread true s₀).Fresh)
    {es : List StreamEvent}
    (hes : Transition.Steps (step zlib ReceiveArray.recvMessage beyond)
      (Smooth zlib ReceiveArray.recvMessage beyond) s₀ es)
    (hend : (Transition.run (step zlib ReceiveArray.recvMessage beyond) s₀ es).flushing = false) :
    let s := Transition.run (step zlib ReceiveArray.recvMessage beyond) s₀ es
    let whole := (stream zlib).receive (image unread false s₀) (received es)
    s.connected = whole.connected ∧ (s.connected = true → image unread false s = whole) := by
  intro s whole
  have hplain : Transition.Steps (step zlib ReceiveArray.plainMessage fun s _ => s)
      (Smooth zlib ReceiveArray.plainMessage fun s _ => s) (image unread true s₀) es :=
    steps_image h₀.followed hes
  have htracks := h₀.tracks_run hplain
  have hsteps : Transition.Steps (step zlib ReceiveArray.recvMessage beyond)
      (Followed zlib ReceiveArray.recvMessage beyond) s₀ es := hes.mono fun _ _ h => h.followed
  rw [run_image h₀.followed hsteps] at htracks
  have hwhole : whole = (stream zlib).drain (feed (image unread true s₀) (received es)).undelayed := by
    have halive : (stream zlib).alive (image unread false s₀) = true :=
      (alive_of_followed (s := image unread false s₀) h₀.followed).trans h₀.connected
    exact if_pos halive
  rw [hwhole]
  cases hconnected : s.connected with
  | true =>
    have halive : s.alive = true :=
      (alive_of_followed htracks.followed).trans hconnected
    have hsame := htracks.same halive []
    rw [List.append_nil] at hsame
    have hdrain : (stream zlib).drain (image unread true s).undelayed =
        (image unread true s).undelayed := htracks.quiet halive hend
    rw [← hsame, show feed (image unread true s) [] = _ from (stream zlib).feed_nil _, hdrain]
    exact ⟨hconnected.symm ▸ rfl, fun _ => rfl⟩
  | false =>
    exact ⟨(htracks.lost hconnected).symm, fun h => absurd h Bool.false_ne_true⟩

def smallSession : RfbSession Unit ReceiveArray where
  sock := ⟨⟨0, 0, 16, List.replicate 16 0⟩, ⟨le_rfl, by decide, rfl, by decide⟩⟩
  rects := 0
  rect := ⟨0, 0, 0, 0⟩
  encoding := none
  rawLines := 0
  rreSubrects := 0
  hextile := ⟨0, 0, 0, 0, none, none⟩
  tight := fun _ => ⟨none, none, 0, [], 0, fun _ => ()⟩
  zrle := ⟨0, (), []⟩
  jpeg := ⟨[], [], []⟩
  fbWidth := 1
  fbHeight := 1
  fbName := ""
  fbDepth := 24
  supportsFence := false
  supportsContinuousUpdates := false
  enabledContinuousUpdates := false
  supportsSetDesktopSize := false
  screenID := 0
  screenFlags := 0
  qemuExtKeyEventSupported := false
  remoteCapsLock := none
  remoteNumLock := none
  rfbXvpVer := 0
  clipboardText := none
  clipboardServerFormats := 0
  clipboardServerActions := 0
  cursorImage := none
  imagesWait := fun _ => true
  pending := false
  flushing := false
  connected := true
  stray := false
  drawn := []
  sent := []
  notices := []

def noStreams : Inflate Unit where
  new := ()
  setInput _ _ := ()
  inflate _ _ := none
  reset := id
  left _ := 0
  left_lt _ h := nomatch h

/-- A bell, and a clipboard text whose last byte comes on its own. -/
def bellAndText : List StreamEvent :=
  [.message [2, 3, 0, 0, 0, 0, 0, 0, 2, 104], .rendered, .message [105]]

theorem smooth_bellAndText :
    Transition.Steps (step noStreams ReceiveArray.recvMessage fun s _ => s)
      (Smooth noStreams ReceiveArray.recvMessage fun s _ => s) smallSession bellAndText := by
  simp only [bellAndText, Transition.steps_cons, Transition.steps_nil, and_true]
  refine ⟨⟨fun u8 h => ?_, fun h => absurd h (by decide), rfl⟩,
    ⟨fun u8 h => ?_, fun h => absurd h (by decide), rfl⟩,
    fun u8 h => ?_, fun h => absurd h (by decide), rfl⟩
  · cases h
    rfl
  · cases h
  · cases h
    rfl

end Urc
