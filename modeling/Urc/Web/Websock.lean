import Urc.Library.QueueReader
import Urc.Library.Run

/-! # The receive queue of noVNC's Websock

Messages are appended to one typed array, which is compacted or replaced by a larger one when it is
full. What the rest of noVNC reads from it is what it would read from a plain queue of bytes.
-/

namespace Urc

/-- `MAX_RQ_GROW_SIZE`. -/
def maxRqGrowSize : ℕ := 40 * 1024 * 1024

/-- The receive queue: `rQi` is the index of the next byte to read, `rQlen` that of the next byte
to write, `rQbufferSize` the size that the array is believed to have. -/
structure Websock where
  rQi : ℕ
  rQlen : ℕ
  rQbufferSize : ℕ
  rQ : List UInt8
  deriving DecidableEq

/-- What `_recvMessage` may throw: the error of `_expandCompactRQ`, or the `RangeError` of a typed
array. -/
inductive QueueError
  | exceeded
  | range
  deriving DecidableEq

/-- What a script of reads ends with: its value, the wish for more, or an error of `rQwait`. -/
inductive ScriptEnd (α : Type)
  | value (a : α)
  | more
  | thrown

namespace Websock

/-- The constructor, and the buffer that `init` allocates. -/
def new : Websock :=
  ⟨0, 0, 1024 * 1024 * 4, List.replicate (1024 * 1024 * 4) 0⟩

/-- `TypedArray.prototype.set`. -/
def setBytes (target bytes : List UInt8) (offset : ℕ) : Option (List UInt8) :=
  if offset + bytes.length ≤ target.length then
    some (target.take offset ++ bytes ++ target.drop (offset + bytes.length))
  else none

def unread (w : Websock) : List UInt8 := (w.rQ.drop w.rQi).take (w.rQlen - w.rQi)

/-- `_expandCompactRQ`. On an error only the size has changed. -/
def expandCompactRQ (w : Websock) (minFit : ℕ) : Websock × Option QueueError :=
  let requiredBufferSize := (w.rQlen - w.rQi + minFit) * 8
  let resizeNeeded := w.rQbufferSize < requiredBufferSize
  let size := if resizeNeeded then max (w.rQbufferSize * 2) requiredBufferSize
    else w.rQbufferSize
  if maxRqGrowSize < size ∧ maxRqGrowSize < w.rQlen - w.rQi + minFit then
    ({ w with rQbufferSize := maxRqGrowSize }, some .exceeded)
  else
    let size := min size maxRqGrowSize
    let rQ := if resizeNeeded then w.unread ++ List.replicate (size - w.unread.length) 0
      else w.unread ++ w.rQ.drop w.unread.length
    (⟨0, w.rQlen - w.rQi, size, rQ⟩, none)

/-- `_recvMessage`, up to the call of the message handler. -/
def recvMessage (w : Websock) (u8 : List UInt8) : Websock × Option QueueError :=
  let w := if w.rQlen = w.rQi then { w with rQlen := 0, rQi := 0 } else w
  let r := if w.rQbufferSize < w.rQlen + u8.length then w.expandCompactRQ u8.length else (w, none)
  match r with
  | (w, some e) => (w, some e)
  | (w, none) =>
    match setBytes w.rQ u8 w.rQlen with
    | none => (w, some .range)
    | some rQ => ({ w with rQ := rQ, rQlen := w.rQlen + u8.length }, none)

/-- The `rQ` methods that a script of reads calls. A loop that looks for the end of something
waits for one byte more each time. -/
def fetch {α : Type} : QueueReader UInt8 α → Websock → Websock × ScriptEnd α
  | .done a, w => (w, .value a)
  | .wait num goback next, w =>
    if w.rQlen < w.rQi + num then
      if w.rQi < goback then (w, .thrown) else ({ w with rQi := w.rQi - goback }, .more)
    else fetch next w
  | .shift num next, w =>
    fetch (next ((w.rQ.drop w.rQi).take num)) { w with rQi := w.rQi + num }
  | .skip num next, w => fetch next { w with rQi := w.rQi + num }
  | .peek num next, w => fetch (next ((w.rQ.drop w.rQi).take num)) w
  | .search start goback found next, w =>
    let failed := if w.rQi < goback then (w, ScriptEnd.thrown)
      else ({ w with rQi := w.rQi - goback }, .more)
    if w.rQlen < w.rQi + start then failed
    else
      match QueueReader.scan found (w.rQ.drop w.rQi) (w.rQlen - w.rQi + 1 - start) start with
      | none => failed
      | some n => fetch (next n) w

/-- The indices lie in the array, whose size is the one it is believed to have. -/
structure Valid (w : Websock) : Prop where
  read : w.rQi ≤ w.rQlen
  written : w.rQlen ≤ w.rQbufferSize
  size : w.rQ.length = w.rQbufferSize
  bounded : w.rQbufferSize ≤ maxRqGrowSize

variable {w : Websock} {α : Type}

theorem Valid.length_unread (hw : w.Valid) : w.unread.length = w.rQlen - w.rQi := by
  have := hw.written
  have := hw.size
  simp [unread]
  omega

theorem valid_new : new.Valid where
  read := le_rfl
  written := Nat.zero_le _
  size := List.length_replicate
  bounded := by decide

theorem unread_new : new.unread = [] := rfl

theorem expandCompactRQ_exceeded {minFit : ℕ} (hw : w.Valid)
    (h : maxRqGrowSize < w.unread.length + minFit) :
    w.expandCompactRQ minFit = ({ w with rQbufferSize := maxRqGrowSize }, some .exceeded) := by
  rw [hw.length_unread] at h
  have := hw.bounded
  unfold expandCompactRQ
  dsimp only
  rw [if_pos]
  refine ⟨?_, h⟩
  rw [if_pos (by omega)]
  omega

/-- Without an error the unread bytes are moved to the front of an array in which the message
fits. -/
theorem expandCompactRQ_fits {minFit : ℕ} (hw : w.Valid)
    (h : w.unread.length + minFit ≤ maxRqGrowSize) :
    ∃ w', w.expandCompactRQ minFit = (w', none) ∧ w'.Valid ∧ w'.unread = w.unread ∧
      w'.rQlen + minFit ≤ w'.rQbufferSize := by
  have hlen := hw.length_unread
  have hbounded := hw.bounded
  have hsize := hw.size
  have hwritten := hw.written
  unfold expandCompactRQ
  dsimp only
  rw [if_neg (by omega)]
  refine ⟨_, rfl, ⟨Nat.zero_le _, ?_, ?_, Nat.min_le_right _ _⟩, ?_, ?_⟩
  · split_ifs <;> dsimp only <;> omega
  · split_ifs <;> simp only [List.length_append, List.length_replicate, List.length_drop] <;> omega
  · simp only [unread, List.drop_zero, Nat.sub_zero]
    rw [← unread, ← hlen]
    split_ifs <;> rw [List.take_left]
  · split_ifs <;> dsimp only <;> omega

theorem restart (hw : w.Valid) :
    ∃ w', (if w.rQlen = w.rQi then { w with rQlen := 0, rQi := 0 } else w) = w' ∧ w'.Valid ∧
      w'.unread = w.unread := by
  refine ⟨_, rfl, ?_⟩
  split_ifs with h
  · refine ⟨⟨le_rfl, Nat.zero_le _, hw.size, hw.bounded⟩, ?_⟩
    simp [unread, h]
  · exact ⟨hw, rfl⟩

theorem recvMessage_exceeded {u8 : List UInt8} (hw : w.Valid)
    (h : maxRqGrowSize < w.unread.length + u8.length) : (w.recvMessage u8).2 = some .exceeded := by
  obtain ⟨w', heq, hw', hunread⟩ := restart hw
  have hlen := hw'.length_unread
  have := hw'.bounded
  unfold recvMessage
  simp only [heq]
  rw [if_pos (by rw [hunread] at hlen; omega), expandCompactRQ_exceeded hw' (by rwa [hunread])]

theorem setBytes_eq {target bytes : List UInt8} {offset : ℕ}
    (h : offset + bytes.length ≤ target.length) : setBytes target bytes offset =
      some (target.take offset ++ bytes ++ target.drop (offset + bytes.length)) := if_pos h

/-- A message that fits is appended to what is unread. -/
theorem recvMessage_fits {u8 : List UInt8} (hw : w.Valid)
    (h : w.unread.length + u8.length ≤ maxRqGrowSize) :
    ∃ w', w.recvMessage u8 = (w', none) ∧ w'.Valid ∧ w'.unread = w.unread ++ u8 := by
  obtain ⟨w₁, heq, hw₁, hunread₁⟩ := restart hw
  -- behind the enlargement, if there is one
  have hspace : ∃ w₂, (if w₁.rQbufferSize < w₁.rQlen + u8.length then w₁.expandCompactRQ u8.length
      else (w₁, none)) = (w₂, none) ∧ w₂.Valid ∧ w₂.unread = w.unread ∧
      w₂.rQlen + u8.length ≤ w₂.rQbufferSize := by
    split_ifs with hfull
    · obtain ⟨w₂, heq₂, hw₂, hunread₂, hroom⟩ := expandCompactRQ_fits hw₁ (hunread₁ ▸ h)
      exact ⟨w₂, heq₂, hw₂, hunread₂.trans hunread₁, hroom⟩
    · exact ⟨w₁, rfl, hw₁, hunread₁, by omega⟩
  obtain ⟨w₂, heq₂, hw₂, hunread₂, hroom⟩ := hspace
  have hsize := hw₂.size
  have hread := hw₂.read
  unfold recvMessage
  simp only [heq, heq₂]
  rw [setBytes_eq (by omega)]
  refine ⟨_, rfl, ⟨?_, hroom, ?_, hw₂.bounded⟩, ?_⟩
  · dsimp only
    omega
  · simp only [List.length_append, List.length_take, List.length_drop]
    omega
  · have hlen : (w₂.rQ.take w₂.rQlen).length = w₂.rQlen := by
      rw [List.length_take]
      omega
    rw [← hunread₂]
    simp only [unread]
    rw [List.append_assoc, List.drop_append_of_le_length (by omega), ← List.append_assoc,
      List.take_left' ?_, List.drop_take]
    rw [List.length_append, List.length_drop]
    omega

/-! ### Scripts of reads -/

theorem take_drop_unread {pos num : ℕ} (hw : w.Valid) (h : pos + num ≤ w.unread.length) :
    (w.rQ.drop (w.rQi + pos)).take num = (w.unread.drop pos).take num := by
  rw [hw.length_unread] at h
  rw [unread, List.drop_take, List.take_take, List.drop_drop, min_eq_left (by omega)]

theorem fetch_eq {program : QueueReader UInt8 α} {pos : ℕ} {n : ℤ} (hw : w.Valid)
    (htidy : program.Tidy pos) (hguarded : program.Guarded n) (hn : pos + n ≤ w.unread.length) :
    fetch program { w with rQi := w.rQi + pos } =
      match program.run w.unread pos with
      | .done a k => ({ w with rQi := w.rQi + k }, .value a)
      | .blocked k => ({ w with rQi := w.rQi + k }, .more) := by
  have hlen := hw.length_unread
  have hread := hw.read
  induction program generalizing pos n with
  | done a => rfl
  | wait num goback next ih =>
    obtain ⟨rfl, hnext⟩ := htidy
    simp only [fetch, QueueReader.run]
    by_cases hlt : w.unread.length < goback + num
    · rw [if_pos (by omega), if_neg (by omega), if_pos hlt]
      simp
    · rw [if_neg (by omega), if_neg hlt]
      exact ih hnext hguarded (by omega)
  | shift num next ih =>
    obtain ⟨hnum, hnext⟩ := hguarded
    simp only [fetch, QueueReader.run]
    rw [take_drop_unread hw (by omega), Nat.add_assoc]
    exact ih _ (htidy _) (hnext _) (by push_cast; omega)
  | skip num next ih =>
    simp only [fetch, QueueReader.run, Nat.add_assoc]
    exact ih htidy hguarded (by push_cast; omega)
  | peek num next ih =>
    obtain ⟨hnum, hnext⟩ := hguarded
    simp only [fetch, QueueReader.run]
    rw [take_drop_unread hw (by omega)]
    exact ih _ (htidy _) (hnext _) hn
  | search start goback found next ih =>
    obtain ⟨rfl, hnext⟩ := htidy
    simp only [fetch, QueueReader.run]
    by_cases hlt : w.unread.length < goback + start
    · rw [if_pos (by omega), if_neg (by omega), if_pos hlt]
      simp
    · rw [if_neg (by omega), if_neg hlt]
      have hscan : QueueReader.scan found (w.rQ.drop (w.rQi + goback))
          (w.rQlen - (w.rQi + goback) + 1 - start) start =
          QueueReader.firstFound found (w.unread.drop goback) start := by
        rw [QueueReader.firstFound, List.length_drop,
          show w.unread.length - goback = w.rQlen - (w.rQi + goback) by omega]
        exact QueueReader.scan_congr fun m hm => take_drop_unread hw (by omega)
      rw [hscan]
      cases hfound : QueueReader.firstFound found (w.unread.drop goback) start with
      | none => simp
      | some m =>
        have hle := QueueReader.firstFound_eq_some hfound
        rw [List.length_drop] at hle
        exact ih m (hnext m) (hguarded m hle.1) (by omega)

/-- A safe script of reads does to the array what it does to the plain queue of unread bytes, and
throws nothing. -/
theorem fetch_safe (p : SafeReader UInt8 α) (hw : w.Valid) :
    match p.exec w.unread with
    | some (a, rest) => ∃ w', fetch p.program w = (w', .value a) ∧ w'.Valid ∧ w'.unread = rest
    | none => fetch p.program w = (w, .more) := by
  have hfetch : fetch p.program { w with rQi := w.rQi + 0 } = _ :=
    fetch_eq hw p.tidy p.guarded (by simp)
  have hlen := hw.length_unread
  have hread := hw.read
  cases hrun : p.program.run w.unread 0 with
  | done a k =>
    obtain ⟨hk, -⟩ := p.guarded.run_append (by simp) hrun
    simp only [hrun] at hfetch
    simp only [SafeReader.exec, hrun]
    refine ⟨_, hfetch, ⟨?_, hw.written, hw.size, hw.bounded⟩, ?_⟩
    · dsimp only
      omega
    · simp only [unread]
      rw [List.drop_take, List.drop_drop, Nat.sub_sub]
  | blocked k =>
    rw [p.tidy.run_blocked hrun] at hrun
    simp only [hrun] at hfetch
    simp only [SafeReader.exec, hrun]
    exact hfetch

theorem valid_fetch (p : SafeReader UInt8 α) (hw : w.Valid) {w' : Websock} {a : α}
    (h : fetch p.program w = (w', .value a)) :
    w'.Valid ∧ p.exec w.unread = some (a, w'.unread) := by
  have hsafe := fetch_safe p hw
  split at hsafe
  · next b rest hexec =>
    obtain ⟨w₁, hw₁, hvalid, hunread⟩ := hsafe
    rw [h] at hw₁
    cases hw₁
    exact ⟨hvalid, by rw [hexec, hunread]⟩
  · rw [h] at hsafe
    cases hsafe

theorem valid_recvMessage (hw : w.Valid) {u8 : List UInt8} {w' : Websock}
    (h : w.recvMessage u8 = (w', none)) : w'.Valid ∧ w'.unread = w.unread ++ u8 ∧
      w.unread.length + u8.length ≤ maxRqGrowSize := by
  by_cases hlong : maxRqGrowSize < w.unread.length + u8.length
  · have hex := recvMessage_exceeded hw hlong
    simp [h] at hex
  · obtain ⟨w₁, hw₁, hvalid, hunread⟩ := recvMessage_fits hw (not_lt.mp hlong)
    rw [h] at hw₁
    cases hw₁
    exact ⟨hvalid, hunread, not_lt.mp hlong⟩

end Websock

structure ReceiveArray where
  sock : Websock
  valid : sock.Valid

namespace ReceiveArray

def unread (w : ReceiveArray) : List UInt8 := w.sock.unread

/-- A script of reads that has to wait leaves the array as it is. -/
instance : ReadQueue ReceiveArray UInt8 where
  fetch p w :=
    match h : Websock.fetch p.program w.sock with
    | (w', .value a) => some (a, ⟨w', (Websock.valid_fetch p w.valid h).1⟩)
    | (_, .more) => none
    | (_, .thrown) => none
  length w := w.sock.rQlen - w.sock.rQi

/-- `_recvMessage`, up to the call of the message handler; nothing where it throws. -/
def recvMessage (w : ReceiveArray) (u8 : List UInt8) : Option ReceiveArray :=
  match h : w.sock.recvMessage u8 with
  | (w', none) => some ⟨w', (Websock.valid_recvMessage w.valid h).1⟩
  | (_, some _) => none

/-- A plain queue that takes messages as long as they leave it at most 40 MiB long. -/
def plainMessage (q u8 : List UInt8) : Option (List UInt8) :=
  if maxRqGrowSize < q.length + u8.length then none else some (q ++ u8)

/-- To the scripts of reads, the array is the plain queue of what is unread. -/
theorem queueHom_unread : QueueHom unread where
  fetch p w := by
    have hsafe := Websock.fetch_safe p w.valid
    have hexec : ReadQueue.fetch p w.unread = p.exec w.sock.unread := rfl
    rw [hexec]
    unfold ReadQueue.fetch instReadQueueUInt8
    dsimp only
    split
    · next w' a h => exact (Websock.valid_fetch p w.valid h).2
    · next w' h =>
      split at hsafe
      · obtain ⟨w₁, hw₁, -, -⟩ := hsafe
        rw [h] at hw₁
        cases hw₁
      · assumption
    · next w' h =>
      split at hsafe
      · obtain ⟨w₁, hw₁, -, -⟩ := hsafe
        rw [h] at hw₁
        cases hw₁
      · rw [h] at hsafe
        cases hsafe
  length w := w.valid.length_unread

theorem plainMessage_unread (w : ReceiveArray) (u8 : List UInt8) :
    plainMessage w.unread u8 = (w.recvMessage u8).map unread := by
  unfold recvMessage plainMessage
  split
  · next hlong =>
    split
    · next w' h =>
      have hshort := (Websock.valid_recvMessage w.valid h).2.2
      exact absurd hlong (not_lt.mpr hshort)
    · rfl
  · next hlong =>
    obtain ⟨w₁, hw₁, -, hunread⟩ := Websock.recvMessage_fits w.valid (not_lt.mp hlong)
    split
    · next w' h =>
      rw [h] at hw₁
      cases hw₁
      exact congrArg some hunread.symm
    · next h =>
      rw [h] at hw₁
      cases hw₁

end ReceiveArray

/-! ### Runs -/

/-- What happens to the queue: a message arrives, or a script is run on it. -/
inductive QueueEvent (α : Type)
  | message (u8 : List UInt8)
  | fetch (p : SafeReader UInt8 α)

/-- The queue with all that the scripts have ended with, and whether an error was thrown. -/
structure ReceiveLog (Q α : Type) where
  queue : Q
  log : List (Option α)
  thrown : Bool

namespace ReceiveLog

variable {α : Type}

/-- The array of the source. An error leaves the handlers for good. -/
def step (s : ReceiveLog Websock α) : QueueEvent α → ReceiveLog Websock α
  | .message u8 =>
    if s.thrown then s
    else
      match s.queue.recvMessage u8 with
      | (w, none) => { s with queue := w }
      | (w, some _) => { s with queue := w, thrown := true }
  | .fetch p =>
    if s.thrown then s
    else
      match Websock.fetch p.program s.queue with
      | (w, .value a) => { s with queue := w, log := s.log ++ [some a] }
      | (w, .more) => { s with queue := w, log := s.log ++ [none] }
      | (w, .thrown) => { s with queue := w, thrown := true }

/-- A plain queue that takes messages as long as they leave it at most 40 MiB long. -/
def plainStep (s : ReceiveLog (List UInt8) α) : QueueEvent α → ReceiveLog (List UInt8) α
  | .message u8 =>
    if s.thrown then s
    else if maxRqGrowSize < s.queue.length + u8.length then { s with thrown := true }
    else { s with queue := s.queue ++ u8 }
  | .fetch p =>
    if s.thrown then s
    else
      match p.exec s.queue with
      | some (a, rest) => { s with queue := rest, log := s.log ++ [some a] }
      | none => { s with log := s.log ++ [none] }

/-- The array holds what the plain queue holds, and the scripts have ended alike. -/
structure Agrees (s : ReceiveLog Websock α) (t : ReceiveLog (List UInt8) α) : Prop where
  thrown : s.thrown = t.thrown
  log : s.log = t.log
  valid : s.thrown = false → s.queue.Valid
  unread : s.thrown = false → s.queue.unread = t.queue

theorem Agrees.step {s : ReceiveLog Websock α} {t : ReceiveLog (List UInt8) α} (h : s.Agrees t)
    (e : QueueEvent α) : (s.step e).Agrees (t.plainStep e) := by
  have hthrown := h.thrown
  cases hs : s.thrown with
  | true =>
    rw [hs] at hthrown
    have hstep : s.step e = s := by cases e <;> simp [ReceiveLog.step, hs]
    have hplain : t.plainStep e = t := by cases e <;> simp [plainStep, ← hthrown]
    rwa [hstep, hplain]
  | false =>
    rw [hs] at hthrown
    have hv := h.valid hs
    have hu := h.unread hs
    cases e with
    | message u8 =>
      simp only [ReceiveLog.step, plainStep, hs, ← hthrown, Bool.false_eq_true, if_false]
      by_cases hlong : maxRqGrowSize < t.queue.length + u8.length
      · rw [if_pos hlong]
        have hex := Websock.recvMessage_exceeded hv (hu ▸ hlong)
        rcases hr : s.queue.recvMessage u8 with ⟨w, _ | _⟩
        · simp [hr] at hex
        · exact ⟨rfl, h.log, fun hf => by simp at hf, fun hf => by simp at hf⟩
      · rw [if_neg hlong]
        obtain ⟨w, hr, hw, hunread⟩ := Websock.recvMessage_fits hv (hu ▸ not_lt.mp hlong)
        rw [hr]
        exact ⟨rfl, h.log, fun _ => hw, fun _ => hunread.trans (by rw [hu])⟩
    | fetch p =>
      simp only [ReceiveLog.step, plainStep, hs, ← hthrown, Bool.false_eq_true, if_false]
      have hfetch := Websock.fetch_safe p hv
      rw [hu] at hfetch
      cases hexec : p.exec t.queue with
      | none =>
        simp only [hexec] at hfetch
        rw [hfetch]
        exact ⟨rfl, by dsimp only; rw [h.log], fun _ => hv, fun _ => hu⟩
      | some r =>
        obtain ⟨a, rest⟩ := r
        simp only [hexec] at hfetch
        obtain ⟨w, hr, hw, hunread⟩ := hfetch
        rw [hr]
        exact ⟨rfl, by dsimp only; rw [h.log], fun _ => hw, fun _ => hunread⟩

end ReceiveLog

/-- Whatever messages arrive and whatever is read between them, the array of `Websock` gives to
every script of reads what a plain queue of bytes would give it, and refuses a message exactly when
that queue would grow beyond 40 MiB. -/
theorem websock_agrees {α : Type} (es : List (QueueEvent α)) :
    (Transition.run ReceiveLog.step ⟨Websock.new, [], false⟩ es).Agrees
      (Transition.run ReceiveLog.plainStep ⟨[], [], false⟩ es) := by
  induction es using List.reverseRecOn with
  | nil => exact ⟨rfl, rfl, fun _ => Websock.valid_new, fun _ => Websock.unread_new⟩
  | append_singleton es e ih =>
    rw [Transition.run_append, Transition.run_append]
    exact ih.step e

end Urc
