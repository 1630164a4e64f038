import Mathlib.Data.List.GetD
import Urc.Web.Websock

/-! # The send queue of a WebSocket of noVNC

The messages of the client are built in a typed array, which is flushed when it is full and behind
each message. `sQpushBytes` cuts long data to the space that is left.
-/

namespace Urc

open Websock

/-- `_sQbufferSize`. -/
def sQbufferSize : ℕ := 1024 * 10

/-- The send half of a `Websock`, with the frames it has sent. -/
structure SendQueue where
  sQ : List UInt8
  sQlen : ℕ
  isOpen : Bool
  frames : List (List UInt8)

namespace SendQueue

def new : SendQueue := ⟨List.replicate sQbufferSize 0, 0, true, []⟩

def flush (q : SendQueue) : SendQueue :=
  if 0 < q.sQlen ∧ q.isOpen = true then
    { q with frames := q.frames ++ [q.sQ.take q.sQlen], sQlen := 0 }
  else q

/-- `_sQensureSpace`. -/
def ensureSpace (q : SendQueue) (bytes : ℕ) : SendQueue :=
  if sQbufferSize - q.sQlen < bytes then q.flush else q

/-- `this._sQ[this._sQlen++] = num`. -/
def put (q : SendQueue) (num : UInt8) : SendQueue :=
  { q with sQ := q.sQ.set q.sQlen num, sQlen := q.sQlen + 1 }

def sQpush8 (q : SendQueue) (num : UInt8) : SendQueue := (q.ensureSpace 1).put num

def sQpush16 (q : SendQueue) (num : UInt16) : SendQueue :=
  ((q.ensureSpace 2).put (num >>> 8).toUInt8).put num.toUInt8

def sQpush32 (q : SendQueue) (num : UInt32) : SendQueue :=
  ((((q.ensureSpace 4).put (num >>> 24).toUInt8).put (num >>> 16).toUInt8).put
    (num >>> 8).toUInt8).put num.toUInt8

/-- The bytes that a turn of `sQpushBytes` copies: `bytes.subarray(offset, chunkSize)`. -/
def subarray (bytes : List UInt8) (offset chunkSize : ℕ) : List UInt8 :=
  (bytes.take chunkSize).drop offset

/-- The loop of `sQpushBytes`; `none` where it has thrown, or is still running after `turns`. -/
def pushLoop (bytes : List UInt8) : ℕ → ℕ → SendQueue → Option SendQueue
  | turns, offset, q =>
    if bytes.length ≤ offset then some q
    else match turns with
    | 0 => none
    | turns + 1 =>
      let q := q.ensureSpace 1
      let chunkSize := min (sQbufferSize - q.sQlen) (bytes.length - offset)
      match setBytes q.sQ (subarray bytes offset chunkSize) q.sQlen with
      | none => none
      | some sQ =>
        pushLoop bytes turns (offset + chunkSize) { q with sQ := sQ, sQlen := q.sQlen + chunkSize }

/-- Each turn takes a byte at least, where the connection is open. -/
def sQpushBytes (q : SendQueue) (bytes : List UInt8) : Option SendQueue :=
  pushLoop bytes bytes.length 0 q

inductive PushCall
  | push8 (num : UInt8)
  | push16 (num : UInt16)
  | push32 (num : UInt32)
  | pushBytes (bytes : List UInt8)

def push (q : SendQueue) : PushCall → Option SendQueue
  | .push8 num => some (q.sQpush8 num)
  | .push16 num => some (q.sQpush16 num)
  | .push32 num => some (q.sQpush32 num)
  | .pushBytes bytes => q.sQpushBytes bytes

/-- A message of `RFB.messages`: some calls, and a `flush` behind them. -/
def message (q : SendQueue) (calls : List PushCall) : Option SendQueue :=
  (calls.foldlM push q).map flush

/-- `clientCutText`; `toUnsigned32bit` of the negated length marks an extended one. -/
def clientCutText (q : SendQueue) (data : List UInt8) (extended : Bool) : Option SendQueue :=
  let length := if extended then -UInt32.ofNat data.length else UInt32.ofNat data.length
  q.message [.push8 6, .push8 0, .push8 0, .push8 0, .push32 length, .pushBytes data]

structure Ready (q : SendQueue) : Prop where
  size : q.sQ.length = sQbufferSize
  fits : q.sQlen ≤ sQbufferSize
  isOpen : q.isOpen = true

def content (q : SendQueue) : List UInt8 := q.frames.flatten ++ q.sQ.take q.sQlen

/-- The space that the first turn of `sQpushBytes` finds. -/
def room (q : SendQueue) : ℕ := sQbufferSize - (q.ensureSpace 1).sQlen

variable {q q' : SendQueue} {bytes : List UInt8} {offset n : ℕ}

theorem ready_new : Ready new := ⟨List.length_replicate, Nat.zero_le _, rfl⟩

theorem Ready.sQlen_flush (h : Ready q) : q.flush.sQlen = 0 := by
  unfold flush
  split
  · rfl
  · next hno =>
    by_contra hpos
    exact hno ⟨Nat.pos_of_ne_zero hpos, h.isOpen⟩

theorem sQ_flush (q : SendQueue) : q.flush.sQ = q.sQ := by
  unfold flush
  split <;> rfl

theorem content_flush (q : SendQueue) : q.flush.content = q.content := by
  unfold flush content
  split
  · simp
  · rfl

theorem Ready.flush (h : Ready q) : Ready q.flush := by
  refine ⟨(congrArg List.length (sQ_flush q)).trans h.size, ?_, ?_⟩
  · rw [h.sQlen_flush]
    exact Nat.zero_le _
  · unfold SendQueue.flush
    split
    · exact h.isOpen
    · exact h.isOpen

theorem Ready.ensureSpace (h : Ready q) (hn : n ≤ sQbufferSize) :
    Ready (q.ensureSpace n) ∧ (q.ensureSpace n).sQlen + n ≤ sQbufferSize ∧
      (q.ensureSpace n).content = q.content := by
  unfold SendQueue.ensureSpace
  split
  · refine ⟨h.flush, ?_, content_flush q⟩
    rw [h.sQlen_flush, Nat.zero_add]
    exact hn
  · next hspace =>
    have hfits := h.fits
    exact ⟨h, by omega, rfl⟩

theorem Ready.put (h : Ready q) (hlen : q.sQlen < sQbufferSize) (num : UInt8) :
    Ready (q.put num) ∧ (q.put num).content = q.content ++ [num] := by
  refine ⟨⟨(List.length_set ..).trans h.size, hlen, h.isOpen⟩, ?_⟩
  have hlt : q.sQlen < q.sQ.length := h.size.symm ▸ hlen
  simp only [content, SendQueue.put]
  rw [List.take_succ_eq_append_getElem (by simpa using hlt), List.take_set_of_le le_rfl,
    List.getElem_set_self, List.append_assoc]

theorem Ready.sQpush8 (h : Ready q) (num : UInt8) :
    Ready (q.sQpush8 num) ∧ (q.sQpush8 num).content = q.content ++ [num] := by
  obtain ⟨hready, hspace, hcontent⟩ := h.ensureSpace (n := 1) (by decide)
  obtain ⟨hput, hput'⟩ := hready.put (Nat.lt_of_succ_le hspace) num
  exact ⟨hput, hput'.trans (by rw [hcontent])⟩

def bytes32 (num : UInt32) : List UInt8 :=
  [(num >>> 24).toUInt8, (num >>> 16).toUInt8, (num >>> 8).toUInt8, num.toUInt8]

theorem Ready.sQpush32 (h : Ready q) (num : UInt32) :
    Ready (q.sQpush32 num) ∧ (q.sQpush32 num).content = q.content ++ bytes32 num := by
  obtain ⟨hready, hspace, hcontent⟩ := h.ensureSpace (n := 4) (by decide)
  obtain ⟨hready₁, hcontent₁⟩ := hready.put (by omega) (num >>> 24).toUInt8
  obtain ⟨hready₂, hcontent₂⟩ :=
    hready₁.put (by simp only [SendQueue.put]; omega) (num >>> 16).toUInt8
  obtain ⟨hready₃, hcontent₃⟩ :=
    hready₂.put (by simp only [SendQueue.put]; omega) (num >>> 8).toUInt8
  obtain ⟨hready₄, hcontent₄⟩ := hready₃.put (by simp only [SendQueue.put]; omega) num.toUInt8
  refine ⟨hready₄, ?_⟩
  rw [SendQueue.sQpush32, hcontent₄, hcontent₃, hcontent₂, hcontent₁, hcontent]
  simp [bytes32]

theorem Ready.sQpush16 (h : Ready q) (num : UInt16) : Ready (q.sQpush16 num) := by
  obtain ⟨hready, hspace, -⟩ := h.ensureSpace (n := 2) (by decide)
  have hready₁ := (hready.put (by omega) (num >>> 8).toUInt8).1
  exact (hready₁.put (by simp only [SendQueue.put]; omega) num.toUInt8).1

/-! ### The turns of `sQpushBytes` -/

theorem Ready.room_pos (h : Ready q) : 0 < q.room := by
  have hspace := (h.ensureSpace (n := 1) (by decide)).2.1
  unfold room
  omega

/-- What a turn puts into the queue: the bytes that it copies, and behind them what was in the
array before. -/
def chunk (q : SendQueue) (bytes : List UInt8) (offset chunkSize : ℕ) : List UInt8 :=
  let copied := subarray bytes offset chunkSize
  copied ++ (q.sQ.drop (q.sQlen + copied.length)).take (chunkSize - copied.length)

theorem length_subarray (bytes : List UInt8) (offset chunkSize : ℕ) :
    (subarray bytes offset chunkSize).length = min chunkSize bytes.length - offset := by
  simp [subarray]

def turned (q : SendQueue) (bytes : List UInt8) (offset chunkSize : ℕ) : SendQueue :=
  let copied := subarray bytes offset chunkSize
  { q with
    sQ := q.sQ.take q.sQlen ++ copied ++ q.sQ.drop (q.sQlen + copied.length)
    sQlen := q.sQlen + chunkSize }

theorem Ready.turned (h : Ready q) (bytes : List UInt8) (offset : ℕ) {chunkSize : ℕ}
    (hsize : q.sQlen + chunkSize ≤ sQbufferSize) :
    Ready (q.turned bytes offset chunkSize) ∧
      (q.turned bytes offset chunkSize).content =
        q.content ++ q.chunk bytes offset chunkSize ∧
      (q.chunk bytes offset chunkSize).length = chunkSize := by
  have hcopied := length_subarray bytes offset chunkSize
  have harray := h.size
  have hle : (subarray bytes offset chunkSize).length ≤ chunkSize := by omega
  refine ⟨⟨?_, hsize, h.isOpen⟩, ?_, ?_⟩
  · simp only [SendQueue.turned, List.length_append, List.length_take, List.length_drop]
    omega
  · have htake : (q.sQ.take q.sQlen).length = q.sQlen := by
      rw [List.length_take]
      omega
    simp only [content, SendQueue.turned, chunk]
    rw [List.append_assoc (q.sQ.take q.sQlen), List.take_append, htake,
      List.take_of_length_le (by omega), Nat.add_sub_cancel_left, List.take_append,
      List.take_of_length_le hle]
    simp only [List.append_assoc]
  · simp only [chunk, List.length_append, List.length_take, List.length_drop]
    omega

theorem pushLoop_done (h : bytes.length ≤ offset) (turns : ℕ) :
    pushLoop bytes turns offset q = some q := by
  cases turns <;> rw [pushLoop, if_pos h]

theorem Ready.pushLoop_succ (h : Ready q) (hleft : offset < bytes.length) (turns : ℕ) :
    pushLoop bytes (turns + 1) offset q =
      pushLoop bytes turns (offset + min q.room (bytes.length - offset))
        ((q.ensureSpace 1).turned bytes offset (min q.room (bytes.length - offset))) := by
  obtain ⟨hready, hspace, -⟩ := h.ensureSpace (n := 1) (by decide)
  have hsize := hready.size
  have hcopied := length_subarray bytes offset (min q.room (bytes.length - offset))
  rw [pushLoop, if_neg (Nat.not_le.mpr hleft)]
  simp only [room] at hcopied ⊢
  rw [setBytes_eq (by omega)]
  rfl

/-- The loop comes to its end, and puts in as many bytes as it was given. -/
theorem Ready.pushLoop (h : Ready q) {turns : ℕ} (hturns : bytes.length ≤ offset + turns) :
    ∃ q' more, SendQueue.pushLoop bytes turns offset q = some q' ∧ Ready q' ∧
      q'.content = q.content ++ more ∧ more.length = bytes.length - offset := by
  induction turns generalizing q offset with
  | zero => exact ⟨q, [], pushLoop_done hturns _, h, by simp, by simp; omega⟩
  | succ turns ih =>
    by_cases hleft : offset < bytes.length
    · obtain ⟨hready, hspace, hcontent⟩ := h.ensureSpace (n := 1) (by decide)
      have hpos := h.room_pos
      have hroom : (q.ensureSpace 1).sQlen + min q.room (bytes.length - offset) ≤ sQbufferSize := by
        unfold room
        omega
      obtain ⟨hturned, hcontent', hlength⟩ :=
        hready.turned bytes offset hroom
      have hless : bytes.length ≤ offset + min q.room (bytes.length - offset) + turns := by omega
      obtain ⟨q', more, hloop, hready', hmore, hlength'⟩ := ih hturned hless
      refine ⟨q', (q.ensureSpace 1).chunk bytes offset (min q.room (bytes.length - offset)) ++ more,
        (h.pushLoop_succ hleft turns).trans hloop, hready', ?_, ?_⟩
      · rw [hmore, hcontent', hcontent, List.append_assoc]
      · rw [List.length_append, hlength, hlength']
        omega
    · exact ⟨q, [], pushLoop_done (by omega) _, h, by simp, by simp; omega⟩

theorem Ready.sQpushBytes (h : Ready q) (bytes : List UInt8) :
    ∃ q' more, q.sQpushBytes bytes = some q' ∧ Ready q' ∧ q'.content = q.content ++ more ∧
      more.length = bytes.length :=
  h.pushLoop (Nat.le_add_left _ _)

theorem subarray_zero (bytes : List UInt8) (chunkSize : ℕ) :
    subarray bytes 0 chunkSize = bytes.take chunkSize := rfl

theorem chunk_zero {chunkSize : ℕ} (h : chunkSize ≤ bytes.length) :
    q.chunk bytes 0 chunkSize = bytes.take chunkSize := by
  have hlength : (bytes.take chunkSize).length = chunkSize := by
    rw [List.length_take]
    omega
  simp [chunk, subarray_zero, hlength]

theorem Ready.sQpushBytes_fits (h : Ready q) (hfits : bytes.length ≤ q.room) :
    ∃ q', q.sQpushBytes bytes = some q' ∧ Ready q' ∧ q'.content = q.content ++ bytes := by
  cases hb : bytes.length with
  | zero =>
    obtain rfl := List.length_eq_zero_iff.mp hb
    exact ⟨q, pushLoop_done (Nat.zero_le _) _, h, by simp⟩
  | succ turns =>
    obtain ⟨hready, hspace, hcontent⟩ := h.ensureSpace (n := 1) (by decide)
    have hstep := h.pushLoop_succ (by omega : 0 < bytes.length) turns
    rw [Nat.sub_zero, Nat.min_eq_right hfits, Nat.zero_add, ← hb] at hstep
    have hroom : (q.ensureSpace 1).sQlen + bytes.length ≤ sQbufferSize := by
      unfold room at hfits
      omega
    obtain ⟨hturned, hcontent', -⟩ := hready.turned bytes 0 hroom
    refine ⟨_, hstep.trans (pushLoop_done le_rfl _), hturned, ?_⟩
    rw [hcontent', hcontent, chunk_zero le_rfl, List.take_length]

theorem chunk_of_empty (hlen : q.sQlen = 0) {chunkSize : ℕ} (hbytes : chunkSize ≤ bytes.length) :
    q.chunk bytes offset chunkSize =
      subarray bytes offset chunkSize ++ (q.sQ.take chunkSize).drop (chunkSize - offset) := by
  have hcopied : (subarray bytes offset chunkSize).length = chunkSize - offset := by
    rw [length_subarray]
    omega
  simp only [chunk]
  rw [hcopied, hlen, Nat.zero_add, ← List.drop_take]

/-- A second turn copies too little: it leaves a byte of an earlier frame in the queue. -/
theorem stale_mem_chunk (q : SendQueue) {bytes : List UInt8} {chunkSize : ℕ}
    (hoffset : 0 < offset) (hpos : 0 < chunkSize)
    (hbytes : offset + chunkSize ≤ bytes.length) (hlen : q.sQlen = 0)
    (hsize : chunkSize ≤ q.sQ.length) :
    q.sQ.getD (chunkSize - offset) 0 ∈ q.chunk bytes offset chunkSize := by
  have hlt : chunkSize - offset < (q.sQ.take chunkSize).length := by
    rw [List.length_take]
    omega
  rw [chunk_of_empty hlen (by omega), List.getD_eq_getElem _ _ (by omega),
    List.drop_eq_getElem_cons hlt, List.getElem_take]
  exact List.mem_append_right _ List.mem_cons_self

/-- The state before the second turn of data that the first has no space for. -/
def full (q : SendQueue) (bytes : List UInt8) : SendQueue :=
  ((q.ensureSpace 1).turned bytes 0 q.room).flush

theorem full_congr {bytes' : List UInt8} (h : bytes.take q.room = bytes'.take q.room) :
    q.full bytes = q.full bytes' := by
  simp only [full, SendQueue.turned, subarray_zero, h]

theorem Ready.full (h : Ready q) (hn : q.room < bytes.length) :
    Ready (q.full bytes) ∧ (q.full bytes).sQlen = 0 ∧
      (q.full bytes).content = q.content ++ bytes.take q.room ∧
        ((q.ensureSpace 1).turned bytes 0 q.room).ensureSpace 1 = q.full bytes := by
  obtain ⟨hready, hspace, hcontent⟩ := h.ensureSpace (n := 1) (by decide)
  have hroom : (q.ensureSpace 1).sQlen + q.room = sQbufferSize := by
    unfold room
    omega
  obtain ⟨hturned, hturned', -⟩ := hready.turned bytes 0 hroom.le
  refine ⟨hturned.flush, hturned.sQlen_flush, ?_, ?_⟩
  · rw [SendQueue.full, content_flush, hturned', hcontent, chunk_zero hn.le]
  · rw [SendQueue.full, SendQueue.ensureSpace, if_pos]
    simp only [SendQueue.turned, hroom]
    omega

theorem Ready.sQ_full (h : Ready q) (hn : q.room < bytes.length) :
    (q.full bytes).sQ =
      (q.ensureSpace 1).sQ.take (q.ensureSpace 1).sQlen ++ bytes.take q.room := by
  obtain ⟨hready, hspace, -⟩ := h.ensureSpace (n := 1) (by decide)
  have hsize := hready.size
  have hlength : (bytes.take q.room).length = q.room := by
    rw [List.length_take]
    omega
  rw [SendQueue.full, sQ_flush, SendQueue.turned, subarray_zero, hlength]
  simp only [room] at hlength ⊢
  rw [List.drop_of_length_le (by omega), List.append_nil]

theorem Ready.sQpushBytes_second (h : Ready q) (hn : q.room < bytes.length) :
    ∃ q' more, q.sQpushBytes bytes = some q' ∧ q'.content = q.content ++ bytes.take q.room ++
      ((q.full bytes).chunk bytes q.room (min sQbufferSize (bytes.length - q.room)) ++ more) := by
  have hpos := h.room_pos
  have hready := (h.ensureSpace (n := 1) (by decide)).1
  have hroom : (q.ensureSpace 1).sQlen + q.room ≤ sQbufferSize := by
    have hspace := (h.ensureSpace (n := 1) (by decide)).2.1
    unfold room
    omega
  have hfirst := (hready.turned bytes 0 hroom).1
  obtain ⟨hfull, hempty, hcontent, hspace⟩ := h.full hn
  have hroom' : ((q.ensureSpace 1).turned bytes 0 q.room).room = sQbufferSize := by
    rw [room, hspace, hempty, Nat.sub_zero]
  obtain ⟨turns, hturns⟩ : ∃ turns, bytes.length = turns + 2 := ⟨bytes.length - 2, by omega⟩
  have hsecond : (q.full bytes).sQlen + min sQbufferSize (bytes.length - q.room) ≤
      sQbufferSize := by
    omega
  obtain ⟨hturned, hturned', -⟩ := hfull.turned bytes q.room hsecond
  have hless : bytes.length ≤
      q.room + min sQbufferSize (bytes.length - q.room) + turns := by
    have hsize : 0 < sQbufferSize := by decide
    omega
  obtain ⟨q', more, hloop, -, hmore, -⟩ := hturned.pushLoop hless
  refine ⟨q', more, ?_, ?_⟩
  · have hstep := h.pushLoop_succ (by omega : 0 < bytes.length) (turns + 1)
    have hstep' := hfirst.pushLoop_succ hn turns
    rw [Nat.sub_zero, Nat.min_eq_left hn.le, Nat.zero_add] at hstep
    rw [hroom', hspace] at hstep'
    rw [SendQueue.sQpushBytes, show bytes.length = turns + 1 + 1 from hturns, hstep, hstep', hloop]
  · rw [hmore, hturned', hcontent, List.append_assoc _ _ more]

theorem Ready.sQpushBytes_overflow (h : Ready q) (hn : q.room < n) :
    ∃ bytes : List UInt8, bytes.length = n ∧
      ∀ q', q.sQpushBytes bytes = some q' → q'.content ≠ q.content ++ bytes := by
  have hpos := h.room_pos
  have hsize : 0 < sQbufferSize := by decide
  obtain ⟨second, hsecond⟩ : ∃ second, second = min sQbufferSize (n - q.room) := ⟨_, rfl⟩
  -- data that differs, behind the first turn, from the byte that the second turn leaves
  obtain ⟨zeros, hzeros⟩ : ∃ zeros : List UInt8, zeros.length = q.room :=
    ⟨List.replicate q.room 0, List.length_replicate⟩
  have hbyte : Nontrivial UInt8 := ⟨0, 1, by decide⟩
  obtain ⟨other, hother⟩ := exists_ne ((q.full zeros).sQ.getD (second - q.room) 0)
  obtain ⟨bytes, hbytes⟩ : ∃ bytes, bytes = zeros ++ List.replicate (n - q.room) other := ⟨_, rfl⟩
  have hlength : bytes.length = n := by
    rw [hbytes, List.length_append, hzeros, List.length_replicate]
    omega
  have htake : bytes.take q.room = zeros := by
    rw [hbytes, ← hzeros, List.take_left]
  refine ⟨bytes, hlength, fun q' hq' heq => hother (Eq.symm ?_)⟩
  obtain ⟨hfull, hempty, -, -⟩ := h.full (hlength ▸ hn)
  obtain ⟨_, more, hloop, hmore⟩ := h.sQpushBytes_second (hlength ▸ hn)
  cases hloop.symm.trans hq'
  have hstale := stale_mem_chunk (q.full bytes) hpos (by omega : 0 < second)
    (by omega : q.room + second ≤ bytes.length) hempty (by rw [hfull.size]; omega)
  have hsame : q.full bytes = q.full zeros :=
    full_congr (htake.trans (hzeros ▸ zeros.take_length.symm))
  rw [hsame] at hstale hmore
  rw [hmore, htake, hlength, ← hsecond, List.append_assoc] at heq
  have htail := List.append_cancel_left ((List.append_cancel_left heq).trans hbytes)
  refine List.eq_of_mem_replicate (n := n - q.room) ?_
  rw [← htail]
  exact List.mem_append_left _ hstale

/-- `sQpushBytes` pushes all data of a length exactly when the space it finds is enough for it. -/
theorem Ready.sQpushBytes_iff (h : Ready q) (n : ℕ) :
    (∀ bytes : List UInt8, bytes.length = n →
      ∃ q', q.sQpushBytes bytes = some q' ∧ q'.content = q.content ++ bytes) ↔ n ≤ q.room := by
  constructor
  · intro hall
    by_contra hn
    obtain ⟨bytes, hlength, hwrong⟩ := h.sQpushBytes_overflow (Nat.lt_of_not_le hn)
    obtain ⟨q', hq', hcontent⟩ := hall bytes hlength
    exact hwrong q' hq' hcontent
  · rintro hn bytes rfl
    obtain ⟨q', hq', -, hcontent⟩ := h.sQpushBytes_fits hn
    exact ⟨q', hq', hcontent⟩

/-! ### Messages -/

theorem Ready.push (h : Ready q) (call : PushCall) :
    ∃ q', q.push call = some q' ∧ Ready q' := by
  cases call with
  | push8 num => exact ⟨_, rfl, (h.sQpush8 num).1⟩
  | push16 num => exact ⟨_, rfl, h.sQpush16 num⟩
  | push32 num => exact ⟨_, rfl, (h.sQpush32 num).1⟩
  | pushBytes bytes =>
    obtain ⟨q', -, hq', hready, -⟩ := h.sQpushBytes bytes
    exact ⟨q', hq', hready⟩

theorem Ready.foldlM_push (h : Ready q) (calls : List PushCall) :
    ∃ q', calls.foldlM SendQueue.push q = some q' ∧ Ready q' := by
  induction calls generalizing q with
  | nil => exact ⟨q, rfl, h⟩
  | cons call calls ih =>
    obtain ⟨q₁, hq₁, hready₁⟩ := h.push call
    obtain ⟨q', hq', hready⟩ := ih hready₁
    refine ⟨q', ?_, hready⟩
    rw [List.foldlM_cons, hq₁]
    exact hq'

theorem Ready.message (h : Ready q) (calls : List PushCall) :
    ∃ q', q.message calls = some q' ∧ Ready q' ∧ q'.sQlen = 0 := by
  obtain ⟨q', hq', hready⟩ := h.foldlM_push calls
  exact ⟨q'.flush, by rw [SendQueue.message, hq']; rfl, hready.flush, hready.sQlen_flush⟩

theorem Ready.messages (h : Ready q) (hempty : q.sQlen = 0) (messages : List (List PushCall)) :
    ∃ q', messages.foldlM SendQueue.message q = some q' ∧ Ready q' ∧ q'.sQlen = 0 := by
  induction messages generalizing q with
  | nil => exact ⟨q, rfl, h, hempty⟩
  | cons calls messages ih =>
    obtain ⟨q₁, hq₁, hready₁, hempty₁⟩ := h.message calls
    obtain ⟨q', hq', hready⟩ := ih hready₁ hempty₁
    refine ⟨q', ?_, hready⟩
    rw [List.foldlM_cons, hq₁]
    exact hq'

theorem content_of_empty (hempty : q.sQlen = 0) : q.content = q.frames.flatten := by
  rw [content, hempty, List.take_zero, List.append_nil]

/-- The fields of `clientCutText` before its data. -/
def cutTextHeader (length : ℕ) (extended : Bool) : List UInt8 :=
  [6, 0, 0, 0] ++ bytes32 (if extended then -UInt32.ofNat length else UInt32.ofNat length)

/-- The first frame of a text: the header, and the data that there is space for. -/
def cutTextFrame (data : List UInt8) (extended : Bool) : List UInt8 :=
  cutTextHeader data.length extended ++ data.take 10232

/-- What the second turn of `sQpushBytes` pushes of a text: the bytes of the `subarray`, and behind
them those of the first frame, which the array still has there. -/
def cutTextSecond (data : List UInt8) (extended : Bool) : List UInt8 :=
  let chunkSize := min sQbufferSize (data.length - 10232)
  subarray data 10232 chunkSize ++
    ((cutTextFrame data extended).take chunkSize).drop (chunkSize - 10232)

theorem Ready.clientCutText (h : Ready q) (hempty : q.sQlen = 0) (n : ℕ) (extended : Bool) :
    ∃ q₁, Ready q₁ ∧ q₁.frames = q.frames ∧ q₁.sQlen = 8 ∧
      q₁.sQ.take 8 = cutTextHeader n extended ∧ ∀ data : List UInt8, data.length = n →
        q.clientCutText data extended = (q₁.sQpushBytes data).map SendQueue.flush := by
  let length : UInt32 := if extended then -UInt32.ofNat n else UInt32.ofNat n
  obtain ⟨h₁, hcontent₁⟩ := h.sQpush8 6
  obtain ⟨h₂, hcontent₂⟩ := h₁.sQpush8 0
  obtain ⟨h₃, hcontent₃⟩ := h₂.sQpush8 0
  obtain ⟨h₄, hcontent₄⟩ := h₃.sQpush8 0
  obtain ⟨h₅, hcontent₅⟩ := h₄.sQpush32 length
  have hframes : (((((q.sQpush8 6).sQpush8 0).sQpush8 0).sQpush8 0).sQpush32 length).frames =
      q.frames := by
    simp [SendQueue.sQpush8, SendQueue.sQpush32, SendQueue.ensureSpace, SendQueue.put, hempty,
      sQbufferSize]
  have hlen : (((((q.sQpush8 6).sQpush8 0).sQpush8 0).sQpush8 0).sQpush32 length).sQlen = 8 := by
    simp [SendQueue.sQpush8, SendQueue.sQpush32, SendQueue.ensureSpace, SendQueue.put, hempty,
      sQbufferSize]
  refine ⟨_, h₅, hframes, hlen, ?_, ?_⟩
  · rw [hcontent₄, hcontent₃, hcontent₂, hcontent₁, content_of_empty hempty, content, hframes,
      hlen] at hcontent₅
    simpa [cutTextHeader, length] using hcontent₅
  · rintro data rfl
    simp [SendQueue.clientCutText, SendQueue.message, SendQueue.push, length]

theorem room_of_header (hlen : q.sQlen = 8) : q.ensureSpace 1 = q ∧ q.room = 10232 := by
  have hspace : q.ensureSpace 1 = q := by
    rw [SendQueue.ensureSpace, if_neg]
    rw [hlen]
    decide
  exact ⟨hspace, by rw [room, hspace, hlen]; rfl⟩

/-- A text with more bytes than that leaves its first frame in the array for its second turn. -/
theorem Ready.cutText_second (h : Ready q) (hlen : q.sQlen = 8) {data : List UInt8}
    {extended : Bool} (hheader : q.sQ.take 8 = cutTextHeader data.length extended)
    (hdata : 10232 < data.length) :
    ∃ q' more, q.sQpushBytes data = some q' ∧ q'.content =
      q.frames.flatten ++ cutTextFrame data extended ++ cutTextSecond data extended ++ more := by
  obtain ⟨hspace, hroom⟩ := room_of_header hlen
  have hn : q.room < data.length := hroom ▸ hdata
  obtain ⟨-, hempty, -, -⟩ := h.full hn
  obtain ⟨q', more, hloop, hmore⟩ := h.sQpushBytes_second hn
  have harray : (q.full data).sQ = cutTextFrame data extended := by
    rw [h.sQ_full hn, hspace, hlen, hheader, hroom, cutTextFrame]
  have hsecond : (q.full data).chunk data q.room (min sQbufferSize (data.length - q.room)) =
      cutTextSecond data extended := by
    rw [chunk_of_empty hempty (by omega), harray, hroom, cutTextSecond]
  refine ⟨q', more, hloop, ?_⟩
  rw [hmore, hsecond, content, hlen, hheader, hroom, cutTextFrame]
  simp only [List.append_assoc]

end SendQueue

open SendQueue

/-- Behind any messages of the client, a clipboard text reaches the server as it is, whatever its
bytes, exactly up to `10232` bytes. A longer one is sent with the right length, but its second turn
of `sQpushBytes` sends bytes of the frame before. -/
theorem cut_text_sent_iff (messages : List (List PushCall)) (extended : Bool) (n : ℕ) :
    ∃ q, messages.foldlM SendQueue.message SendQueue.new = some q ∧
      (∀ data : List UInt8, data.length = n → ∃ q' more,
        q.clientCutText data extended = some q' ∧ more.length = n ∧
          q'.frames.flatten = q.frames.flatten ++ cutTextHeader n extended ++ more) ∧
      ((∀ data : List UInt8, data.length = n → ∃ q', q.clientCutText data extended = some q' ∧
          q'.frames.flatten = q.frames.flatten ++ cutTextHeader n extended ++ data) ↔
        n ≤ 10232) ∧
      (10232 < n → ∀ data : List UInt8, data.length = n → ∃ q' more,
        q.clientCutText data extended = some q' ∧
          q'.frames.flatten =
            q.frames.flatten ++ cutTextFrame data extended ++ cutTextSecond data extended ++
              more) := by
  obtain ⟨q, hq, hready, hempty⟩ := ready_new.messages rfl messages
  obtain ⟨q₁, hready₁, hframes, hlen, hheader, hsend⟩ := hready.clientCutText hempty n extended
  have hcontent₁ : q₁.content = q.frames.flatten ++ cutTextHeader n extended := by
    rw [content, hlen, hframes, hheader]
  have hpushed (data : List UInt8) (hdata : data.length = n) : ∃ q₂ more,
      q₁.sQpushBytes data = some q₂ ∧ q.clientCutText data extended = some q₂.flush ∧
        more.length = n ∧ q₂.content = q₁.content ++ more ∧
          q₂.flush.frames.flatten = q₂.content := by
    obtain ⟨q₂, more, hq₂, hready₂, hmore, hlength⟩ := hready₁.sQpushBytes data
    refine ⟨q₂, more, hq₂, ?_, hlength.trans hdata, hmore, ?_⟩
    · rw [hsend data hdata, hq₂]
      rfl
    · rw [← content_of_empty hready₂.sQlen_flush, content_flush]
  refine ⟨q, hq, fun data hdata => ?_, ?_, fun hn data hdata => ?_⟩
  · obtain ⟨q₂, more, -, hsent, hlength, hmore, hflush⟩ := hpushed data hdata
    exact ⟨q₂.flush, more, hsent, hlength, by rw [hflush, hmore, hcontent₁]⟩
  · rw [← (room_of_header hlen).2, ← hready₁.sQpushBytes_iff n]
    refine forall₂_congr fun data hdata => ?_
    obtain ⟨q₂, -, hq₂, hsent, -, -, hflush⟩ := hpushed data hdata
    rw [hsent, hq₂, ← hcontent₁]
    constructor
    · rintro ⟨q', hq', heq⟩
      cases hq'
      exact ⟨q₂, rfl, hflush.symm.trans heq⟩
    · rintro ⟨q', hq', heq⟩
      cases hq'
      exact ⟨q₂.flush, rfl, hflush.trans heq⟩
  · obtain ⟨q₂, -, hq₂, hsent, -, -, hflush⟩ := hpushed data hdata
    subst hdata
    obtain ⟨q₂', more, hq₂', hmore⟩ := hready₁.cutText_second hlen hheader hn
    cases hq₂.symm.trans hq₂'
    exact ⟨q₂.flush, more, hsent, by rw [hflush, hmore, hframes]⟩

end Urc
