import Urc.Common.Framing

/-! # The bridge between the browser and the VNC server

`bridge_vnc` joins the WebSocket of a browser with a TCP connection to the VNC server. One half
writes what binary frames carry to the server and ends that direction behind its loop; the other
sends what it reads in binary frames, and an empty ping at every tick of the keepalive, and closes
the WebSocket behind its loop. The bridge is over when both halves have returned.
-/

namespace Urc

open Splice

/-- The bytes that `to_vnc` writes for a frame. -/
def binaryOf : Message → List UInt8
  | .binary b => b
  | .text _ | .ping _ | .pong _ | .close => []

def bridgePayload : Payload where
  of := binaryOf
  close := rfl
  ping := rfl
  binary _ := rfl

/-- The loop of `to_vnc`. -/
def toVncLoop : Copier Message UInt8 UInt8 := bridgePayload.reader

/-- The loop of `from_vnc`, with a buffer of `16 * 1024` bytes. -/
def fromVncLoop : Copier UInt8 Message UInt8 := bridgePayload.writer (16 * 1024 - 1)

structure Bridge where
  toVnc : Half Message UInt8
  fromVnc : Half UInt8 Message

/-- What can happen: the browser sends or reads frames, or its connection is lost; the VNC server
writes, ends its direction or reads, or its connection is lost; a half runs on to its next await,
with at most `n + 1` items; the keepalive ticks. -/
inductive BridgeEvent
  | frame (m : Message)
  | browserReads (n : ℕ)
  | browserLost
  | vncWrites (bytes : List UInt8)
  | vncEnds
  | vncReads (n : ℕ)
  | vncLost
  | toVnc (n : ℕ)
  | fromVnc (n : ℕ)
  | keepalive

namespace Bridge

def new : Bridge := ⟨.new, .new⟩

/-- `to_vnc` runs on. Once a close frame was read, the WebSocket takes no more frames. -/
def goToVnc (b : Bridge) (n : ℕ) : Bridge :=
  match b.toVnc.pc with
  | .left rest => { b with toVnc := { b.toVnc with dst := b.toVnc.dst.finish, pc := .done rest } }
  | .reading | .writing _ _ | .done _ =>
    let h := b.toVnc.go toVncLoop n
    ⟨h, if .close ∈ h.src.taken then { b.fromVnc with dst := b.fromVnc.dst.cut } else b.fromVnc⟩

/-- `from_vnc` runs on. Behind its loop `ws_tx.close()` sends a close frame, where the WebSocket
still takes one. -/
def goFromVnc (b : Bridge) (n : ℕ) : Bridge :=
  match b.fromVnc.pc with
  | .left rest =>
    let last := if b.fromVnc.dst.broken then [] else [.close]
    { b with
      fromVnc := { b.fromVnc with dst := (b.fromVnc.dst.put last).finish, pc := .done rest } }
  | .reading | .writing _ _ | .done _ => { b with fromVnc := b.fromVnc.go fromVncLoop n }

def step (b : Bridge) : BridgeEvent → Bridge
  | .frame m => { b with toVnc := { b.toVnc with src := receiveFrame b.toVnc.src m } }
  | .browserReads n => { b with fromVnc := { b.fromVnc with dst := b.fromVnc.dst.take n } }
  | .browserLost =>
    ⟨{ b.toVnc with src := b.toVnc.src.cut }, { b.fromVnc with dst := b.fromVnc.dst.cut }⟩
  | .vncWrites bytes =>
    { b with fromVnc := { b.fromVnc with src := b.fromVnc.src.receive bytes } }
  | .vncEnds => { b with fromVnc := { b.fromVnc with src := b.fromVnc.src.finish } }
  | .vncReads n => { b with toVnc := { b.toVnc with dst := b.toVnc.dst.take n } }
  | .vncLost =>
    ⟨{ b.toVnc with dst := b.toVnc.dst.cut }, { b.fromVnc with src := b.fromVnc.src.cut }⟩
  | .toVnc n => b.goToVnc n
  | .fromVnc n => b.goFromVnc n
  | .keepalive => { b with fromVnc := b.fromVnc.wake (.ping []) }

/-! ### What a step does to each half -/

variable {b b' : Bridge} {e : BridgeEvent}

open Relation

theorem steps_toVnc (b : Bridge) (e : BridgeEvent) :
    ReflTransGen (Half.Step toVncLoop) b.toVnc (b.step e).toVnc := by
  cases e with
  | frame m => exact steps_receiveFrame toVncLoop b.toVnc m
  | browserLost => exact .single .cutSrc
  | vncReads n => exact .single (.collect n)
  | vncLost => exact .single .cutDst
  | toVnc n =>
    simp only [step, goToVnc]
    split
    · next rest hpc =>
      have hclose : Half.Step toVncLoop b.toVnc
          { b.toVnc with dst := (b.toVnc.dst.put []).finish, pc := .done b.toVnc.pc.rest } :=
        .close [] (by simp [hpc, HalfPc.isOver]) rfl fun _ => rfl
      rw [hpc, Pipe.put_nil] at hclose
      exact .single hclose
    all_goals exact .single (.go n)
  | vncWrites bytes => exact .refl
  | fromVnc n =>
    simp only [step, goFromVnc]
    split <;> exact .refl
  | browserReads n => exact .refl
  | vncEnds => exact .refl
  | keepalive => exact .refl

theorem steps_fromVnc (b : Bridge) (e : BridgeEvent) (he : e ≠ .keepalive) :
    ReflTransGen (Half.Step fromVncLoop) b.fromVnc (b.step e).fromVnc := by
  cases e with
  | keepalive => exact absurd rfl he
  | browserReads n => exact .single (.collect n)
  | browserLost => exact .single .cutDst
  | vncWrites bytes => exact Half.steps_receive fromVncLoop b.fromVnc bytes
  | vncEnds => exact .single .finish
  | vncLost => exact .single .cutSrc
  | toVnc n =>
    simp only [step, goToVnc]
    split
    · exact .refl
    all_goals
      split
      · exact .single .cutDst
      · exact .refl
  | fromVnc n =>
    simp only [step, goFromVnc]
    split
    · next rest hpc =>
      have hclose : ∀ last : List Message, last.flatMap binaryOf = [] →
          (b.fromVnc.dst.broken = true → last = []) → Half.Step fromVncLoop b.fromVnc
            { b.fromVnc with
              dst := (b.fromVnc.dst.put last).finish, pc := .done b.fromVnc.pc.rest } :=
        fun last hlast => .close last (by simp [hpc, HalfPc.isOver]) hlast
      rw [hpc] at hclose
      exact .single (hclose _ (by split <;> rfl) fun hb => if_pos hb)
    all_goals exact .single (.go n)
  | frame m => exact .refl
  | vncReads n => exact .refl

/-! ### What holds in every run -/

/-- The halves carry what they read, and say why they were left. -/
structure Carries (b : Bridge) : Prop where
  toVnc : b.toVnc.Exact toVncLoop
  fromVnc : b.fromVnc.Exact fromVncLoop
  leftToVnc : b.toVnc.Explained toVncLoop
  leftFromVnc : b.fromVnc.Explained fromVncLoop

theorem carries_new : Carries new :=
  ⟨Half.exact_new, Half.exact_new, Half.explained_new, Half.explained_new⟩

theorem Carries.step (h : Carries b) (e : BridgeEvent) : Carries (b.step e) := by
  have hthere := steps_toVnc b e
  by_cases he : e = .keepalive
  · subst he
    exact ⟨h.toVnc, h.fromVnc.wake rfl, h.leftToVnc, h.leftFromVnc.wake _⟩
  · have hback := steps_fromVnc b e he
    exact ⟨h.toVnc.steps hthere, h.fromVnc.steps hback, h.leftToVnc.steps hthere,
      h.leftFromVnc.steps hback⟩

/-- A lost connection is lost for both halves, and a close frame ends the WebSocket for both. -/
structure Linked (b : Bridge) : Prop where
  browser : b.toVnc.src.broken = true → b.fromVnc.dst.broken = true
  vnc : b.toVnc.dst.broken = true → b.fromVnc.src.broken = true
  closed : .close ∈ b.toVnc.src.taken → b.fromVnc.dst.broken = true

theorem linked_new : Linked new := ⟨nofun, nofun, nofun⟩

theorem Linked.step (h : Linked b) (e : BridgeEvent) : Linked (b.step e) := by
  cases e with
  | frame m =>
    refine ⟨fun hb => h.browser ?_, h.vnc, fun hmem => h.closed ?_⟩
    · exact (broken_receiveFrame ..).symm.trans hb
    · exact taken_receiveFrame b.toVnc.src m ▸ hmem
  | browserReads n => exact ⟨h.browser, h.vnc, h.closed⟩
  | browserLost => exact ⟨fun _ => rfl, h.vnc, fun _ => rfl⟩
  | vncWrites bytes =>
    exact ⟨h.browser, fun hb => (Pipe.broken_receive ..).trans (h.vnc hb), h.closed⟩
  | vncEnds => exact ⟨h.browser, h.vnc, h.closed⟩
  | vncReads n => exact ⟨h.browser, h.vnc, h.closed⟩
  | vncLost => exact ⟨h.browser, fun _ => rfl, h.closed⟩
  | toVnc n =>
    have hk := Half.kept_go toVncLoop n b.toVnc
    simp only [Bridge.step, goToVnc]
    split
    · exact ⟨h.browser, h.vnc, h.closed⟩
    all_goals
      split
      · exact ⟨fun _ => rfl, fun hb => h.vnc (hk.broken'.symm.trans hb), fun _ => rfl⟩
      · next hno =>
        exact ⟨fun hb => h.browser (hk.broken.symm.trans hb),
          fun hb => h.vnc (hk.broken'.symm.trans hb), fun hmem => absurd hmem hno⟩
  | fromVnc n =>
    have hk := Half.kept_go fromVncLoop n b.fromVnc
    simp only [Bridge.step, goFromVnc]
    split
    · exact ⟨h.browser, h.vnc, h.closed⟩
    all_goals
      exact ⟨fun hb => hk.broken'.trans (h.browser hb), fun hb => hk.broken.trans (h.vnc hb),
        fun hmem => hk.broken'.trans (h.closed hmem)⟩
  | keepalive =>
    simp only [Bridge.step, Half.wake]
    split <;> exact ⟨h.browser, h.vnc, h.closed⟩

theorem closesLast_step (h : ClosesLast b.toVnc.src) (e : BridgeEvent) :
    ClosesLast (b.step e).toVnc.src := by
  cases e with
  | frame m => exact h.receiveFrame m
  | browserLost => exact h.congr rfl rfl
  | toVnc n =>
    have hk := Half.kept_go toVncLoop n b.toVnc
    simp only [step, goToVnc]
    split
    · exact h
    all_goals exact h.congr hk.sent hk.ended
  | fromVnc n =>
    simp only [step, goFromVnc]
    split <;> exact h
  | _ => exact h

/-- A half that has returned has ended its sink, `from_vnc` with a close frame. -/
structure Returned (b : Bridge) : Prop where
  toVnc : ∀ rest, b.toVnc.pc = .done rest → b.toVnc.dst.ended = true
  fromVnc : ∀ rest, b.fromVnc.pc = .done rest → b.fromVnc.dst.broken = true ∨
    b.fromVnc.dst.sent.getLast? = some .close

theorem returned_new : Returned new := ⟨nofun, nofun⟩

theorem Returned.step (h : Returned b) (e : BridgeEvent) : Returned (b.step e) := by
  cases e with
  | frame m => exact ⟨h.toVnc, h.fromVnc⟩
  | browserReads n =>
    refine ⟨h.toVnc, fun rest hd => ?_⟩
    rw [show ((b.step (.browserReads n)).fromVnc.dst.sent) = b.fromVnc.dst.sent from
      Pipe.sent_take ..]
    exact h.fromVnc rest hd
  | browserLost => exact ⟨h.toVnc, fun _ _ => .inl rfl⟩
  | vncWrites bytes => exact ⟨h.toVnc, h.fromVnc⟩
  | vncEnds => exact ⟨h.toVnc, h.fromVnc⟩
  | vncReads n => exact ⟨h.toVnc, h.fromVnc⟩
  | vncLost => exact ⟨h.toVnc, h.fromVnc⟩
  | toVnc n =>
    have hk := Half.kept_go toVncLoop n b.toVnc
    simp only [Bridge.step, goToVnc]
    split
    · exact ⟨fun _ _ => rfl, h.fromVnc⟩
    all_goals
      refine ⟨fun rest hd => hk.ended'.trans (h.toVnc rest (hk.done rest hd)), ?_⟩
      split
      · exact fun _ _ => .inl rfl
      · exact h.fromVnc
  | fromVnc n =>
    have hk := Half.kept_go fromVncLoop n b.fromVnc
    simp only [Bridge.step, goFromVnc]
    split
    · refine ⟨h.toVnc, fun _ _ => ?_⟩
      cases hb : b.fromVnc.dst.broken with
      | true => exact .inl hb
      | false => exact .inr (by simp)
    all_goals
      refine ⟨h.toVnc, fun rest hd => ?_⟩
      have hdone := hk.done rest hd
      rw [hk.left (by simp [hdone, HalfPc.isOver])]
      exact h.fromVnc rest hdone
  | keepalive =>
    simp only [Bridge.step, Half.wake]
    split
    · refine ⟨h.toVnc, fun rest hd => ?_⟩
      cases hd
    all_goals exact h

theorem length_rest_steps {h h' : Half UInt8 Message} (hlen : h.pc.rest.length ≤ 1)
    (hs : ReflTransGen (Half.Step fromVncLoop) h h') : h'.pc.rest.length ≤ 1 := by
  have hone : ∀ xs ys, fromVncLoop.turn xs = some ys → ys.length ≤ 1 := by
    rintro xs ys ht
    cases ht
    exact le_rfl
  induction hs with
  | refl => exact hlen
  | tail _ hs ih => exact Half.length_rest_step hone ih hs

theorem length_rest (hlen : b.fromVnc.pc.rest.length ≤ 1) (e : BridgeEvent) :
    (b.step e).fromVnc.pc.rest.length ≤ 1 := by
  by_cases he : e = .keepalive
  · subst he
    simp only [step, Half.wake]
    split
    · exact le_rfl
    all_goals exact hlen
  · exact length_rest_steps hlen (steps_fromVnc b e he)

structure Sound (b : Bridge) : Prop where
  carries : Carries b
  linked : Linked b
  closesLast : ClosesLast b.toVnc.src
  returned : Returned b
  single : b.fromVnc.pc.rest.length ≤ 1

theorem Sound.step (h : Sound b) (e : BridgeEvent) : Sound (b.step e) :=
  ⟨h.carries.step e, h.linked.step e, closesLast_step h.closesLast e, h.returned.step e,
    length_rest h.single e⟩

theorem Sound.run (h : Sound b) (es : List BridgeEvent) : Sound (Transition.run Bridge.step b es) :=
  Transition.run_invariant (fun _ e h => h.step e) h es

theorem sound_new : Sound new :=
  ⟨carries_new, linked_new, closesLast_new, returned_new, Nat.zero_le _⟩

/-! ### The end of the bridge -/

def isToVnc : BridgeEvent → Bool
  | .toVnc _ => true
  | _ => false

def isFromVnc : BridgeEvent → Bool
  | .fromVnc _ => true
  | _ => false

def isKeepalive : BridgeEvent → Bool
  | .keepalive => true
  | _ => false

theorem weight_goToVnc (ho : b.toVnc.src.isOver = true) (n : ℕ)
    (hpos : b.toVnc.weight toVncLoop ≠ 0) :
    (b.goToVnc n).toVnc.weight toVncLoop < b.toVnc.weight toVncLoop := by
  unfold goToVnc
  split
  · exact Nat.pos_of_ne_zero hpos
  · next hpc => exact Half.weight_goes ho (by simp [hpc, HalfPc.isOver]) (Half.go_goes ..)
  · next hpc => exact Half.weight_goes ho (by simp [hpc, HalfPc.isOver]) (Half.go_goes ..)
  · next hpc => exact absurd (by simp [Half.weight, hpc]) hpos

/-- Once nothing more comes from the browser, `to_vnc` returns after as many steps of its own as
there is left to write. -/
theorem toVnc_returns (ho : b.toVnc.src.isOver = true) {es : List BridgeEvent}
    (hes : b.toVnc.weight toVncLoop ≤ es.countP isToVnc) :
    ∃ rest, (Transition.run step b es).toVnc.pc = .done rest := by
  refine Half.returns toVnc isToVnc (I := fun _ => True) (fun _ _ h => h) steps_toVnc
    (fun b e _ he ho hpos => ?_) trivial ho hes
  cases e with
  | toVnc n => exact weight_goToVnc ho n hpos
  | _ => cases he

theorem lasts_fromVnc (b : Bridge) (e : BridgeEvent) : Half.Lasts b.fromVnc (b.step e).fromVnc := by
  by_cases he : e = .keepalive
  · exact he ▸ Half.lasts_wake _ _
  · exact Half.lasts_steps (steps_fromVnc b e he)

theorem fromVnc_pc_step (hpc : b.fromVnc.pc ≠ .reading) (he : isFromVnc e = false) :
    (b.step e).fromVnc.pc = b.fromVnc.pc := by
  cases e with
  | toVnc n =>
    simp only [step, goToVnc]
    split
    · rfl
    all_goals split <;> rfl
  | fromVnc n => cases he
  | keepalive =>
    simp only [step, Half.wake]
    split
    · next hr => exact absurd hr hpc
    all_goals rfl
  | _ => rfl

/-- The steps to the end of a loop that can write no more. -/
def toClose : HalfPc Message → ℕ
  | .reading | .writing _ _ => 2
  | .left _ => 1
  | .done _ => 0

theorem toClose_goFromVnc (hb : b.fromVnc.dst.broken = true) (hpc : b.fromVnc.pc ≠ .reading)
    (n : ℕ) : (b.goFromVnc n).fromVnc.pc ≠ .reading ∧
      toClose (b.goFromVnc n).fromVnc.pc = toClose b.fromVnc.pc - 1 := by
  unfold goFromVnc
  split
  · next hr => exact ⟨nofun, by simp [toClose, hr]⟩
  · next hr => exact absurd hr hpc
  · next hr => exact ⟨by simp [Half.go, hr, hb], by simp [Half.go, hr, hb, toClose]⟩
  · next hr => exact ⟨by simp [Half.go, hr], by simp [Half.go, hr, toClose]⟩

/-- Where the WebSocket takes no more frames, `from_vnc` returns two steps behind a tick. -/
theorem fromVnc_returns_of_closed (hb : b.fromVnc.dst.broken = true)
    (hpc : b.fromVnc.pc ≠ .reading) {es : List BridgeEvent} (hes : 2 ≤ es.countP isFromVnc) :
    toClose (Transition.run step b es).fromVnc.pc = 0 := by
  have hstep : ∀ (b : Bridge) e, b.fromVnc.dst.broken = true ∧ b.fromVnc.pc ≠ .reading →
      ((b.step e).fromVnc.dst.broken = true ∧ (b.step e).fromVnc.pc ≠ .reading) ∧
        toClose (b.step e).fromVnc.pc = toClose b.fromVnc.pc - (isFromVnc e).toNat := by
    rintro b e ⟨hb, hpc⟩
    have hb' := (lasts_fromVnc b e).broken' hb
    cases he : isFromVnc e with
    | true =>
      cases e with
      | fromVnc n =>
        obtain ⟨hpc', hclose⟩ := toClose_goFromVnc hb hpc n
        exact ⟨⟨hb', hpc'⟩, hclose⟩
      | _ => cases he
    | false =>
      have hsame := fromVnc_pc_step hpc he
      exact ⟨⟨hb', hsame ▸ hpc⟩, congrArg toClose hsame⟩
  refine Transition.run_spends (fun b => b.fromVnc.dst.broken = true ∧ b.fromVnc.pc ≠ .reading)
    (fun b => toClose b.fromVnc.pc) isFromVnc (fun _ => false) (fun b e h => (hstep b e h).1)
    (fun b e h hpos => ?_) (fun b e h hzero => ?_) ⟨hb, hpc⟩ ?_
  · have hfall := (hstep b e h).2
    have hone : (isFromVnc e).toNat ≤ 1 := Bool.toNat_le _
    simp only [Bool.toNat_false, Nat.add_zero]
    omega
  · have hfall := (hstep b e h).2
    omega
  · have hle : toClose b.fromVnc.pc ≤ 2 := by
      unfold toClose
      split <;> omega
    simpa using hle.trans hes

/-- Where the connection to the VNC server is lost, `from_vnc` returns within three steps of its
own, and one more for each tick. -/
theorem fromVnc_returns_of_lost (hb : b.fromVnc.src.broken = true)
    (hsingle : b.fromVnc.pc.rest.length ≤ 1) {es : List BridgeEvent}
    (hes : es.countP isKeepalive + 3 ≤ es.countP isFromVnc) :
    ∃ rest, (Transition.run step b es).fromVnc.pc = .done rest := by
  refine Half.exists_done_of_weight (Transition.run_spends (fun b => b.fromVnc.src.broken = true)
    (fun b => b.fromVnc.weight fromVncLoop) isFromVnc isKeepalive
    (fun b e h => (lasts_fromVnc b e).broken h) (fun b e h hpos => ?_)
    (fun b e h hzero => ?_) hb ?_)
  · by_cases he : e = .keepalive
    · exact he ▸ Half.weight_wake _ _
    · have hle := (Half.weight_steps (Pipe.isOver_of_broken h) (steps_fromVnc b e he)).1
      cases e with
      | fromVnc n =>
        refine Nat.succ_le_of_lt ?_
        simp only [step, goFromVnc]
        split
        · exact Nat.pos_of_ne_zero hpos
        · next hpc =>
          exact Half.weight_goes (Pipe.isOver_of_broken h) (by simp [hpc, HalfPc.isOver])
            (Half.go_goes ..)
        · next hpc =>
          exact Half.weight_goes (Pipe.isOver_of_broken h) (by simp [hpc, HalfPc.isOver])
            (Half.go_goes ..)
        · next hpc => exact absurd (by simp [Half.weight, hpc]) hpos
      | keepalive => exact absurd rfl he
      | _ => simpa [isFromVnc, isKeepalive] using hle
  · by_cases he : e = .keepalive
    · obtain ⟨rest, hpc⟩ := Half.exists_done_of_weight hzero
      subst he
      simp [step, Half.wake, hpc, Half.weight]
    · have hle := (Half.weight_steps (Pipe.isOver_of_broken h) (steps_fromVnc b e he)).1
      exact Nat.le_zero.mp (hzero ▸ hle)
  · refine le_trans ?_ hes
    rw [Nat.add_comm]
    refine Nat.add_le_add_left ?_ _
    unfold Half.weight
    split
    · simp [Pipe.weight, hb]
    · next y ys hpc =>
      rw [hpc, HalfPc.rest, List.length_cons] at hsingle
      simp only [Pipe.weight, hb, if_true]
      split <;> omega
    · omega
    · omega

theorem toClose_eq_zero {pc : HalfPc Message} (h : toClose pc = 0) : ∃ rest, pc = .done rest := by
  unfold toClose at h
  split at h
  · cases h
  · cases h
  · cases h
  · next rest => exact ⟨rest, rfl⟩

/-- When `to_vnc` has returned, `from_vnc` cannot go on for long: its WebSocket is closed or lost,
or the VNC server is. -/
theorem Sound.lost_of_returned (h : Sound b) {rest : List UInt8}
    (hdone : b.toVnc.pc = .done rest) :
    b.fromVnc.dst.broken = true ∨ b.fromVnc.src.broken = true := by
  rcases h.carries.leftToVnc (by simp [hdone, HalfPc.isOver]) with
    hb | hb | ⟨-, ⟨hqueue, he⟩ | ⟨frames, -, hsuffix, hstop⟩⟩
  · exact .inl (h.linked.browser hb)
  · exact .inr (h.linked.vnc hb)
  · refine .inl (h.linked.closed ?_)
    rw [← Pipe.sent_of_read hqueue]
    exact h.closesLast.ended.mpr he
  · refine .inl (h.linked.closed (hsuffix.subset ?_))
    rw [bridgePayload.unframe_eq_none hstop]
    exact List.mem_singleton_self _

end Bridge

open Bridge

/-- Both peers of the bridge get what the other one wrote, in order and without a gap. A half that
has returned on connections that still work has written all of it, and tells its peer that the
other one is gone. -/
theorem bridge_in_order (es : List BridgeEvent) :
    let b := Transition.run step new es
    (b.fromVnc.dst.taken.flatMap binaryOf <+: b.fromVnc.src.sent ∧
      b.toVnc.dst.taken <+: b.toVnc.src.sent.flatMap binaryOf) ∧
    (∀ rest, b.toVnc.pc = .done rest → b.toVnc.dst.ended = true ∧
      (b.toVnc.src.broken = false → b.toVnc.dst.broken = false →
        b.toVnc.dst.sent = b.toVnc.src.sent.flatMap binaryOf)) ∧
    ∀ rest, b.fromVnc.pc = .done rest → b.fromVnc.dst.broken = false →
      b.fromVnc.dst.sent.getLast? = some .close ∧ (b.fromVnc.src.broken = false →
        b.fromVnc.dst.sent.flatMap binaryOf = b.fromVnc.src.sent) := by
  intro b
  have h : Sound b := Bridge.sound_new.run es
  refine ⟨⟨bridgePayload.prefix_writer h.carries.fromVnc,
    bridgePayload.prefix_reader h.carries.toVnc⟩, fun rest hdone => ⟨h.returned.toVnc rest hdone,
    fun hsrc hdst => ?_⟩, fun rest hdone hb => ⟨?_, fun hvnc => ?_⟩⟩
  · have hover : b.toVnc.pc.isOver = true := by rw [hdone]; rfl
    exact (bridgePayload.reader_wroteAll h.carries.toVnc h.carries.leftToVnc h.closesLast hover
      hsrc hdst).2
  · rcases h.returned.fromVnc rest hdone with hb' | hlast
    · exact absurd (hb.symm.trans hb') Bool.false_ne_true
    · exact hlast
  · have hover : b.fromVnc.pc.isOver = true := by rw [hdone]; rfl
    exact (bridgePayload.writer_sentAll h.carries.fromVnc h.carries.leftFromVnc hover hvnc hb).2

end Urc
