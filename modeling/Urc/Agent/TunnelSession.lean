import Urc.Common.Framing

/-! # A relayed tunnel session of the agent

`run_tunnel_session` joins its leg at the coordinator with a TCP connection to the local service.
Its two loops run in one `select!`: the first that returns ends the function, which drops both
connections with whatever the other loop holds.
-/

namespace Urc

open Splice Relation

/-- The bytes that `ws_to_local` writes for a frame: those of a binary frame, or those of a
`TunnelData` message. -/
def tunnelBytesOf : Message → List UInt8
  | .binary b => b
  | .text t =>
    match (parseWsMessage t : Option AgentMessage) with
    | some (.tunnelData _ _ data) => data
    | _ => []
  | .ping _ | .pong _ | .close => []

def tunnelPayload : Payload where
  of := tunnelBytesOf
  close := rfl
  ping := rfl
  binary _ := rfl

/-- The loop of `ws_to_local`. -/
def wsToLocalLoop : Copier Message UInt8 UInt8 := tunnelPayload.reader

/-- The loop of `local_to_ws`, with a buffer of `8192` bytes. -/
def localToWsLoop : Copier UInt8 Message UInt8 := tunnelPayload.writer (8192 - 1)

structure TunnelSession where
  wsToLocal : Half Message UInt8
  localToWs : Half UInt8 Message

/-- What can happen: the coordinator sends or reads frames, or its connection is lost; the local
service writes, ends its direction or reads, or its connection is lost; a loop runs on to its next
await, with at most `n + 1` items. -/
inductive TunnelEvent
  | frame (m : Message)
  | relayReads (n : ℕ)
  | relayLost
  | localWrites (bytes : List UInt8)
  | localEnds
  | localReads (n : ℕ)
  | localLost
  | wsToLocal (n : ℕ)
  | localToWs (n : ℕ)

namespace TunnelSession

def new : TunnelSession := ⟨.new, .new⟩

def isOver (t : TunnelSession) : Bool := t.wsToLocal.pc.isOver || t.localToWs.pc.isOver

def dropHalf {α β : Type} (h : Half α β) : Half α β :=
  ⟨h.src.cut, .done h.pc.rest, h.dst.cut.finish⟩

/-- `select!` returns when one of its branches has. -/
def settle (t : TunnelSession) : TunnelSession :=
  if t.isOver then ⟨dropHalf t.wsToLocal, dropHalf t.localToWs⟩ else t

def step (t : TunnelSession) : TunnelEvent → TunnelSession
  | .frame m =>
    { t with wsToLocal := { t.wsToLocal with src := receiveFrame t.wsToLocal.src m } }
  | .relayReads n => { t with localToWs := { t.localToWs with dst := t.localToWs.dst.take n } }
  | .relayLost =>
    ⟨{ t.wsToLocal with src := t.wsToLocal.src.cut },
      { t.localToWs with dst := t.localToWs.dst.cut }⟩
  | .localWrites bytes =>
    { t with localToWs := { t.localToWs with src := t.localToWs.src.receive bytes } }
  | .localEnds => { t with localToWs := { t.localToWs with src := t.localToWs.src.finish } }
  | .localReads n => { t with wsToLocal := { t.wsToLocal with dst := t.wsToLocal.dst.take n } }
  | .localLost =>
    ⟨{ t.wsToLocal with dst := t.wsToLocal.dst.cut },
      { t.localToWs with src := t.localToWs.src.cut }⟩
  | .wsToLocal n => { t with wsToLocal := t.wsToLocal.go wsToLocalLoop n }.settle
  | .localToWs n => { t with localToWs := t.localToWs.go localToWsLoop n }.settle

/-! ### What a step does to each loop -/

variable {t t' : TunnelSession} {e : TunnelEvent}

theorem steps_dropHalf {α β γ : Type} {c : Copier α β γ} (h : Half α β) :
    ReflTransGen (Half.Step c) h (dropHalf h) :=
  .tail (.tail (.tail (.single .cutSrc) .cutDst) .endDst) (.giveUp rfl)

theorem steps_settle (t : TunnelSession) :
    ReflTransGen (Half.Step wsToLocalLoop) t.wsToLocal t.settle.wsToLocal ∧
      ReflTransGen (Half.Step localToWsLoop) t.localToWs t.settle.localToWs := by
  unfold settle
  split
  · exact ⟨steps_dropHalf _, steps_dropHalf _⟩
  · exact ⟨.refl, .refl⟩

theorem steps_wsToLocal (t : TunnelSession) (e : TunnelEvent) :
    ReflTransGen (Half.Step wsToLocalLoop) t.wsToLocal (t.step e).wsToLocal := by
  cases e with
  | frame m => exact steps_receiveFrame wsToLocalLoop t.wsToLocal m
  | relayLost => exact .single .cutSrc
  | localReads n => exact .single (.collect n)
  | localLost => exact .single .cutDst
  | localWrites bytes => exact .refl
  | wsToLocal n =>
    have hsettle := steps_settle { t with wsToLocal := t.wsToLocal.go wsToLocalLoop n }
    exact .trans (.single (.go n)) hsettle.1
  | localToWs n => exact (steps_settle { t with localToWs := t.localToWs.go localToWsLoop n }).1
  | relayReads n => exact .refl
  | localEnds => exact .refl

theorem steps_localToWs (t : TunnelSession) (e : TunnelEvent) :
    ReflTransGen (Half.Step localToWsLoop) t.localToWs (t.step e).localToWs := by
  cases e with
  | relayReads n => exact .single (.collect n)
  | relayLost => exact .single .cutDst
  | localWrites bytes => exact Half.steps_receive localToWsLoop t.localToWs bytes
  | localEnds => exact .single .finish
  | localLost => exact .single .cutSrc
  | frame m => exact .refl
  | wsToLocal n => exact (steps_settle { t with wsToLocal := t.wsToLocal.go wsToLocalLoop n }).2
  | localToWs n =>
    have hsettle := steps_settle { t with localToWs := t.localToWs.go localToWsLoop n }
    exact .trans (.single (.go n)) hsettle.2
  | localReads n => exact .refl

/-! ### What holds in every run -/

/-- A session that is over has returned from both loops and dropped both connections. -/
structure Dropped (t : TunnelSession) : Prop where
  returned : (∃ rest, t.wsToLocal.pc = .done rest) ∧ ∃ rest, t.localToWs.pc = .done rest
  relay : t.wsToLocal.src.broken = true ∧ t.localToWs.dst.broken = true
  service : t.localToWs.src.broken = true ∧ t.wsToLocal.dst.broken = true
  told : t.wsToLocal.dst.ended = true ∧ t.localToWs.dst.ended = true

theorem dropped_settle (h : t.settle.isOver = true) : Dropped t.settle := by
  unfold settle at h ⊢
  split
  · exact ⟨⟨⟨_, rfl⟩, _, rfl⟩, ⟨rfl, rfl⟩, ⟨rfl, rfl⟩, ⟨rfl, rfl⟩⟩
  · next ho =>
    rw [if_neg ho] at h
    exact absurd h ho

theorem dropped_step (h : t.isOver = true → Dropped t) (e : TunnelEvent)
    (ho : (t.step e).isOver = true) : Dropped (t.step e) := by
  cases e with
  | frame m =>
    obtain ⟨hreturned, hrelay, hservice, htold⟩ := h ho
    exact ⟨hreturned, ⟨(broken_receiveFrame ..).trans hrelay.1, hrelay.2⟩, hservice, htold⟩
  | localWrites bytes =>
    obtain ⟨hreturned, hrelay, hservice, htold⟩ := h ho
    exact ⟨hreturned, hrelay, ⟨(Pipe.broken_receive ..).trans hservice.1, hservice.2⟩, htold⟩
  | relayReads n => exact ⟨(h ho).returned, (h ho).relay, (h ho).service, (h ho).told⟩
  | relayLost => exact ⟨(h ho).returned, ⟨rfl, rfl⟩, (h ho).service, (h ho).told⟩
  | localEnds => exact ⟨(h ho).returned, (h ho).relay, (h ho).service, (h ho).told⟩
  | localReads n => exact ⟨(h ho).returned, (h ho).relay, (h ho).service, (h ho).told⟩
  | localLost => exact ⟨(h ho).returned, (h ho).relay, ⟨rfl, rfl⟩, (h ho).told⟩
  | wsToLocal n => exact dropped_settle ho
  | localToWs n => exact dropped_settle ho

theorem closesLast_settle (h : ClosesLast t.wsToLocal.src) : ClosesLast t.settle.wsToLocal.src := by
  unfold settle
  split
  · exact h.congr rfl rfl
  · exact h

theorem closesLast_step (h : ClosesLast t.wsToLocal.src) (e : TunnelEvent) :
    ClosesLast (t.step e).wsToLocal.src := by
  cases e with
  | frame m => exact h.receiveFrame m
  | relayLost => exact h.congr rfl rfl
  | wsToLocal n =>
    have hk := Half.kept_go wsToLocalLoop n t.wsToLocal
    exact closesLast_settle (h.congr hk.sent hk.ended)
  | localToWs n =>
    exact closesLast_settle (t := { t with localToWs := t.localToWs.go localToWsLoop n }) h
  | _ => exact h

structure Sound (t : TunnelSession) : Prop where
  wsToLocal : t.wsToLocal.Exact wsToLocalLoop
  localToWs : t.localToWs.Exact localToWsLoop
  leftWsToLocal : t.wsToLocal.Explained wsToLocalLoop
  leftLocalToWs : t.localToWs.Explained localToWsLoop
  dropped : t.isOver = true → Dropped t
  closesLast : ClosesLast t.wsToLocal.src

theorem sound_new : Sound new :=
  ⟨Half.exact_new, Half.exact_new, Half.explained_new, Half.explained_new, nofun, closesLast_new⟩

theorem Sound.step (h : Sound t) (e : TunnelEvent) : Sound (t.step e) where
  wsToLocal := h.wsToLocal.steps (steps_wsToLocal t e)
  localToWs := h.localToWs.steps (steps_localToWs t e)
  leftWsToLocal := h.leftWsToLocal.steps (steps_wsToLocal t e)
  leftLocalToWs := h.leftLocalToWs.steps (steps_localToWs t e)
  dropped := dropped_step h.dropped e
  closesLast := closesLast_step h.closesLast e

theorem Sound.run (h : Sound t) (es : List TunnelEvent) :
    Sound (Transition.run TunnelSession.step t es) :=
  Transition.run_invariant (fun _ e h => h.step e) h es

/-! ### How a session ends -/

structure Connected (t : TunnelSession) : Prop where
  relay : t.wsToLocal.src.broken = false ∧ t.localToWs.dst.broken = false
  service : t.localToWs.src.broken = false ∧ t.wsToLocal.dst.broken = false

theorem sent_settle (t : TunnelSession) :
    t.settle.wsToLocal.dst.sent = t.wsToLocal.dst.sent ∧
      t.settle.localToWs.dst.sent = t.localToWs.dst.sent := by
  unfold settle
  split <;> exact ⟨rfl, rfl⟩

theorem isOver_settle (t : TunnelSession) : t.settle.isOver = t.isOver := by
  unfold settle
  split
  · next ho => exact ho.symm
  · rfl

theorem isOver_eq_false :
    t.isOver = false ↔ t.wsToLocal.pc.isOver = false ∧ t.localToWs.pc.isOver = false :=
  Bool.or_eq_false_iff

/-- On working connections a session ends only where the coordinator has closed its leg and all
that it sent was written, or where the service has ended its direction and all that it wrote was
sent. -/
theorem Sound.ends (h : Sound t) (hrun : t.isOver = false) (hc : Connected t) {e : TunnelEvent}
    (ho : (t.step e).isOver = true) :
    (t.wsToLocal.src.ended = true ∧
        (t.step e).wsToLocal.dst.sent = t.wsToLocal.src.sent.flatMap tunnelBytesOf) ∨
      (t.localToWs.src.ended = true ∧
        (t.step e).localToWs.dst.sent.flatMap tunnelBytesOf = t.localToWs.src.sent) := by
  obtain ⟨hleft, hleft'⟩ := isOver_eq_false.mp hrun
  have hsame : ∀ {t' : TunnelSession}, t'.wsToLocal.pc = t.wsToLocal.pc →
      t'.localToWs.pc = t.localToWs.pc → t'.isOver = true → False := by
    intro t' hpc hpc' ho'
    rw [isOver, hpc, hpc'] at ho'
    exact absurd (hrun.symm.trans ho') Bool.false_ne_true
  cases e with
  | wsToLocal n =>
    left
    have hk := Half.kept_go wsToLocalLoop n t.wsToLocal
    have hover : (t.wsToLocal.go wsToLocalLoop n).pc.isOver = true := by
      rw [TunnelSession.step, isOver_settle, isOver, hleft', Bool.or_false] at ho
      exact ho
    have hall := tunnelPayload.reader_wroteAll (h.wsToLocal.step (.go n))
      (h.leftWsToLocal.step (.go n)) (h.closesLast.congr hk.sent hk.ended) hover
      (hk.broken.trans hc.relay.1) (hk.broken'.trans hc.service.2)
    rw [hk.ended, hk.sent] at hall
    exact ⟨hall.1, (sent_settle _).1.trans hall.2⟩
  | localToWs n =>
    right
    have hk := Half.kept_go localToWsLoop n t.localToWs
    have hover : (t.localToWs.go localToWsLoop n).pc.isOver = true := by
      rw [TunnelSession.step, isOver_settle, isOver, hleft, Bool.false_or] at ho
      exact ho
    have hall := tunnelPayload.writer_sentAll (h.localToWs.step (.go n))
      (h.leftLocalToWs.step (.go n)) hover (hk.broken.trans hc.service.1)
      (hk.broken'.trans hc.relay.2)
    rw [hk.ended, hk.sent] at hall
    refine ⟨hall.1, Eq.trans ?_ hall.2⟩
    exact congrArg (List.flatMap tunnelBytesOf)
      (sent_settle { t with localToWs := t.localToWs.go localToWsLoop n }).2
  | _ => exact absurd (hsame rfl rfl ho) id

def isWsToLocal : TunnelEvent → Bool
  | .wsToLocal _ => true
  | _ => false

def isLocalToWs : TunnelEvent → Bool
  | .localToWs _ => true
  | _ => false

theorem Sound.running (h : Sound t) :
    (t.wsToLocal.weight wsToLocalLoop ≠ 0 → t.wsToLocal.pc.isOver = false) ∧
      (t.localToWs.weight localToWsLoop ≠ 0 → t.localToWs.pc.isOver = false) := by
  constructor
  · intro hpos
    by_contra hover
    obtain ⟨rest, hdone⟩ := (h.dropped (by simp [isOver, eq_true_of_ne_false hover])).returned.1
    exact hpos (by rw [Half.weight, hdone])
  · intro hpos
    by_contra hover
    obtain ⟨rest, hdone⟩ := (h.dropped (by simp [isOver, eq_true_of_ne_false hover])).returned.2
    exact hpos (by rw [Half.weight, hdone])

/-- Once the coordinator has closed the leg of the session or it is lost, the session ends after as
many steps of `ws_to_local` as there is left to write. -/
theorem Sound.isOver_of_wsToLocal (h : Sound t) (hsrc : t.wsToLocal.src.isOver = true)
    {es : List TunnelEvent} (hes : t.wsToLocal.weight wsToLocalLoop ≤ es.countP isWsToLocal) :
    (Transition.run TunnelSession.step t es).isOver = true := by
  have hreturns := Half.returns TunnelSession.wsToLocal isWsToLocal (I := Sound)
    (fun _ e h => h.step e) steps_wsToLocal (fun t e h he ho hpos => ?_) h hsrc hes
  · obtain ⟨rest, hdone⟩ := hreturns
    simp [isOver, hdone, HalfPc.isOver]
  · cases e with
    | wsToLocal n =>
      have hgoes :=
        Half.weight_goes ho (h.running.1 hpos) (Half.go_goes wsToLocalLoop n t.wsToLocal)
      have hsettle := Half.weight_steps ((Half.kept_go wsToLocalLoop n t.wsToLocal).isOver.trans ho)
        (steps_settle { t with wsToLocal := t.wsToLocal.go wsToLocalLoop n }).1
      exact hsettle.1.trans_lt hgoes
    | _ => cases he

/-- Once the service has ended its direction or is lost, the session ends after as many steps of
`local_to_ws` as there is left to send. -/
theorem Sound.isOver_of_localToWs (h : Sound t) (hsrc : t.localToWs.src.isOver = true)
    {es : List TunnelEvent} (hes : t.localToWs.weight localToWsLoop ≤ es.countP isLocalToWs) :
    (Transition.run TunnelSession.step t es).isOver = true := by
  have hreturns := Half.returns TunnelSession.localToWs isLocalToWs (I := Sound)
    (fun _ e h => h.step e) steps_localToWs (fun t e h he ho hpos => ?_) h hsrc hes
  · obtain ⟨rest, hdone⟩ := hreturns
    simp [isOver, hdone, HalfPc.isOver]
  · cases e with
    | localToWs n =>
      have hgoes :=
        Half.weight_goes ho (h.running.2 hpos) (Half.go_goes localToWsLoop n t.localToWs)
      have hsettle := Half.weight_steps ((Half.kept_go localToWsLoop n t.localToWs).isOver.trans ho)
        (steps_settle { t with localToWs := t.localToWs.go localToWsLoop n }).2
      exact hsettle.1.trans_lt hgoes
    | _ => cases he

end TunnelSession

open TunnelSession

/-- The coordinator and the local service get what the other one wrote, in order and without a gap.
A session whose connections work ends only where one of them has ended its direction and all that
came from it was passed on; and a session that is over has dropped both connections, so that the
other side is told. -/
theorem tunnel_session_in_order (es : List TunnelEvent) :
    let t := Transition.run TunnelSession.step new es
    (t.localToWs.dst.taken.flatMap tunnelBytesOf <+: t.localToWs.src.sent ∧
      t.wsToLocal.dst.taken <+: t.wsToLocal.src.sent.flatMap tunnelBytesOf) ∧
    (t.isOver = true → Dropped t) ∧
    ∀ e, t.isOver = false → Connected t → (t.step e).isOver = true →
      (t.wsToLocal.src.ended = true ∧
        (t.step e).wsToLocal.dst.sent = t.wsToLocal.src.sent.flatMap tunnelBytesOf) ∨
      (t.localToWs.src.ended = true ∧
        (t.step e).localToWs.dst.sent.flatMap tunnelBytesOf = t.localToWs.src.sent) := by
  intro t
  have h : Sound t := TunnelSession.sound_new.run es
  exact ⟨⟨tunnelPayload.prefix_writer h.localToWs, tunnelPayload.prefix_reader h.wsToLocal⟩,
    h.dropped, fun _ hrun hc ho => h.ends hrun hc ho⟩

/-- Once one side of a session has ended its direction or is lost, the session is over after as many
steps of the loop that reads from it as there is left to pass on, and both connections are
dropped. -/
theorem tunnel_session_ends (es : List TunnelEvent) {es' : List TunnelEvent}
    (h : let t := Transition.run TunnelSession.step new es
      (t.wsToLocal.src.isOver = true ∧ t.wsToLocal.weight wsToLocalLoop ≤ es'.countP isWsToLocal) ∨
        (t.localToWs.src.isOver = true ∧
          t.localToWs.weight localToWsLoop ≤ es'.countP isLocalToWs)) :
    let t := Transition.run TunnelSession.step new (es ++ es')
    t.isOver = true ∧ Dropped t := by
  intro t
  have hsound : Sound (Transition.run TunnelSession.step new es) := TunnelSession.sound_new.run es
  have hover : t.isOver = true := by
    rw [show t = _ from Transition.run_append ..]
    rcases h with ⟨hsrc, hes⟩ | ⟨hsrc, hes⟩
    · exact hsound.isOver_of_wsToLocal hsrc hes
    · exact hsound.isOver_of_localToWs hsrc hes
  exact ⟨hover, (TunnelSession.sound_new.run _).dropped hover⟩

/-- The service writes its banner and is gone. -/
theorem tunnel_session_ends_after_banner :
    let t := Transition.run TunnelSession.step new
      ([.localWrites [82, 70, 66], .localEnds] ++ List.replicate 8 (.localToWs 0))
    t.isOver = true ∧ Dropped t :=
  tunnel_session_ends [.localWrites [82, 70, 66], .localEnds] (.inr (by decide))

end Urc
