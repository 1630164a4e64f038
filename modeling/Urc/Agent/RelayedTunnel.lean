import Urc.Agent.TunnelSession
import Urc.Coordinator.RelayStream

/-! # A tunnel session behind the relay

The socket of a tunnel session is the agent's leg of a relayed session: the relay takes the frames
that `local_to_ws` sends, and the forward task of the leg sends `ws_to_local` what is on the
outgoing channel. So the client and the local service are joined by two splices.
-/

namespace Urc

open Splice

structure RelayedTunnel where
  relay : Relay
  tunnel : TunnelSession

/-- Something happens at the relay or at the agent, the relay takes the next frame of the agent, or
the forward task of the agent's leg sends the next one. -/
inductive RelayedEvent
  | relay (e : RelayEvent)
  | tunnel (e : TunnelEvent)
  | up
  | down

namespace RelayedTunnel

def new : RelayedTunnel := ⟨.new, .new⟩

/-- A frame that leg `l` gets. -/
def isFrameOf (l : LegId) : RelayEvent → Bool
  | .leg (.frame l' _) => l' = l
  | _ => false

/-- The frame that the forward task of the agent's leg sends next. -/
def nextDown (agent : LegId) (s : RelayedTunnel) : Option Message :=
  ((s.relay.legs agent).outgoing.map (·.frame))[s.tunnel.wsToLocal.src.sent.length]?

def step (agent : LegId) (s : RelayedTunnel) : RelayedEvent → RelayedTunnel
  | .relay e =>
    -- the frames of the agent's leg are those of the session
    if isFrameOf agent e then s else { s with relay := s.relay.step e }
  | .tunnel (.frame _) | .tunnel (.relayReads _) => s
  | .tunnel e => { s with tunnel := s.tunnel.step e }
  | .up =>
    match s.tunnel.localToWs.dst.queue with
    | [] => s
    | m :: _ =>
      if (s.relay.legs agent).pc = .reading then
        ⟨s.relay.step (.leg (.frame agent m)), s.tunnel.step (.relayReads 1)⟩
      else s
  | .down =>
    match s.nextDown agent with
    | none => s
    | some m => { s with tunnel := s.tunnel.step (.frame m) }

end RelayedTunnel

namespace Relay

variable {n n' : Relay} {e : RelayEvent} {l : LegId}

/-- What a leg has received stays, but for a frame that it gets, and its outgoing channel only
grows. -/
structure Grows (leg leg' : Leg) : Prop where
  fresh : leg'.pc = .unopened → leg' = .unopened
  received : leg'.received = leg.received
  outgoing : leg.outgoing <+: leg'.outgoing

theorem grows_ite {legs : LegId → Leg} {a : LegId} {leg : Leg}
    (h : (legs l).pc = .unopened → legs l = .unopened) (hpc : leg.pc ≠ .unopened)
    (hreceived : leg.received = (legs a).received) (houtgoing : leg.outgoing = (legs a).outgoing) :
    Grows (legs l) (if l = a then leg else legs l) := by
  split_ifs with hl
  · subst hl
    exact ⟨fun hu => absurd hu hpc, hreceived, houtgoing ▸ List.prefix_rfl⟩
  · exact ⟨h, rfl, List.prefix_rfl⟩

theorem grows_push {d : LegId} {x : Sent} (h : (n.legs l).pc = .unopened → n.legs l = .unopened) :
    Grows (n.legs l) ((n.push d x).legs l) := by
  rw [push_legs]
  split_ifs with hd
  · obtain ⟨rfl, hrx⟩ := hd
    refine ⟨fun hu => ?_, rfl, List.prefix_append ..⟩
    rw [h hu] at hrx
    cases hrx
  · exact ⟨h, rfl, List.prefix_rfl⟩

theorem Grows.trans {leg leg' leg'' : Leg} (h : Grows leg leg') (h' : Grows leg' leg'') :
    Grows leg leg'' :=
  ⟨h'.fresh, h'.received.trans h.received, h.outgoing.trans h'.outgoing⟩

theorem Move.grows (hm : Move n e n') (h : (n.legs l).pc = .unopened → n.legs l = .unopened)
    (he : RelayedTunnel.isFrameOf l e = false) : Grows (n.legs l) (n'.legs l) := by
  cases hm with
  | stutter => exact ⟨h, rfl, List.prefix_rfl⟩
  | create _ => exact ⟨h, rfl, List.prefix_rfl⟩
  | opened hpc =>
    rw [setLeg_legs]
    split_ifs with hl
    · subst hl
      rw [h hpc]
      exact ⟨nofun, rfl, List.prefix_rfl⟩
    · exact ⟨h, rfl, List.prefix_rfl⟩
  | frame hpc =>
    rw [setLeg_legs, if_neg (by rintro rfl; simp [RelayedTunnel.isFrameOf] at he)]
    exact ⟨h, rfl, List.prefix_rfl⟩
  | @forward a d m hpc =>
    have hpush : Grows (n.legs l) ((n.push d (n.lastSent a m)).legs l) := grows_push h
    rw [setLeg_legs]
    exact hpush.trans (grows_ite hpush.fresh nofun rfl rfl)
  | ended hpc => rw [setLeg_legs]; exact grows_ite h nofun rfl rfl
  | attach hpc => rw [setLeg_legs]; exact grows_ite h nofun rfl rfl
  | gone hpc _ => rw [setLeg_legs]; exact grows_ite h nofun rfl rfl
  | take hpc _ => rw [setLeg_legs]; exact grows_ite h nofun rfl rfl
  | drop hpc => rw [setLeg_legs]; exact grows_ite h nofun rfl rfl
  | remove hpc => rw [setLeg_legs]; exact grows_ite h nofun rfl rfl
  | ping hu ha => exact grows_push h
  | close hu ha => rw [setLeg_legs]; exact grows_ite h hu rfl rfl

end Relay

namespace RelayedTunnel

variable {agent : LegId} {s : RelayedTunnel} {e : RelayedEvent}

/-- A leg attaches only while its peer has taken up no data, and each role has one leg. -/
def Orderly (s : RelayedTunnel) : RelayedEvent → Prop
  | .relay e => Relay.OneLegPerRole s.relay e ∧ Relay.AttachedFirst s.relay e
  | .tunnel _ | .up | .down => True

/-- The relay has received what it took of the session, and the session got the beginning of what is
on the outgoing channel of its leg. -/
structure Joined (agent : LegId) (s : RelayedTunnel) : Prop where
  fresh : (s.relay.legs agent).pc = .unopened → s.relay.legs agent = .unopened
  up : (s.relay.legs agent).received = s.tunnel.localToWs.dst.taken
  down : s.tunnel.wsToLocal.src.sent <+: (s.relay.legs agent).outgoing.map (·.frame)

theorem joined_new : Joined agent new := ⟨fun _ => rfl, rfl, List.prefix_rfl⟩

theorem link_step (t : TunnelSession) {e : TunnelEvent} (hframe : ∀ m, e ≠ .frame m)
    (hreads : ∀ n, e ≠ .relayReads n) :
    (t.step e).wsToLocal.src.sent = t.wsToLocal.src.sent ∧
      (t.step e).localToWs.dst.taken = t.localToWs.dst.taken := by
  have hsettle : ∀ t : TunnelSession, t.settle.wsToLocal.src.sent = t.wsToLocal.src.sent ∧
      t.settle.localToWs.dst.taken = t.localToWs.dst.taken := by
    intro t
    unfold TunnelSession.settle
    split <;> exact ⟨rfl, rfl⟩
  cases e with
  | frame m => exact absurd rfl (hframe m)
  | relayReads n => exact absurd rfl (hreads n)
  | wsToLocal n =>
    have hk := Half.kept_go wsToLocalLoop n t.wsToLocal
    have h := hsettle { t with wsToLocal := t.wsToLocal.go wsToLocalLoop n }
    exact ⟨h.1.trans hk.sent, h.2⟩
  | localToWs n =>
    have hk := Half.kept_go localToWsLoop n t.localToWs
    have h := hsettle { t with localToWs := t.localToWs.go localToWsLoop n }
    exact ⟨h.1, h.2.trans hk.taken'⟩
  | _ => exact ⟨rfl, rfl⟩

theorem step_tunnel (agent : LegId) (s : RelayedTunnel) (e : TunnelEvent) :
    step agent s (.tunnel e) = s ∨ (∀ m, e ≠ .frame m) ∧ (∀ n, e ≠ .relayReads n) ∧
      step agent s (.tunnel e) = { s with tunnel := s.tunnel.step e } := by
  cases e with
  | frame m => exact .inl rfl
  | relayReads n => exact .inl rfl
  | _ => exact .inr ⟨nofun, nofun, rfl⟩

theorem concat_prefix_of_getElem? {α : Type} {xs ys : List α} {y : α} (h : xs <+: ys)
    (hy : ys[xs.length]? = some y) : xs ++ [y] <+: ys := by
  obtain ⟨rest, rfl⟩ := h
  rw [List.getElem?_append_right le_rfl, Nat.sub_self] at hy
  cases rest with
  | nil => cases hy
  | cons z rest =>
    obtain rfl : z = y := Option.some.inj hy
    exact ⟨rest, by simp⟩

theorem Joined.step (h : Joined agent s) (e : RelayedEvent) : Joined agent (step agent s e) := by
  cases e with
  | relay e =>
    unfold RelayedTunnel.step
    dsimp only
    split
    · exact h
    · next he =>
      have hgrows := (Relay.step_move s.relay e).grows h.fresh (by simpa using he)
      exact ⟨hgrows.fresh, hgrows.received.trans h.up, h.down.trans (hgrows.outgoing.map _)⟩
  | tunnel e =>
    rcases step_tunnel agent s e with hsame | ⟨hframe, hreads, hstep⟩
    · rwa [hsame]
    · obtain ⟨hsent, htaken⟩ := link_step s.tunnel hframe hreads
      rw [hstep]
      exact ⟨h.fresh, h.up.trans htaken.symm, hsent ▸ h.down⟩
  | up =>
    unfold RelayedTunnel.step
    dsimp only
    split
    · exact h
    · next m queue hqueue =>
      split
      · next hpc =>
        have hlegs : (s.relay.step (.leg (.frame agent m))).legs agent =
            { s.relay.legs agent with
              pc := .looking m, received := (s.relay.legs agent).received ++ [m] } := by
          simp [Relay.step, Relay.legEvent, hpc, Relay.setLeg_legs]
        have htaken : (s.tunnel.step (.relayReads 1)).localToWs.dst.taken =
            s.tunnel.localToWs.dst.taken ++ [m] := by
          simp [TunnelSession.step, Pipe.take, hqueue]
        refine ⟨fun hu => ?_, ?_, ?_⟩
        · rw [hlegs] at hu
          cases hu
        · rw [hlegs, htaken, ← h.up]
        · rw [hlegs]
          exact h.down
      · exact h
  | down =>
    unfold RelayedTunnel.step
    dsimp only
    split
    · exact h
    · next m hm =>
      refine ⟨h.fresh, h.up, ?_⟩
      have hsent : (s.tunnel.step (.frame m)).wsToLocal.src.sent = _ ∨ _ =
          s.tunnel.wsToLocal.src.sent ++ [m] := sent_receiveFrame s.tunnel.wsToLocal.src m
      rcases hsent with hsent | hsent
      · exact hsent ▸ h.down
      · exact hsent ▸ concat_prefix_of_getElem? h.down hm

/-- What an event does to the relay is an event of its own. -/
theorem relay_step (agent : LegId) (s : RelayedTunnel) (e : RelayedEvent) :
    (step agent s e).relay = s.relay ∨ ∃ e', (step agent s e).relay = s.relay.step e' ∧
      (Orderly s e → Relay.OneLegPerRole s.relay e' ∧ Relay.AttachedFirst s.relay e') := by
  cases e with
  | relay e =>
    unfold step
    dsimp only
    split
    · exact .inl rfl
    · exact .inr ⟨e, rfl, id⟩
  | tunnel e => left; cases e <;> rfl
  | up =>
    unfold step
    dsimp only
    split
    · exact .inl rfl
    · next m _ _ =>
      split
      · exact .inr ⟨.leg (.frame agent m), rfl, fun _ => ⟨trivial, trivial⟩⟩
      · exact .inl rfl
  | down =>
    left
    unfold step
    dsimp only
    split <;> rfl

theorem tunnel_step (agent : LegId) (s : RelayedTunnel) (e : RelayedEvent) (h : s.tunnel.Sound) :
    (step agent s e).tunnel.Sound := by
  cases e with
  | relay e =>
    unfold step
    dsimp only
    split <;> exact h
  | tunnel e =>
    rcases step_tunnel agent s e with hsame | ⟨-, -, hstep⟩
    · rwa [hsame]
    · rw [hstep]
      exact h.step e
  | up =>
    unfold step
    dsimp only
    split
    · exact h
    · split
      · exact h.step (.relayReads 1)
      · exact h
  | down =>
    unfold step
    dsimp only
    split
    · exact h
    · next m _ => exact h.step (.frame m)

structure Sound (agent : LegId) (s : RelayedTunnel) : Prop where
  joined : Joined agent s
  relay : Relay.Sound s.relay
  streaming : Relay.Streaming s.relay
  tunnel : s.tunnel.Sound

theorem Sound.step (h : Sound agent s) (he : Orderly s e) : Sound agent (step agent s e) := by
  have hrelay : Relay.Sound (RelayedTunnel.step agent s e).relay ∧
      Relay.Streaming (RelayedTunnel.step agent s e).relay := by
    rcases relay_step agent s e with hsame | ⟨e', hstep, hgood⟩
    · rw [hsame]
      exact ⟨h.relay, h.streaming⟩
    · rw [hstep]
      obtain ⟨hone, hfirst⟩ := hgood he
      exact ⟨h.relay.step e', h.streaming.move h.relay hone hfirst (Relay.step_move _ e')⟩
  exact ⟨h.joined.step e, hrelay.1, hrelay.2, tunnel_step agent s e h.tunnel⟩

theorem sound_new : Sound agent new :=
  ⟨joined_new, Relay.sound_new, Relay.streaming_new, TunnelSession.sound_new⟩

theorem flatMap_dataOf (ms : List Message) :
    (dataOf ms).flatMap tunnelBytesOf = ms.flatMap tunnelBytesOf := by
  induction ms with
  | nil => rfl
  | cons m ms ih =>
    rw [List.flatMap_cons, ← ih, dataOf]
    cases hm : m.isData with
    | true => rw [List.filter_cons_of_pos hm, List.flatMap_cons, dataOf]
    | false =>
      have hnone : tunnelBytesOf m = [] := by cases m <;> first | rfl | cases hm
      rw [List.filter_cons_of_neg (by simp [hm]), hnone, List.nil_append, dataOf]

theorem prefix_flatMap {xs ys : List Message} (h : xs <+: ys) :
    xs.flatMap tunnelBytesOf <+: ys.flatMap tunnelBytesOf := by
  obtain ⟨rest, rfl⟩ := h
  rw [List.flatMap_append]
  exact List.prefix_append ..

/-- The bytes that one leg is sent are the beginning of those that the other has received. -/
theorem prefix_of_gapFree {n : Relay} (hg : Relay.GapFree n) {a c : LegId}
    (h : Relay.Opposite n a c) :
    ((n.legs c).outgoing.map (·.frame)).flatMap tunnelBytesOf <+:
      (n.legs a).received.flatMap tunnelBytesOf := by
  have hsent := prefix_flatMap (hg.sent a c h)
  rw [Leg.dataSent, flatMap_dataOf, flatMap_dataOf] at hsent
  exact hsent.trans (prefix_flatMap (hg.received a))

end RelayedTunnel

open RelayedTunnel

/--
A client and the local service of a desktop are joined in order and without a gap, through the relay
and the tunnel session of the agent: what the service reads is the beginning of what the client has
sent, and what the client is sent is the beginning of what the service has written.
-/
theorem relayed_tunnel_in_order {agent client : LegId} {es : List RelayedEvent}
    (hes : Transition.Steps (step agent) Orderly new es)
    (hclient : Relay.Opposite (Transition.run (step agent) new es).relay agent client) :
    let s := Transition.run (step agent) new es
    s.tunnel.wsToLocal.dst.taken <+: (s.relay.legs client).received.flatMap tunnelBytesOf ∧
      ((s.relay.legs client).outgoing.map (·.frame)).flatMap tunnelBytesOf <+:
        s.tunnel.localToWs.src.sent := by
  intro s
  have h : Sound agent s := hes.invariant (fun _ _ h he => h.step he) RelayedTunnel.sound_new
  have hg := h.streaming.gapFree h.relay
  constructor
  · have hdown := (prefix_flatMap h.joined.down).trans (prefix_of_gapFree hg hclient.symm)
    exact (tunnelPayload.prefix_reader h.tunnel.wsToLocal).trans hdown
  · have hup := prefix_of_gapFree hg hclient
    rw [h.joined.up] at hup
    exact hup.trans (tunnelPayload.prefix_writer h.tunnel.localToWs)

/-- The banner of the VNC server reaches a client that attached before the agent. -/
def bannerRelayed : List RelayedEvent :=
  [.relay (.create ⟨7⟩), .relay (.leg (.opened 2 ⟨7⟩ false)), .relay (.leg (.step 2)),
    .relay (.leg (.opened 1 ⟨7⟩ true)), .tunnel (.localWrites [82, 70, 66]),
    .tunnel (.localToWs 9), .tunnel (.localToWs 0), .relay (.leg (.step 1)), .up,
    .relay (.leg (.step 1)), .relay (.leg (.step 1))]

theorem bannerRelayed_in_order :
    let s := Transition.run (step 1) new bannerRelayed
    ((s.relay.legs 2).outgoing.map (·.frame)).flatMap tunnelBytesOf = [82, 70, 66] ∧
      s.tunnel.wsToLocal.dst.taken <+: (s.relay.legs 2).received.flatMap tunnelBytesOf ∧
        ((s.relay.legs 2).outgoing.map (·.frame)).flatMap tunnelBytesOf <+:
          s.tunnel.localToWs.src.sent := by
  refine ⟨by decide, relayed_tunnel_in_order ?_ (by unfold Relay.Opposite; decide)⟩
  simp only [bannerRelayed, Transition.steps_cons, Transition.steps_nil, Orderly, and_true]
  refine ⟨⟨trivial, trivial⟩, ⟨fun _ l hl => absurd rfl hl, trivial⟩, ⟨trivial, fun _ _ a _ => ?_⟩,
    ⟨fun _ l hl _ => ?_, trivial⟩, trivial, trivial, trivial, ⟨trivial, fun _ _ a _ => ?_⟩, trivial,
    ⟨trivial, fun hpc => absurd hpc (by decide)⟩, ⟨trivial, fun hpc => absurd hpc (by decide)⟩⟩
  -- only the two legs are ever opened
  · by_cases h : a = 2
    · subst h
      rfl
    · simp [step, isFrameOf, Relay.step, Relay.legEvent, Relay.setLeg_legs, h, new, Relay.new,
        Relay.createSession, Leg.unopened]
  · by_cases h : l = 2
    · subst h
      decide
    · simp [step, isFrameOf, Relay.step, Relay.legEvent, Relay.legStep, Relay.setLeg_legs, h, new,
        Relay.new, Relay.createSession, Leg.unopened] at hl
  · by_cases h : a = 1 ∨ a = 2
    · rcases h with rfl | rfl <;> rfl
    · push Not at h
      simp [step, isFrameOf, Relay.step, Relay.legEvent, Relay.legStep, Relay.setLeg_legs, h, new,
        Relay.new, Relay.createSession, Leg.unopened]

end Urc
