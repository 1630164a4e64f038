import Urc.Coordinator.Connect

/-! # Peers that never authenticate

Two runs are compared: one as it happened, and one without the messages of the connections
that never showed the secret. `Register` and `Connect` check the token before they touch
anything; a `Heartbeat` does not, and an empty secret is a token like any other.
-/

namespace Urc

open Transition

inductive Party
  | agent (c : ConnId)
  | client (c : ConnId)
  deriving DecidableEq

def Message.token : Message → Option String
  | .text (.agent (.register _ token _ _)) | .text (.client (.connect _ token)) => some token
  | _ => none

/-- The message that an event delivers to the coordinator, with its sender. -/
def Event.sent : Event → Option (Party × Message)
  | .agentFrame c m _ => some (.agent c, m)
  | .clientFrame c m _ => some (.client c, m)
  | _ => none

/-- The connections that never send a token equal to the configured non-empty secret. -/
def unauthenticated (secret : String) (es : List Event) (p : Party) : Bool :=
  secret.isEmpty || es.all fun e => e.sent.all fun x => x.1 ≠ p || x.2.token ≠ some secret

/-- The events that stay when the messages of the connections in `U` are deleted. -/
def keeps (U : Party → Bool) (e : Event) : Bool := e.sent.all fun x => !U x.1

namespace Server

variable {U : Party → Bool} {s s' : Server} {e : Event} {c : ConnId}

/-- No token was accepted: nothing registered, nothing decided, every `Connect` refused for it. -/
structure NothingAccepted (s : Server) : Prop where
  registrar : ∀ h, s.registrar h = none
  decided : s.decided = []
  refused : ∀ c, ∀ m ∈ (s.clients c).out,
    m = .ofMessage (CoordinatorMessage.connectErr "invalid token")

/--
What must not depend on the messages of the connections in `U`: the records, the relay with its
sessions, and what the other connections were sent. An empty secret must admit nobody.
-/
structure Unseen (U : Party → Bool) (s s' : Server) : Prop where
  found : ∀ h, s.state.getAgent h = s'.state.getAgent h
  relay : s.state.relay = s'.state.relay
  control : ∀ c, U (.agent c) = false → (s.agents c).control = (s'.agents c).control
  out : ∀ c, U (.client c) = false → (s.clients c).out = (s'.clients c).out
  closed : s.state.secret = "" → NothingAccepted s

/--
A message of a connection in `U` that changes nothing: a `Heartbeat` does not name a registered
host whose clock it would move on, and an empty secret is not met by an empty token.
-/
def Harmless (U : Party → Bool) (s : Server) : Event → Prop
  | .agentFrame c (.text (.agent (.heartbeat id))) now => U (.agent c) = true →
      (s.agents c).pc = .reading → ∀ r, s.state.getAgent id = some r → r.lastSeen = now
  | .agentFrame c (.text (.agent (.register _ token _ _))) _ => U (.agent c) = true →
      (s.agents c).pc = .reading → s.state.secret = "" → token ≠ ""
  | .clientFrame c (.text (.client (.connect _ token))) _ => U (.client c) = true →
      (s.clients c).pc = .reading → s.state.secret = "" → token ≠ ""
  | _ => True

/-! ### Indistinguishable states -/

/-- Two states of one agent connection in `U`, which has neither registered nor been sent anything
because of what it said. -/
structure Mute (a a' : AgentConn) : Prop where
  control : a.control = a'.control
  rxOpen : a.rxOpen = a'.rxOpen
  opened : a.pc = .unopened ↔ a'.pc = .unopened
  host : a.hostId = "" ∧ a'.hostId = ""
  silent : ∀ id, a.pc ≠ .replying id ∧ a'.pc ≠ .replying id

/-- Two states of one client connection in `U`, which is not inside a `Connect`. -/
structure Idling (k k' : ClientConn) : Prop where
  opened : k.pc = .unopened ↔ k'.pc = .unopened
  idle : k.pc.unanswered = 0 ∧ k'.pc.unanswered = 0

/-- The relation that both runs keep. -/
structure Indist (U : Party → Bool) (s s' : Server) : Prop where
  secret : s.state.secret = s'.state.secret
  found : ∀ h, s.state.getAgent h = s'.state.getAgent h
  relay : s.state.relay = s'.state.relay
  decided : s.decided = s'.decided
  agent : ∀ c, U (.agent c) = false → s.agents c = s'.agents c
  client : ∀ c, U (.client c) = false → s.clients c = s'.clients c
  mute : ∀ c, U (.agent c) = true → Mute (s.agents c) (s'.agents c)
  idling : ∀ c, U (.client c) = true → Idling (s.clients c) (s'.clients c)

theorem indist_new (secret : String) : Indist U (.new secret) (.new secret) where
  secret := rfl
  found _ := rfl
  relay := rfl
  decided := rfl
  agent _ _ := rfl
  client _ _ := rfl
  mute c _ := ⟨rfl, rfl, Iff.rfl, ⟨rfl, rfl⟩, by simp [new]⟩
  idling c _ := ⟨Iff.rfl, rfl, rfl⟩

theorem Indist.setAgent (h : Indist U s s') {x x' : AgentConn}
    (hs : U (.agent c) = false → x = x') (hm : U (.agent c) = true → Mute x x') :
    Indist U (s.setAgent c x) (s'.setAgent c x') := by
  refine { h with agent := fun d hd => ?_, mute := fun d hd => ?_ }
  · rw [setAgent_agents, setAgent_agents]
    split_ifs with hdc
    · exact hs (hdc ▸ hd)
    · exact h.agent d hd
  · rw [setAgent_agents, setAgent_agents]
    split_ifs with hdc
    · exact hm (hdc ▸ hd)
    · exact h.mute d hd

theorem Indist.setClient (h : Indist U s s') {x x' : ClientConn}
    (hs : U (.client c) = false → x = x') (hm : U (.client c) = true → Idling x x') :
    Indist U (s.setClient c x) (s'.setClient c x') := by
  refine { h with client := fun d hd => ?_, idling := fun d hd => ?_ }
  · rw [setClient_clients, setClient_clients]
    split_ifs with hdc
    · exact hs (hdc ▸ hd)
    · exact h.client d hd
  · rw [setClient_clients, setClient_clients]
    split_ifs with hdc
    · exact hm (hdc ▸ hd)
    · exact h.idling d hd

theorem setAgent_self (s : Server) (c : ConnId) : s.setAgent c (s.agents c) = s := by
  simp [setAgent]

theorem setClient_self (s : Server) (c : ConnId) : s.setClient c (s.clients c) = s := by
  simp [setClient]

theorem Indist.setAgent_left (h : Indist U s s') {x : AgentConn} (hu : U (.agent c) = true)
    (hm : Mute x (s'.agents c)) : Indist U (s.setAgent c x) s' := by
  have hset : Indist U (s.setAgent c x) (s'.setAgent c (s'.agents c)) :=
    h.setAgent (by simp [hu]) fun _ => hm
  rwa [setAgent_self] at hset

theorem Indist.setClient_left (h : Indist U s s') {x : ClientConn} (hu : U (.client c) = true)
    (hm : Idling x (s'.clients c)) : Indist U (s.setClient c x) s' := by
  have hset : Indist U (s.setClient c x) (s'.setClient c (s'.clients c)) :=
    h.setClient (by simp [hu]) fun _ => hm
  rwa [setClient_self] at hset

/-! ### Steps that both runs take -/

theorem Mute.goto {a a' : AgentConn} {pc pc' : AgentPc} (h : Mute a a')
    (ho : pc = .unopened ↔ pc' = .unopened) (hs : ∀ id, pc ≠ .replying id ∧ pc' ≠ .replying id) :
    Mute { a with pc := pc } { a' with pc := pc' } :=
  ⟨h.control, h.rxOpen, ho, h.host, hs⟩

theorem Indist.pushControl (h : Indist U s s') (t : ConnId) (m : Message) :
    Indist U (s.pushControl t m) (s'.pushControl t m) := by
  rw [pushControl_eq, pushControl_eq]
  refine h.setAgent (fun hu => by rw [h.agent t hu]) fun hu => ?_
  have hm := h.mute t hu
  exact ⟨by rw [hm.control, hm.rxOpen], hm.rxOpen, hm.opened, hm.host, hm.silent⟩

theorem agentStep_mute (hh : (s.agents c).hostId = "")
    (hs : ∀ id, (s.agents c).pc ≠ .replying id) : s.agentStep c = s.setAgent c { s.agents c with
      pc := if (s.agents c).pc = .leaving then .returned else (s.agents c).pc } := by
  have hself : ∀ pc, (s.agents c).pc = pc → s.setAgent c { s.agents c with pc := pc } = s := by
    rintro _ rfl
    exact setAgent_self s c
  cases hpc : (s.agents c).pc with
  | replying id => exact absurd hpc (hs id)
  | leaving => simp [agentStep, hpc, hh]
  | unopened => simpa [agentStep, hpc] using (hself _ hpc).symm
  | reading => simpa [agentStep, hpc] using (hself _ hpc).symm
  | returned => simpa [agentStep, hpc] using (hself _ hpc).symm

theorem Indist.agentStep (h : Indist U s s') (c : ConnId) :
    Indist U (s.agentStep c) (s'.agentStep c) := by
  cases hU : U (.agent c) with
  | true =>
    have hm := h.mute c hU
    rw [agentStep_mute hm.host.1 fun id => (hm.silent id).1,
      agentStep_mute hm.host.2 fun id => (hm.silent id).2]
    refine h.setAgent (by simp [hU]) fun _ => hm.goto ?_ fun id => ?_
    · have ho := hm.opened
      split_ifs with h₁ h₂ h₂ <;> simp_all
    · have hs := hm.silent id
      split_ifs <;> simp_all
  | false =>
    have ha := h.agent c hU
    have hnot : ∀ {x x' : AgentConn}, U (.agent c) = true → Mute x x' := by simp [hU]
    cases hpc : (s'.agents c).pc with
    | replying id =>
      simp only [Server.agentStep, ha, hpc]
      have hp := h.pushControl c (.ofMessage (CoordinatorMessage.registered id))
      exact hp.setAgent (fun hu => by rw [hp.agent c hu]) hnot
    | leaving =>
      simp only [Server.agentStep, ha, hpc]
      have hset := h.setAgent (c := c) (fun _ => rfl)
        (hnot (x := { s'.agents c with pc := .returned }))
      split_ifs
      · exact hset
      · refine { hset with found := fun k => ?_ }
        dsimp only
        rw [AppState.getAgent_unregisterAgent, AppState.getAgent_unregisterAgent, h.found k]
    | unopened => simpa [Server.agentStep, ha, hpc] using h
    | reading => simpa [Server.agentStep, ha, hpc] using h
    | returned => simpa [Server.agentStep, ha, hpc] using h

theorem clientStep_idle (h : (s.clients c).pc.unanswered = 0) : s.clientStep c = s := by
  cases hpc : (s.clients c).pc <;> simp [hpc, ClientPc.unanswered, clientStep] at h ⊢

theorem Indist.clientStep (h : Indist U s s') (c : ConnId) :
    Indist U (s.clientStep c) (s'.clientStep c) := by
  cases hU : U (.client c) with
  | true =>
    have hi := (h.idling c hU).idle
    rw [clientStep_idle hi.1, clientStep_idle hi.2]
    exact h
  | false =>
    have hk := h.client c hU
    have hnot : ∀ {x x' : ClientConn}, U (.client c) = true → Idling x x' := by simp [hU]
    cases hpc : (s'.clients c).pc with
    | gotAgent hostId agent id =>
      simp only [Server.clientStep, hk, hpc]
      refine h.setClient (fun _ => ?_) hnot
      rw [AppState.agentControlTx_eq, AppState.agentControlTx_eq, h.found]
    | gotTx agent id tx =>
      simp only [Server.clientStep, hk, hpc]
      cases tx with
      | none => exact h.setClient (fun _ => rfl) hnot
      | some t => exact (h.pushControl t _).setClient (fun _ => rfl) hnot
    | announced agent id =>
      simp only [Server.clientStep, hk, hpc]
      have hset := h.setClient (c := c) (fun _ => rfl)
        (hnot (x := { s'.clients c with pc := .created agent id }))
      exact { hset with relay := congrArg (Relay.createSession · id) h.relay }
    | created agent id =>
      simp only [Server.clientStep, hk, hpc]
      exact h.setClient (fun _ => rfl) hnot
    | unopened => simpa [Server.clientStep, hk, hpc] using h
    | reading => simpa [Server.clientStep, hk, hpc] using h
    | returned => simpa [Server.clientStep, hk, hpc] using h

theorem Indist.verifyToken (h : Indist U s s') (token : String) :
    s.state.verifyToken token = s'.state.verifyToken token := by
  rw [AppState.verifyToken, AppState.verifyToken, h.secret]

theorem Indist.onAgentFrame (h : Indist U s s') (hU : U (.agent c) = false) (m : Message)
    (now : DateTime) : Indist U (s.onAgentFrame c m now) (s'.onAgentFrame c m now) := by
  have ha := h.agent c hU
  have hset : ∀ x : AgentConn, Indist U (s.setAgent c x) (s'.setAgent c x) :=
    fun x => h.setAgent (fun _ => rfl) (by simp [hU])
  cases m with
  | text t =>
    cases t with
    | agent a =>
      cases a with
      | register id token ip port =>
        simp only [Server.onAgentFrame, parseWsMessage, ha, h.verifyToken]
        split_ifs
        · refine { hset { s'.agents c with pc := .replying id, hostId := id } with
            secret := h.secret, relay := h.relay, found := fun k => ?_ }
          dsimp only
          rw [AppState.getAgent_registerAgent, AppState.getAgent_registerAgent, h.found]
        · exact hset _
      | heartbeat id =>
        simp only [Server.onAgentFrame, parseWsMessage]
        refine { h with secret := ?_, found := fun k => ?_, relay := ?_ }
        · simpa using h.secret
        · dsimp only
          rw [AppState.getAgent_touchAgent, AppState.getAgent_touchAgent, h.found, h.found]
        · simpa using h.relay
      | tunnelReady _ _ => exact h
      | tunnelData _ _ _ => exact h
      | tunnelClose _ _ => exact h
    | client _ => exact h
    | coordinator _ => exact h
    | other _ => exact h
  | binary _ => simpa only [Server.onAgentFrame, ha] using hset _
  | ping _ => simpa only [Server.onAgentFrame, ha] using hset _
  | pong _ => simpa only [Server.onAgentFrame, ha] using hset _
  | close => simpa only [Server.onAgentFrame, ha] using hset _

theorem Indist.onClientFrame (h : Indist U s s') (hU : U (.client c) = false) (m : Message)
    (id : Uuid) : Indist U (s.onClientFrame c m id) (s'.onClientFrame c m id) := by
  have hk := h.client c hU
  have hset : ∀ x : ClientConn, Indist U (s.setClient c x) (s'.setClient c x) :=
    fun x => h.setClient (fun _ => rfl) (by simp [hU])
  have hrefuse : ∀ r, Indist U (s.refuse c r) (s'.refuse c r) := by
    intro r
    simpa only [refuse, hk] using hset _
  cases m with
  | text t =>
    cases t with
    | client k =>
      cases k with
      | connect hostId token =>
        simp only [Server.onClientFrame, parseWsMessage, h.verifyToken, h.found, h.decided, hk]
        cases s'.state.getAgent hostId with
        | none =>
          dsimp only
          split_ifs
          · exact hrefuse _
          · exact hrefuse _
        | some agent =>
          dsimp only
          split_ifs
          · exact hrefuse _
          · exact h
          · exact { hset _ with decided := rfl }
      | disconnect _ => exact h
    | agent _ => exact h
    | coordinator _ => exact h
    | other _ => exact h
  | binary _ => simpa only [Server.onClientFrame, hk] using hset _
  | ping _ => simpa only [Server.onClientFrame, hk] using hset _
  | pong _ => simpa only [Server.onClientFrame, hk] using hset _
  | close => simpa only [Server.onClientFrame, hk] using hset _

theorem Indist.dial (h : Indist U s s') (c : ConnId) (i : ℕ) (l : LegId) :
    Indist U (s.dial c i l) (s'.dial c i l) := by
  have hc : (s.agents c).control = (s'.agents c).control := by
    cases hU : U (.agent c) with
    | true => exact (h.mute c hU).control
    | false => rw [h.agent c hU]
  unfold Server.dial
  rw [hc, h.relay]
  split
  · split_ifs
    · exact { h with relay := rfl }
    · exact h
  · exact h

theorem keeps_agentFrame {m : Message} {now : DateTime} :
    keeps U (.agentFrame c m now) = !U (.agent c) := rfl

theorem keeps_clientFrame {m : Message} {id : Uuid} :
    keeps U (.clientFrame c m id) = !U (.client c) := rfl

theorem step_agentEnd : s.step (.agentEnd c) = s.setAgent c { s.agents c with
    pc := if (s.agents c).pc = .reading then .leaving else (s.agents c).pc } := by
  simp only [step]
  split_ifs
  · rfl
  · exact (setAgent_self s c).symm

theorem step_clientEnd : s.step (.clientEnd c) = s.setClient c { s.clients c with
    pc := if (s.clients c).pc = .reading then .returned else (s.clients c).pc } := by
  simp only [step]
  split_ifs
  · rfl
  · exact (setClient_self s c).symm

theorem Indist.agent_unopened (h : Indist U s s') (c : ConnId) :
    (s.agents c).pc = .unopened ↔ (s'.agents c).pc = .unopened := by
  cases hU : U (.agent c) with
  | true => exact (h.mute c hU).opened
  | false => rw [h.agent c hU]

theorem Indist.client_unopened (h : Indist U s s') (c : ConnId) :
    (s.clients c).pc = .unopened ↔ (s'.clients c).pc = .unopened := by
  cases hU : U (.client c) with
  | true => exact (h.idling c hU).opened
  | false => rw [h.client c hU]

theorem Indist.agentEnd (h : Indist U s s') (c : ConnId) :
    Indist U (s.step (.agentEnd c)) (s'.step (.agentEnd c)) := by
  rw [step_agentEnd, step_agentEnd]
  refine h.setAgent (fun hU => by rw [h.agent c hU]) fun hU => (h.mute c hU).goto ?_ fun id => ?_
  · have ho := h.agent_unopened c
    split_ifs <;> simp_all
  · have hs := (h.mute c hU).silent id
    split_ifs <;> simp_all

theorem Indist.agentCloseRx (h : Indist U s s') (c : ConnId) :
    Indist U (s.step (.agentCloseRx c)) (s'.step (.agentCloseRx c)) := by
  simp only [step, h.agent_unopened c]
  split_ifs
  · exact h
  · refine h.setAgent (fun hU => by rw [h.agent c hU]) fun hU => ?_
    have hm := h.mute c hU
    exact ⟨hm.control, rfl, hm.opened, hm.host, hm.silent⟩

theorem Indist.clientEnd (h : Indist U s s') (c : ConnId) :
    Indist U (s.step (.clientEnd c)) (s'.step (.clientEnd c)) := by
  rw [step_clientEnd, step_clientEnd]
  refine h.setClient (fun hU => by rw [h.client c hU]) fun hU => ⟨?_, ?_⟩
  · have ho := h.client_unopened c
    split_ifs <;> simp_all
  · have hi := (h.idling c hU).idle
    split_ifs <;> simp_all [ClientPc.unanswered]

/-- Both runs take an event that is kept. -/
theorem Indist.step_kept (h : Indist U s s') (hk : keeps U e = true) :
    Indist U (s.step e) (s'.step e) := by
  cases e with
  | agentOpen c =>
    simp only [step, h.agent_unopened c]
    split_ifs
    · exact h.setAgent (fun _ => rfl) fun _ => ⟨rfl, rfl, Iff.rfl, ⟨rfl, rfl⟩, by simp⟩
    · exact h
  | agentFrame c m now =>
    have hU : U (.agent c) = false := by simpa [keeps_agentFrame] using hk
    simp only [step, h.agent c hU]
    split_ifs
    · exact h.onAgentFrame hU m now
    · exact h
  | agentEnd c => exact h.agentEnd c
  | agentStep c => exact h.agentStep c
  | agentCloseRx c => exact h.agentCloseRx c
  | clientOpen c =>
    simp only [step, h.client_unopened c]
    split_ifs
    · exact h.setClient (fun _ => rfl) fun _ => ⟨Iff.rfl, rfl, rfl⟩
    · exact h
  | clientFrame c m id =>
    have hU : U (.client c) = false := by simpa [keeps_clientFrame] using hk
    simp only [step, h.client c hU]
    split_ifs
    · exact h.onClientFrame hU m id
    · exact h
  | clientEnd c => exact h.clientEnd c
  | clientStep c => exact h.clientStep c
  | dial c i l => exact h.dial c i l
  | leg e => exact { h with relay := congrArg (Relay.legEvent · e) h.relay }

/-! ### Messages that only one run takes -/

/-- A message of a connection in `U` that changes nothing is not seen by the other run. -/
theorem Indist.step_dropped (h : Indist U s s') (hk : keeps U e = false)
    (ha : ∀ p m, e.sent = some (p, m) → U p = true →
      s.state.secret = "" ∨ m.token ≠ some s.state.secret)
    (hg : Harmless U s e) : Indist U (s.step e) s' := by
  have hm := step_move s e
  generalize s.step e = t at hm
  cases hm with
  | stutter => exact h
  | @register c id token ip port now hpc ht =>
    have hU : U (.agent c) = true := by simpa [keeps_agentFrame] using hk
    rcases ha _ _ rfl hU with hs | hs
    · exact absurd (ht.trans hs) (hg hU hpc hs)
    · exact absurd (congrArg some ht) hs
  | @reject c id token ip port now hpc ht =>
    have hU : U (.agent c) = true := by simpa [keeps_agentFrame] using hk
    have ho := (h.mute c hU).opened
    exact h.setAgent_left hU ((h.mute c hU).goto (by simpa [hpc] using ho)
      fun id => ⟨by simp, ((h.mute c hU).silent id).2⟩)
  | @touch c id now hpc =>
    have hU : U (.agent c) = true := by simpa [keeps_agentFrame] using hk
    refine { h with secret := ?_, found := fun k => ?_, relay := ?_ }
    · simpa using h.secret
    · dsimp only
      rw [AppState.getAgent_touchAgent, ← h.found k]
      split_ifs with hki
      · subst hki
        cases hr : s.state.getAgent k with
        | none => rfl
        | some r => rw [Option.map_some, ← hg hU hpc r hr]
      · rfl
    · simpa using h.relay
  | @leave c e hpc he =>
    rcases he with rfl | ⟨m, now, rfl, -⟩
    · simp [keeps, Event.sent] at hk
    · have hU : U (.agent c) = true := by simpa [keeps_agentFrame] using hk
      have ho := (h.mute c hU).opened
      exact h.setAgent_left hU ((h.mute c hU).goto (by simpa [hpc] using ho)
        fun id => ⟨by simp, ((h.mute c hU).silent id).2⟩)
  | @refuse c hostId token id reason hpc ht =>
    have hU : U (.client c) = true := by simpa [keeps_clientFrame] using hk
    have hi := h.idling c hU
    exact h.setClient_left hU ⟨hi.opened, hi.idle⟩
  | @connect c hostId token id agent hpc ht hfound hid =>
    have hU : U (.client c) = true := by simpa [keeps_clientFrame] using hk
    rcases ha _ _ rfl hU with hs | hs
    · exact absurd (ht.trans hs) (hg hU hpc hs)
    · exact absurd (congrArg some ht) hs
  | @clientLeave c e hpc he =>
    rcases he with rfl | ⟨m, id, rfl⟩
    · simp [keeps, Event.sent] at hk
    · have hU : U (.client c) = true := by simpa [keeps_clientFrame] using hk
      have hi := h.idling c hU
      exact h.setClient_left hU ⟨by simpa [hpc] using hi.opened, rfl, hi.idle.2⟩
  | _ => simp [keeps, Event.sent] at hk

theorem NothingAccepted.step (h : NothingAccepted s) (hs : s.state.secret = "")
    (hU : ∀ p, U p = true) (hi : ∀ c, (s.clients c).pc.unanswered = 0) (hg : Harmless U s e) :
    NothingAccepted (s.step e) := by
  have hset : ∀ {c : ConnId} {x : ClientConn}, (∀ m ∈ x.out, m ∈ (s.clients c).out ∨
      m = .ofMessage (CoordinatorMessage.connectErr "invalid token")) →
      ∀ d, ∀ m ∈ ((s.setClient c x).clients d).out,
        m = .ofMessage (CoordinatorMessage.connectErr "invalid token") := by
    intro c x hx d m hm
    rw [setClient_clients] at hm
    split_ifs at hm
    · exact (hx m hm).elim (h.refused c m) fun h => h
    · exact h.refused d m hm
  have hm := step_move s e
  generalize s.step e = t at hm
  cases hm with
  | register hpc ht => exact absurd (ht.trans hs) (hg (hU _) hpc hs)
  | connect hpc ht ha hid => exact absurd (ht.trans hs) (hg (hU _) hpc hs)
  | @refuse c hostId token id reason hpc ht =>
    rcases ht with ⟨-, rfl⟩ | ⟨ht, -⟩
    · refine ⟨h.registrar, h.decided, hset fun m hm => ?_⟩
      exact (List.mem_append.mp hm).imp_right List.mem_singleton.mp
    · exact absurd (ht.trans hs) (hg (hU _) hpc hs)
  | clientOpen hpc => exact ⟨h.registrar, h.decided, hset (by simp)⟩
  | clientLeave hpc he => exact ⟨h.registrar, h.decided, hset fun m hm => .inl hm⟩
  | @lookupTx c _ _ _ hpc => exact absurd (hi c) (by simp [hpc, ClientPc.unanswered])
  | @announce c _ _ _ hpc => exact absurd (hi c) (by simp [hpc, ClientPc.unanswered])
  | @skip c _ _ hpc => exact absurd (hi c) (by simp [hpc, ClientPc.unanswered])
  | @create c _ _ hpc => exact absurd (hi c) (by simp [hpc, ClientPc.unanswered])
  | @answer c _ _ hpc => exact absurd (hi c) (by simp [hpc, ClientPc.unanswered])
  | _ => exact ⟨h.registrar, h.decided, h.refused⟩

/-- The relation that both runs keep, with what an empty secret has to guarantee. -/
structure Hidden (secret : String) (U : Party → Bool) (s s' : Server) : Prop where
  indist : Indist U s s'
  configured : s.state.secret = secret
  closed : secret = "" → NothingAccepted s

theorem Hidden.unseen {secret : String} (h : Hidden secret U s s') : Unseen U s s' where
  found := h.indist.found
  relay := h.indist.relay
  control c hc := by rw [h.indist.agent c hc]
  out c hc := by rw [h.indist.client c hc]
  closed hs := h.closed (h.configured.symm.trans hs)

theorem Hidden.closed_step {secret : String} (hU : secret = "" → ∀ p, U p = true)
    (h : Hidden secret U s s') (hg : Harmless U s e) (hs : secret = "") :
    NothingAccepted (s.step e) :=
  (h.closed hs).step (h.configured.trans hs) (hU hs)
    (fun c => (h.indist.idling c (hU hs _)).idle.1) hg

theorem verifyToken_empty (hs : s.state.secret = "") : s.state.verifyToken "" = true :=
  AppState.verifyToken_iff.mpr hs.symm

theorem notOnline_ne (hostId : String) :
    "host '" ++ hostId ++ "' not online" ≠ "invalid token" := by
  intro h
  have hl := congrArg String.toList h
  simp only [String.toList_append] at hl
  exact absurd (congrArg List.head? hl) (by simp)

/-- A message of a connection in `U` that leaves no trace was harmless. -/
theorem harmless_of_unseen {t : Server} (hf : ∀ h, s.state.getAgent h = t.state.getAgent h)
    (hn : s.state.secret = "" → NothingAccepted s) (hq : Unseen U (s.step e) t) :
    Harmless U s e := by
  unfold Harmless
  split
  · rename_i c id now
    intro hU hpc r hr
    have hfound := hq.found id
    have hstep : s.step (.agentFrame c (.text (.agent (.heartbeat id))) now) =
        { s with state := s.state.touchAgent id now } := by
      simp [step, hpc, onAgentFrame, parseWsMessage]
    rw [hstep, ← hf id] at hfound
    dsimp only at hfound
    rw [AppState.getAgent_touchAgent, if_pos rfl, hr, Option.map_some, Option.some_inj] at hfound
    exact (congrArg AgentRecord.lastSeen hfound).symm
  · rename_i c id token ip port now
    rintro hU hpc hs rfl
    have hreg := (hq.closed (by rw [step_secret]; exact hs)).registrar id
    simp [step, hpc, onAgentFrame, parseWsMessage, verifyToken_empty hs] at hreg
  · rename_i c hostId token id
    rintro hU hpc hs rfl
    have hacc := hq.closed (by rw [step_secret]; exact hs)
    cases ha : s.state.getAgent hostId with
    | none =>
      have hstep : s.step (.clientFrame c (.text (.client (.connect hostId ""))) id) =
          s.refuse c ("host '" ++ hostId ++ "' not online") := by
        simp [step, hpc, onClientFrame, parseWsMessage, verifyToken_empty hs, ha]
      rw [hstep] at hacc
      have hm := hacc.refused c (.ofMessage (CoordinatorMessage.connectErr
        ("host '" ++ hostId ++ "' not online"))) (by simp [refuse, setClient_clients])
      simp only [Message.ofMessage, toWsMessage, Message.text.injEq, WsText.coordinator.injEq,
        CoordinatorMessage.connectErr.injEq] at hm
      exact notOnline_ne hostId hm
    | some agent =>
      have hdec := hacc.decided
      simp [step, hpc, onClientFrame, parseWsMessage, verifyToken_empty hs, ha, (hn hs).decided]
        at hdec
  · trivial

theorem harmless_of_keeps (hk : keeps U e = true) : Harmless U s e := by
  unfold Harmless
  split
  · exact fun hU => by simp [keeps_agentFrame, hU] at hk
  · exact fun hU => by simp [keeps_agentFrame, hU] at hk
  · exact fun hU => by simp [keeps_clientFrame, hU] at hk
  · trivial

/--
Deleting the messages of the connections that never authenticate leaves the records, the relay
and what the others are sent unchanged in every state of the run, and an empty secret admits
nobody, exactly when each of these messages is harmless.
-/
theorem unauthenticated_unseen_iff (secret : String) (es : List Event) :
    let U := unauthenticated secret es
    (∀ pre, pre <+: es → Unseen U (run step (.new secret) pre)
      (run step (.new secret) (pre.filter (keeps U)))) ↔
      Steps step (Harmless U) (.new secret) es := by
  intro U
  have hU : secret = "" → ∀ p, U p = true := by
    rintro rfl p
    simp [U, unauthenticated]
  have hadm : ∀ e ∈ es, ∀ p m, e.sent = some (p, m) → U p = true →
      secret = "" ∨ m.token ≠ some secret := by
    intro e he p m hs hp
    simp only [U, unauthenticated, Bool.or_eq_true, String.isEmpty_iff, List.all_eq_true] at hp
    refine hp.imp_right fun hp => ?_
    simpa [hs] using hp e he
  have h0 : Hidden secret U (.new secret) (.new secret) :=
    ⟨indist_new secret, rfl, fun _ => ⟨fun _ => rfl, rfl, by simp [new]⟩⟩
  refine unseen_iff_steps (R := Hidden secret U) (keeps U) ?_ ?_ (fun _ _ h => h.unseen) ?_ ?_
    h0 hadm
  · intro s s' e hk h _ hg
    exact ⟨h.indist.step_kept hk, (step_secret s e).trans h.configured, h.closed_step hU hg⟩
  · intro s s' e hk h ha hg
    refine ⟨h.indist.step_dropped hk ?_ hg, (step_secret s e).trans h.configured,
      h.closed_step hU hg⟩
    rw [h.configured]
    exact ha
  · exact fun _ _ _ hk _ _ _ => harmless_of_keeps hk
  · intro s s' e _ h _ hq
    exact harmless_of_unseen h.indist.found (fun hs => h.closed (h.configured.symm.trans hs)) hq

def strangeHeartbeat : List Event :=
  [.agentOpen 0, .agentFrame 0 (.text (.agent (.register "desk" "t" none 5900))) 0, .agentStep 0,
    .agentOpen 1, .agentFrame 1 (.text (.agent (.heartbeat "desk"))) 9]

theorem unauthenticated_seen : ¬ ∀ secret es,
    let U := unauthenticated secret es
    Unseen U (run step (.new secret) es) (run step (.new secret) (es.filter (keeps U))) := by
  intro h
  have hfound := (h "t" strangeHeartbeat).found "desk"
  exact absurd hfound (by decide)

end Server

end Urc
