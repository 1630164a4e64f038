import Urc.Coordinator.State

/-! # The coordinator as a system

Every control socket has a task, `handle_agent` or `handle_client`, whose program counter
names its await points. An event lets one task run to its next await, delivers a frame to
it, or moves a tunnel leg, so a list of events is an interleaving of all of them.
-/

namespace Urc

/-- Where a `handle_agent` task stands: at `stream.next()`, before the reply to an accepted
`Register`, or behind the loop before the removal of its host. -/
inductive AgentPc
  | unopened
  | reading
  | replying (hostId : String)
  | leaving
  | returned
  deriving DecidableEq

/-- A `handle_agent` task. `control` is the history of frames that the control channel accepted;
`rxOpen` says that the forward task still holds the receiver. -/
structure AgentConn where
  pc : AgentPc
  hostId : String
  rxOpen : Bool
  control : List Message
  deriving DecidableEq

/-- Where a `handle_client` task stands: at `stream.next()`, or in a `Connect` after `get_agent`,
after `agent_control_tx`, after the announcement, and after `create_session`. -/
inductive ClientPc
  | unopened
  | reading
  | gotAgent (hostId : String) (agent : AgentRecord) (id : Uuid)
  | gotTx (agent : AgentRecord) (id : Uuid) (tx : Option ConnId)
  | announced (agent : AgentRecord) (id : Uuid)
  | created (agent : AgentRecord) (id : Uuid)
  | returned
  deriving DecidableEq

/-- A `handle_client` task, with the frames it has sent and the number of `Connect`s it has read. -/
structure ClientConn where
  pc : ClientPc
  out : List Message
  connects : ℕ
  deriving DecidableEq

/--
The coordinator and its sockets. Three fields are histories: the connection whose `Register` for
a host was accepted last, the record that decided each session, and the tunnel legs that an
agent opened because of a `TunnelReady`.
-/
structure Server where
  state : AppState
  agents : ConnId → AgentConn
  clients : ConnId → ClientConn
  registrar : String → Option ConnId
  decided : List (Uuid × AgentRecord)
  dialled : LegId → Bool

/-- `clientFrame` carries the id that `Uuid::new_v4` would give, `agentFrame` the clock. -/
inductive Event
  | agentOpen (c : ConnId)
  | agentFrame (c : ConnId) (m : Message) (now : DateTime)
  | agentEnd (c : ConnId)
  | agentStep (c : ConnId)
  | agentCloseRx (c : ConnId)
  | clientOpen (c : ConnId)
  | clientFrame (c : ConnId) (m : Message) (id : Uuid)
  | clientEnd (c : ConnId)
  | clientStep (c : ConnId)
  | dial (c : ConnId) (i : ℕ) (l : LegId)
  | leg (e : LegEvent)
  deriving DecidableEq

def relayMode (agent : AgentRecord) : RelayMode :=
  if agent.tailscaleIp.isSome then .direct else .relayed

/-- The frame after `ConnectOk`: a plain sentence for a direct connection, else a `RelayHint`. -/
def hint (agent : AgentRecord) (id : Uuid) : Message :=
  match agent.tailscaleIp with
  | some ip => .text (.other
      ("Direct connect: vncviewer " ++ ip ++ ":" ++ toString agent.vncLocalPort.toNat ++
        " (TLS port " ++ toString defaultTlsListenPort.toNat ++ ")"))
  | none => .ofMessage (CoordinatorMessage.relayHint id
      ("ws://127.0.0.1:" ++ toString defaultCoordinatorPort.toNat))

def tunnelReady (id : Uuid) : Message := .ofMessage (AgentMessage.tunnelReady id .vnc)

/-- The receive arm of the agent's `connect_once`: the session it opens a tunnel for. -/
def dispatch : Message → Option (Uuid × TunnelTarget)
  | .text t =>
    match (parseWsMessage t : Option AgentMessage) with
    | some (.tunnelReady id target) => some (id, target)
    | _ => none
  | _ => none

namespace Server

def new (secret : String) : Server :=
  ⟨.new secret, fun _ => ⟨.unopened, "", false, []⟩, fun _ => ⟨.unopened, [], 0⟩,
    fun _ => none, [], fun _ => false⟩

def setAgent (s : Server) (c : ConnId) (a : AgentConn) : Server :=
  { s with agents := Function.update s.agents c a }

def setClient (s : Server) (c : ConnId) (k : ClientConn) : Server :=
  { s with clients := Function.update s.clients c k }

/-- A frame on the control channel of an agent; a channel whose receiver is gone refuses it. -/
def pushControl (s : Server) (c : ConnId) (m : Message) : Server :=
  let a := s.agents c
  if a.rxOpen then s.setAgent c { a with control := a.control ++ [m] } else s

/-- The loop body of `handle_agent`. -/
def onAgentFrame (s : Server) (c : ConnId) (m : Message) (now : DateTime) : Server :=
  let a := s.agents c
  match m with
  | .text t =>
    match (parseWsMessage t : Option AgentMessage) with
    | some (.register id token tailscaleIp vncLocalPort) =>
      if s.state.verifyToken token then
        { s.setAgent c { a with pc := .replying id, hostId := id } with
          state := s.state.registerAgent id tailscaleIp vncLocalPort now c
          registrar := Function.update s.registrar id (some c) }
      -- an early return: the forward task and the registered host are left as they are
      else s.setAgent c { a with pc := .returned }
    | some (.heartbeat id) => { s with state := s.state.touchAgent id now }
    | _ => s
  | _ => s.setAgent c { a with pc := .leaving }

/-- `handle_agent` between two frames: the reply to a `Register`, and the end of the task. -/
def agentStep (s : Server) (c : ConnId) : Server :=
  let a := s.agents c
  match a.pc with
  | .replying id =>
    let s' := s.pushControl c (.ofMessage (CoordinatorMessage.registered id))
    s'.setAgent c { s'.agents c with pc := .reading }
  | .leaving =>
    let s' := s.setAgent c { a with pc := .returned }
    if a.hostId.isEmpty then s' else { s' with state := s.state.unregisterAgent a.hostId }
  | _ => s

/-- A `Connect` that is answered at once with an error. -/
def refuse (s : Server) (c : ConnId) (reason : String) : Server :=
  let k := s.clients c
  s.setClient c { k with
    out := k.out ++ [.ofMessage (CoordinatorMessage.connectErr reason)]
    connects := k.connects + 1 }

/-- The loop body of `handle_client` up to the first await after `get_agent`. -/
def onClientFrame (s : Server) (c : ConnId) (m : Message) (id : Uuid) : Server :=
  let k := s.clients c
  match m with
  | .text t =>
    match (parseWsMessage t : Option ClientMessage) with
    | some (.connect hostId token) =>
      if !s.state.verifyToken token then s.refuse c "invalid token"
      else
        match s.state.getAgent hostId with
        | none => s.refuse c ("host '" ++ hostId ++ "' not online")
        | some agent =>
          -- `Uuid::new_v4` does not give an id twice
          if id ∈ s.decided.map (·.1) then s
          else
            { s.setClient c { k with pc := .gotAgent hostId agent id, connects := k.connects + 1 }
              with decided := s.decided ++ [(id, agent)] }
    | _ => s
  | _ => s.setClient c { k with pc := .returned }

/-- `handle_client` inside a `Connect`. -/
def clientStep (s : Server) (c : ConnId) : Server :=
  let k := s.clients c
  match k.pc with
  | .gotAgent hostId agent id =>
    s.setClient c { k with pc := .gotTx agent id (s.state.agentControlTx hostId) }
  | .gotTx agent id tx =>
    let s' := match tx with
      | some t => s.pushControl t (tunnelReady id)
      | none => s
    s'.setClient c { k with pc := .announced agent id }
  | .announced agent id =>
    { s.setClient c { k with pc := .created agent id } with
      state := { s.state with relay := s.state.relay.createSession id } }
  | .created agent id =>
    s.setClient c { k with
      pc := .reading
      out := k.out ++
        [.ofMessage (CoordinatorMessage.connectOk id (relayMode agent)), hint agent id] }
  | _ => s

/-- The agent behind a control socket acts on a frame of its control channel. -/
def dial (s : Server) (c : ConnId) (i : ℕ) (l : LegId) : Server :=
  match (s.agents c).control[i]?.bind dispatch with
  | some (id, _) =>
    if (s.state.relay.legs l).pc = .unopened then
      { s with
        state := { s.state with relay := s.state.relay.legEvent (.opened l id true) }
        dialled := Function.update s.dialled l true }
    else s
  | none => s

def step (s : Server) : Event → Server
  | .agentOpen c =>
    if (s.agents c).pc = .unopened then s.setAgent c ⟨.reading, "", true, []⟩ else s
  | .agentFrame c m now => if (s.agents c).pc = .reading then s.onAgentFrame c m now else s
  | .agentEnd c =>
    if (s.agents c).pc = .reading then s.setAgent c { s.agents c with pc := .leaving } else s
  | .agentStep c => s.agentStep c
  | .agentCloseRx c =>
    if (s.agents c).pc = .unopened then s else s.setAgent c { s.agents c with rxOpen := false }
  | .clientOpen c =>
    if (s.clients c).pc = .unopened then s.setClient c ⟨.reading, [], 0⟩ else s
  | .clientFrame c m id => if (s.clients c).pc = .reading then s.onClientFrame c m id else s
  | .clientEnd c =>
    if (s.clients c).pc = .reading then s.setClient c { s.clients c with pc := .returned } else s
  | .clientStep c => s.clientStep c
  | .dial c i l => s.dial c i l
  | .leg e => { s with state := { s.state with relay := s.state.relay.legEvent e } }

/-! ### What a step can do -/

variable {s s' : Server} {e : Event} {c d : ConnId}

@[simp] theorem setAgent_state (a : AgentConn) : (s.setAgent c a).state = s.state := rfl
@[simp] theorem setAgent_clients (a : AgentConn) : (s.setAgent c a).clients = s.clients := rfl
@[simp] theorem setAgent_registrar (a : AgentConn) : (s.setAgent c a).registrar = s.registrar := rfl
@[simp] theorem setAgent_decided (a : AgentConn) : (s.setAgent c a).decided = s.decided := rfl
@[simp] theorem setAgent_dialled (a : AgentConn) : (s.setAgent c a).dialled = s.dialled := rfl
@[simp] theorem setClient_state (k : ClientConn) : (s.setClient c k).state = s.state := rfl
@[simp] theorem setClient_agents (k : ClientConn) : (s.setClient c k).agents = s.agents := rfl
@[simp] theorem setClient_registrar (k : ClientConn) :
    (s.setClient c k).registrar = s.registrar := rfl
@[simp] theorem setClient_decided (k : ClientConn) : (s.setClient c k).decided = s.decided := rfl
@[simp] theorem setClient_dialled (k : ClientConn) : (s.setClient c k).dialled = s.dialled := rfl

theorem setAgent_agents (a : AgentConn) :
    (s.setAgent c a).agents d = if d = c then a else s.agents d := by
  simp [setAgent, Function.update_apply]

theorem setClient_clients (k : ClientConn) :
    (s.setClient c k).clients d = if d = c then k else s.clients d := by
  simp [setClient, Function.update_apply]

theorem of_setClient {P : ClientConn → Prop} {k : ClientConn}
    (hs : s'.clients = (s.setClient c k).clients) (h : P (s.clients d)) (hk : d = c → P k) :
    P (s'.clients d) := by
  rw [hs, setClient_clients]
  split_ifs with hd
  · exact hk hd
  · exact h

theorem pushControl_eq (m : Message) : s.pushControl c m = s.setAgent c { s.agents c with
    control := (s.agents c).control ++ if (s.agents c).rxOpen then [m] else [] } := by
  unfold pushControl setAgent
  by_cases h : (s.agents c).rxOpen = true
  · simp [h]
  · have he : Function.update s.agents c (s.agents c) = s.agents := Function.update_eq_self ..
    dsimp only
    rw [if_neg h, if_neg h, List.append_nil]
    exact (congrArg (fun f => { s with agents := f }) he).symm

/-- Every way in which an event changes the coordinator, with the guard under which it does. -/
inductive Move (s : Server) : Event → Server → Prop
  | stutter {e : Event} : Move s e s
  | agentOpen {c : ConnId} (hpc : (s.agents c).pc = .unopened) :
      Move s (.agentOpen c) (s.setAgent c ⟨.reading, "", true, []⟩)
  | register {c : ConnId} {id token : String} {ip : Option String} {port : UInt16}
      {now : DateTime} (hpc : (s.agents c).pc = .reading) (ht : token = s.state.secret) :
      Move s (.agentFrame c (.text (.agent (.register id token ip port))) now)
        { s.setAgent c { s.agents c with pc := .replying id, hostId := id } with
          state := s.state.registerAgent id ip port now c
          registrar := Function.update s.registrar id (some c) }
  | reject {c : ConnId} {id token : String} {ip : Option String} {port : UInt16}
      {now : DateTime} (hpc : (s.agents c).pc = .reading) (ht : token ≠ s.state.secret) :
      Move s (.agentFrame c (.text (.agent (.register id token ip port))) now)
        (s.setAgent c { s.agents c with pc := .returned })
  | touch {c : ConnId} {id : String} {now : DateTime} (hpc : (s.agents c).pc = .reading) :
      Move s (.agentFrame c (.text (.agent (.heartbeat id))) now)
        { s with state := s.state.touchAgent id now }
  | leave {c : ConnId} {e : Event} (hpc : (s.agents c).pc = .reading)
      (he : e = .agentEnd c ∨ ∃ m now, e = .agentFrame c m now ∧ ∀ t, m ≠ .text t) :
      Move s e (s.setAgent c { s.agents c with pc := .leaving })
  | reply {c : ConnId} {id : String} (hpc : (s.agents c).pc = .replying id) :
      Move s (.agentStep c) (s.setAgent c { s.agents c with
        pc := .reading
        control := (s.agents c).control ++ if (s.agents c).rxOpen then
          [.ofMessage (CoordinatorMessage.registered id)] else [] })
  | returnEmpty {c : ConnId} (hpc : (s.agents c).pc = .leaving) (hid : (s.agents c).hostId = "") :
      Move s (.agentStep c) (s.setAgent c { s.agents c with pc := .returned })
  | unregister {c : ConnId} (hpc : (s.agents c).pc = .leaving) (hid : (s.agents c).hostId ≠ "") :
      Move s (.agentStep c) { s.setAgent c { s.agents c with pc := .returned } with
        state := s.state.unregisterAgent (s.agents c).hostId }
  | agentCloseRx {c : ConnId} (hpc : (s.agents c).pc ≠ .unopened) :
      Move s (.agentCloseRx c) (s.setAgent c { s.agents c with rxOpen := false })
  | clientOpen {c : ConnId} (hpc : (s.clients c).pc = .unopened) :
      Move s (.clientOpen c) (s.setClient c ⟨.reading, [], 0⟩)
  | refuse {c : ConnId} {hostId token : String} {id : Uuid} {reason : String}
      (hpc : (s.clients c).pc = .reading)
      (ht : token ≠ s.state.secret ∧ reason = "invalid token" ∨ token = s.state.secret ∧
        s.state.getAgent hostId = none ∧ reason = "host '" ++ hostId ++ "' not online") :
      Move s (.clientFrame c (.text (.client (.connect hostId token))) id) (s.refuse c reason)
  | connect {c : ConnId} {hostId token : String} {id : Uuid} {agent : AgentRecord}
      (hpc : (s.clients c).pc = .reading) (ht : token = s.state.secret)
      (ha : s.state.getAgent hostId = some agent) (hid : ∀ a, (id, a) ∉ s.decided) :
      Move s (.clientFrame c (.text (.client (.connect hostId token))) id)
        { s.setClient c { s.clients c with
            pc := .gotAgent hostId agent id, connects := (s.clients c).connects + 1 }
          with decided := s.decided ++ [(id, agent)] }
  | clientLeave {c : ConnId} {e : Event} (hpc : (s.clients c).pc = .reading)
      (he : e = .clientEnd c ∨ ∃ m id, e = .clientFrame c m id) :
      Move s e (s.setClient c { s.clients c with pc := .returned })
  | lookupTx {c : ConnId} {hostId : String} {agent : AgentRecord} {id : Uuid}
      (hpc : (s.clients c).pc = .gotAgent hostId agent id) :
      Move s (.clientStep c) (s.setClient c { s.clients c with
        pc := .gotTx agent id (s.state.agentControlTx hostId) })
  | announce {c : ConnId} {agent : AgentRecord} {id : Uuid} {t : ConnId}
      (hpc : (s.clients c).pc = .gotTx agent id (some t)) :
      Move s (.clientStep c) ((s.setAgent t { s.agents t with
        control := (s.agents t).control ++ if (s.agents t).rxOpen then [tunnelReady id] else [] })
        |>.setClient c { s.clients c with pc := .announced agent id })
  | skip {c : ConnId} {agent : AgentRecord} {id : Uuid}
      (hpc : (s.clients c).pc = .gotTx agent id none) :
      Move s (.clientStep c) (s.setClient c { s.clients c with pc := .announced agent id })
  | create {c : ConnId} {agent : AgentRecord} {id : Uuid}
      (hpc : (s.clients c).pc = .announced agent id) :
      Move s (.clientStep c) { s.setClient c { s.clients c with pc := .created agent id } with
        state := { s.state with relay := s.state.relay.createSession id } }
  | answer {c : ConnId} {agent : AgentRecord} {id : Uuid}
      (hpc : (s.clients c).pc = .created agent id) :
      Move s (.clientStep c) (s.setClient c { s.clients c with
        pc := .reading
        out := (s.clients c).out ++
          [.ofMessage (CoordinatorMessage.connectOk id (relayMode agent)), hint agent id] })
  | dial {c : ConnId} {i : ℕ} {l : LegId} {m : Message} {id : Uuid} {target : TunnelTarget}
      (hm : (s.agents c).control[i]? = some m) (hd : dispatch m = some (id, target))
      (hpc : (s.state.relay.legs l).pc = .unopened) :
      Move s (.dial c i l) { s with
        state := { s.state with relay := s.state.relay.legEvent (.opened l id true) }
        dialled := Function.update s.dialled l true }
  | leg {e : LegEvent} :
      Move s (.leg e) { s with state := { s.state with relay := s.state.relay.legEvent e } }

theorem onAgentFrame_move {m : Message} {now : DateTime} (hpc : (s.agents c).pc = .reading) :
    Move s (.agentFrame c m now) (s.onAgentFrame c m now) := by
  cases m with
  | text t =>
    cases t with
    | agent a =>
      cases a with
      | register id token ip port =>
        simp only [onAgentFrame, parseWsMessage]
        split_ifs with ht
        · exact .register hpc (AppState.verifyToken_iff.mp ht)
        · exact .reject hpc fun h => ht (AppState.verifyToken_iff.mpr h)
      | heartbeat id => exact .touch hpc
      | tunnelReady _ _ => exact .stutter
      | tunnelData _ _ _ => exact .stutter
      | tunnelClose _ _ => exact .stutter
    | client _ => exact .stutter
    | coordinator _ => exact .stutter
    | other _ => exact .stutter
  | binary _ => exact .leave hpc (.inr ⟨_, _, rfl, by simp⟩)
  | ping _ => exact .leave hpc (.inr ⟨_, _, rfl, by simp⟩)
  | pong _ => exact .leave hpc (.inr ⟨_, _, rfl, by simp⟩)
  | close => exact .leave hpc (.inr ⟨_, _, rfl, by simp⟩)

theorem agentStep_move (s : Server) (c : ConnId) : Move s (.agentStep c) (s.agentStep c) := by
  cases hpc : (s.agents c).pc with
  | replying id =>
    have := Move.reply hpc
    simpa [agentStep, hpc, pushControl_eq, setAgent] using this
  | leaving =>
    simp only [agentStep, hpc]
    split_ifs with hid
    · exact .returnEmpty hpc (by simpa using hid)
    · exact .unregister hpc (by simpa using hid)
  | unopened => simp only [agentStep, hpc]; exact .stutter
  | reading => simp only [agentStep, hpc]; exact .stutter
  | returned => simp only [agentStep, hpc]; exact .stutter

theorem onClientFrame_move {m : Message} {id : Uuid} (hpc : (s.clients c).pc = .reading) :
    Move s (.clientFrame c m id) (s.onClientFrame c m id) := by
  cases m with
  | text t =>
    cases t with
    | client k =>
      cases k with
      | connect hostId token =>
        simp only [onClientFrame, parseWsMessage, Bool.not_eq_true']
        by_cases ht : s.state.verifyToken token = false
        · rw [if_pos ht]
          exact .refuse hpc (.inl ⟨fun h => by simp [AppState.verifyToken_iff.mpr h] at ht, rfl⟩)
        · have ht' : token = s.state.secret := AppState.verifyToken_iff.mp (by simpa using ht)
          rw [if_neg ht]
          cases ha : s.state.getAgent hostId with
          | none => exact .refuse hpc (.inr ⟨ht', ha, rfl⟩)
          | some agent =>
            dsimp only
            split_ifs with hid
            · exact .stutter
            · exact .connect hpc ht' ha fun a hm => hid (List.mem_map.mpr ⟨_, hm, rfl⟩)
      | disconnect _ => exact .stutter
    | agent _ => exact .stutter
    | coordinator _ => exact .stutter
    | other _ => exact .stutter
  | binary _ => exact .clientLeave hpc (.inr ⟨_, _, rfl⟩)
  | ping _ => exact .clientLeave hpc (.inr ⟨_, _, rfl⟩)
  | pong _ => exact .clientLeave hpc (.inr ⟨_, _, rfl⟩)
  | close => exact .clientLeave hpc (.inr ⟨_, _, rfl⟩)

theorem clientStep_move (s : Server) (c : ConnId) : Move s (.clientStep c) (s.clientStep c) := by
  cases hpc : (s.clients c).pc with
  | gotAgent hostId agent id => simp only [clientStep, hpc]; exact .lookupTx hpc
  | gotTx agent id tx =>
    cases tx with
    | none => simp only [clientStep, hpc]; exact .skip hpc
    | some t => simp only [clientStep, hpc, pushControl_eq]; exact .announce hpc
  | announced agent id => simp only [clientStep, hpc]; exact .create hpc
  | created agent id => simp only [clientStep, hpc]; exact .answer hpc
  | unopened => simp only [clientStep, hpc]; exact .stutter
  | reading => simp only [clientStep, hpc]; exact .stutter
  | returned => simp only [clientStep, hpc]; exact .stutter

theorem dial_move (s : Server) (c : ConnId) (i : ℕ) (l : LegId) :
    Move s (.dial c i l) (s.dial c i l) := by
  unfold dial
  split
  · rename_i id target h
    obtain ⟨m, hm, hd⟩ := Option.bind_eq_some_iff.mp h
    split_ifs with hpc
    · exact .dial hm hd hpc
    · exact .stutter
  · exact .stutter

theorem step_move (s : Server) (e : Event) : Move s e (s.step e) := by
  cases e with
  | agentOpen c =>
    unfold step
    dsimp only
    split_ifs with h
    · exact .agentOpen h
    · exact .stutter
  | agentFrame c m now =>
    unfold step
    dsimp only
    split_ifs with h
    · exact onAgentFrame_move h
    · exact .stutter
  | agentEnd c =>
    unfold step
    dsimp only
    split_ifs with h
    · exact .leave h (.inl rfl)
    · exact .stutter
  | agentStep c => exact agentStep_move s c
  | agentCloseRx c =>
    unfold step
    dsimp only
    split_ifs with h
    · exact .stutter
    · exact .agentCloseRx h
  | clientOpen c =>
    unfold step
    dsimp only
    split_ifs with h
    · exact .clientOpen h
    · exact .stutter
  | clientFrame c m id =>
    unfold step
    dsimp only
    split_ifs with h
    · exact onClientFrame_move h
    · exact .stutter
  | clientEnd c =>
    unfold step
    dsimp only
    split_ifs with h
    · exact .clientLeave h (.inl rfl)
    · exact .stutter
  | clientStep c => exact clientStep_move s c
  | dial c i l => exact dial_move s c i l
  | leg e => exact .leg

theorem step_secret (s : Server) (e : Event) : (s.step e).state.secret = s.state.secret := by
  have hm := step_move s e
  generalize s.step e = s' at hm
  cases hm <;> simp [refuse]

/-- The tunnel side of the coordinator moves by the relay's own events. -/
theorem relay_step (s : Server) (e : Event) : ∃ es : List RelayEvent,
    (s.step e).state.relay = Transition.run Relay.step s.state.relay es := by
  have hm := step_move s e
  generalize s.step e = s' at hm
  cases hm with
  | @create c agent id _ => exact ⟨[.create id], rfl⟩
  | @dial c i l m id _ _ _ _ => exact ⟨[.leg (.opened l id true)], rfl⟩
  | @leg e => exact ⟨[.leg e], rfl⟩
  | _ => exact ⟨[], by simp [Server.refuse]⟩

/-- The relay of a run of the coordinator is the relay of a run of its own. -/
theorem relay_run (s : Server) (es : List Event) : ∃ es' : List RelayEvent,
    (Transition.run step s es).state.relay = Transition.run Relay.step s.state.relay es' :=
  Transition.run_project (fun s => s.state.relay) relay_step s es

end Server

end Urc
