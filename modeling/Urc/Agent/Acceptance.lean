import Urc.Agent.Coordinator
import Urc.Library.Run

/-! # The connected flag and the coordinator's answer

One agent against the coordinator. `is_connected` reads an atomic on another thread, so a store
of `run_loop` is a step of its own behind the await that leads to it, and a sample of
`status_loop` can fall between the two. Frames to the coordinator are in flight until its task
reads them; the frames that it accepts for the agent are read in their order.
-/

namespace Urc

/-- Where `run_loop` stands with the flag: without a connection, behind the `Register` of one with
the store ahead, behind that store, or behind the failed read or send with the store ahead. -/
inductive FlagPc
  | off
  | sent (c : ConnId)
  | up (c : ConnId)
  | ended
  deriving DecidableEq

/-- `connected` is the atomic, which follows the `connected` of the client. `received` counts the
control frames that the agent has read on its connection. -/
structure AgentLink where
  client : CoordinatorClient
  connected : Bool
  pc : FlagPc
  server : Server
  own : ConnId → Bool
  flight : ConnId → List Message
  received : ℕ

/-- `connect` carries the connection that the coordinator would accept; `coordinator` is a step of
another party of the coordinator, or of the tasks that it runs for this agent. -/
inductive LinkEvent
  | connect (ok : Bool) (detectedIp : Option String) (c : ConnId)
  | store
  | heartbeat (ok : Bool)
  | recv (task : TaskId)
  | recvEnd
  | locked
  | tunnelEnd (task : TaskId)
  | wake
  | deliver (c : ConnId) (now : DateTime)
  | coordinator (e : Event)
  | sample
  deriving DecidableEq

namespace AgentLink

open Transition

/-- An agent before its first connection, and a coordinator in any state. -/
def new (config : AgentConfig) (vncPort : UInt16) (server : Server) : AgentLink :=
  ⟨.new config vncPort, false, .off, server, fun _ => false, fun _ => [], 0⟩

def sends (s : AgentLink) (e : LoopEvent) : List Message :=
  (s.client.step e).sent.drop s.client.sent.length

/-- A connection attempt of `connect_once`, up to the store. -/
def connect (s : AgentLink) (ok : Bool) (detectedIp : Option String) (c : ConnId) : AgentLink :=
  let client := s.client.step (.connect ok detectedIp)
  match client.pc with
  | .reading =>
    if (s.server.agents c).pc = .unopened then
      { s with
        client := client
        pc := .sent c
        server := s.server.step (.agentOpen c)
        own := Function.update s.own c true
        flight := Function.update s.flight c (s.sends (.connect ok detectedIp))
        received := 0 }
    else s
  | .disabled => { s with client := client, connected := true }
  -- the store behind a failed attempt finds the flag down
  | _ => { s with client := client }

/-- The loop of `connect_once` on a connection. -/
def loop (s : AgentLink) (c : ConnId) (e : LoopEvent) : AgentLink :=
  let client := s.client.step e
  { s with
    client := client
    pc := if client.pc = .sleeping then .ended else s.pc
    flight := Function.update s.flight c (s.flight c ++ s.sends e) }

def recv (s : AgentLink) (c : ConnId) (task : TaskId) : AgentLink :=
  match (s.server.agents c).control[s.received]? with
  | some m => { s.loop c (.frame m task) with received := s.received + 1 }
  | none => s

/-- The oldest frame in flight reaches `handle_agent`. -/
def deliver (s : AgentLink) (c : ConnId) (now : DateTime) : AgentLink :=
  match s.flight c with
  | m :: rest =>
    if (s.server.agents c).pc = .reading then
      { s with
        server := s.server.step (.agentFrame c m now)
        flight := Function.update s.flight c rest }
    else s
  | [] => s

/-- What the coordinator reads on the connections of this agent is what this agent sent. -/
def Foreign (s : AgentLink) : Event → Prop
  | .agentOpen c => s.own c = false
  | .agentFrame c _ _ => s.own c = false
  | _ => True

instance (s : AgentLink) : (e : Event) → Decidable (s.Foreign e)
  | .agentOpen c => inferInstanceAs (Decidable (s.own c = false))
  | .agentFrame c _ _ => inferInstanceAs (Decidable (s.own c = false))
  | .agentEnd _ | .agentStep _ | .agentCloseRx _ | .clientOpen _ | .clientFrame .. | .clientEnd _
  | .clientStep _ | .dial .. | .leg _ => .isTrue trivial

def step (s : AgentLink) : LinkEvent → AgentLink
  | .connect ok ip c =>
    if s.pc = .off ∧ s.client.pc = .connecting then s.connect ok ip c else s
  | .store =>
    match s.pc with
    | .sent c => { s with connected := true, pc := .up c }
    | .ended => { s with connected := false, pc := .off }
    | _ => s
  | .heartbeat ok => match s.pc with
    | .up c => s.loop c (.heartbeat ok)
    | _ => s
  | .recv task => match s.pc with
    | .up c => s.recv c task
    | _ => s
  | .recvEnd => match s.pc with
    | .up c => s.loop c .recvEnd
    | _ => s
  | .locked => match s.pc with
    | .up c => s.loop c .locked
    | _ => s
  | .tunnelEnd task => { s with client := s.client.step (.tunnelEnd task) }
  | .wake => if s.pc = .off then { s with client := s.client.step .wake } else s
  | .deliver c now => if s.own c then s.deliver c now else s
  | .coordinator e => if s.Foreign e then { s with server := s.server.step e } else s
  | .sample => s

/-- `is_connected`. -/
def isConnected (s : AgentLink) : Bool := s.connected

/-- The WebSocket that `connect_once` holds, until it fails to read or to send. -/
def socket (s : AgentLink) : Option ConnId :=
  match s.pc with
  | .sent c | .up c => some c
  | .off | .ended => none

def token (s : AgentLink) : String := s.client.config.token.getD ""

/-- The coordinator has sent `Registered` for a host on a connection. -/
def Answered (s : AgentLink) (c : ConnId) (hostId : String) : Prop :=
  .ofMessage (CoordinatorMessage.registered hostId) ∈ (s.server.agents c).control

/-- A flag that is up stands for an open WebSocket on which the coordinator has accepted the
`Register` of this agent: the token was valid, and `Registered` was sent back. -/
def Truthful (s : AgentLink) : Prop :=
  s.isConnected = true → trim s.client.config.coordinatorUrl ≠ "" →
    ∃ c, s.socket = some c ∧ s.token = s.server.state.secret ∧ s.Answered c s.client.hostId

/-- `run_loop` is not ahead of the coordinator's answer: behind its `Register` the coordinator has
answered on that connection, and no end of a connection waits for its store. -/
def Settled (s : AgentLink) : Prop :=
  trim s.client.config.coordinatorUrl ≠ "" →
    match s.pc with
    | .up c => ∃ hostId, s.Answered c hostId
    | .ended => False
    | .off | .sent _ => True

/-- Every sample of `status_loop` finds a property. -/
def Sampled (P : AgentLink → Prop) (s : AgentLink) : LinkEvent → Prop
  | .sample => P s
  | _ => True

end AgentLink

/-! ### What the client sends -/

namespace CoordinatorClient

variable {s : CoordinatorClient} {e : LoopEvent} {m : Message}

/-- The frames that `connect_once` sends: `Register` and heartbeats. -/
def Says (s : CoordinatorClient) (m : Message) : Prop :=
  (∃ ip port, m = .ofMessage
    (AgentMessage.register s.hostId (s.config.token.getD "") ip port)) ∨
  m = .ofMessage (AgentMessage.heartbeat s.hostId)

/-- What an event leaves of the client: its settings, and a history that grows by its own frames.
Only a connection attempt turns the connection off. -/
structure Later (s : CoordinatorClient) (e : LoopEvent) (s' : CoordinatorClient) : Prop where
  config : s'.config = s.config
  sent : ∃ ms, s'.sent = s.sent ++ ms ∧ ∀ m ∈ ms, s.Says m
  disabled : s'.pc = .disabled → s.pc = .disabled ∨
    trim s.config.coordinatorUrl = "" ∧ ∃ ok ip, e = .connect ok ip

theorem later_refl (s : CoordinatorClient) (e : LoopEvent) : s.Later e s :=
  ⟨rfl, ⟨[], by simp⟩, .inl⟩

theorem later_of_silent {s' : CoordinatorClient} (hc : s'.config = s.config)
    (hs : s'.sent = s.sent) (hpc : s'.pc = .disabled → s.pc = .disabled) : s.Later e s' :=
  ⟨hc, ⟨[], by simp [hs]⟩, fun h => .inl (hpc h)⟩

theorem disconnect_later (s : CoordinatorClient) (e : LoopEvent) : s.Later e s.disconnect :=
  later_of_silent rfl rfl fun h => by cases h

theorem connectOnce_later (ok : Bool) (ip : Option String) :
    s.Later (.connect ok ip) (s.connectOnce ok ip) := by
  unfold connectOnce
  by_cases hurl : trim s.config.coordinatorUrl = ""
  · rw [if_pos hurl]
    exact ⟨rfl, ⟨[], by simp⟩, fun _ => .inr ⟨hurl, ok, ip, rfl⟩⟩
  rw [if_neg hurl]
  cases ok with
  | true =>
    refine ⟨rfl, ⟨[_], rfl, fun m hm => .inl ⟨_, _, by simpa using hm⟩⟩, fun h => ?_⟩
    cases h
  | false => exact s.disconnect_later _

theorem onFrame_later (task : TaskId) : s.Later e (s.onFrame m task) := by
  unfold onFrame
  split
  · split
    · split_ifs with htask
      · exact later_of_silent rfl rfl fun h => by cases h
      · exact s.later_refl e
    · exact s.later_refl e
  · exact s.disconnect_later e

theorem tunnelEnd_later (task : TaskId) : s.Later e (s.tunnelEnd task) := by
  unfold tunnelEnd
  split
  · split_ifs with hrun
    · exact later_of_silent rfl rfl id
    · exact s.later_refl e
  · exact s.later_refl e

theorem step_later (s : CoordinatorClient) (e : LoopEvent) : s.Later e (s.step e) := by
  cases e with
  | connect ok ip =>
    unfold step
    dsimp only
    split_ifs with hpc
    · exact connectOnce_later ok ip
    · exact s.later_refl _
  | heartbeat ok =>
    unfold step
    dsimp only
    split_ifs with hpc hok
    · exact ⟨rfl, ⟨[_], rfl, fun m hm => .inr (by simpa using hm)⟩, .inl⟩
    · exact s.disconnect_later _
    · exact s.later_refl _
  | frame m task =>
    unfold step
    dsimp only
    split_ifs with hpc
    · exact onFrame_later task
    · exact s.later_refl _
  | recvEnd =>
    unfold step
    dsimp only
    split_ifs with hpc
    · exact s.disconnect_later _
    · exact s.later_refl _
  | locked =>
    unfold step
    dsimp only
    split
    · split
      · exact later_of_silent rfl rfl fun h => by cases h
      · exact s.later_refl _
    · exact s.later_refl _
  | tunnelEnd task => exact tunnelEnd_later task
  | abortAllTunnels => exact later_of_silent rfl rfl id
  | abort => exact later_of_silent rfl rfl fun h => by cases h
  | wake =>
    unfold step
    dsimp only
    split_ifs with hpc
    · exact later_of_silent rfl rfl fun h => by cases h
    · exact s.later_refl _

theorem Later.says_iff {s' : CoordinatorClient} (h : s.Later e s') : s'.Says m ↔ s.Says m := by
  unfold Says hostId
  rw [h.config]

end CoordinatorClient

/-! ### What the coordinator answers -/

namespace Server

variable {s s' : Server} {e : Event} {c : ConnId} {hostId : String}

/-- A `Register` is about to be answered only behind the frame that holds it and the secret. -/
theorem replying_of_step (h : ((s.step e).agents c).pc = .replying hostId) :
    (s.agents c).pc = .replying hostId ∨ ∃ token ip port now, token = s.state.secret ∧
      e = .agentFrame c (.text (.agent (.register hostId token ip port))) now := by
  have hm := step_move s e
  generalize s.step e = s' at hm h
  cases hm with
  | @agentOpen d hpc =>
    rw [setAgent_agents] at h
    split_ifs at h with hd
    exact .inl h
  | @register d id token ip port now hpc ht =>
    simp only [setAgent_agents] at h
    split_ifs at h with hd
    · obtain rfl : id = hostId := by simpa using h
      exact .inr ⟨token, ip, port, now, ht, by rw [hd]⟩
    · exact .inl h
  | reject | leave | reply | returnEmpty | unregister =>
    simp only [setAgent_agents] at h
    split_ifs at h with hd
    exact .inl h
  | agentCloseRx =>
    simp only [setAgent_agents] at h
    split_ifs at h with hd
    · exact .inl (by rw [hd]; exact h)
    · exact .inl h
  | announce =>
    simp only [setClient_agents, setAgent_agents] at h
    split_ifs at h with hd hrx
    · exact .inl (by rw [hd]; exact h)
    · exact .inl (by rw [hd]; exact h)
    · exact .inl h
  | _ => exact .inl h

/-- `Registered` is sent where a `Register` was about to be answered. -/
theorem answered_of_step
    (h : .ofMessage (CoordinatorMessage.registered hostId) ∈ ((s.step e).agents c).control) :
    .ofMessage (CoordinatorMessage.registered hostId) ∈ (s.agents c).control ∨
      (s.agents c).pc = .replying hostId := by
  have hm := step_move s e
  generalize s.step e = s' at hm h
  cases hm with
  | agentOpen =>
    rw [setAgent_agents] at h
    split_ifs at h with hd
    · cases h
    · exact .inl h
  | register | reject | leave | returnEmpty | unregister | agentCloseRx =>
    simp only [setAgent_agents] at h
    split_ifs at h with hd
    · exact .inl (by rw [hd]; exact h)
    · exact .inl h
  | @reply d id hpc =>
    rw [setAgent_agents] at h
    split_ifs at h with hd hrx
    · rcases List.mem_append.mp h with h | h
      · exact .inl (by rw [hd]; exact h)
      · obtain rfl : hostId = id := by simpa [Message.ofMessage, toWsMessage] using h
        exact .inr (by rw [hd]; exact hpc)
    · exact .inl (by rw [hd]; simpa using h)
    · exact .inl h
  | announce =>
    simp only [setClient_agents, setAgent_agents] at h
    split_ifs at h with hd hrx
    · rcases List.mem_append.mp h with h | h
      · exact .inl (by rw [hd]; exact h)
      · simp [tunnelReady, Message.ofMessage, toWsMessage] at h
    · exact .inl (by rw [hd]; simpa using h)
    · exact .inl h
  | _ => exact .inl h

end Server

namespace AgentLink

open Transition

variable {s : AgentLink} {e : LinkEvent} {c : ConnId} {m : Message}

/-- What the coordinator may answer on a connection of this agent is what its frames allow. -/
structure Registering (s : AgentLink) (c : ConnId) : Prop where
  flight : ∀ m ∈ s.flight c, s.client.Says m
  replying : ∀ hostId, (s.server.agents c).pc = .replying hostId →
    s.token = s.server.state.secret ∧ hostId = s.client.hostId
  answered : ∀ hostId, s.Answered c hostId →
    s.token = s.server.state.secret ∧ hostId = s.client.hostId

/-- The flag follows the program counter, and the answers on the agent's connections are to its
own `Register`. -/
structure Followed (s : AgentLink) : Prop where
  flag : s.connected = true ↔ s.client.pc = .disabled ∨ s.pc = .ended ∨ ∃ c, s.pc = .up c
  disabled : s.client.pc = .disabled → trim s.client.config.coordinatorUrl = ""
  attached : s.client.pc = .disabled → s.pc = .off
  owned : ∀ c, s.pc = .sent c ∨ s.pc = .up c → s.own c = true
  registering : ∀ c, s.own c = true → s.Registering c

theorem followed_new (config : AgentConfig) (vncPort : UInt16) (server : Server) :
    (new config vncPort server).Followed where
  flag := by simp [new, CoordinatorClient.new]
  disabled := by simp [new, CoordinatorClient.new]
  attached := by simp [new, CoordinatorClient.new]
  owned := by simp [new]
  registering := by simp [new]

theorem says_of_mem_sends {e : LoopEvent} (h : m ∈ s.sends e) : s.client.Says m := by
  obtain ⟨ms, hms, hsays⟩ := (s.client.step_later e).sent
  rw [sends, hms, List.drop_left] at h
  exact hsays m h

theorem registering_of_fresh (hs : s.server.agents c = ⟨.reading, "", true, []⟩)
    (hf : ∀ m ∈ s.flight c, s.client.Says m) : s.Registering c where
  flight := hf
  replying := by simp [hs]
  answered := by simp [Answered, hs]

theorem Registering.of_client {s' : AgentLink} (h : s.Registering c)
    (hc : s'.client.config = s.client.config) (hs : s'.server = s.server)
    (hf : ∀ m ∈ s'.flight c, s'.client.Says m) : s'.Registering c := by
  have ht : s'.token = s.token := by rw [token, token, hc]
  have hid : s'.client.hostId = s.client.hostId := by
    rw [CoordinatorClient.hostId, CoordinatorClient.hostId, hc]
  constructor
  · exact hf
  · rw [hs, ht, hid]
    exact h.replying
  · intro hostId ha
    rw [Answered, hs] at ha
    rw [hs, ht, hid]
    exact h.answered hostId ha

theorem Registering.server_step {e : Event} (h : s.Registering c)
    (he : ∀ m now, e = .agentFrame c m now → s.client.Says m) :
    { s with server := s.server.step e }.Registering c := by
  have hsecret : (s.server.step e).state.secret = s.server.state.secret := s.server.step_secret e
  constructor
  · exact h.flight
  · intro hostId hpc
    change s.token = (s.server.step e).state.secret ∧ hostId = s.client.hostId
    rw [hsecret]
    rcases Server.replying_of_step hpc with hold | ⟨token, ip, port, now, ht, rfl⟩
    · exact h.replying hostId hold
    · rcases he _ _ rfl with ⟨ip', port', hm⟩ | hm
      · simp only [Message.ofMessage, toWsMessage, Message.text.injEq, WsText.agent.injEq,
          AgentMessage.register.injEq] at hm
        exact ⟨hm.2.1.symm.trans ht, hm.1⟩
      · simp [Message.ofMessage, toWsMessage] at hm
  · intro hostId ha
    change s.token = (s.server.step e).state.secret ∧ hostId = s.client.hostId
    rw [hsecret]
    rcases Server.answered_of_step ha with hold | hpc
    · exact h.answered hostId hold
    · exact h.replying hostId hpc

theorem Followed.client_step {e : LoopEvent} (h : s.Followed)
    (hpc : (s.client.step e).pc = .disabled ↔ s.client.pc = .disabled) :
    { s with client := s.client.step e }.Followed where
  flag := by
    change s.connected = true ↔ (s.client.step e).pc = .disabled ∨ _
    rw [hpc]
    exact h.flag
  disabled := by
    intro hd
    change trim (s.client.step e).config.coordinatorUrl = ""
    rw [(s.client.step_later e).config]
    exact h.disabled (hpc.mp hd)
  attached := fun hd => h.attached (hpc.mp hd)
  owned := h.owned
  registering := by
    intro c hc
    refine (h.registering c hc).of_client (s.client.step_later e).config rfl fun m hm => ?_
    exact (s.client.step_later e).says_iff.mpr ((h.registering c hc).flight m hm)

theorem Followed.loop {e : LoopEvent} (h : s.Followed) (hpc : s.pc = .up c)
    (he : ∀ ok ip, e ≠ .connect ok ip) : (s.loop c e).Followed := by
  have hl := s.client.step_later e
  have hd : (s.client.step e).pc ≠ .disabled := by
    intro hd
    rcases hl.disabled hd with hold | ⟨-, ok, ip, hcon⟩
    · have hoff := h.attached hold
      rw [hpc] at hoff
      cases hoff
    · exact he ok ip hcon
  have hpc' : (s.loop c e).pc = .ended ∨ (s.loop c e).pc = .up c := by
    unfold AgentLink.loop
    dsimp only
    split_ifs with hsleep
    · exact .inl rfl
    · exact .inr hpc
  constructor
  · have hup : s.connected = true := h.flag.mpr (.inr (.inr ⟨c, hpc⟩))
    exact iff_of_true hup (.inr (hpc'.imp id fun hc => ⟨c, hc⟩))
  · exact fun hd' => absurd hd' hd
  · exact fun hd' => absurd hd' hd
  · intro d hdc
    apply h.owned d
    rcases hpc' with hend | hup
    · simp [hend] at hdc
    · rwa [hup, ← hpc] at hdc
  · intro d hown
    have hr := h.registering d hown
    refine hr.of_client hl.config rfl fun m hm => hl.says_iff.mpr ?_
    change m ∈ Function.update s.flight c (s.flight c ++ s.sends e) d at hm
    rw [Function.update_apply] at hm
    split_ifs at hm with hdc
    · rcases List.mem_append.mp hm with hm | hm
      · exact (h.registering c (hdc ▸ hown)).flight m hm
      · exact says_of_mem_sends hm
    · exact hr.flight m hm

theorem Followed.recv (h : s.Followed) (hpc : s.pc = .up c) (task : TaskId) :
    (s.recv c task).Followed := by
  unfold AgentLink.recv
  split
  · rename_i m _
    have hl := h.loop hpc (e := .frame m task) fun ok ip he => by cases he
    refine ⟨hl.flag, hl.disabled, hl.attached, hl.owned, fun d hd => ?_⟩
    have hr := hl.registering d hd
    exact ⟨hr.flight, hr.replying, hr.answered⟩
  · exact h

theorem Followed.connect (h : s.Followed) (hoff : s.pc = .off) (hpc : s.client.pc = .connecting)
    (ok : Bool) (ip : Option String) : (s.connect ok ip c).Followed := by
  have hl := s.client.step_later (.connect ok ip)
  have hdown : s.connected = false := by
    have hnot : ¬ (s.client.pc = .disabled ∨ s.pc = .ended ∨ ∃ c, s.pc = .up c) := by
      simp [hpc, hoff]
    exact Bool.eq_false_of_not_eq_true fun hc => hnot (h.flag.mp hc)
  have hkeep : ∀ d, s.own d = true →
      ∀ m ∈ s.flight d, (s.client.step (.connect ok ip)).Says m := fun d hd m hm =>
    hl.says_iff.mpr ((h.registering d hd).flight m hm)
  unfold AgentLink.connect
  dsimp only
  split
  · rename_i hreading
    split_ifs with hfresh
    · constructor
      · simp [hdown, hreading]
      · intro hd
        rw [hreading] at hd
        cases hd
      · intro hd
        rw [hreading] at hd
        cases hd
      · intro d hd
        have : c = d := by simpa using hd
        simp [this]
      · intro d hd
        by_cases hdc : d = c
        · subst hdc
          refine registering_of_fresh ?_ fun m hm => ?_
          · simp [Server.step, hfresh, Server.setAgent_agents]
          · exact hl.says_iff.mpr (says_of_mem_sends (by simpa using hm))
        · have hown : s.own d = true := by simpa [hdc] using hd
          have hr := (h.registering d hown).server_step (e := .agentOpen c) fun m now he => by
            cases he
          refine hr.of_client hl.config rfl fun m hm => hkeep d hown m ?_
          simpa [hdc] using hm
    · exact h
  · rename_i hdis
    refine ⟨by simp [hdis], ?_, fun _ => hoff, h.owned, fun d hd => ?_⟩
    · intro hd
      rw [hl.config]
      rcases hl.disabled hdis with hold | ⟨hurl, -⟩
      · exact h.disabled hold
      · exact hurl
    · exact (h.registering d hd).of_client hl.config rfl (hkeep d hd)
  · rename_i hne hnd
    refine ⟨?_, fun hd => absurd hd hnd, fun hd => absurd hd hnd, h.owned, fun d hd => ?_⟩
    · exact iff_of_false (by simp [hdown]) (by simpa [hoff] using hnd)
    · exact (h.registering d hd).of_client hl.config rfl (hkeep d hd)

theorem Followed.server_step {e : Event} (h : s.Followed) (flight : ConnId → List Message)
    (hf : ∀ c, ∀ m ∈ flight c, m ∈ s.flight c)
    (he : ∀ c m now, e = .agentFrame c m now → s.own c = true → s.client.Says m) :
    { s with server := s.server.step e, flight := flight }.Followed := by
  refine ⟨h.flag, h.disabled, h.attached, h.owned, fun c hc => ?_⟩
  have hr := (h.registering c hc).server_step fun m now hm => he c m now hm hc
  exact hr.of_client rfl rfl fun m hm => (h.registering c hc).flight m (hf c m hm)

theorem Followed.deliver (h : s.Followed) (hown : s.own c = true) (now : DateTime) :
    (s.deliver c now).Followed := by
  unfold AgentLink.deliver
  split
  · rename_i m rest hfl
    split_ifs with hpc
    · apply h.server_step
      · intro d m' hm'
        rw [Function.update_apply] at hm'
        split_ifs at hm' with hd
        · rw [hd, hfl]
          exact List.mem_cons_of_mem m hm'
        · exact hm'
      · intro d m' now' he _
        obtain ⟨rfl, rfl, rfl⟩ : c = d ∧ m = m' ∧ now = now' := by simpa using he
        exact (h.registering c hown).flight m (by simp [hfl])
    · exact h
  · exact h

theorem Followed.store (h : s.Followed) : (s.step .store).Followed := by
  unfold AgentLink.step
  dsimp only
  split
  · rename_i c hpc
    have hd : s.client.pc ≠ .disabled := fun hd => by simpa [hpc] using h.attached hd
    refine ⟨by simp, h.disabled, fun hd' => absurd hd' hd, fun d hdc => ?_, fun d hd => ?_⟩
    · exact h.owned d (.inl (by simpa [hpc] using hdc))
    · exact (h.registering d hd).of_client rfl rfl (h.registering d hd).flight
  · rename_i hpc
    have hd : s.client.pc ≠ .disabled := fun hd => by simpa [hpc] using h.attached hd
    refine ⟨by simpa using hd, h.disabled, fun _ => rfl, by simp, fun d hd => ?_⟩
    exact (h.registering d hd).of_client rfl rfl (h.registering d hd).flight
  · exact h

theorem Followed.tunnelEnd (h : s.Followed) (task : TaskId) :
    (s.step (.tunnelEnd task)).Followed := by
  apply h.client_step
  simp only [CoordinatorClient.step, CoordinatorClient.tunnelEnd]
  split
  · split_ifs <;> rfl
  · rfl

theorem Followed.wake (h : s.Followed) : (s.step .wake).Followed := by
  unfold AgentLink.step
  dsimp only
  split_ifs with hpc
  · apply h.client_step
    unfold CoordinatorClient.step
    dsimp only
    split_ifs with hsleep
    · simp [hsleep]
    · rfl
  · exact h

theorem Followed.coordinator (h : s.Followed) (e : Event) :
    (s.step (.coordinator e)).Followed := by
  unfold AgentLink.step
  dsimp only
  split_ifs with hf
  · apply h.server_step s.flight fun _ _ hm => hm
    rintro c m now rfl hown
    have hforeign : s.own c = false := hf
    rw [hown] at hforeign
    cases hforeign
  · exact h

theorem Followed.step (h : s.Followed) (e : LinkEvent) : (s.step e).Followed := by
  cases e with
  | connect ok ip c =>
    unfold AgentLink.step
    dsimp only
    split_ifs with hpc
    · exact h.connect hpc.1 hpc.2 ok ip
    · exact h
  | store => exact h.store
  | heartbeat ok =>
    unfold AgentLink.step
    dsimp only
    split
    · next c hpc => exact h.loop hpc fun ok ip he => by cases he
    · exact h
  | recv task =>
    unfold AgentLink.step
    dsimp only
    split
    · next c hpc => exact h.recv hpc task
    · exact h
  | recvEnd | locked =>
    unfold AgentLink.step
    dsimp only
    split
    · next c hpc => exact h.loop hpc fun ok ip he => by cases he
    · exact h
  | tunnelEnd task => exact h.tunnelEnd task
  | wake => exact h.wake
  | deliver c now =>
    unfold AgentLink.step
    dsimp only
    split_ifs with hown
    · exact h.deliver hown now
    · exact h
  | coordinator e => exact h.coordinator e
  | sample => exact h

/-- A sample tells the truth exactly when the coordinator's answer is behind it. -/
theorem Followed.truthful_iff (h : s.Followed) : s.Truthful ↔ s.Settled := by
  unfold Truthful Settled isConnected
  constructor
  · intro ht hurl
    cases hpc : s.pc with
    | up c =>
      have hup : s.connected = true := h.flag.mpr (.inr (.inr ⟨c, hpc⟩))
      obtain ⟨d, hd, -, ha⟩ := ht hup hurl
      obtain rfl : c = d := by simpa [socket, hpc] using hd
      exact ⟨_, ha⟩
    | ended =>
      have hup : s.connected = true := h.flag.mpr (.inr (.inl hpc))
      obtain ⟨d, hd, -⟩ := ht hup hurl
      simp [socket, hpc] at hd
    | off => trivial
    | sent c => trivial
  · intro hs hup hurl
    have hs' := hs hurl
    rcases h.flag.mp hup with hd | hpc | ⟨c, hpc⟩
    · exact absurd (h.disabled hd) hurl
    · simp [hpc] at hs'
    · simp only [hpc] at hs'
      obtain ⟨hostId, ha⟩ := hs'
      have hown := h.owned c (.inr hpc)
      obtain ⟨ht, rfl⟩ := (h.registering c hown).answered hostId ha
      exact ⟨c, by simp [socket, hpc], ht, ha⟩

/-- Along every run, the samples of the flag tell the truth exactly when none of them falls between
a `Register` and its answer, or between the end of a connection and the store behind it. -/
theorem connected_accepted_iff (config : AgentConfig) (vncPort : UInt16) (server : Server)
    (es : List LinkEvent) :
    Steps step (Sampled Truthful) (new config vncPort server) es ↔
      Steps step (Sampled Settled) (new config vncPort server) es := by
  refine steps_congr (fun s e hs => hs.step e) (fun s e hs => ?_)
    (followed_new config vncPort server)
  cases e with
  | sample => exact hs.truthful_iff
  | _ => rfl

/-- A rejected agent is reported connected until it notices the end of its connection. -/
theorem rejected_connected : ¬ ∀ (config : AgentConfig) (vncPort : UInt16) (server : Server)
    (es : List LinkEvent), Steps step (Sampled Truthful) (new config vncPort server) es := by
  intro h
  have hs := h { AgentConfig.default with token := some "old" } 5900 (.new "new")
    [.connect true none 0, .store, .deliver 0 0, .sample]
  obtain ⟨-, -, -, hs, -⟩ := hs
  obtain ⟨c, -, ht, -⟩ := hs (by decide +kernel) (by decide +kernel)
  revert ht
  decide +kernel

end AgentLink

end Urc
