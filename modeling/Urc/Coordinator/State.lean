import Urc.Coordinator.Relay

/-! # Coordinator state

The registry of online agents, keyed by host id, and the shared secret. Each method
takes the lock once, so it is one atomic function of the state.
-/

namespace Urc

/-- A control socket; an agent's also names the control channel that `handle_agent` makes for it. -/
abbrev ConnId := ℕ

abbrev DateTime := ℤ

structure AgentRecord where
  hostId : String
  tailscaleIp : Option String
  vncLocalPort : UInt16
  lastSeen : DateTime
  controlTx : ConnId
  deriving DecidableEq

structure HostSummary where
  hostId : String
  tailscaleIp : Option String
  online : Bool
  deriving DecidableEq

structure AppState where
  secret : String
  agents : HashMap String AgentRecord
  relay : Relay

namespace AppState

def new (secret : String) : AppState := ⟨secret, ∅, .new⟩

-- the second disjunct only repeats the first, with the guard the first lacks
def verifyToken (s : AppState) (token : String) : Bool :=
  token == s.secret || (!s.secret.isEmpty && token == s.secret)

def registerAgent (s : AppState) (hostId : String) (tailscaleIp : Option String)
    (vncLocalPort : UInt16) (now : DateTime) (controlTx : ConnId) : AppState :=
  { s with agents := s.agents.insert hostId ⟨hostId, tailscaleIp, vncLocalPort, now, controlTx⟩ }

def touchAgent (s : AppState) (hostId : String) (now : DateTime) : AppState :=
  match s.agents.lookup hostId with
  | some a => { s with agents := s.agents.insert hostId { a with lastSeen := now } }
  | none => s

def unregisterAgent (s : AppState) (hostId : String) : AppState :=
  { s with agents := s.agents.erase hostId }

def getAgent (s : AppState) (hostId : String) : Option AgentRecord := s.agents.lookup hostId

def agentControlTx (s : AppState) (hostId : String) : Option ConnId :=
  (s.agents.lookup hostId).map (·.controlTx)

def listHosts (s : AppState) : List HostSummary :=
  s.agents.entries.map fun e => ⟨e.2.hostId, e.2.tailscaleIp, true⟩

variable {s : AppState} {h k : String} {ip : Option String} {port : UInt16} {now : DateTime}
  {c : ConnId} {token : String}

theorem verifyToken_iff : s.verifyToken token = true ↔ token = s.secret := by
  simp [verifyToken]

theorem getAgent_registerAgent : (s.registerAgent h ip port now c).getAgent k =
    if k = h then some ⟨h, ip, port, now, c⟩ else s.getAgent k := by
  unfold getAgent registerAgent
  split_ifs with he
  · rw [he, AList.lookup_insert]
  · exact AList.lookup_insert_ne he

theorem getAgent_touchAgent : (s.touchAgent h now).getAgent k =
    if k = h then (s.getAgent h).map ({ · with lastSeen := now }) else s.getAgent k := by
  unfold getAgent touchAgent
  split_ifs with he
  · subst he
    split <;> simp_all
  · split
    · exact AList.lookup_insert_ne he
    · rfl

theorem getAgent_unregisterAgent : (s.unregisterAgent h).getAgent k =
    if k = h then none else s.getAgent k := by
  unfold getAgent unregisterAgent
  split_ifs with he
  · rw [he, AList.lookup_erase]
  · exact AList.lookup_erase_ne he

@[simp] theorem registerAgent_relay : (s.registerAgent h ip port now c).relay = s.relay := rfl
@[simp] theorem unregisterAgent_relay : (s.unregisterAgent h).relay = s.relay := rfl
@[simp] theorem touchAgent_relay : (s.touchAgent h now).relay = s.relay := by
  unfold touchAgent; split <;> rfl
@[simp] theorem registerAgent_secret : (s.registerAgent h ip port now c).secret = s.secret := rfl
@[simp] theorem unregisterAgent_secret : (s.unregisterAgent h).secret = s.secret := rfl
@[simp] theorem touchAgent_secret : (s.touchAgent h now).secret = s.secret := by
  unfold touchAgent; split <;> rfl

theorem agentControlTx_eq : s.agentControlTx h = (s.getAgent h).map (·.controlTx) := rfl

theorem mem_listHosts {x : HostSummary} : x ∈ s.listHosts ↔
    ∃ k a, s.getAgent k = some a ∧ x = ⟨a.hostId, a.tailscaleIp, true⟩ := by
  simp only [listHosts, List.mem_map]
  constructor
  · rintro ⟨⟨k, a⟩, he, rfl⟩
    exact ⟨k, a, AList.mem_lookup_iff.mpr he, rfl⟩
  · rintro ⟨k, a, ha, rfl⟩
    exact ⟨⟨k, a⟩, AList.mem_lookup_iff.mp ha, rfl⟩

end AppState

end Urc
