import Urc.Common.Config
import Urc.Common.Text
import Urc.Coordinator.Server

/-! # The agent's side of the coordinator connection

`run_loop` keeps one control connection and a table of tunnel tasks. A task is spawned before
its handle is in the table, and takes itself out of the table when it ends; both wait for the
same lock, so either can come first. An event lets one party run to its next await.
-/

namespace Urc

/-- A spawned task; its `JoinHandle` names it. -/
abbrev TaskId := ℕ

structure TunnelTask where
  sessionId : Uuid
  localPort : UInt16
  running : Bool
  deriving DecidableEq

/-- Where `run_loop` stands: before the connection is made, at `select!`, at the lock of the
table with a task just spawned, in the endless sleep without a coordinator, in the pause before
a retry, or nowhere after `coord_handle.abort()`. -/
inductive LoopPc
  | connecting
  | reading
  | inserting (task : TaskId)
  | disabled
  | sleeping
  | aborted
  deriving DecidableEq

/-- `sent` is the history of the frames sent to the coordinator. -/
structure CoordinatorClient where
  config : AgentConfig
  vncPort : UInt16
  activeTunnels : HashMap Uuid TaskId
  connected : Bool
  pc : LoopPc
  tasks : TaskId → Option TunnelTask
  sent : List Message

/-- `connect` and `heartbeat` say whether the network accepts; `frame` carries the handle that
`tokio::spawn` would give. -/
inductive LoopEvent
  | connect (ok : Bool) (detectedIp : Option String)
  | heartbeat (ok : Bool)
  | frame (m : Message) (task : TaskId)
  | recvEnd
  | locked
  | tunnelEnd (task : TaskId)
  | abortAllTunnels
  | abort
  | wake
  deriving DecidableEq

namespace CoordinatorClient

def new (config : AgentConfig) (vncPort : UInt16) : CoordinatorClient :=
  ⟨config, vncPort, ∅, false, .connecting, fun _ => none, []⟩

def hostId (s : CoordinatorClient) : String := s.config.hostId.getD "unknown"

/-- `connect_once` fails: `run_loop` pauses before the next one. -/
def disconnect (s : CoordinatorClient) : CoordinatorClient :=
  { s with connected := false, pc := .sleeping }

/-- `connect_once` up to its loop. -/
def connectOnce (s : CoordinatorClient) (ok : Bool) (detectedIp : Option String) :
    CoordinatorClient :=
  if trim s.config.coordinatorUrl = "" then { s with connected := true, pc := .disabled }
  else if ok then
    let register := AgentMessage.register s.hostId (s.config.token.getD "")
      (if s.config.tailscaleEnabled then detectedIp else none) s.vncPort
    { s with connected := true, pc := .reading, sent := s.sent ++ [.ofMessage register] }
  else s.disconnect

def targetPort (s : CoordinatorClient) : TunnelTarget → UInt16
  | .vnc => s.vncPort

/-- The receive arm of the loop, up to the lock of the table. -/
def onFrame (s : CoordinatorClient) (m : Message) (task : TaskId) : CoordinatorClient :=
  match m with
  | .text t =>
    match dispatch (.text t) with
    | some (sessionId, target) =>
      -- a handle names one task only
      if s.tasks task = none then
        { s with
          pc := .inserting task
          tasks := Function.update s.tasks task (some ⟨sessionId, s.targetPort target, true⟩) }
      else s
    | none => s
  -- the pattern takes text frames only, so a ping ends the connection as a close does
  | _ => s.disconnect

/-- The end of a spawned task: it takes its session out of the table, whoever put it there. -/
def tunnelEnd (s : CoordinatorClient) (task : TaskId) : CoordinatorClient :=
  match s.tasks task with
  | some k =>
    if k.running then
      { s with
        activeTunnels := s.activeTunnels.erase k.sessionId
        tasks := Function.update s.tasks task (some { k with running := false }) }
    else s
  | none => s

def abortAllTunnels (s : CoordinatorClient) : CoordinatorClient :=
  { s with
    activeTunnels := ∅
    tasks := fun t =>
      if t ∈ s.activeTunnels.entries.map (·.2) then
        (s.tasks t).map ({ · with running := false })
      else s.tasks t }

def step (s : CoordinatorClient) : LoopEvent → CoordinatorClient
  | .connect ok ip => if s.pc = .connecting then s.connectOnce ok ip else s
  | .heartbeat ok =>
    if s.pc = .reading then
      if ok then { s with sent := s.sent ++ [.ofMessage (AgentMessage.heartbeat s.hostId)] }
      else s.disconnect
    else s
  | .frame m task => if s.pc = .reading then s.onFrame m task else s
  | .recvEnd => if s.pc = .reading then s.disconnect else s
  | .locked =>
    match s.pc with
    | .inserting task =>
      match s.tasks task with
      | some k =>
        { s with pc := .reading, activeTunnels := s.activeTunnels.insert k.sessionId task }
      | none => s
    | _ => s
  | .tunnelEnd task => s.tunnelEnd task
  | .abortAllTunnels => s.abortAllTunnels
  | .abort => { s with pc := .aborted }
  | .wake => if s.pc = .sleeping then { s with pc := .connecting } else s

end CoordinatorClient

end Urc
