import Urc.Agent.Coordinator

/-! # Frames without text on a control connection

Either peer may send a ping or a pong at any time. The three receive loops take text frames only,
in a pattern that any other frame falls out of, so such a frame changes a run exactly when a loop
is there to read it.
-/

namespace Urc

def Message.isControl : Message → Bool
  | .binary _ | .ping _ | .pong _ => true
  | _ => false

/-- A frame without text for `handle_agent` or `handle_client`. -/
def Event.isControl : Event → Bool
  | .agentFrame _ m _ => m.isControl
  | .clientFrame _ m _ => m.isControl
  | _ => false

/-- A frame without text for `connect_once`. -/
def LoopEvent.isControl : LoopEvent → Bool
  | .frame m _ => m.isControl
  | _ => false

/-- No frame without text reaches a receive loop of the coordinator that still reads. -/
def Server.Unstruck (s : Server) : Event → Prop
  | .agentFrame c m _ => m.isControl = true → (s.agents c).pc ≠ .reading
  | .clientFrame c m _ => m.isControl = true → (s.clients c).pc ≠ .reading
  | _ => True

/-- No frame without text reaches the receive loop of the agent while it reads. -/
def CoordinatorClient.Unstruck (s : CoordinatorClient) : LoopEvent → Prop
  | .frame m _ => m.isControl = true → s.pc ≠ .reading
  | _ => True

theorem Server.onAgentFrame_control {s : Server} {c : ConnId} {m : Message} {now : DateTime}
    (hm : m.isControl = true) :
    s.onAgentFrame c m now = s.setAgent c { s.agents c with pc := .leaving } := by
  cases m <;> first | rfl | cases hm

theorem Server.onClientFrame_control {s : Server} {c : ConnId} {m : Message} {id : Uuid}
    (hm : m.isControl = true) :
    s.onClientFrame c m id = s.setClient c { s.clients c with pc := .returned } := by
  cases m <;> first | rfl | cases hm

theorem CoordinatorClient.onFrame_control {s : CoordinatorClient} {m : Message} {t : TaskId}
    (hm : m.isControl = true) : s.onFrame m t = s.disconnect := by
  cases m <;> first | rfl | cases hm

theorem Server.unstruck_iff (s : Server) (e : Event) :
    s.Unstruck e ↔ (e.isControl = true → s.step e = s) := by
  cases e with
  | agentFrame c m now =>
    simp only [Unstruck, Event.isControl, step]
    refine imp_congr_right fun hm => ?_
    constructor
    · intro h
      rw [if_neg h]
    · intro h hpc
      rw [if_pos hpc, onAgentFrame_control hm] at h
      have hleaving := congrArg (fun s => (s.agents c).pc) h
      simp [setAgent_agents, hpc] at hleaving
  | clientFrame c m id =>
    simp only [Unstruck, Event.isControl, step]
    refine imp_congr_right fun hm => ?_
    constructor
    · intro h
      rw [if_neg h]
    · intro h hpc
      rw [if_pos hpc, onClientFrame_control hm] at h
      have hreturned := congrArg (fun s => (s.clients c).pc) h
      simp [setClient_clients, hpc] at hreturned
  | _ => simp [Unstruck, Event.isControl]

theorem CoordinatorClient.unstruck_iff (s : CoordinatorClient) (e : LoopEvent) :
    s.Unstruck e ↔ (e.isControl = true → s.step e = s) := by
  cases e with
  | frame m task =>
    simp only [Unstruck, LoopEvent.isControl, step]
    refine imp_congr_right fun hm => ?_
    constructor
    · intro h
      rw [if_neg h]
    · intro h hpc
      rw [if_pos hpc, onFrame_control hm] at h
      have hsleeping := congrArg (·.pc) h
      simp [disconnect, hpc] at hsleeping
  | _ => simp [Unstruck, LoopEvent.isControl]

/-- Frames without text go unnoticed, at either end, just when no receive loop is there to read
them. -/
theorem control_frames_transparent_iff (secret : String) (es : List Event) (config : AgentConfig)
    (vncPort : UInt16) (es' : List LoopEvent) :
    (Transition.Transparent Server.step Event.isControl (.new secret) es ↔
      Transition.Steps Server.step Server.Unstruck (.new secret) es) ∧
    (Transition.Transparent CoordinatorClient.step LoopEvent.isControl (.new config vncPort) es' ↔
      Transition.Steps CoordinatorClient.step CoordinatorClient.Unstruck
        (.new config vncPort) es') :=
  ⟨Transition.transparent_iff Server.unstruck_iff _ es,
    Transition.transparent_iff CoordinatorClient.unstruck_iff _ es'⟩

/-- A keepalive ping ends the registration of an agent. -/
theorem ping_ends_registration : ¬ ∀ (secret : String) (es : List Event),
    Transition.Transparent Server.step Event.isControl (.new secret) es := by
  intro h
  have hrun := h "s" [.agentOpen 0, .agentFrame 0 (.ofMessage (AgentMessage.register "pc" "s" none
    5900)) 0, .agentStep 0, .agentFrame 0 (.ping []) 1, .agentStep 0] _ List.prefix_rfl
  have hhost := congrArg (fun s => (s.state.getAgent "pc").isSome) hrun
  revert hhost
  decide +kernel

end Urc
