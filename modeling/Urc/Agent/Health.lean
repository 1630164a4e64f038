import Urc.Common.Config
import Urc.Common.Text
import Urc.Library.Run

/-! # Health checks and the watchdog

The supervisor writes a status file, `urc-agent health` reads it or probes the ports, and the
shell script `urc-health-check.sh` restarts the unit on what either of them says. The three agree
only where the port that the script probes is one that the configuration opens.
-/

namespace Urc

structure AgentStatus where
  healthy : Bool
  sessionDetected : Bool
  vncPortOpen : Bool
  coordinatorConnected : Bool
  filesPortOpen : Bool
  backend : Option String
  display : Option String
  lastError : Option String
  updatedAtUnix : ℕ
  supervisorCycle : ℕ
  deriving DecidableEq

def maxStatusAgeSecs : ℕ := 90

def AgentStatus.isFresh (st : AgentStatus) (now : ℕ) : Bool :=
  now - st.updatedAtUnix ≤ maxStatusAgeSecs

/-- The status file: missing, truncated by a write under way, or a status. -/
inductive StatusFile
  | missing
  | truncated
  | status (st : AgentStatus)
  deriving DecidableEq

/-- `AgentStatus::read`. -/
def StatusFile.read : StatusFile → Option AgentStatus
  | .status st => some st
  | _ => none

structure Machine where
  listening : UInt16 → Bool
  file : StatusFile
  now : ℕ
  sessionPresent : Bool

def vncPort : UInt16 := 5900

def needsCoordinator (config : AgentConfig) : Bool := trim config.coordinatorUrl ≠ ""

def buildErrorSummary (files coord : Bool) : String :=
  "; ".intercalate
    ((if files then [] else ["web/files port closed"]) ++
      if coord then [] else ["coordinator disconnected"])

/-- A `last_error` of a serving agent. -/
def vncNote (vncPortOpen : Bool) : Option String :=
  if vncPortOpen then none else some "vnc=down (serving unaffected)"

def probeHealth (config : AgentConfig) (m : Machine) : AgentStatus :=
  let vncPortOpen := m.listening vncPort
  let filesPortOpen := m.listening defaultWebInternalPort
  let coordinatorConnected :=
    if !needsCoordinator config then true
    else match m.file.read with
      | some st => st.isFresh m.now && st.coordinatorConnected
      | none => false
  let healthy := filesPortOpen && coordinatorConnected
  { healthy, sessionDetected := m.sessionPresent, vncPortOpen, coordinatorConnected, filesPortOpen
    backend := none
    display := none
    lastError := if healthy then vncNote vncPortOpen
      else some (buildErrorSummary filesPortOpen coordinatorConnected)
    updatedAtUnix := m.now
    supervisorCycle := 0 }

def verdict (st : AgentStatus) (otherwise : String) : Except String Unit :=
  if st.healthy then .ok () else .error ("unhealthy: " ++ st.lastError.getD otherwise)

def runHealthCheck (config : AgentConfig) (m : Machine) : Except String Unit :=
  match m.file.read with
  | some st =>
    if st.isFresh m.now then verdict st "unknown"
    else verdict (probeHealth config m) "probe failed"
  | none => verdict (probeHealth config m) "probe failed"

/-! ### The script -/

/-- `WEB_TLS_PORT` of the script, which the units leave at its default. -/
def scriptWebTlsPort : UInt16 := 15901

/-- `session_detected`: the text that `grep` finds is the field of a written status. -/
def sessionDetected (file : StatusFile) : Bool :=
  match file.read with
  | some st => st.sessionDetected
  | none => false

inductive Outcome
  | started
  | restarted
  | ok
  deriving DecidableEq

/-- A run of the script. `startOk` says whether `systemctl start` succeeds. -/
def healthCheckScript (config : AgentConfig) (m : Machine) (active startOk : Bool) : Outcome :=
  if !active then if startOk then .started else .restarted
  else if sessionDetected m.file && !m.listening scriptWebTlsPort then .restarted
  else
    match runHealthCheck config m with
    | .ok () => .ok
    | .error _ => .restarted

/-! ### The agent -/

inductive Listener
  | web
  | vncTls
  | webTls
  deriving DecidableEq

/-- The listeners that `spawn_serving_stack` makes for a configuration. -/
def enabled (config : AgentConfig) : Listener → Bool
  | .web => config.filesRoot.isSome
  | .vncTls => !config.insecure
  | .webTls => !config.insecure

def Listener.port (config : AgentConfig) : Listener → UInt16
  | .web => defaultWebInternalPort
  | .vncTls => config.listenTlsPort
  | .webTls => config.listenWebTlsPort

inductive AgentPhase
  | waiting
  | serving
  deriving DecidableEq

structure Agent where
  config : AgentConfig
  phase : AgentPhase
  up : Listener → Bool
  vncUp : Bool
  connected : Bool
  file : StatusFile
  now : ℕ

inductive AgentEvent
  | pass (secs : ℕ)
  | truncate
  | pollFails (err : String) (written : Bool)
  | sessionFound
  | listener (l : Listener) (up : Bool)
  | vnc (up : Bool)
  | coordinator (connected : Bool)
  | statusTick (written : Bool)
  deriving DecidableEq

def waitingStatus (err : String) (now : ℕ) : AgentStatus where
  healthy := false
  sessionDetected := false
  vncPortOpen := false
  coordinatorConnected := false
  filesPortOpen := false
  backend := none
  display := none
  lastError := some err
  updatedAtUnix := now
  supervisorCycle := 0

def BackendPreference.debug : BackendPreference → String
  | .auto => "Auto"
  | .x11 => "X11"
  | .gnome => "Gnome"
  | .wayvnc => "Wayvnc"

namespace Agent

def new (config : AgentConfig) (file : StatusFile) (now : ℕ) : Agent :=
  ⟨config, .waiting, fun _ => false, false, false, file, now⟩

def listening (s : Agent) (p : UInt16) : Bool :=
  [Listener.web, .vncTls, .webTls].any (fun l => s.up l && l.port s.config = p) ||
    (s.vncUp && p = vncPort)

def machine (s : Agent) (sessionPresent : Bool) : Machine :=
  ⟨s.listening, s.file, s.now, sessionPresent⟩

/-- What one round of `status_loop` finds. -/
def loopStatus (s : Agent) : AgentStatus :=
  let webOk := s.listening defaultWebInternalPort
  let coordOk := !needsCoordinator s.config || s.connected
  let healthy := webOk && coordOk
  { healthy, sessionDetected := true, vncPortOpen := s.vncUp, coordinatorConnected := coordOk
    filesPortOpen := webOk
    backend := some s.config.backend.debug
    display := none
    lastError := if healthy then vncNote s.vncUp
      else some ("web=" ++ (if webOk then "ok" else "down") ++ " coordinator=" ++
        if coordOk then "ok" else "down")
    updatedAtUnix := s.now
    supervisorCycle := 0 }

def write (s : Agent) (st : AgentStatus) (written : Bool) : Agent :=
  if written then { s with file := .status st } else s

def step (s : Agent) : AgentEvent → Agent
  | .pass secs => { s with now := s.now + secs }
  | .truncate => { s with file := .truncated }
  | .pollFails err written =>
    if s.phase = .waiting then s.write (waitingStatus err s.now) written else s
  | .sessionFound =>
    if s.phase = .waiting then
      -- the web server is bound at once, the tunnels by tasks of their own
      { s with
        phase := .serving
        up := Function.update s.up .web s.config.filesRoot.isSome }
    else s
  | .listener l up =>
    if s.phase = .serving ∧ enabled s.config l then { s with up := Function.update s.up l up }
    else s
  | .vnc up => if s.phase = .serving then { s with vncUp := up } else s
  | .coordinator connected =>
    if s.phase = .serving ∧ needsCoordinator s.config then { s with connected } else s
  | .statusTick written => if s.phase = .serving then s.write s.loopStatus written else s

/-- Waiting for its first session, or with everything up that the configuration asks for. -/
def DoesItsPart (s : Agent) : Prop :=
  s.phase = .waiting ∧ (∃ err t, s.file = .status (waitingStatus err t)) ∨
    s.phase = .serving ∧ (∀ l, enabled s.config l = true → s.up l = true) ∧
      (needsCoordinator s.config = true → s.connected = true)

def opens (config : AgentConfig) (p : UInt16) : Bool :=
  [Listener.web, .vncTls, .webTls].any fun l => enabled config l && l.port config = p

/-- A probe of the ports finds a serving agent healthy. -/
def ProbeFine (s : Agent) : Prop :=
  opens s.config defaultWebInternalPort = true ∧ needsCoordinator s.config = false

/-- The agent serves, the script's port is one of its listeners unless the status file knows of no
session, and the status is fresh and healthy, or too old or missing and a probe is fine. -/
def Quiet (s : Agent) : Prop :=
  s.phase = .serving ∧
    (sessionDetected s.file = true → opens s.config scriptWebTlsPort = true) ∧
    match s.file.read with
    | some st => if st.isFresh s.now then st.healthy = true else s.ProbeFine
    | none => s.ProbeFine

/-! ### Listeners -/

variable {s : Agent} {e : AgentEvent}

/-- A waiting agent listens nowhere, and no agent listens for more than its configuration. -/
structure Listens (s : Agent) : Prop where
  waiting : s.phase = .waiting → (∀ l, s.up l = false) ∧ s.vncUp = false
  enabled : ∀ l, s.up l = true → Urc.enabled s.config l = true

theorem listens_new (config : AgentConfig) (file : StatusFile) (now : ℕ) :
    (new config file now).Listens := by
  constructor <;> simp [new]

theorem Listens.write {st : AgentStatus} {written : Bool} (hs : s.Listens) :
    (s.write st written).Listens := by
  unfold Agent.write
  split_ifs
  · exact ⟨hs.waiting, hs.enabled⟩
  · exact hs

theorem Listens.serve {s' : Agent} {l : Listener} {up : Bool} (hs : s.Listens)
    (hc : s'.config = s.config) (hp : s'.phase = .serving) (hu : s'.up = Function.update s.up l up)
    (hup : up = true → Urc.enabled s.config l = true) : s'.Listens where
  waiting h := by
    rw [hp] at h
    cases h
  enabled l' hl := by
    rw [hc]
    rw [hu] at hl
    by_cases hl' : l' = l
    · subst hl'
      rw [Function.update_self] at hl
      exact hup hl
    · rw [Function.update_of_ne hl'] at hl
      exact hs.enabled l' hl

theorem Listens.step (hs : s.Listens) : (s.step e).Listens := by
  cases e with
  | pass secs => exact ⟨hs.waiting, hs.enabled⟩
  | truncate => exact ⟨hs.waiting, hs.enabled⟩
  | pollFails err written =>
    unfold Agent.step
    dsimp only
    split_ifs
    · exact hs.write
    · exact hs
  | sessionFound =>
    unfold Agent.step
    dsimp only
    split_ifs
    · exact hs.serve rfl rfl rfl id
    · exact hs
  | listener l up =>
    unfold Agent.step
    dsimp only
    split_ifs with hc
    · exact hs.serve rfl hc.1 rfl fun _ => hc.2
    · exact hs
  | vnc up =>
    unfold Agent.step
    dsimp only
    split_ifs with hc
    · exact ⟨fun h => absurd (hc.symm.trans h) (by simp), hs.enabled⟩
    · exact hs
  | coordinator connected =>
    unfold Agent.step
    dsimp only
    split_ifs
    · exact ⟨hs.waiting, hs.enabled⟩
    · exact hs
  | statusTick written =>
    unfold Agent.step
    dsimp only
    split_ifs
    · exact hs.write
    · exact hs

theorem Listens.listening_of_waiting (hs : s.Listens) (hw : s.phase = .waiting) (p : UInt16) :
    s.listening p = false := by
  obtain ⟨hup, hvnc⟩ := hs.waiting hw
  simp [listening, hup, hvnc]

/-- With everything up, the ports that are open are those that the configuration opens. -/
theorem Listens.listening_of_allUp (hs : s.Listens)
    (hall : ∀ l, Urc.enabled s.config l = true → s.up l = true) {p : UInt16} (hp : p ≠ vncPort) :
    s.listening p = opens s.config p := by
  have hup : ∀ l, s.up l = Urc.enabled s.config l := fun l => by
    rw [Bool.eq_iff_iff]
    exact ⟨hs.enabled l, hall l⟩
  simp [listening, opens, hup, hp]

/-! ### The verdict of the script -/

theorem verdict_eq_ok {st : AgentStatus} {text : String} :
    verdict st text = .ok () ↔ st.healthy = true := by
  unfold verdict
  split_ifs with h <;> simp [h]

theorem script_ne_restarted {config : AgentConfig} {m : Machine} {startOk : Bool} :
    healthCheckScript config m true startOk ≠ .restarted ↔
      (sessionDetected m.file = true → m.listening scriptWebTlsPort = true) ∧
        runHealthCheck config m = .ok () := by
  unfold healthCheckScript
  cases hs : sessionDetected m.file <;> cases hp : m.listening scriptWebTlsPort <;>
    cases hr : runHealthCheck config m <;> simp

theorem probeHealth_healthy {config : AgentConfig} {m : Machine}
    (hold : ∀ st, m.file.read = some st → st.isFresh m.now = false) :
    (probeHealth config m).healthy = true ↔
      m.listening defaultWebInternalPort = true ∧ needsCoordinator config = false := by
  unfold probeHealth
  cases hn : needsCoordinator config with
  | false => simp
  | true =>
    cases hf : m.file.read with
    | none => simp
    | some st => simp [hold st hf]

theorem runHealthCheck_fresh {config : AgentConfig} {m : Machine} {st : AgentStatus}
    (hf : m.file.read = some st) (hfresh : st.isFresh m.now = true) :
    runHealthCheck config m = .ok () ↔ st.healthy = true := by
  simp only [runHealthCheck, hf, hfresh, if_true]
  exact verdict_eq_ok

theorem runHealthCheck_stale {config : AgentConfig} {m : Machine}
    (hold : ∀ st, m.file.read = some st → st.isFresh m.now = false) :
    runHealthCheck config m = .ok () ↔
      m.listening defaultWebInternalPort = true ∧ needsCoordinator config = false := by
  rw [← probeHealth_healthy hold]
  unfold runHealthCheck
  cases hf : m.file.read with
  | none => exact verdict_eq_ok
  | some st =>
    simp only [hold st hf, Bool.false_eq_true, if_false]
    exact verdict_eq_ok

theorem Listens.script_waiting {startOk present : Bool} (hs : s.Listens) (hw : s.phase = .waiting)
    {err : String} {t : ℕ} (hf : s.file = .status (waitingStatus err t)) :
    healthCheckScript s.config (s.machine present) true startOk = .restarted := by
  by_contra hne
  obtain ⟨-, hrun⟩ := script_ne_restarted.mp hne
  have hread : (s.machine present).file.read = some (waitingStatus err t) := by
    simp [machine, hf, StatusFile.read]
  cases hfresh : (waitingStatus err t).isFresh (s.machine present).now with
  | true => cases (runHealthCheck_fresh hread hfresh).mp hrun
  | false =>
    have hold : ∀ st, (s.machine present).file.read = some st →
        st.isFresh (s.machine present).now = false := by
      intro st hst
      rw [hread] at hst
      cases hst
      exact hfresh
    have hopen := ((runHealthCheck_stale hold).mp hrun).1
    simp [machine, hs.listening_of_waiting hw] at hopen

theorem Listens.script_serving {startOk present : Bool} (hs : s.Listens) (hsv : s.phase = .serving)
    (hall : ∀ l, Urc.enabled s.config l = true → s.up l = true) :
    healthCheckScript s.config (s.machine present) true startOk ≠ .restarted ↔ s.Quiet := by
  rw [script_ne_restarted, Quiet]
  have hport : (s.machine present).listening scriptWebTlsPort =
      opens s.config scriptWebTlsPort := hs.listening_of_allUp hall (by decide)
  have hinternal : (s.machine present).listening defaultWebInternalPort =
      opens s.config defaultWebInternalPort := hs.listening_of_allUp hall (by decide)
  rw [hport]
  simp only [hsv, true_and]
  refine and_congr_right fun _ => ?_
  cases hf : s.file.read with
  | none =>
    have hold : ∀ st, (s.machine present).file.read = some st →
        st.isFresh (s.machine present).now = false := by simp [machine, hf]
    rw [runHealthCheck_stale hold, hinternal]
    rfl
  | some st =>
    cases hfresh : st.isFresh s.now with
    | true =>
      simp only [hfresh, if_true]
      exact runHealthCheck_fresh (m := s.machine present) hf hfresh
    | false =>
      have hold : ∀ st', (s.machine present).file.read = some st' →
          st'.isFresh (s.machine present).now = false := by
        intro st' hst
        simp only [machine, hf, Option.some_inj] at hst
        exact hst ▸ hfresh
      simp only [hfresh, Bool.false_eq_true, if_false]
      rw [runHealthCheck_stale hold, hinternal]
      rfl

/-- When the script leaves alone an agent that does its part: it serves, the script's port is one
of its own, and its status is fresh and healthy or a probe does without it. -/
theorem watchdog_quiet_iff (config : AgentConfig) (file : StatusFile) (now : ℕ)
    (es : List AgentEvent) (present startOk : Bool)
    (h : (Transition.run step (new config file now) es).DoesItsPart) :
    healthCheckScript (Transition.run step (new config file now) es).config
        ((Transition.run step (new config file now) es).machine present) true startOk ≠ .restarted ↔
      (Transition.run step (new config file now) es).Quiet := by
  have hs : (Transition.run step (new config file now) es).Listens :=
    Transition.run_invariant (fun _ _ hs => hs.step) (listens_new config file now) es
  generalize Transition.run step (new config file now) es = s at h hs ⊢
  rcases h with ⟨hw, err, t, hf⟩ | ⟨hsv, hall, -⟩
  · have hrestart : healthCheckScript s.config (s.machine present) true startOk = .restarted :=
      hs.script_waiting hw hf
    refine iff_of_false (fun hne => hne hrestart) fun hq => ?_
    exact absurd (hw.symm.trans hq.1) (by simp)
  · exact hs.script_serving hsv hall

def tailnetOnly : AgentConfig := { AgentConfig.default with coordinatorUrl := "" }

def comesUp : List AgentEvent :=
  [.sessionFound, .listener .vncTls true, .listener .webTls true, .statusTick true]

theorem doesItsPart_comesUp :
    (Transition.run step (new tailnetOnly .missing 0) comesUp).DoesItsPart := by
  refine .inr ⟨rfl, ?_, ?_⟩
  · intro l _
    cases l <;> rfl
  · decide +kernel

theorem watchdog_quiet_comesUp :
    (Transition.run step (new tailnetOnly .missing 0) comesUp).DoesItsPart ∧
      (healthCheckScript (Transition.run step (new tailnetOnly .missing 0) comesUp).config
        ((Transition.run step (new tailnetOnly .missing 0) comesUp).machine true) true true ≠
          .restarted ↔
        (Transition.run step (new tailnetOnly .missing 0) comesUp).Quiet) :=
  ⟨doesItsPart_comesUp, watchdog_quiet_iff _ _ _ _ _ _ doesItsPart_comesUp⟩

/-- The agent that waits for its first session has written so, and is restarted. -/
theorem waiting_agent_restarted : ¬ ∀ (config : AgentConfig) (file : StatusFile) (now : ℕ)
    (es : List AgentEvent) (present startOk : Bool),
    (Transition.run step (new config file now) es).DoesItsPart →
      healthCheckScript (Transition.run step (new config file now) es).config
        ((Transition.run step (new config file now) es).machine present) true startOk ≠
          .restarted := by
  intro h
  refine h tailnetOnly .missing 0 [.pollFails "no active graphical session found" true] false true
    (.inl ⟨rfl, "no active graphical session found", 0, rfl⟩) ?_
  decide +kernel

end Agent

end Urc
