import Urc.Android.App

/-! # The state of the proxy service

`ProxyService` keeps its proxy, the port of it and the host in three fields, and tells every start
in a broadcast. A start that fails leaves the host behind: this is the only way in which the three
fields get apart.
-/

namespace Urc

open Transition

abbrev LoopbackPort := {p : ℤ // 1 ≤ p ∧ p ≤ 65535}

/-- What a bind gives, or the message of its exception, if there is one. -/
abbrev Bind := Except (Option String) LoopbackPort

/-- An object of `LocalTlsProxy`, with its listener. -/
structure LoopbackProxy where
  remote : LocalTlsProxy
  serverSocket : Option LoopbackPort
  running : Bool
  localPort : ℤ

namespace LoopbackProxy

def new (remote : LocalTlsProxy) : LoopbackProxy := ⟨remote, none, false, -1⟩

def start (p : LoopbackProxy) (bind : Bind) : Except (Option String) LoopbackProxy :=
  if Cgnat.isTailnetAddress p.remote.remoteHost then
    match bind with
    | .ok port => .ok { p with serverSocket := some port, running := true, localPort := port }
    | .error message => .error message
  else .error (some ("refusing to proxy to non-tailnet host: " ++ p.remote.remoteHost))

def stop (p : LoopbackProxy) : LoopbackProxy :=
  { p with serverSocket := none, running := false, localPort := -1 }

end LoopbackProxy

inductive Broadcast
  | portReady (localPort : ℤ)
  | portFailed (error : String)
  deriving DecidableEq

inductive ServiceCall
  | startForeground (display : String)
  | stopForeground
  | stopSelf
  | sendBroadcast (b : Broadcast)
  deriving DecidableEq

def ServiceCall.broadcast : ServiceCall → Option Broadcast
  | .sendBroadcast b => some b
  | _ => none

/-- `proxies` are the objects that were made so far, and `proxy` refers to one of them. -/
structure ServiceState where
  proxies : List LoopbackProxy
  proxy : Option ℕ
  localPort : ℤ
  connectedHost : Option String
  calls : List ServiceCall

/-- An intent that is null is one without extras. -/
inductive ServiceEvent
  | startCommand (action : ServiceAction) (extras : Extras) (bind : Bind)
  | destroy

namespace ServiceState

def new : ServiceState := ⟨[], none, -1, none, []⟩

def call (s : ServiceState) (c : ServiceCall) : ServiceState := { s with calls := s.calls ++ [c] }

def stopProxy (s : ServiceState) : ServiceState :=
  { s with
    proxies := match s.proxy with
      | some i => s.proxies.modify i LoopbackProxy.stop
      | none => s.proxies
    proxy := none
    localPort := -1
    connectedHost := none }

def startProxy (s : ServiceState) (host : String) (port : ℤ) (display : String) (bind : Bind) :
    ServiceState :=
  let s := s.stopProxy
  let s := { s with connectedHost := some host }
  let s := s.call (.startForeground display)
  let p := LoopbackProxy.new ⟨host, port⟩
  match p.start bind with
  | .ok p =>
    let s := { s with
      proxies := s.proxies ++ [p], proxy := some s.proxies.length, localPort := p.localPort }
    s.call (.sendBroadcast (.portReady p.localPort))
  | .error message =>
    let s := { s with proxies := s.proxies ++ [p] }
    let s := s.call (.sendBroadcast (.portFailed (message.getD "proxy start failed")))
    (s.call .stopForeground).call .stopSelf

def onStartCommand (s : ServiceState) (action : ServiceAction) (extras : Extras) (bind : Bind) :
    ServiceState :=
  match action with
  | .stop => (s.stopProxy.call .stopForeground).call .stopSelf
  | .other =>
    let display := (extras.display.or extras.host).getD "PC"
    match extras.host with
    | some host =>
      if extras.port ≤ 0 then s.call .stopSelf else s.startProxy host extras.port display bind
    | none => s.call .stopSelf

/-- A service that starts anew has the fields of one that was destroyed. -/
def step (s : ServiceState) : ServiceEvent → ServiceState
  | .startCommand action extras bind => s.onStartCommand action extras bind
  | .destroy => s.stopProxy

/-! ### What the fields say -/

def Running (s : ServiceState) (i : ℕ) : Prop := ∃ p, s.proxies[i]? = some p ∧ p.running = true

/-- Only the proxy of the field runs, and its port is that of the field. -/
structure Sound (s : ServiceState) : Prop where
  running : ∀ i, s.Running i ↔ s.proxy = some i
  port : ∀ i p, s.proxy = some i → s.proxies[i]? = some p → p.localPort = s.localPort
  localPort : s.proxy.isSome = true ↔ 0 < s.localPort

variable {s s' : ServiceState} {host display : String} {port : ℤ} {bind : Bind} {c : ServiceCall}

theorem Sound.call (hs : s.Sound) : (s.call c).Sound := ⟨hs.running, hs.port, hs.localPort⟩

theorem sound_new : new.Sound where
  running i := by simp [Running, new]
  port i p h := by cases h
  localPort := by simp [new]

theorem Sound.not_running_stopProxy (hs : s.Sound) (i : ℕ) : ¬ s.stopProxy.Running i := by
  rintro ⟨p, hp, hrunning⟩
  cases hproxy : s.proxy with
  | none =>
    simp only [stopProxy, hproxy] at hp
    have hi := (hs.running i).mp ⟨p, hp, hrunning⟩
    rw [hproxy] at hi
    cases hi
  | some j =>
    simp only [stopProxy, hproxy, List.getElem?_modify, Option.map_eq_map, Option.map_eq_some_iff]
      at hp
    obtain ⟨q, hq, rfl⟩ := hp
    split_ifs at hrunning with hij
    · cases hrunning
    · have hi := (hs.running i).mp ⟨q, hq, hrunning⟩
      rw [hproxy] at hi
      exact hij (Option.some.inj hi)

theorem Sound.stopProxy (hs : s.Sound) : s.stopProxy.Sound where
  running i := by
    simp only [hs.not_running_stopProxy, false_iff]
    rintro ⟨⟩
  port i p h := by cases h
  localPort := by simp [ServiceState.stopProxy]

theorem start_eq_ok (remote : LocalTlsProxy) {p : LoopbackProxy} :
    (LoopbackProxy.new remote).start bind = .ok p ↔ ∃ port,
      Cgnat.isTailnetAddress remote.remoteHost = true ∧ bind = .ok port ∧
        p = ⟨remote, some port, true, port⟩ := by
  unfold LoopbackProxy.start LoopbackProxy.new
  dsimp only
  constructor
  · intro h
    split_ifs at h with htailnet
    cases bind with
    | error message => cases h
    | ok port => exact ⟨port, htailnet, rfl, by cases h; rfl⟩
  · rintro ⟨port, htailnet, rfl, rfl⟩
    rw [if_pos htailnet]

structure Stopped (s : ServiceState) : Prop where
  running : ∀ i, ¬ s.Running i
  proxy : s.proxy = none
  localPort : s.localPort = -1

theorem Stopped.sound (hs : s.Stopped) : s.Sound where
  running i := by simp [hs.running i, hs.proxy]
  port i p h := by
    rw [hs.proxy] at h
    cases h
  localPort := by simp [hs.proxy, hs.localPort]

theorem Sound.stopped (hs : s.Sound) : s.stopProxy.Stopped := ⟨hs.not_running_stopProxy, rfl, rfl⟩

theorem running_append {p : LoopbackProxy} (hs : ∀ i, ¬ s.Running i)
    (hs' : s'.proxies = s.proxies ++ [p]) (i : ℕ) :
    s'.Running i ↔ i = s.proxies.length ∧ p.running = true := by
  unfold Running
  rw [hs']
  rcases Nat.lt_trichotomy i s.proxies.length with hlt | rfl | hgt
  · have hidle := hs i
    simpa [List.getElem?_append_left hlt, hlt.ne, Running] using hidle
  · simp
  · rw [List.getElem?_eq_none (by simp; omega)]
    simp [hgt.ne']

/-- The broadcast is true: a port belongs to the proxy that runs, a failure leaves none. -/
def Tells (s : ServiceState) : Broadcast → Prop
  | .portReady port => ∃ i p, s.proxy = some i ∧ s.proxies[i]? = some p ∧ p.running = true ∧
      p.localPort = port
  | .portFailed _ => ∀ i, ¬ s.Running i

def broadcasts (s : ServiceState) : List Broadcast := s.calls.filterMap ServiceCall.broadcast

/-- What `startProxy` comes to: the new proxy runs, or nothing does. -/
inductive Started (s : ServiceState) (host : String) (bind : Bind) (s' : ServiceState) : Prop
  | ready (port : LoopbackPort) (htailnet : Cgnat.isTailnetAddress host = true)
      (hbind : bind = .ok port) (hsound : s'.Sound) (hhost : s'.connectedHost = some host)
      (hproxy : s'.proxy.isSome = true) (hcalls : s'.broadcasts = s.broadcasts ++ [.portReady port])
      (htells : s'.Tells (.portReady port))
  | failed (message : String) (hfails : ¬ (Cgnat.isTailnetAddress host = true ∧ bind.isOk = true))
      (hstopped : s'.Stopped) (hhost : s'.connectedHost = some host)
      (hcalls : s'.broadcasts = s.broadcasts ++ [.portFailed message])

theorem startProxy_ok {p : LoopbackProxy}
    (hstart : (LoopbackProxy.new ⟨host, port⟩).start bind = .ok p) :
    s.startProxy host port display bind =
      { proxies := s.stopProxy.proxies ++ [p]
        proxy := some s.stopProxy.proxies.length
        localPort := p.localPort
        connectedHost := some host
        calls := s.calls ++
          [.startForeground display, .sendBroadcast (.portReady p.localPort)] } := by
  unfold startProxy
  dsimp only
  rw [hstart]
  simp [call, ServiceState.stopProxy]

theorem startProxy_error {message : Option String}
    (hstart : (LoopbackProxy.new ⟨host, port⟩).start bind = .error message) :
    s.startProxy host port display bind =
      { proxies := s.stopProxy.proxies ++ [.new ⟨host, port⟩]
        proxy := none
        localPort := -1
        connectedHost := some host
        calls := s.calls ++ [.startForeground display,
          .sendBroadcast (.portFailed (message.getD "proxy start failed")), .stopForeground,
          .stopSelf] } := by
  unfold startProxy
  dsimp only
  rw [hstart]
  simp [call, ServiceState.stopProxy]

theorem Sound.started (hs : s.Sound) :
    s.Started host bind (s.startProxy host port display bind) := by
  have hstopped := hs.stopped
  cases hstart : (LoopbackProxy.new ⟨host, port⟩).start bind with
  | ok p =>
    rw [startProxy_ok hstart]
    obtain ⟨bound, htailnet, hbind, rfl⟩ := (start_eq_ok _).mp hstart
    refine .ready bound htailnet hbind ⟨fun i => ?_, ?_, ?_⟩ rfl rfl ?_ ?_
    · rw [running_append hstopped.running rfl]
      simp [eq_comm]
    · rintro i p ⟨⟩ hp
      cases hp.symm.trans List.getElem?_concat_length
      rfl
    · have hpos := bound.property.1
      have hpos' : 0 < bound.val := by omega
      simpa using hpos'
    · rw [broadcasts, List.filterMap_append]
      rfl
    · exact ⟨_, _, rfl, List.getElem?_concat_length, rfl, rfl⟩
  | error message =>
    rw [startProxy_error hstart]
    refine .failed (message.getD "proxy start failed") ?_ ⟨fun i => ?_, rfl, rfl⟩ rfl ?_
    · rintro ⟨htailnet, hok⟩
      cases bind with
      | error message => cases hok
      | ok bound =>
        rw [(start_eq_ok ⟨host, port⟩).mpr ⟨bound, htailnet, rfl, rfl⟩] at hstart
        cases hstart
    · rw [running_append hstopped.running rfl]
      simp [LoopbackProxy.new]
    · rw [broadcasts, List.filterMap_append]
      rfl

/-! ### Runs -/

theorem Started.sound (h : s.Started host bind s') : s'.Sound := by
  cases h with
  | ready _ _ _ hsound => exact hsound
  | failed _ _ hstopped => exact hstopped.sound

theorem Sound.step {e : ServiceEvent} (hs : s.Sound) : (s.step e).Sound := by
  cases e with
  | startCommand action extras bind =>
    cases action with
    | stop => exact hs.stopProxy.call.call
    | other =>
      simp only [ServiceState.step, onStartCommand]
      split
      · split_ifs
        · exact hs.call
        · exact hs.started.sound
      · exact hs.call
  | destroy => exact hs.stopProxy

structure AllOrNothing (s : ServiceState) : Prop where
  localPort : s.proxy.isSome = true ↔ 0 < s.localPort
  connectedHost : 0 < s.localPort ↔ s.connectedHost.isSome = true

def AtMostOne (s : ServiceState) : Prop := ∀ i j, s.Running i → s.Running j → i = j

def StartsWith (e : ServiceEvent) (host : String) (bind : Bind) : Prop :=
  ∃ extras : Extras, e = .startCommand .other extras bind ∧ extras.host = some host ∧
    0 < extras.port

/-- A start command with a host and a positive port is answered by one broadcast, and that one is
true. -/
def Answers (s : ServiceState) (e : ServiceEvent) : Prop :=
  ∀ host bind, StartsWith e host bind → ∃ b, (s.step e).broadcasts = s.broadcasts ++ [b] ∧
    (s.step e).Tells b

def CanStart (e : ServiceEvent) : Prop :=
  ∀ host bind, StartsWith e host bind → Cgnat.isTailnetAddress host = true ∧ bind.isOk = true

theorem Sound.started_of_startsWith {e : ServiceEvent} (hs : s.Sound)
    (he : StartsWith e host bind) : s.Started host bind (s.step e) := by
  obtain ⟨extras, rfl, hhost, hport⟩ := he
  simp only [ServiceState.step, onStartCommand, hhost]
  rw [if_neg (by omega)]
  exact hs.started

theorem Sound.answers {e : ServiceEvent} (hs : s.Sound) : Answers s e := by
  intro host bind he
  cases hs.started_of_startsWith he with
  | ready port _ _ _ _ _ hcalls htells => exact ⟨_, hcalls, htells⟩
  | failed message _ hstopped _ hcalls => exact ⟨_, hcalls, hstopped.running⟩

theorem Sound.atMostOne (hs : s.Sound) : s.AtMostOne := by
  intro i j hi hj
  exact Option.some.inj (((hs.running i).mp hi).symm.trans ((hs.running j).mp hj))

theorem Sound.allOrNothing_iff (hs : s.Sound) :
    s.AllOrNothing ↔ (s.proxy.isSome = true ↔ s.connectedHost.isSome = true) :=
  ⟨fun h => h.localPort.trans h.connectedHost, fun h => ⟨hs.localPort, hs.localPort.symm.trans h⟩⟩

theorem Started.allOrNothing_iff (h : s.Started host bind s') :
    s'.AllOrNothing ↔ Cgnat.isTailnetAddress host = true ∧ bind.isOk = true := by
  cases h with
  | ready port htailnet hbind hsound hhost hproxy =>
    rw [hsound.allOrNothing_iff, hhost, hproxy, hbind]
    exact ⟨fun _ => ⟨htailnet, rfl⟩, fun _ => Iff.rfl⟩
  | failed _ hfails hstopped hhost =>
    rw [hstopped.sound.allOrNothing_iff, hhost, hstopped.proxy]
    exact ⟨fun h => absurd (h.mpr rfl) (by decide), fun h => absurd h hfails⟩

theorem allOrNothing_new : new.AllOrNothing := ⟨by simp [new], by simp [new]⟩

theorem allOrNothing_stopProxy : s.stopProxy.AllOrNothing :=
  ⟨by simp [ServiceState.stopProxy], by simp [ServiceState.stopProxy]⟩

theorem AllOrNothing.call (ha : s.AllOrNothing) : (s.call c).AllOrNothing :=
  ⟨ha.localPort, ha.connectedHost⟩

/-- The fields stay together in a step unless it is a start that fails. -/
theorem allOrNothing_step_iff {e : ServiceEvent} (hs : s.Sound) (ha : s.AllOrNothing) :
    (s.step e).AllOrNothing ↔ CanStart e := by
  by_cases he : ∃ host bind, StartsWith e host bind
  · obtain ⟨host, bind, he⟩ := he
    rw [(hs.started_of_startsWith he).allOrNothing_iff]
    constructor
    · rintro h host' bind' ⟨extras', rfl, hhost', -⟩
      obtain ⟨extras, ⟨⟩, hhost, -⟩ := he
      obtain rfl := Option.some.inj (hhost'.symm.trans hhost)
      exact h
    · intro h
      exact h host bind he
  · have hcan : CanStart e := fun host bind h => absurd ⟨host, bind, h⟩ he
    refine iff_of_true ?_ hcan
    cases e with
    | startCommand action extras bind =>
      cases action with
      | stop => exact allOrNothing_stopProxy.call.call
      | other =>
        simp only [ServiceState.step, onStartCommand]
        split
        · split_ifs with hport
          · exact ha.call
          · exact absurd ⟨_, bind, extras, rfl, ‹_›, by omega⟩ he
        · exact ha.call
    | destroy => exact allOrNothing_stopProxy

/-- What is asked of every run of commands: the fields are set together, no two proxies run, and
every start is answered once and truly. -/
structure Orderly (es : List ServiceEvent) : Prop where
  allOrNothing : Always step AllOrNothing new es
  atMostOne : Always step AtMostOne new es
  answers : Steps step Answers new es

theorem always_sound (es : List ServiceEvent) : Always step Sound new es := fun pre _ =>
  run_invariant (fun _ _ hs => hs.step) sound_new pre

theorem orderly_iff_allOrNothing (es : List ServiceEvent) :
    Orderly es ↔ Always step AllOrNothing new es := by
  have hsound := always_sound es
  constructor
  · intro h
    exact h.allOrNothing
  · intro h
    exact ⟨h, hsound.mono fun _ hs => hs.atMostOne, hsound.steps fun _ _ hs => hs.answers⟩

/-- A run of commands is orderly exactly when the proxy of every start command in it, with a host
and a positive port, can be started. -/
theorem orderly_iff (es : List ServiceEvent) : Orderly es ↔ ∀ e ∈ es, CanStart e := by
  have hstep : ∀ (s : ServiceState) e, s.Sound ∧ s.AllOrNothing → CanStart e →
      (s.step e).Sound ∧ (s.step e).AllOrNothing := fun s e h he =>
    ⟨h.1.step, (allOrNothing_step_iff h.1 h.2).mpr he⟩
  have hnew : new.Sound ∧ new.AllOrNothing := ⟨sound_new, allOrNothing_new⟩
  have hcan : Steps step (fun _ e => CanStart e) new es ↔ ∀ e ∈ es, CanStart e := steps_event_iff
  rw [orderly_iff_allOrNothing, ← hcan]
  exact always_iff_steps_of_all hstep (fun _ h => h.2)
    (fun _ _ h h' => (allOrNothing_step_iff h.1 h.2).mp h') hnew

def strayStart : ServiceEvent :=
  .startCommand .other ⟨some "192.168.1.5", 15901, none⟩ (.ok ⟨40000, by decide⟩)

/-- The failed start leaves the host behind, without a proxy and a port. -/
theorem strayStart_leaves_host :
    (run step new [strayStart]).proxy = none ∧ (run step new [strayStart]).localPort = -1 ∧
      (run step new [strayStart]).connectedHost = some "192.168.1.5" ∧
      (run step new [strayStart]).broadcasts =
        [.portFailed "refusing to proxy to non-tailnet host: 192.168.1.5"] ∧
      ¬ Orderly [strayStart] := by
  refine ⟨by decide +kernel, by decide +kernel, by decide +kernel, by decide +kernel, fun h => ?_⟩
  have hlast := h.allOrNothing [strayStart] List.prefix_rfl
  have hcan : CanStart strayStart := (allOrNothing_step_iff sound_new allOrNothing_new).mp hlast
  exact absurd (hcan _ _ ⟨_, rfl, rfl, by decide⟩).1 (by decide +kernel)

/-! ### The service of the app -/

def view (s : ServiceState) : ProxyService :=
  ⟨(s.proxy.bind (s.proxies[·]?)).map (·.remote), s.localPort, s.connectedHost⟩

/-- The service moves as it does in the app. -/
theorem view_onStartCommand (s : ServiceState) (app : AndroidApp) (happ : app.service = s.view)
    (action : ServiceAction) (extras : Extras) (bind : Bind) :
    (app.onStartCommand action extras (bind.toOption.map (·.val))).service =
      (s.onStartCommand action extras bind).view := by
  have hstop : ∀ app : AndroidApp, app.stopProxy.service = s.stopProxy.view := fun _ => rfl
  cases action with
  | stop => rfl
  | other =>
    simp only [AndroidApp.onStartCommand, onStartCommand]
    cases extras.host with
    | none => exact happ
    | some host =>
      dsimp only
      split_ifs with hport
      · exact happ
      · simp only [AndroidApp.startProxy, AndroidApp.startLocal, startProxy, LoopbackProxy.start,
          LoopbackProxy.new]
        by_cases htailnet : Cgnat.isTailnetAddress host = true
        · cases bind with
          | error message => simp [htailnet, view, call, stopProxy, Except.toOption]
          | ok port => simp [htailnet, view, call, stopProxy, Except.toOption]
        · cases bind with
          | error message => simp [htailnet, view, call, stopProxy]
          | ok port => simp [htailnet, view, call, stopProxy]

end ServiceState

end Urc
