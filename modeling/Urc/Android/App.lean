import Urc.Android.UrcUri
import Urc.Library.Run
import Mathlib.Logic.Function.Basic

/-! # Dials of the app

Every way from a host string to a socket: pairing links and the add dialog into the store, taps
and retries into the preflight check, and the start command of the service into the local proxy,
which dials once for each connection that it accepts.
-/

namespace Urc

abbrev TaskNumber := ℕ

structure LocalTlsProxy where
  remoteHost : String
  remotePort : ℤ
  deriving DecidableEq

/-- The extras of an intent for `MainActivity` or `ProxyService`; a missing port reads as -1. -/
structure Extras where
  host : Option String
  port : ℤ
  display : Option String

inductive ServiceAction
  | stop
  | other
  deriving DecidableEq

/-- A coroutine or thread, and where it stands: before and behind `store.add`, before and behind
the guard of `Preflight.check`, and before and behind that of `handleConnection`. -/
inductive Task
  | pairing (host : Host)
  | paired (host : Host)
  | saving (host : Host)
  | removing (host : Host)
  | deciding (host : Host)
  | dialing (host : Host)
  | handling (proxy : LocalTlsProxy)
  | upstream (proxy : LocalTlsProxy)

def Task.target : Task → Option String
  | .dialing host => some host.host
  | .upstream p => some p.remoteHost
  | _ => none

/-- What the guard has accepted, and what is dialled, each by a task. -/
inductive NetEvent
  | guard (t : TaskNumber) (host : String)
  | dial (t : TaskNumber) (host : String) (port : ℤ)

def NetEvent.task : NetEvent → TaskNumber
  | .guard t _ => t
  | .dial t _ _ => t

structure ProxyService where
  proxy : Option LocalTlsProxy
  localPort : ℤ
  connectedHost : Option String

/-- `shown` are the hosts on the screen, `retries` those of open dialogs with a retry button,
`launched` the intents of main activities, `accepting` the proxies whose accept loops run. The
newest event of the log stands first. -/
structure AndroidApp where
  store : HostStore
  shown : List Host
  retries : List Host
  launched : List Extras
  service : ProxyService
  accepting : List LocalTlsProxy
  tasks : TaskNumber → Option Task
  next : TaskNumber
  log : List NetEvent

/-- A number picks an item of a list; `reached` tells whether the preflight request is answered
with 200, and `bound` is the port that a local socket gets, if any. -/
inductive AppEvent
  | showHosts
  | scan (raw : Option String)
  | deepLink (view : Bool) (data : Option String)
  | addManually (ip port magicDns name : String)
  | tap (i : ℕ)
  | delete (i : ℕ)
  | retry (i : ℕ)
  | run (t : TaskNumber) (reached : Bool)
  | createMain (i : ℕ) (bound : Option ℤ)
  | startCommand (action : ServiceAction) (extras : Extras) (bound : Option ℤ)
  | destroyService
  | accept (i : ℕ)

namespace AndroidApp

def new (store : HostStore) : AndroidApp :=
  ⟨store, [], [], [], ⟨none, -1, none⟩, [], fun _ => none, 0, []⟩

def spawn (s : AndroidApp) (task : Task) : AndroidApp :=
  { s with tasks := Function.update s.tasks s.next (some task), next := s.next + 1 }

def goto (s : AndroidApp) (t : TaskNumber) (task : Option Task) : AndroidApp :=
  { s with tasks := Function.update s.tasks t task }

/-- `InetSocketAddress` and `createSocket` throw for other ports. -/
def dial (s : AndroidApp) (t : TaskNumber) (host : String) (port : ℤ) : AndroidApp :=
  if 0 ≤ port ∧ port ≤ 65535 then { s with log := .dial t host port :: s.log } else s

/-! ### `HostListActivity` -/

/-- `connect`. -/
def connect (s : AndroidApp) (host : Host) : AndroidApp :=
  if host.isTailnet then s.spawn (.deciding host) else s

section

variable {U : Type} (api : UriApi U)

def handlePairingUri (s : AndroidApp) (raw : String) : AndroidApp :=
  match UrcUri.parse api raw with
  | some host => s.spawn (.pairing host)
  | none => s

def handleDeepLink (s : AndroidApp) (view : Bool) (data : Option String) : AndroidApp :=
  match view, data with
  | true, some data => s.handlePairingUri api data
  | _, _ => s

end

/-- The positive button of `showAddDialog`. -/
def addManually (s : AndroidApp) (ip port magicDns name : String) : AndroidApp :=
  let ip := Kotlin.trim ip
  if (Cgnat.parseIpv4Literal ip).isNone then s
  else s.spawn (.saving ⟨ip, (Kotlin.toIntOrNull port.toList).getD Android.defaultWebTlsPort,
    Kotlin.nullIfBlank (Kotlin.trim magicDns), Kotlin.nullIfBlank (Kotlin.trim name)⟩)

/-! ### `ProxyService` -/

def stopProxy (s : AndroidApp) : AndroidApp :=
  { s with
    service := ⟨none, -1, none⟩
    accepting := match s.service.proxy with
      | some p => s.accepting.erase p
      | none => s.accepting }

/-- `LocalTlsProxy.start`, the guard first, then the bind. -/
def startLocal (p : LocalTlsProxy) (bound : Option ℤ) : Option ℤ :=
  if Cgnat.isTailnetAddress p.remoteHost then bound else none

def startProxy (s : AndroidApp) (host : String) (port : ℤ) (bound : Option ℤ) : AndroidApp :=
  let s := s.stopProxy
  let p : LocalTlsProxy := ⟨host, port⟩
  match startLocal p bound with
  | some localPort =>
    { s with service := ⟨some p, localPort, some host⟩, accepting := p :: s.accepting }
  | none => { s with service := ⟨none, -1, some host⟩ }

def onStartCommand (s : AndroidApp) (action : ServiceAction) (extras : Extras)
    (bound : Option ℤ) : AndroidApp :=
  match action with
  | .stop => s.stopProxy
  | .other =>
    match extras.host with
    | some host => if extras.port ≤ 0 then s else s.startProxy host extras.port bound
    | none => s

/-- `MainActivity.onCreate`. -/
def onCreate (s : AndroidApp) (extras : Extras) (bound : Option ℤ) : AndroidApp :=
  match extras.host with
  | some host =>
    if 0 < extras.port then
      s.onStartCommand .other ⟨some host, extras.port, some (extras.display.getD host)⟩ bound
    else s
  | none => s

/-! ### Tasks -/

/-- What becomes of the verdict of `Preflight.check` behind the guard. -/
def conclude (s : AndroidApp) (host : Host) (reached : Bool) : AndroidApp :=
  if reached ∧ 0 ≤ host.port ∧ host.port ≤ 65535 then
    { s with launched := s.launched ++ [⟨some host.host, host.port, some host.displayName⟩] }
  else { s with retries := s.retries ++ [host] }

def runTask (s : AndroidApp) (t : TaskNumber) (reached : Bool) : Task → AndroidApp
  | .pairing host => { s.goto t (some (.paired host)) with store := s.store.add host }
  | .paired host => (s.goto t none).connect host
  | .saving host => { s.goto t none with store := s.store.add host }
  | .removing host => { s.goto t none with store := s.store.remove host }
  | .deciding host =>
    if Cgnat.isTailnetAddress host.host then
      { s.goto t (some (.dialing host)) with log := .guard t host.host :: s.log }
    else s.goto t none
  | .dialing host => ((s.goto t none).dial t host.host host.port).conclude host reached
  | .handling p =>
    if Cgnat.isTailnetAddress p.remoteHost then
      { s.goto t (some (.upstream p)) with log := .guard t p.remoteHost :: s.log }
    else s.goto t none
  | .upstream p => (s.goto t none).dial t p.remoteHost p.remotePort

def step {U : Type} (api : UriApi U) (s : AndroidApp) : AppEvent → AndroidApp
  | .showHosts => { s with shown := s.store }
  | .scan raw => raw.elim s (s.handlePairingUri api)
  | .deepLink view data => s.handleDeepLink api view data
  | .addManually ip port magicDns name => s.addManually ip port magicDns name
  | .tap i => s.shown[i]?.elim s s.connect
  | .delete i => s.shown[i]?.elim s fun host => s.spawn (.removing host)
  | .retry i =>
    s.retries[i]?.elim s ({ s with retries := s.retries.eraseIdx i } : AndroidApp).connect
  | .run t reached => (s.tasks t).elim s (s.runTask t reached)
  | .createMain i bound => s.launched[i]?.elim s fun extras => s.onCreate extras bound
  | .startCommand action extras bound => s.onStartCommand action extras bound
  | .destroyService => s.stopProxy
  | .accept i => s.accepting[i]?.elim s fun p => s.spawn (.handling p)

/-! ### Every dial is behind its guard -/

/-- Every dial goes to a canonical literal of the tailnet, and what its task did before was to have
the guard accept the very string. -/
def Guarded : List NetEvent → Prop
  | [] => True
  | .guard _ _ :: earlier => Guarded earlier
  | .dial t host _ :: earlier =>
    earlier.find? (fun e => e.task = t) = some (.guard t host) ∧ Cgnat.OnTailnet host ∧
      Guarded earlier

def Armed (log : List NetEvent) (t : TaskNumber) (task : Task) : Prop :=
  ∀ host, task.target = some host →
    log.find? (fun e => e.task = t) = some (.guard t host) ∧ Cgnat.OnTailnet host

structure Sound (s : AndroidApp) : Prop where
  guarded : Guarded s.log
  armed : ∀ t task, s.tasks t = some task → Armed s.log t task

variable {s s' : AndroidApp} {t t' : TaskNumber} {task : Task} {host : Host} {h : String} {port : ℤ}
  {extras : Extras} {bound : Option ℤ}

theorem Sound.frame (hs : s.Sound) (hlog : s'.log = s.log) (htasks : s'.tasks = s.tasks) :
    s'.Sound where
  guarded := hlog ▸ hs.guarded
  armed t task ht := by
    rw [hlog]
    exact hs.armed t task (htasks ▸ ht)

theorem Sound.update {o : Option Task} (hs : s.Sound)
    (ho : ∀ task, o = some task → task.target = none)
    (hlog : s'.log = s.log) (htasks : s'.tasks = Function.update s.tasks t o) : s'.Sound where
  guarded := hlog ▸ hs.guarded
  armed t' task ht := by
    rw [hlog]
    rw [htasks] at ht
    by_cases hne : t' = t
    · subst hne
      rw [Function.update_self] at ht
      intro h htarget
      rw [ho task ht] at htarget
      cases htarget
    · rw [Function.update_of_ne hne] at ht
      exact hs.armed t' task ht

theorem Sound.spawn (hs : s.Sound) (htask : task.target = none) : (s.spawn task).Sound :=
  hs.update (by rintro _ ⟨⟩; exact htask) rfl rfl

theorem Sound.leave (hs : s.Sound) : (s.goto t none).Sound := hs.update (by simp) rfl rfl

theorem find?_cons_of_ne {log : List NetEvent} {e : NetEvent} (hne : t ≠ e.task) :
    (e :: log).find? (fun e => e.task = t) = log.find? fun e => e.task = t :=
  List.find?_cons_of_neg (by simpa using hne.symm)

theorem armed_cons {e : NetEvent} {log : List NetEvent} (hne : t ≠ e.task)
    (ha : Armed log t task) : Armed (e :: log) t task := by
  intro h htarget
  rw [find?_cons_of_ne hne]
  exact ha h htarget

/-- The guard accepts the string of a task. -/
theorem Sound.arm (hs : s.Sound) (htarget : task.target = some h)
    (hguard : Cgnat.isTailnetAddress h = true) (hlog : s'.log = .guard t h :: s.log)
    (htasks : s'.tasks = Function.update s.tasks t (some task)) : s'.Sound where
  guarded := by
    rw [hlog]
    exact hs.guarded
  armed t' task' ht := by
    rw [hlog]
    rw [htasks] at ht
    by_cases hne : t' = t
    · subst hne
      rw [Function.update_self] at ht
      cases ht
      intro h' htarget'
      obtain rfl := Option.some.inj (htarget.symm.trans htarget')
      exact ⟨List.find?_cons_of_pos (by simp [NetEvent.task]), Cgnat.isTailnetAddress_iff.mp hguard⟩
    · rw [Function.update_of_ne hne] at ht
      exact armed_cons hne (hs.armed t' task' ht)

theorem Sound.dial (hs : s.Sound) (ht : s.tasks t = some task) (htarget : task.target = some h) :
    ((s.goto t none).dial t h port).Sound := by
  unfold AndroidApp.dial
  split_ifs
  · obtain ⟨hlast, htailnet⟩ := hs.armed t task ht h htarget
    constructor
    · exact ⟨hlast, htailnet, hs.guarded⟩
    · intro t' task' ht'
      by_cases hne : t' = t
      · subst hne
        simp only [goto, Function.update_self] at ht'
        cases ht'
      · exact armed_cons hne (hs.leave.armed t' task' ht')
  · exact hs.leave

theorem Sound.connect (hs : s.Sound) : (s.connect host).Sound := by
  unfold AndroidApp.connect
  split_ifs
  · exact hs.spawn rfl
  · exact hs

theorem Sound.stopProxy (hs : s.Sound) : s.stopProxy.Sound := hs.frame rfl rfl

theorem Sound.startProxy (hs : s.Sound) : (s.startProxy h port bound).Sound := by
  unfold AndroidApp.startProxy
  dsimp only
  split
  · exact hs.frame rfl rfl
  · exact hs.frame rfl rfl

theorem Sound.onStartCommand {action : ServiceAction} (hs : s.Sound) :
    (s.onStartCommand action extras bound).Sound := by
  cases action with
  | stop => exact hs.stopProxy
  | other =>
    unfold AndroidApp.onStartCommand
    dsimp only
    split
    · split_ifs
      · exact hs
      · exact hs.startProxy
    · exact hs

theorem Sound.onCreate (hs : s.Sound) : (s.onCreate extras bound).Sound := by
  unfold AndroidApp.onCreate
  split
  · split_ifs
    · exact hs.onStartCommand
    · exact hs
  · exact hs

theorem Sound.conclude {reached : Bool} (hs : s.Sound) : (s.conclude host reached).Sound := by
  unfold AndroidApp.conclude
  split_ifs
  · exact hs.frame rfl rfl
  · exact hs.frame rfl rfl

theorem Sound.runTask {reached : Bool} (hs : s.Sound) (ht : s.tasks t = some task) :
    (s.runTask t reached task).Sound := by
  cases task with
  | pairing host => exact hs.update (o := some (.paired host)) (by rintro _ ⟨⟩; rfl) rfl rfl
  | paired host => exact hs.leave.connect
  | saving host => exact hs.leave.frame rfl rfl
  | removing host => exact hs.leave.frame rfl rfl
  | deciding host =>
    simp only [AndroidApp.runTask]
    split_ifs with hguard
    · exact hs.arm rfl hguard rfl rfl
    · exact hs.leave
  | dialing host => exact (hs.dial ht rfl).conclude
  | handling p =>
    simp only [AndroidApp.runTask]
    split_ifs with hguard
    · exact hs.arm rfl hguard rfl rfl
    · exact hs.leave
  | upstream p => exact hs.dial ht rfl

theorem Sound.elim {α : Type*} {o : Option α} {f : α → AndroidApp} (hs : s.Sound)
    (hf : ∀ a, o = some a → (f a).Sound) : (o.elim s f).Sound := by
  cases o with
  | none => exact hs
  | some a => exact hf a rfl

section

variable {U : Type} {api : UriApi U}

theorem Sound.handlePairingUri (hs : s.Sound) : (s.handlePairingUri api h).Sound := by
  unfold AndroidApp.handlePairingUri
  split
  · exact hs.spawn rfl
  · exact hs

theorem Sound.step {e : AppEvent} (hs : s.Sound) : (s.step api e).Sound := by
  cases e with
  | showHosts => exact hs.frame rfl rfl
  | scan raw => exact hs.elim fun _ _ => hs.handlePairingUri
  | deepLink view data =>
    simp only [AndroidApp.step, handleDeepLink]
    split
    · exact hs.handlePairingUri
    · exact hs
  | addManually ip port magicDns name =>
    simp only [AndroidApp.step, AndroidApp.addManually]
    split_ifs
    · exact hs
    · exact hs.spawn rfl
  | tap i => exact hs.elim fun _ _ => hs.connect
  | delete i => exact hs.elim fun _ _ => hs.spawn rfl
  | retry i => exact hs.elim fun _ _ => Sound.connect (hs.frame rfl rfl)
  | run t reached => exact hs.elim fun _ ht => hs.runTask ht
  | createMain i bound => exact hs.elim fun _ _ => hs.onCreate
  | startCommand action extras bound => exact hs.onStartCommand
  | destroyService => exact hs.stopProxy
  | accept i => exact hs.elim fun _ _ => hs.spawn rfl

/-- Whatever is stored, scanned, typed, tapped or started, every off-device dial goes to the very
string that its guard accepted, a canonical literal in 100.64.0.0/10. -/
theorem dials_guarded {U : Type} (api : UriApi U) (store : HostStore) (es : List AppEvent) :
    Transition.Always (AndroidApp.step api) (fun s => Guarded s.log) (new store) es := by
  have hnew : (new store).Sound := ⟨trivial, fun _ _ ht => by cases ht⟩
  have hsound : Transition.Always (AndroidApp.step api) Sound (new store) es := fun pre _ =>
    Transition.run_invariant (fun _ _ hs => hs.step) hnew pre
  exact hsound.mono fun _ hs => hs.guarded

end

end AndroidApp

end Urc
