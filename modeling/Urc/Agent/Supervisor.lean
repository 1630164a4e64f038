import Urc.Library.Run
import Mathlib.Algebra.Group.Nat.Defs
import Mathlib.Logic.Function.Basic

/-! # The supervisor and its shutdown

`run_supervisor` waits for a session, spawns the VNC loop and stays in the status loop. When the
status loop returns, it aborts the VNC task: the task goes no further than an await at which it
is suspended; one that is ready at once it still passes. An event lets one task run to its next
await, or to its next look at the shutdown flag.
-/

namespace Urc

def recoveryPauseSecs : ℕ := 5
def recoveryPauseMaxSecs : ℕ := 300
def saturationCooldownSecs : ℕ := 60

def backoffSecs (attempt : ℕ) : ℕ :=
  min (recoveryPauseSecs * 2 ^ (min attempt 6 - 1)) recoveryPauseMaxSecs

/-- A backend that the VNC loop has built; the numbers count up. -/
abbrev BackendId := ℕ

/-- The VNC process of a backend. `killed` is a process with a signal sent, not yet waited for. -/
inductive VncChild
  | none
  | running
  | killed
  | reaped
  deriving DecidableEq

/-- What `vnc_supervisor_loop` does after `backend.stop()`. -/
inductive AfterStop
  | exit
  | restart
  | backoff (secs : ℕ)
  deriving DecidableEq

/-- Where the VNC task stands. At the head of the loop and while it detects the session it is not
at an await. -/
inductive VncPc
  | unspawned
  | top
  | detecting
  | starting
  | polling
  | checking
  | stopping (next : AfterStop)
  | pausing (secs : ℕ)
  | reaping
  | returned
  | cancelled
  deriving DecidableEq

/-- Where `run_supervisor` stands. -/
inductive MainPc
  | waiting
  | serving
  | tearingDown
  | returned
  deriving DecidableEq

/-- `current` is the backend of the VNC loop; `started` and `stopped` are the histories of the
backends whose `start` was entered and whose `stop` has run to its end. -/
structure Supervisor where
  shutdown : Bool
  main : MainPc
  vnc : VncPc
  aborted : Bool
  attempt : ℕ
  current : BackendId
  started : List BackendId
  stopped : List BackendId
  children : BackendId → VncChild

inductive SupervisorEvent
  | signal
  | waitInterrupted
  | sessionReady (bound : Bool)
  | statusLoopReturns
  | mainReturns
  | head
  | build (ok : Bool)
  | spawnChild
  | startReaps
  | startOk
  | startFails (saturated : Bool)
  | tick
  | checked (healthy : Bool)
  | sawShutdown
  | killChild
  | stopDone
  | wake
  | cancel
  deriving DecidableEq

namespace VncPc

def awaiting : VncPc → Bool
  | .starting | .polling | .checking | .stopping _ | .pausing _ | .reaping => true
  | _ => false

/-- `start` was entered, and `stop` has not ended. -/
def holding : VncPc → Bool
  | .starting | .polling | .checking | .stopping _ => true
  | _ => false

end VncPc

namespace Supervisor

def new : Supervisor :=
  ⟨false, .waiting, .unspawned, false, 0, 0, [], [], fun _ => .none⟩

def setChild (s : Supervisor) (c : VncChild) : Supervisor :=
  { s with children := Function.update s.children s.current c }

/-- The end of `backend.stop()`: the child is waited for. -/
def stopDone (s : Supervisor) (next : AfterStop) : Supervisor :=
  let child := if s.children s.current = .none then VncChild.none else .reaped
  { s.setChild child with
    stopped := s.stopped ++ [s.current]
    vnc := match next with
      | .exit => .returned
      | .restart => .reaping
      | .backoff secs => .pausing secs }

def step (s : Supervisor) : SupervisorEvent → Supervisor
  | .signal => { s with shutdown := true }
  | .waitInterrupted =>
    if s.main = .waiting ∧ s.shutdown then { s with main := .returned } else s
  | .sessionReady bound =>
    if s.main = .waiting then
      -- the early return of a shutdown, and the error of `spawn_serving_stack`
      if s.shutdown || !bound then { s with main := .returned }
      else { s with main := .serving, vnc := .top }
    else s
  | .statusLoopReturns =>
    if s.main = .serving ∧ s.shutdown then { s with main := .tearingDown, aborted := true } else s
  | .mainReturns => if s.main = .tearingDown then { s with main := .returned } else s
  | .head =>
    if s.vnc = .top then
      if s.shutdown then { s with vnc := .returned }
      else { s with vnc := .detecting, attempt := min (s.attempt + 1) 4294967295 }
    else s
  | .build ok =>
    if s.vnc = .detecting then
      if ok then
        { s with
          vnc := .starting, current := s.current + 1, started := s.started ++ [s.current + 1] }
      else { s with vnc := .pausing (backoffSecs s.attempt) }
    else s
  | .spawnChild =>
    if s.vnc = .starting ∧ s.children s.current = .none then s.setChild .running else s
  -- an X11 backend that never comes up takes its child back before `start` fails
  | .startReaps =>
    if s.vnc = .starting ∧ s.children s.current = .running then s.setChild .reaped else s
  | .startOk => if s.vnc = .starting then { s with vnc := .polling, attempt := 0 } else s
  | .startFails saturated =>
    if s.vnc = .starting then
      if saturated then { s with vnc := .stopping (.backoff saturationCooldownSecs), attempt := 1 }
      else { s with vnc := .stopping (.backoff (backoffSecs s.attempt)) }
    else s
  | .tick => if s.vnc = .polling then { s with vnc := .checking } else s
  | .checked healthy =>
    if s.vnc = .checking then { s with vnc := if healthy then .polling else .stopping .restart }
    else s
  | .sawShutdown =>
    if s.vnc = .polling ∧ s.shutdown then { s with vnc := .stopping .exit } else s
  | .killChild =>
    match s.vnc with
    | .stopping _ => if s.children s.current = .running then s.setChild .killed else s
    | _ => s
  | .stopDone =>
    match s.vnc with
    | .stopping next => s.stopDone next
    | _ => s
  | .wake =>
    match s.vnc with
    | .pausing _ => { s with vnc := if s.shutdown then .returned else .top }
    | .reaping => { s with vnc := .top }
    | _ => s
  | .cancel => if s.aborted ∧ s.vnc.awaiting then { s with vnc := .cancelled } else s

/-- When `run_supervisor` has returned, every backend whose `start` was entered is stopped, and no
VNC process is left. -/
def CleanExit (s : Supervisor) : Prop :=
  s.main = .returned → (∀ b ∈ s.started, b ∈ s.stopped) ∧
    ∀ b, s.children b ≠ .running ∧ s.children b ≠ .killed

/-- The status loop returns while the VNC loop neither holds a backend nor is about to start one. -/
def Released (s : Supervisor) : SupervisorEvent → Prop
  | .statusLoopReturns => s.main = .serving → s.shutdown = true →
      s.vnc.holding = false ∧ s.vnc ≠ .detecting
  | _ => True

/-! ### The backend in hand -/

variable {s s' : Supervisor} {e : SupervisorEvent}

/-- Only the current backend can be in want of its `stop`, and an aborted VNC loop has none. -/
structure Accounted (s : Supervisor) : Prop where
  stops : ∀ b ∈ s.started, b ∈ s.stopped ∨ b = s.current ∧ s.vnc.holding = true
  children : ∀ b, s.children b = .running ∨ s.children b = .killed →
    b = s.current ∧ s.vnc.holding = true
  fresh : ∀ b, s.current < b → s.children b = .none
  aborted : s.aborted = true → s.shutdown = true ∧ s.vnc.holding = false ∧ s.vnc ≠ .detecting
  ended : s.main = .tearingDown ∨ s.main = .returned → s.aborted = true ∨ s.vnc = .unspawned
  unspawned : s.main = .waiting → s.vnc = .unspawned

theorem accounted_new : new.Accounted := by
  constructor <;> simp [new]

theorem Accounted.cleanExit (hs : s.Accounted) : s.CleanExit := by
  intro hmain
  have hfree : s.vnc.holding = false := by
    rcases hs.ended (.inr hmain) with ha | hu
    · exact (hs.aborted ha).2.1
    · rw [hu]
      rfl
  have hnot : ∀ b, ¬ (b = s.current ∧ s.vnc.holding = true) := by
    rintro b ⟨-, hb⟩
    rw [hfree] at hb
    cases hb
  exact ⟨fun b hb => (hs.stops b hb).resolve_right (hnot b),
    fun b => ⟨fun hc => hnot b (hs.children b (.inl hc)),
      fun hc => hnot b (hs.children b (.inr hc))⟩⟩

/-- The VNC loop moves without a change of backend, and does not let one go. -/
theorem Accounted.goto {pc : VncPc} {attempt : ℕ} (hs : s.Accounted)
    (hspawned : s.vnc ≠ .unspawned) (hhold : s.vnc.holding = true → pc.holding = true)
    (haborted : s.aborted = true → pc.holding = false ∧ pc ≠ .detecting) :
    ({ s with vnc := pc, attempt := attempt } : Supervisor).Accounted where
  stops b hb := (hs.stops b hb).imp_right fun hc => ⟨hc.1, hhold hc.2⟩
  children b hb := ⟨(hs.children b hb).1, hhold (hs.children b hb).2⟩
  fresh := hs.fresh
  aborted ha := ⟨(hs.aborted ha).1, haborted ha⟩
  ended he := .inl ((hs.ended he).resolve_right hspawned)
  unspawned hm := absurd (hs.unspawned hm) hspawned

theorem Accounted.not_aborted (hs : s.Accounted) (h : s.vnc.holding = true ∨ s.vnc = .detecting) :
    s.aborted ≠ true := by
  intro ha
  obtain ⟨-, hhold, hdet⟩ := hs.aborted ha
  rcases h with h | h
  · rw [h] at hhold
    cases hhold
  · exact hdet h

theorem Accounted.carry {pc : VncPc} {attempt : ℕ} (hs : s.Accounted) (h : s.vnc.holding = true)
    (hpc : pc.holding = true) :
    ({ s with vnc := pc, attempt := attempt } : Supervisor).Accounted := by
  refine hs.goto ?_ (fun _ => hpc) fun ha => absurd ha (hs.not_aborted (.inl h))
  rintro hu
  rw [hu] at h
  cases h

theorem setChild_children {b : BackendId} {c : VncChild} :
    (s.setChild c).children b = if b = s.current then c else s.children b := by
  simp [setChild, Function.update_apply]

theorem Accounted.setChild {c : VncChild} (hs : s.Accounted) (h : s.vnc.holding = true) :
    (s.setChild c).Accounted where
  stops := hs.stops
  children b hb := by
    rw [setChild_children] at hb
    split_ifs at hb with hc
    · exact ⟨hc, h⟩
    · exact hs.children b hb
  fresh b hb := by
    have hne : b ≠ s.current := Nat.ne_of_gt hb
    rw [setChild_children, if_neg hne]
    exact hs.fresh b hb
  aborted := hs.aborted
  ended := hs.ended
  unspawned := hs.unspawned

theorem Accounted.build (hs : s.Accounted) (hpc : s.vnc = .detecting) :
    Accounted { s with
      vnc := .starting, current := s.current + 1, started := s.started ++ [s.current + 1] } := by
  have hfree : s.vnc.holding ≠ true := by simp [hpc, VncPc.holding]
  constructor
  · intro b hb
    rcases List.mem_append.mp hb with hb | hb
    · exact .inl ((hs.stops b hb).resolve_right fun hc => hfree hc.2)
    · exact .inr ⟨List.mem_singleton.mp hb, rfl⟩
  · exact fun b hb => absurd (hs.children b hb).2 hfree
  · exact fun b hb => hs.fresh b (Nat.lt_of_succ_lt hb)
  · exact fun ha => absurd ha (hs.not_aborted (.inr hpc))
  · exact fun he => .inl ((hs.ended he).resolve_right (by simp [hpc]))
  · intro hm
    have hu := hs.unspawned hm
    rw [hpc] at hu
    cases hu

theorem Accounted.stopDone {next : AfterStop} (hs : s.Accounted) (hpc : s.vnc = .stopping next) :
    (s.stopDone next).Accounted := by
  have hhold : s.vnc.holding = true := by rw [hpc]; rfl
  have hna := hs.not_aborted (.inl hhold)
  constructor
  · intro b hb
    refine .inl (List.mem_append.mpr ?_)
    exact (hs.stops b hb).imp_right fun hc => List.mem_singleton.mpr hc.1
  · intro b hb
    have hc : b = s.current := by
      by_contra hne
      have hsame : (s.stopDone next).children b = s.children b := Function.update_of_ne hne _ _
      rw [hsame] at hb
      exact hne (hs.children b hb).1
    subst hc
    have hself : (s.stopDone next).children s.current =
        if s.children s.current = .none then VncChild.none else .reaped := Function.update_self ..
    rw [hself] at hb
    split_ifs at hb
    · rcases hb with hb | hb <;> cases hb
    · rcases hb with hb | hb <;> cases hb
  · intro b hb
    have hsame : (s.stopDone next).children b = s.children b :=
      Function.update_of_ne (Nat.ne_of_gt hb) _ _
    rw [hsame]
    exact hs.fresh b hb
  · exact fun ha => absurd ha hna
  · exact fun he => .inl ((hs.ended he).resolve_right (by simp [hpc]))
  · intro hm
    have hu := hs.unspawned hm
    rw [hpc] at hu
    cases hu

theorem Accounted.setMain {m : MainPc} (hs : s.Accounted) (hm : m ≠ .waiting)
    (hended : m = .tearingDown ∨ m = .returned → s.aborted = true ∨ s.vnc = .unspawned) :
    Accounted { s with main := m } :=
  ⟨hs.stops, hs.children, hs.fresh, hs.aborted, hended, fun h => absurd h hm⟩

theorem Accounted.waitInterrupted (hs : s.Accounted) : (s.step .waitInterrupted).Accounted := by
  unfold Supervisor.step
  dsimp only
  split_ifs with hm
  · exact hs.setMain (by simp) fun _ => .inr (hs.unspawned hm.1)
  · exact hs

theorem Accounted.sessionReady (hs : s.Accounted) (bound : Bool) :
    (s.step (.sessionReady bound)).Accounted := by
  unfold Supervisor.step
  dsimp only
  split_ifs with hm hret
  · exact hs.setMain (by simp) fun _ => .inr (hs.unspawned hm)
  · have hfree : s.vnc.holding ≠ true := by simp [hs.unspawned hm, VncPc.holding]
    refine ⟨?_, ?_, hs.fresh, fun ha => ⟨(hs.aborted ha).1, rfl, by simp⟩, ?_, ?_⟩
    · exact fun b hb => .inl ((hs.stops b hb).resolve_right fun hc => hfree hc.2)
    · exact fun b hb => absurd (hs.children b hb).2 hfree
    · rintro (h | h) <;> cases h
    · exact fun h => by cases h
  · exact hs

theorem Accounted.statusLoopReturns (hs : s.Accounted) (hgood : s.Released .statusLoopReturns) :
    (s.step .statusLoopReturns).Accounted := by
  unfold Supervisor.step
  dsimp only
  split_ifs with hm
  · exact ⟨hs.stops, hs.children, hs.fresh, fun _ => ⟨hm.2, hgood hm.1 hm.2⟩, fun _ => .inl rfl,
      fun h => by cases h⟩
  · exact hs

theorem Accounted.mainReturns (hs : s.Accounted) : (s.step .mainReturns).Accounted := by
  unfold Supervisor.step
  dsimp only
  split_ifs with hm
  · exact hs.setMain (by simp) fun _ => hs.ended (.inl hm)
  · exact hs

theorem Accounted.head (hs : s.Accounted) : (s.step .head).Accounted := by
  unfold Supervisor.step
  dsimp only
  split_ifs with hpc hdown
  · exact hs.goto (by simp [hpc]) (by simp [hpc, VncPc.holding]) fun _ => ⟨rfl, by simp⟩
  · refine hs.goto (by simp [hpc]) (by simp [hpc, VncPc.holding]) fun ha => ?_
    exact absurd (hs.aborted ha).1 hdown
  · exact hs

theorem Accounted.step_build (hs : s.Accounted) (ok : Bool) :
    (s.step (.build ok)).Accounted := by
  unfold Supervisor.step
  dsimp only
  split_ifs with hpc
  · exact hs.build hpc
  · exact hs.goto (by simp [hpc]) (by simp [hpc, VncPc.holding]) fun _ => ⟨rfl, by simp⟩
  · exact hs

theorem Accounted.startFails (hs : s.Accounted) (saturated : Bool) :
    (s.step (.startFails saturated)).Accounted := by
  unfold Supervisor.step
  dsimp only
  split_ifs with hpc
  · exact hs.carry (by rw [hpc]; rfl) rfl
  · exact hs.carry (by rw [hpc]; rfl) rfl
  · exact hs

theorem Accounted.checked (hs : s.Accounted) (healthy : Bool) :
    (s.step (.checked healthy)).Accounted := by
  unfold Supervisor.step
  dsimp only
  split_ifs with hpc
  · exact hs.carry (by rw [hpc]; rfl) rfl
  · exact hs.carry (by rw [hpc]; rfl) rfl
  · exact hs

theorem Accounted.killChild (hs : s.Accounted) : (s.step .killChild).Accounted := by
  unfold Supervisor.step
  dsimp only
  split
  · rename_i next hpc
    split_ifs
    · exact hs.setChild (by rw [hpc]; rfl)
    · exact hs
  · exact hs

theorem Accounted.wake (hs : s.Accounted) : (s.step .wake).Accounted := by
  unfold Supervisor.step
  dsimp only
  split
  · rename_i secs hpc
    split_ifs
    · exact hs.goto (by simp [hpc]) (by simp [hpc, VncPc.holding]) fun _ => ⟨rfl, by simp⟩
    · exact hs.goto (by simp [hpc]) (by simp [hpc, VncPc.holding]) fun _ => ⟨rfl, by simp⟩
  · rename_i hpc
    exact hs.goto (by simp [hpc]) (by simp [hpc, VncPc.holding]) fun _ => ⟨rfl, by simp⟩
  · exact hs

/-- A VNC loop that is cancelled has let its backend go before. -/
theorem Accounted.cancel (hs : s.Accounted) : (s.step .cancel).Accounted := by
  unfold Supervisor.step
  dsimp only
  split_ifs with hc
  · refine hs.goto ?_ ?_ fun _ => ⟨rfl, by simp⟩
    · intro hu
      simp [hu, VncPc.awaiting] at hc
    · exact fun hh => absurd hc.1 (hs.not_aborted (.inl hh))
  · exact hs

theorem Accounted.step (hs : s.Accounted) (hgood : s.Released e) : (s.step e).Accounted := by
  cases e with
  | signal =>
    exact ⟨hs.stops, hs.children, hs.fresh, fun ha => ⟨rfl, (hs.aborted ha).2⟩, hs.ended,
      hs.unspawned⟩
  | waitInterrupted => exact hs.waitInterrupted
  | sessionReady bound => exact hs.sessionReady bound
  | statusLoopReturns => exact hs.statusLoopReturns hgood
  | mainReturns => exact hs.mainReturns
  | head => exact hs.head
  | build ok => exact hs.step_build ok
  | startFails saturated => exact hs.startFails saturated
  | checked healthy => exact hs.checked healthy
  | killChild => exact hs.killChild
  | wake => exact hs.wake
  | cancel => exact hs.cancel
  | spawnChild | startReaps =>
    unfold Supervisor.step
    dsimp only
    split_ifs with hpc
    · exact hs.setChild (by rw [hpc.1]; rfl)
    · exact hs
  | startOk | tick =>
    unfold Supervisor.step
    dsimp only
    split_ifs with hpc
    · exact hs.carry (by rw [hpc]; rfl) rfl
    · exact hs
  | sawShutdown =>
    unfold Supervisor.step
    dsimp only
    split_ifs with hpc
    · exact hs.carry (by rw [hpc.1]; rfl) rfl
    · exact hs
  | stopDone =>
    unfold Supervisor.step
    dsimp only
    split
    · next next hpc => exact hs.stopDone hpc
    · exact hs

/-- If the status loop returns only while the VNC loop has no backend in hand, `run_supervisor`
leaves nothing running behind. -/
theorem shutdown_clean (es : List SupervisorEvent)
    (h : Transition.Steps Supervisor.step Released new es) :
    Transition.Always Supervisor.step CleanExit new es := by
  have hacc := h.always (fun _ _ hs hgood => hs.step hgood) accounted_new
  exact hacc.mono fun _ hs => hs.cleanExit

def sharing : List SupervisorEvent :=
  [.sessionReady true, .head, .build true, .spawnChild, .startOk]

/-- The VNC loop happens to see the signal first, and is through with `stop` in time. -/
theorem shutdown_clean_in_time :
    Transition.Steps Supervisor.step Released new
      (sharing ++ [.signal, .sawShutdown, .killChild, .stopDone, .statusLoopReturns,
        .mainReturns]) ∧
    Transition.Always Supervisor.step CleanExit new
      (sharing ++ [.signal, .sawShutdown, .killChild, .stopDone, .statusLoopReturns,
        .mainReturns]) := by
  have h : Transition.Steps Supervisor.step Released new
      (sharing ++ [.signal, .sawShutdown, .killChild, .stopDone, .statusLoopReturns,
        .mainReturns]) := by
    simp only [sharing, List.cons_append, List.nil_append, Transition.steps_cons, Released,
      true_and]
    exact ⟨fun _ _ => ⟨by decide +kernel, by decide +kernel⟩, trivial⟩
  exact ⟨h, shutdown_clean _ h⟩

/-- The status loop sees the signal first: the VNC process outlives the agent. -/
theorem orphaned_vnc : ¬ ∀ es : List SupervisorEvent,
    Transition.Always Supervisor.step CleanExit new es := by
  intro h
  have hrun := h (sharing ++ [.signal, .statusLoopReturns, .cancel, .mainReturns]) _
    List.prefix_rfl (by decide +kernel)
  exact (hrun.2 1).1 (by decide +kernel)

end Supervisor

end Urc
