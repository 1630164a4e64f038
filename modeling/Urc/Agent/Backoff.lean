import Urc.Agent.Supervisor
import Mathlib.Data.List.DropRight

/-! # Retry pauses

The pauses between the attempts of `vnc_supervisor_loop` and of `supervise_tunnel`, over the
outcomes of the attempts. Both loops clamp their counter before the shift, below where the
declared maximum would be reached, and neither counts from the start of the present streak of
failures in every case.
-/

namespace Urc

def tunnelRetrySecs : ℕ := 2
def tunnelRetryMaxSecs : ℕ := 30

/-- The pause of both loops: `attempt`, clamped, sets the shift. -/
def clampedPause (base max clamp attempt : ℕ) : ℕ := min (base * 2 ^ (min attempt clamp - 1)) max

/-- The pause before the retry of `supervise_tunnel`. -/
def tunnelPause (attempt : ℕ) : ℕ := clampedPause tunnelRetrySecs tunnelRetryMaxSecs 3 attempt

/-- How an attempt of the VNC loop ends: the backend was up and its health check failed, `start`
failed on a saturated display, `start` failed otherwise, or the backend could not be built. -/
inductive VncOutcome
  | dropped
  | saturated
  | failed
  | unbuilt
  deriving DecidableEq

/-- How an attempt of a tunnel ends: `serve` has run and returned, or the tunnel could not be
built or bound. -/
inductive TunnelOutcome
  | served
  | failed
  deriving DecidableEq

/-- `saturating_add(1)` of a `u32`. -/
def nextAttempt (attempt : ℕ) : ℕ := min (attempt + 1) 4294967295

namespace VncOutcome

/-- A failure that is not a saturation. -/
def transient : VncOutcome → Bool
  | .failed | .unbuilt => true
  | _ => false

/-- One pass of the loop: `attempt` at its end, and the pause with `sleep_or_shutdown`. -/
def pass (attempt : ℕ) : VncOutcome → ℕ × Option ℕ
  | .dropped => (0, none)
  | .saturated => (1, some saturationCooldownSecs)
  | .failed | .unbuilt => (nextAttempt attempt, some (backoffSecs (nextAttempt attempt)))

/-- `attempt` after a history of outcomes, the oldest first. -/
def attempts (os : List VncOutcome) : ℕ := Transition.run (fun a o => (pass a o).1) 0 os

def streak (os : List VncOutcome) : ℕ := (os.rtakeWhile transient).length

/-- The streak at the end of a history began after a cooldown. -/
def cooled (os : List VncOutcome) : Bool := (os.rdropWhile transient).getLast? = some .saturated

def events : VncOutcome → List SupervisorEvent
  | .dropped => [.head, .build true, .startOk, .tick, .checked false, .stopDone]
  | .saturated => [.head, .build true, .startFails true, .stopDone]
  | .failed => [.head, .build true, .startFails false, .stopDone]
  | .unbuilt => [.head, .build false]

end VncOutcome

namespace TunnelOutcome

def pass (attempt : ℕ) (_ : TunnelOutcome) : ℕ × ℕ :=
  (nextAttempt attempt, tunnelPause (nextAttempt attempt))

def attempts (os : List TunnelOutcome) : ℕ := Transition.run (fun a o => (pass a o).1) 0 os

def streak (os : List TunnelOutcome) : ℕ := (os.rtakeWhile (· = .failed)).length

end TunnelOutcome

/-- The pause after `k` failures in a row, by the constants. -/
def declaredPause (base max k : ℕ) : ℕ := min (base * 2 ^ (k - 1)) max

namespace VncOutcome

/-- Every pause of a history is the declared one. -/
def Declared (os : List VncOutcome) : Prop :=
  ∀ pre o, pre ++ [o] <+: os →
    (o.transient = true → (pass (attempts pre) o).2 =
      some (declaredPause recoveryPauseSecs recoveryPauseMaxSecs (streak (pre ++ [o])))) ∧
    (o = .saturated → (pass (attempts pre) o).2 = some saturationCooldownSecs)

/-- Every transient failure is at most the sixth of its streak, and if the streak began after a
cooldown, it is the sixth. -/
def Reached (os : List VncOutcome) : Prop :=
  ∀ pre o, pre ++ [o] <+: os → o.transient = true →
    streak (pre ++ [o]) ≤ 6 ∧ (cooled (pre ++ [o]) = true → streak (pre ++ [o]) = 6)

end VncOutcome

namespace TunnelOutcome

def Declared (os : List TunnelOutcome) : Prop :=
  ∀ pre o, pre ++ [o] <+: os → o = .failed → (pass (attempts pre) o).2 =
    declaredPause tunnelRetrySecs tunnelRetryMaxSecs (streak (pre ++ [o]))

/-- Every failure is at most the third of its streak, and if the tunnel has served before, it is
the third. -/
def Reached (os : List TunnelOutcome) : Prop :=
  ∀ pre o, pre ++ [o] <+: os → o = .failed →
    streak (pre ++ [o]) ≤ 3 ∧ (.served ∈ pre → streak (pre ++ [o]) = 3)

end TunnelOutcome

/-! ### The clamp -/

variable {base max clamp attempt k : ℕ}

theorem backoffSecs_eq (attempt : ℕ) :
    backoffSecs attempt = clampedPause recoveryPauseSecs recoveryPauseMaxSecs 6 attempt := rfl

theorem clampedPause_eq_iff (hbase : 0 < base) (hclamp : base * 2 ^ (clamp - 1) < max)
    (hc : 0 < clamp) (ha : 0 < attempt) (hk : 0 < k) :
    clampedPause base max clamp attempt = declaredPause base max k ↔ min attempt clamp = k := by
  have hle : base * 2 ^ (min attempt clamp - 1) ≤ base * 2 ^ (clamp - 1) :=
    Nat.mul_le_mul_left _ (Nat.pow_le_pow_right (by omega) (by omega))
  have hleft : clampedPause base max clamp attempt = base * 2 ^ (min attempt clamp - 1) :=
    Nat.min_eq_left (by omega)
  rw [hleft]
  constructor
  · intro h
    have hright : declaredPause base max k = base * 2 ^ (k - 1) := by
      unfold declaredPause at h ⊢
      omega
    rw [hright] at h
    have hpow := Nat.eq_of_mul_eq_mul_left hbase h
    have hexp : min attempt clamp - 1 = k - 1 := Nat.pow_right_injective (le_refl 2) hpow
    omega
  · rintro rfl
    exact (Nat.min_eq_left (by omega)).symm

/-! ### The counter of the VNC loop -/

namespace VncOutcome

variable {os pre : List VncOutcome} {o : VncOutcome}

theorem attempts_concat (os : List VncOutcome) (o : VncOutcome) :
    attempts (os ++ [o]) = (pass (attempts os) o).1 := Transition.run_append ..

theorem streak_concat (os : List VncOutcome) (o : VncOutcome) :
    streak (os ++ [o]) = if o.transient then streak os + 1 else 0 := by
  rw [streak, streak, List.rtakeWhile_concat]
  split_ifs <;> simp

theorem cooled_concat (os : List VncOutcome) (o : VncOutcome) :
    cooled (os ++ [o]) = if o.transient then cooled os else decide (o = .saturated) := by
  rw [cooled, cooled, List.rdropWhile_concat]
  split_ifs <;> simp

/-- The counter counts the streak, and a cooldown before it. -/
theorem attempts_eq (os : List VncOutcome) :
    attempts os = min (streak os + if cooled os then 1 else 0) 4294967295 := by
  induction os using List.reverseRec with
  | nil => rfl
  | append_singleton os o ih =>
    rw [attempts_concat, streak_concat, cooled_concat]
    cases o with
    | dropped => rfl
    | saturated => rfl
    | failed =>
      simp only [pass, nextAttempt, transient, if_true, ih]
      omega
    | unbuilt =>
      simp only [pass, nextAttempt, transient, if_true, ih]
      omega

theorem pass_transient (h : o.transient = true) (attempt : ℕ) :
    (pass attempt o).2 = some (backoffSecs (nextAttempt attempt)) := by
  cases o <;> first | rfl | cases h

theorem pass_declared_iff (h : o.transient = true) :
    (pass (attempts pre) o).2 =
        some (declaredPause recoveryPauseSecs recoveryPauseMaxSecs (streak (pre ++ [o]))) ↔
      streak (pre ++ [o]) ≤ 6 ∧ (cooled (pre ++ [o]) = true → streak (pre ++ [o]) = 6) := by
  have hk : 0 < streak (pre ++ [o]) := by
    rw [streak_concat, if_pos h]
    omega
  have ha : nextAttempt (attempts pre) =
      min (streak (pre ++ [o]) + if cooled (pre ++ [o]) then 1 else 0) 4294967295 := by
    rw [attempts_eq, streak_concat, cooled_concat, if_pos h, if_pos h, nextAttempt]
    omega
  have hpos : 0 < nextAttempt (attempts pre) := by
    rw [ha]
    omega
  rw [pass_transient h, Option.some_inj, backoffSecs_eq,
    clampedPause_eq_iff (by decide) (by decide) (by decide) hpos hk, ha]
  cases cooled (pre ++ [o]) with
  | true => simp only [if_true, true_implies]; omega
  | false => simp only [Bool.false_eq_true, if_false, false_implies, and_true]; omega

theorem declared_iff : Declared os ↔ Reached os := by
  constructor
  · intro h pre o hp ho
    exact (pass_declared_iff ho).mp ((h pre o hp).1 ho)
  · intro h pre o hp
    refine ⟨fun ho => (pass_declared_iff ho).mpr (h pre o hp ho), ?_⟩
    rintro rfl
    rfl

/-- A pass of the task of the VNC loop, from the head of the loop to its pause. -/
theorem run_events (s : Supervisor) (hpc : s.vnc = .top) (hdown : s.shutdown = false)
    (o : VncOutcome) :
    (Transition.run Supervisor.step s o.events).attempt = (pass s.attempt o).1 ∧
      (Transition.run Supervisor.step s o.events).vnc =
        (pass s.attempt o).2.elim VncPc.reaping VncPc.pausing := by
  cases o <;>
    simp [events, Supervisor.step, Supervisor.stopDone, Supervisor.setChild, hpc, hdown, pass,
      nextAttempt]

end VncOutcome

/-! ### The counter of a tunnel -/

namespace TunnelOutcome

variable {os pre : List TunnelOutcome}

theorem attempts_eq (os : List TunnelOutcome) : attempts os = min os.length 4294967295 := by
  induction os using List.reverseRec with
  | nil => rfl
  | append_singleton os o ih =>
    have hstep : attempts (os ++ [o]) = nextAttempt (attempts os) := Transition.run_append ..
    rw [hstep, ih, nextAttempt, List.length_append, List.length_singleton]
    omega

theorem streak_failed (os : List TunnelOutcome) : streak (os ++ [.failed]) = streak os + 1 := by
  rw [streak, streak, List.rtakeWhile_concat]
  simp

theorem streak_le (os : List TunnelOutcome) :
    streak os ≤ os.length ∧ (streak os = os.length ↔ TunnelOutcome.served ∉ os) := by
  induction os using List.reverseRec with
  | nil => simp [streak]
  | append_singleton os o ih =>
    cases o with
    | served => simp [streak]
    | failed =>
      rw [streak_failed]
      simpa using ih

theorem pass_declared_iff :
    (pass (attempts pre) .failed).2 =
        declaredPause tunnelRetrySecs tunnelRetryMaxSecs (streak (pre ++ [.failed])) ↔
      streak (pre ++ [.failed]) ≤ 3 ∧ (.served ∈ pre → streak (pre ++ [.failed]) = 3) := by
  obtain ⟨hle, heq⟩ := streak_le pre
  have ha : nextAttempt (attempts pre) = min (pre.length + 1) 4294967295 := by
    rw [attempts_eq, nextAttempt]
    omega
  rw [streak_failed]
  have hpos : 0 < nextAttempt (attempts pre) := by omega
  have hiff : clampedPause tunnelRetrySecs tunnelRetryMaxSecs 3 (nextAttempt (attempts pre)) =
      declaredPause tunnelRetrySecs tunnelRetryMaxSecs (streak pre + 1) ↔
        min (nextAttempt (attempts pre)) 3 = streak pre + 1 :=
    clampedPause_eq_iff (by decide) (by decide) (by decide) hpos (Nat.succ_pos _)
  refine hiff.trans ?_
  rw [ha]
  by_cases hs : TunnelOutcome.served ∈ pre
  · have hne : streak pre ≠ pre.length := fun h => heq.mp h hs
    simp only [hs, true_implies]
    omega
  · have heq' := heq.mpr hs
    simp only [hs, false_implies, and_true]
    omega

theorem declared_iff : Declared os ↔ Reached os := by
  constructor
  · intro h pre o hp ho
    obtain rfl := ho
    exact pass_declared_iff.mp (h pre _ hp rfl)
  · intro h pre o hp ho
    obtain rfl := ho
    exact pass_declared_iff.mpr (h pre _ hp rfl)

end TunnelOutcome

/-- The pauses of both loops are as declared exactly for the histories whose failures lie where
the clamped counters still follow the streaks. -/
theorem retry_pauses_declared_iff (vnc : List VncOutcome) (tunnel : List TunnelOutcome) :
    (VncOutcome.Declared vnc ↔ VncOutcome.Reached vnc) ∧
      (TunnelOutcome.Declared tunnel ↔ TunnelOutcome.Reached tunnel) :=
  ⟨VncOutcome.declared_iff, TunnelOutcome.declared_iff⟩

/-- The failure after a cooldown does not start from the short pause, the seventh failure does not
reach the maximum, and a tunnel that has served once keeps its long pause. -/
theorem backoff_off_declared :
    ¬ (∀ (vnc : List VncOutcome) (tunnel : List TunnelOutcome),
      VncOutcome.Declared vnc ∧ TunnelOutcome.Declared tunnel) ∧
    (VncOutcome.pass (VncOutcome.attempts [.saturated]) .failed).2 = some 10 ∧
    (VncOutcome.pass (VncOutcome.attempts (List.replicate 6 .failed)) .failed).2 = some 160 ∧
    (TunnelOutcome.pass (TunnelOutcome.attempts [.served]) .failed).2 = 4 ∧
    (TunnelOutcome.pass (TunnelOutcome.attempts (List.replicate 4 .failed)) .failed).2 = 8 := by
  refine ⟨fun h => ?_, by decide, by decide, by decide, by decide⟩
  have hpause := ((h [.saturated, .failed] []).1 [.saturated] .failed List.prefix_rfl).1 rfl
  revert hpause
  decide

end Urc
