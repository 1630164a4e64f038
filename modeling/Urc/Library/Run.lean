import Mathlib.Data.List.Basic
import Mathlib.Data.List.Infix

/-! # Runs of a deterministic transition system

A system is a total step function on a state and an event; an event that is not
enabled leaves the state as it is. A run is the fold of the step over a list of
events, so every interleaving of several parties is one such list. Invariants,
exact step conditions and two-run comparisons are proved once here.
-/

namespace Transition

variable {σ ε τ η : Type*} (step : σ → ε → σ)

/-- The state after the events, the first event first. -/
def run (s : σ) (es : List ε) : σ := es.foldl step s

@[simp] theorem run_nil (s : σ) : run step s [] = s := rfl

@[simp] theorem run_cons (s : σ) (e : ε) (es : List ε) :
    run step s (e :: es) = run step (step s e) es := rfl

theorem run_append (s : σ) (es es' : List ε) :
    run step s (es ++ es') = run step (run step s es) es' := List.foldl_append

/-- Every step of the run meets a condition on its state and its event. -/
def Steps (good : σ → ε → Prop) : σ → List ε → Prop
  | _, [] => True
  | s, e :: es => good s e ∧ Steps good (step s e) es

/-- Every state that the run visits, the first and the last included, satisfies a property. -/
def Always (P : σ → Prop) (s : σ) (es : List ε) : Prop :=
  ∀ pre, pre <+: es → P (run step s pre)

variable {step} {good good' : σ → ε → Prop} {P Inv : σ → Prop} {s : σ} {e : ε} {es es' : List ε}

@[simp] theorem steps_nil : Steps step good s [] := trivial

@[simp] theorem steps_cons :
    Steps step good s (e :: es) ↔ good s e ∧ Steps step good (step s e) es := Iff.rfl

theorem steps_append : Steps step good s (es ++ es') ↔
    Steps step good s es ∧ Steps step good (run step s es) es' := by
  induction es generalizing s with
  | nil => simp
  | cons e es ih => simp [ih, and_assoc]

theorem Steps.mono (h : ∀ s e, good s e → good' s e) (hs : Steps step good s es) :
    Steps step good' s es := by
  induction es generalizing s with
  | nil => trivial
  | cons e es ih => exact ⟨h _ _ hs.1, ih hs.2⟩

theorem steps_of_forall (h : ∀ s e, good s e) : Steps step good s es := by
  induction es generalizing s with
  | nil => trivial
  | cons e es ih => exact ⟨h _ _, ih⟩

theorem steps_event_iff {adm : ε → Prop} :
    Steps step (fun _ e => adm e) s es ↔ ∀ e ∈ es, adm e := by
  induction es generalizing s with
  | nil => simp
  | cons e es ih => rw [steps_cons, ih, List.forall_mem_cons]

/-- What holds at the start and is kept by every step that meets the condition holds at the end. -/
theorem Steps.invariant (hstep : ∀ s e, Inv s → good s e → Inv (step s e)) (h0 : Inv s)
    (hs : Steps step good s es) : Inv (run step s es) := by
  induction es generalizing s with
  | nil => exact h0
  | cons e es ih => exact ih (hstep _ _ h0 hs.1) hs.2

/-- What holds at the start and is kept by every step holds at the end. -/
theorem run_invariant (hstep : ∀ s e, Inv s → Inv (step s e)) (h0 : Inv s) (es : List ε) :
    Inv (run step s es) := by
  have hs : Steps step (fun _ _ => True) s es := steps_of_forall fun _ _ => trivial
  exact hs.invariant (fun s e h _ => hstep s e h) h0

theorem steps_congr (hstep : ∀ s e, Inv s → Inv (step s e))
    (h : ∀ s e, Inv s → (good s e ↔ good' s e)) (h0 : Inv s) :
    Steps step good s es ↔ Steps step good' s es := by
  induction es generalizing s with
  | nil => rfl
  | cons e es ih => exact and_congr (h s e h0) (ih (hstep s e h0))

theorem Steps.take (h : es <+: es') (hs : Steps step good s es') : Steps step good s es := by
  obtain ⟨rest, rfl⟩ := h
  exact (steps_append.mp hs).1

theorem always_nil : Always step P s [] ↔ P s := by
  simp [Always]

theorem always_cons : Always step P s (e :: es) ↔ P s ∧ Always step P (step s e) es := by
  constructor
  · intro h
    exact ⟨h [] List.nil_prefix, fun pre hp => h (e :: pre) (by simpa using hp)⟩
  · rintro ⟨h0, h⟩ pre hp
    cases pre with
    | nil => exact h0
    | cons e' pre =>
      obtain ⟨rfl, hpre⟩ := List.cons_prefix_cons.mp hp
      exact h pre hpre

/-- In a run whose steps all meet the condition, an invariant holds in every state. -/
theorem Steps.always (hstep : ∀ s e, Inv s → good s e → Inv (step s e)) (h0 : Inv s)
    (hs : Steps step good s es) : Always step Inv s es :=
  fun _ hp => Steps.invariant hstep h0 (hs.take hp)

theorem Always.steps (h : ∀ s e, P s → good s e) (hs : Always step P s es) :
    Steps step good s es := by
  induction es generalizing s with
  | nil => trivial
  | cons e es ih =>
    obtain ⟨h0, hrest⟩ := always_cons.mp hs
    exact ⟨h s e h0, ih hrest⟩

theorem Always.mono (h : ∀ s, Inv s → P s) (hs : Always step Inv s es) : Always step P s es :=
  fun pre hp => h _ (hs pre hp)

/--
Exact step conditions. An invariant that implies a property is kept by the steps that meet a
condition, and a step from it that keeps the property meets the condition; then the property
holds along a run exactly when every step meets the condition. The runs may be restricted to
admissible steps.
-/
theorem always_iff_steps {adm : σ → ε → Prop}
    (hstep : ∀ s e, Inv s → adm s e → good s e → Inv (step s e)) (hP : ∀ s, Inv s → P s)
    (hexact : ∀ s e, Inv s → adm s e → P (step s e) → good s e)
    (h0 : Inv s) (ha : Steps step adm s es) : Always step P s es ↔ Steps step good s es := by
  induction es generalizing s with
  | nil => simpa [always_nil] using hP s h0
  | cons e es ih =>
    rw [always_cons, steps_cons]
    constructor
    · rintro ⟨-, h⟩
      have hg : good s e := hexact s e h0 ha.1 (h [] List.nil_prefix)
      exact ⟨hg, (ih (hstep s e h0 ha.1 hg) ha.2).mp h⟩
    · rintro ⟨hg, h⟩
      exact ⟨hP s h0, (ih (hstep s e h0 ha.1 hg) ha.2).mpr h⟩

theorem always_iff_steps_of_all (hstep : ∀ s e, Inv s → good s e → Inv (step s e))
    (hP : ∀ s, Inv s → P s) (hexact : ∀ s e, Inv s → P (step s e) → good s e) (h0 : Inv s) :
    Always step P s es ↔ Steps step good s es :=
  have hadm : Steps step (fun _ _ => True) s es := steps_of_forall fun _ _ => trivial
  always_iff_steps (fun s e h _ => hstep s e h) hP (fun s e h _ => hexact s e h) h0 hadm

/--
A number that steps of one kind lower, steps of another kind raise by one at most, and no other
step raises, is spent by a run with enough of the first kind for the number and the second.
-/
theorem run_spends (I : σ → Prop) (μ : σ → ℕ) (pays gains : ε → Bool)
    (hstep : ∀ s e, I s → I (step s e))
    (hμ : ∀ s e, I s → μ s ≠ 0 → μ (step s e) + (pays e).toNat ≤ μ s + (gains e).toNat)
    (hzero : ∀ s e, I s → μ s = 0 → μ (step s e) = 0) (h0 : I s)
    (hes : μ s + es.countP gains ≤ es.countP pays) : μ (run step s es) = 0 := by
  induction es generalizing s with
  | nil => simpa using hes
  | cons e es ih =>
    by_cases hs : μ s = 0
    · have hspent : ∀ s e, I s ∧ μ s = 0 → I (step s e) ∧ μ (step s e) = 0 :=
        fun s e h => ⟨hstep s e h.1, hzero s e h.1 h.2⟩
      exact (run_invariant hspent ⟨h0, hs⟩ (e :: es)).2
    · refine ih (hstep s e h0) ?_
      have hmove := hμ s e h0 hs
      rw [List.countP_cons, List.countP_cons] at hes
      cases hp : pays e <;> cases hg : gains e <;> simp [hp, hg] at hmove hes <;> omega

/-! ### Two runs side by side -/

/-- Two copies of a system, of which the second takes the kept events only. -/
def pairStep (step : σ → ε → σ) (keep : ε → Bool) (p : σ × σ) (e : ε) : σ × σ :=
  (step p.1 e, if keep e then step p.2 e else p.2)

theorem run_pairStep (keep : ε → Bool) (p : σ × σ) (es : List ε) :
    run (pairStep step keep) p es = (run step p.1 es, run step p.2 (es.filter keep)) := by
  induction es generalizing p with
  | nil => rfl
  | cons e es ih =>
    rw [run_cons, ih]
    cases hk : keep e with
    | true => simp [pairStep, hk]
    | false => simp [pairStep, hk]

theorem steps_pairStep (keep : ε → Bool) (p : σ × σ) (es : List ε) :
    Steps (pairStep step keep) (fun p e => good p.1 e) p es ↔ Steps step good p.1 es := by
  induction es generalizing p with
  | nil => rfl
  | cons e es ih => rw [steps_cons, steps_cons, ih]; rfl

/--
Two-run comparison: what the deletion of events leaves unseen. A relation that is kept when both
copies take a kept event, and when the first alone takes a dropped one, holds between every run
and its filtered run exactly when every step meets the condition.
-/
theorem unseen_iff_steps {R Q : σ → σ → Prop} {adm : ε → Prop} (keep : ε → Bool)
    (hkeep : ∀ s s' e, keep e = true → R s s' → adm e → good s e → R (step s e) (step s' e))
    (hdrop : ∀ s s' e, keep e = false → R s s' → adm e → good s e → R (step s e) s')
    (hQ : ∀ s s', R s s' → Q s s')
    (hkeep' : ∀ s s' e, keep e = true → R s s' → adm e → Q (step s e) (step s' e) → good s e)
    (hdrop' : ∀ s s' e, keep e = false → R s s' → adm e → Q (step s e) s' → good s e)
    (h0 : R s s) (ha : ∀ e ∈ es, adm e) :
    (∀ pre, pre <+: es → Q (run step s pre) (run step s (pre.filter keep))) ↔
      Steps step good s es := by
  have hadm : Steps (pairStep step keep) (fun _ e => adm e) (s, s) es := steps_event_iff.mpr ha
  have hstep : ∀ (p : σ × σ) e, R p.1 p.2 → adm e → good p.1 e →
      R (pairStep step keep p e).1 (pairStep step keep p e).2 := by
    intro p e hr he hg
    cases hk : keep e with
    | true => simpa [pairStep, hk] using hkeep _ _ e hk hr he hg
    | false => simpa [pairStep, hk] using hdrop _ _ e hk hr he hg
  have hexact : ∀ (p : σ × σ) e, R p.1 p.2 → adm e →
      Q (pairStep step keep p e).1 (pairStep step keep p e).2 → good p.1 e := by
    intro p e hr he hq
    cases hk : keep e with
    | true => exact hkeep' _ _ e hk hr he (by simpa [pairStep, hk] using hq)
    | false => exact hdrop' _ _ e hk hr he (by simpa [pairStep, hk] using hq)
  have hpair := always_iff_steps hstep (fun p hr => hQ p.1 p.2 hr) hexact h0 hadm
  rw [steps_pairStep] at hpair
  simpa only [Always, run_pairStep] using hpair

/-- Deleting some of the events of a run changes no state that the run visits. -/
def Transparent (step : σ → ε → σ) (drop : ε → Bool) (s : σ) (es : List ε) : Prop :=
  ∀ pre, pre <+: es → run step s pre = run step s (pre.filter fun e => !drop e)

theorem transparent_iff {drop : ε → Bool}
    (hgood : ∀ s e, good s e ↔ (drop e = true → step s e = s)) (s : σ) (es : List ε) :
    Transparent step drop s es ↔ Steps step good s es := by
  have hadm : ∀ e ∈ es, (fun _ : ε => True) e := fun _ _ => trivial
  refine unseen_iff_steps (fun e => !drop e) ?_ ?_ (fun _ _ h => h) ?_ ?_ rfl hadm
  · rintro s _ e hk rfl _ _
    rfl
  · rintro s _ e hk rfl _ hg
    exact (hgood s e).mp hg (by simpa using hk)
  · rintro s _ e hk rfl _ _
    exact (hgood s e).mpr fun hd => by simp [hd] at hk
  · rintro s _ e _ rfl _ hq
    exact (hgood s e).mpr fun _ => hq

/--
A component of a larger system moves by runs of its own: if each step of the whole moves the
component by some of its own events, so does a run.
-/
theorem run_project {step' : τ → η → τ} (f : σ → τ)
    (h : ∀ s e, ∃ es', f (step s e) = run step' (f s) es') (s : σ) (es : List ε) :
    ∃ es', f (run step s es) = run step' (f s) es' := by
  induction es generalizing s with
  | nil => exact ⟨[], rfl⟩
  | cons e es ih =>
    obtain ⟨l, hl⟩ := h s e
    obtain ⟨l', hl'⟩ := ih (step s e)
    exact ⟨l ++ l', by rw [run_cons, hl', hl, run_append]⟩

end Transition
