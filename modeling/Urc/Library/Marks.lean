import Mathlib.Data.List.Infix
import Mathlib.Data.List.Nodup

/-! # Starts and stops of keys

A stream of marks that start and stop keys, as fingers that touch and lift, or resources that are
taken and given back. It is matched when every stop ends a start of the same key.
-/

inductive Mark (κ : Type*)
  | start (k : κ)
  | stop (k : κ)
  deriving DecidableEq

namespace Mark

variable {κ : Type*} [DecidableEq κ]

def track (k : κ) (started : Bool) : Mark κ → Bool
  | start k' => started || k' = k
  | stop k' => started && k' ≠ k

def Open (ms : List (Mark κ)) (k : κ) : Prop := ms.foldl (track k) false = true

instance (ms : List (Mark κ)) (k : κ) : Decidable (Open ms k) :=
  inferInstanceAs (Decidable (_ = true))

def Matched (ms : List (Mark κ)) : Prop := ∀ pre k, pre ++ [stop k] <+: ms → Open pre k

variable {ms : List (Mark κ)} {k k' : κ} {ks : List κ}

@[simp] theorem not_open_nil : ¬ Open ([] : List (Mark κ)) k := by
  simp [Open]

theorem open_start : Open (ms ++ [start k']) k ↔ Open ms k ∨ k' = k := by
  simp [Open, track]

theorem open_stop : Open (ms ++ [stop k']) k ↔ Open ms k ∧ k' ≠ k := by
  simp [Open, track]

theorem open_starts : Open (ms ++ ks.map start) k ↔ Open ms k ∨ k ∈ ks := by
  induction ks generalizing ms with
  | nil => simp
  | cons k' ks ih =>
    rw [List.map_cons, List.append_cons, ih, open_start, List.mem_cons, or_assoc, eq_comm]

theorem open_stops : Open (ms ++ ks.map stop) k ↔ Open ms k ∧ k ∉ ks := by
  induction ks generalizing ms with
  | nil => simp
  | cons k' ks ih =>
    rw [List.map_cons, List.append_cons, ih, open_stop, List.mem_cons, not_or, and_assoc,
      ne_comm]

theorem matched_nil : Matched ([] : List (Mark κ)) := by
  intro pre k h
  simp at h

theorem matched_start : Matched (ms ++ [start k]) ↔ Matched ms := by
  constructor
  · exact fun h pre k' hp => h pre k' (hp.trans (List.prefix_append _ _))
  · intro h pre k' hp
    rcases List.prefix_concat_iff.mp hp with heq | hp
    · simpa using (List.append_inj' heq rfl).2
    · exact h pre k' hp

theorem matched_stop : Matched (ms ++ [stop k]) ↔ Matched ms ∧ Open ms k := by
  constructor
  · exact fun h => ⟨fun pre k' hp => h pre k' (hp.trans (List.prefix_append _ _)),
      h ms k List.prefix_rfl⟩
  · rintro ⟨h, hk⟩ pre k' hp
    rcases List.prefix_concat_iff.mp hp with heq | hp
    · obtain ⟨rfl, hmark⟩ := List.append_inj' heq rfl
      obtain rfl : k' = k := by simpa using hmark
      exact hk
    · exact h pre k' hp

theorem matched_starts : Matched (ms ++ ks.map start) ↔ Matched ms := by
  induction ks generalizing ms with
  | nil => simp
  | cons k ks ih => rw [List.map_cons, List.append_cons, ih, matched_start]

/-- Different keys stop one after another where each of them is open. -/
theorem matched_stops (h : ks.Nodup) :
    Matched (ms ++ ks.map stop) ↔ Matched ms ∧ ∀ k ∈ ks, Open ms k := by
  induction ks generalizing ms with
  | nil => simp
  | cons k ks ih =>
    obtain ⟨hk, hks⟩ := List.nodup_cons.mp h
    have hopen : (∀ k' ∈ ks, Open (ms ++ [stop k]) k') ↔ ∀ k' ∈ ks, Open ms k' := by
      refine forall₂_congr fun k' hk' => ?_
      have hne : k ≠ k' := fun heq => hk (heq ▸ hk')
      simp [open_stop, hne]
    rw [List.map_cons, List.append_cons, ih hks, matched_stop, hopen, List.forall_mem_cons,
      and_assoc]

end Mark
