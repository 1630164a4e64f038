import Mathlib.Data.List.Basic
import Mathlib.Data.Nat.Cast.Basic
import Mathlib.Tactic.Push

/-! # Reading from a queue that fills while it is read

A reader waits until enough is in the queue and then takes from its front. Where more is needed
than there is, it gives up and moves back to where it began, to be run again when the queue is
longer. A safe reader takes only what it has waited for and always moves back all the way; what it
makes of a queue is then the same however much follows.
-/

/-- A script of reads. `goback` is how far a wait that fails moves back, `search` waits for the
least number of elements, from `start` on, that is `found`. -/
inductive QueueReader (β α : Type)
  | done (a : α)
  | wait (num goback : ℕ) (next : QueueReader β α)
  | shift (num : ℕ) (next : List β → QueueReader β α)
  | skip (num : ℕ) (next : QueueReader β α)
  | peek (num : ℕ) (next : List β → QueueReader β α)
  | search (start goback : ℕ) (found : List β → Bool) (next : ℕ → QueueReader β α)

namespace QueueReader

variable {β α γ : Type}

def bind : QueueReader β α → (α → QueueReader β γ) → QueueReader β γ
  | done a, f => f a
  | wait num goback next, f => wait num goback (next.bind f)
  | shift num next, f => shift num fun v => (next v).bind f
  | skip num next, f => skip num (next.bind f)
  | peek num next, f => peek num fun v => (next v).bind f
  | search start goback found next, f => search start goback found fun n => (next n).bind f

instance : Monad (QueueReader β) where
  pure := done
  bind := bind

@[simp] theorem pure_eq (a : α) : (pure a : QueueReader β α) = done a := rfl

/-- What a run ends with: a result and the number of elements read, or where it moved back to. -/
inductive Reading (α : Type)
  | done (a : α) (pos : ℕ)
  | blocked (pos : ℕ)

/-- The least of `fuel` numbers of elements, from `n` on, that is found. -/
def scan (found : List β → Bool) (q : List β) : ℕ → ℕ → Option ℕ
  | 0, _ => none
  | fuel + 1, n => if found (q.take n) then some n else scan found q fuel (n + 1)

/-- The least number of elements of the queue, from `start` on, that is found. -/
def firstFound (found : List β → Bool) (q : List β) (start : ℕ) : Option ℕ :=
  scan found q (q.length + 1 - start) start

/-- The reader on a queue of which `pos` elements are read. -/
def run : QueueReader β α → List β → ℕ → Reading α
  | done a, _, pos => .done a pos
  | wait num goback next, q, pos =>
    if q.length < pos + num then .blocked (pos - goback) else next.run q pos
  | shift num next, q, pos => (next ((q.drop pos).take num)).run q (pos + num)
  | skip num next, q, pos => next.run q (pos + num)
  | peek num next, q, pos => (next ((q.drop pos).take num)).run q pos
  | search start goback found next, q, pos =>
    if q.length < pos + start then .blocked (pos - goback)
    else
      match firstFound found (q.drop pos) start with
      | none => .blocked (pos - goback)
      | some n => (next n).run q pos

/-- Every wait moves back to the beginning, where `n` elements are read. -/
@[simp] def Tidy : QueueReader β α → ℕ → Prop
  | done _, _ => True
  | wait _ goback next, n => goback = n ∧ next.Tidy n
  | shift num next, n => ∀ v, (next v).Tidy (n + num)
  | skip num next, n => next.Tidy (n + num)
  | peek _ next, n => ∀ v, (next v).Tidy n
  | search _ goback _ next, n => goback = n ∧ ∀ m, (next m).Tidy n

/-- Only what was waited for is taken, where `n` elements are known to be left. A reader may skip
ahead of that, if it waits before it takes more. -/
@[simp] def Guarded : QueueReader β α → ℤ → Prop
  | done _, n => 0 ≤ n
  | wait num _ next, n => next.Guarded (max n num)
  | shift num next, n => num ≤ n ∧ ∀ v, (next v).Guarded (n - num)
  | skip num next, n => next.Guarded (n - num)
  | peek num next, n => num ≤ n ∧ ∀ v, (next v).Guarded n
  | search start _ _ next, n => ∀ m, start ≤ m → (next m).Guarded (max n m)

theorem scan_eq_some {found : List β → Bool} {q : List β} {fuel start n : ℕ}
    (h : scan found q fuel start = some n) : start ≤ n ∧ n < start + fuel := by
  induction fuel generalizing start with
  | zero => cases h
  | succ fuel ih =>
    simp only [scan] at h
    split at h
    · cases h
      omega
    · have := ih h
      omega

theorem firstFound_eq_some {found : List β → Bool} {q : List β} {start n : ℕ}
    (h : firstFound found q start = some n) : start ≤ n ∧ n ≤ q.length := by
  have := scan_eq_some h
  omega

theorem scan_append {found : List β → Bool} {q : List β} {fuel start n : ℕ}
    (h : scan found q fuel start = some n) (hle : start + fuel ≤ q.length + 1) (r : List β)
    (more : ℕ) : scan found (q ++ r) (fuel + more) start = some n := by
  induction fuel generalizing start with
  | zero => cases h
  | succ fuel ih =>
    rw [Nat.succ_add]
    simp only [scan] at h ⊢
    rw [List.take_append_of_le_length (by omega)]
    split at h
    · next hf => rw [if_pos hf, h]
    · next hf => rw [if_neg hf, ih h (by omega)]

theorem scan_congr {found : List β → Bool} {q q' : List β} {fuel start : ℕ}
    (h : ∀ m, m < start + fuel → q.take m = q'.take m) :
    scan found q fuel start = scan found q' fuel start := by
  induction fuel generalizing start with
  | zero => rfl
  | succ fuel ih =>
    simp only [scan]
    rw [h start (by omega), ih fun m hm => h m (by omega)]

theorem firstFound_append {found : List β → Bool} {q : List β} {start n : ℕ}
    (h : firstFound found q start = some n) (r : List β) :
    firstFound found (q ++ r) start = some n := by
  have hle := firstFound_eq_some h
  have hscan := scan_append h (by omega) r r.length
  unfold firstFound
  rw [List.length_append, show q.length + r.length + 1 - start =
    q.length + 1 - start + r.length by omega, hscan]

variable {p : QueueReader β α} {q : List β} {pos k : ℕ} {n : ℤ} {a : α}

/-- A guarded reader stays in the queue, and what follows the queue does not change its run. -/
theorem Guarded.run_append (hp : p.Guarded n) (hn : pos + n ≤ q.length)
    (h : p.run q pos = .done a k) : k ≤ q.length ∧ ∀ r, p.run (q ++ r) pos = .done a k := by
  induction p generalizing pos n with
  | done b =>
    cases h
    have h0 : 0 ≤ n := hp
    exact ⟨by omega, fun _ => rfl⟩
  | wait num goback next ih =>
    simp only [run] at h
    split at h
    · cases h
    · next hlt =>
      obtain ⟨hk, hrun⟩ := ih (n := max n num) hp (by omega) h
      refine ⟨hk, fun r => ?_⟩
      simp only [run, List.length_append]
      rw [if_neg (by omega), hrun]
  | shift num next ih =>
    obtain ⟨hnum, hnext⟩ := hp
    obtain ⟨hk, hrun⟩ := ih _ (hnext _) (by push_cast; omega) h
    refine ⟨hk, fun r => ?_⟩
    simp only [run]
    rw [List.drop_append_of_le_length (by omega), List.take_append_of_le_length (by simp; omega),
      hrun]
  | skip num next ih =>
    obtain ⟨hk, hrun⟩ := ih (n := n - num) hp (by push_cast; omega) h
    exact ⟨hk, hrun⟩
  | peek num next ih =>
    obtain ⟨hnum, hnext⟩ := hp
    obtain ⟨hk, hrun⟩ := ih _ (hnext _) hn h
    refine ⟨hk, fun r => ?_⟩
    simp only [run]
    rw [List.drop_append_of_le_length (by omega), List.take_append_of_le_length (by simp; omega),
      hrun]
  | search start goback found next ih =>
    simp only [run] at h
    split at h
    · cases h
    · next hstart =>
      cases hm : firstFound found (q.drop pos) start with
      | none => simp [hm] at h
      | some m =>
        simp only [hm] at h
        have hle := firstFound_eq_some hm
        rw [List.length_drop] at hle
        obtain ⟨hk, hrun⟩ := ih m (n := max n m) (hp m hle.1) (by omega) h
        refine ⟨hk, fun r => ?_⟩
        simp only [run]
        rw [if_neg (by rw [List.length_append]; omega), List.drop_append_of_le_length (by omega),
          firstFound_append hm]
        exact hrun r

/-- A tidy reader that gives up is back where it began. -/
theorem Tidy.run_blocked (hp : p.Tidy pos) (h : p.run q pos = .blocked k) : k = 0 := by
  induction p generalizing pos with
  | done b => cases h
  | wait num goback next ih =>
    obtain ⟨rfl, hnext⟩ := hp
    simp only [run] at h
    split at h
    · cases h
      omega
    · exact ih hnext h
  | shift num next ih => exact ih _ (hp _) h
  | skip num next ih => exact ih hp h
  | peek num next ih => exact ih _ (hp _) h
  | search start goback found next ih =>
    obtain ⟨rfl, hnext⟩ := hp
    simp only [run] at h
    split at h
    · cases h
      omega
    · split at h
      · cases h
        omega
      · exact ih _ (hnext _) h

theorem le_run (h : p.run q pos = .done a k) : pos ≤ k := by
  induction p generalizing pos with
  | done b =>
    cases h
    exact le_rfl
  | wait num goback next ih =>
    simp only [run] at h
    split at h
    · cases h
    · exact ih h
  | shift num next ih =>
    have := ih _ h
    omega
  | skip num next ih =>
    have := ih h
    omega
  | peek num next ih => exact ih _ h
  | search start goback found next ih =>
    simp only [run] at h
    split at h
    · cases h
    · split at h
      · cases h
      · exact ih _ h

end QueueReader

/-- A reader that takes only what it has waited for, and moves back all the way. -/
structure SafeReader (β α : Type) where
  program : QueueReader β α
  tidy : program.Tidy 0
  guarded : program.Guarded 0

namespace SafeReader

variable {β α : Type}

/-- What the reader makes of the queue, and what it leaves of it; nothing where it has to wait. -/
def exec (p : SafeReader β α) (q : List β) : Option (α × List β) :=
  match p.program.run q 0 with
  | .done a k => some (a, q.drop k)
  | .blocked _ => none

variable {p : SafeReader β α} {q rest : List β} {a : α}

theorem exec_eq_some : p.exec q = some (a, rest) ↔
    ∃ k, p.program.run q 0 = .done a k ∧ k ≤ q.length ∧ rest = q.drop k := by
  unfold exec
  constructor
  · intro h
    split at h
    · next b k hrun =>
      cases h
      exact ⟨k, hrun, (p.guarded.run_append (by simp) hrun).1, rfl⟩
    · cases h
  · rintro ⟨k, hrun, -, rfl⟩
    rw [hrun]

theorem exec_append (h : p.exec q = some (a, rest)) (r : List β) :
    p.exec (q ++ r) = some (a, rest ++ r) := by
  obtain ⟨k, hrun, hk, rfl⟩ := exec_eq_some.mp h
  refine exec_eq_some.mpr ⟨k, (p.guarded.run_append (by simp) hrun).2 r, ?_, ?_⟩
  · rw [List.length_append]
    omega
  · rw [List.drop_append_of_le_length hk]

theorem length_exec (h : p.exec q = some (a, rest)) : rest.length ≤ q.length := by
  obtain ⟨k, -, -, rfl⟩ := exec_eq_some.mp h
  rw [List.length_drop]
  omega

theorem length_exec_lt {num goback len : ℕ} {next : List β → QueueReader β α}
    (hp : p.program = .wait num goback (.shift len next)) (hlen : 0 < len)
    (h : p.exec q = some (a, rest)) : rest.length < q.length := by
  obtain ⟨k, hrun, hk, rfl⟩ := exec_eq_some.mp h
  rw [hp, QueueReader.run] at hrun
  split at hrun
  · cases hrun
  · rw [QueueReader.run] at hrun
    have := QueueReader.le_run hrun
    rw [List.length_drop]
    omega

end SafeReader

/-- A queue that readers can be run on. -/
class ReadQueue (Q : Type) (β : outParam Type) where
  fetch : {α : Type} → SafeReader β α → Q → Option (α × Q)
  length : Q → ℕ

instance {β : Type} : ReadQueue (List β) β where
  fetch p q := p.exec q
  length q := q.length

/-- A queue looks like another one to every reader. -/
structure QueueHom {Q Q' β : Type} [ReadQueue Q β] [ReadQueue Q' β] (f : Q → Q') : Prop where
  fetch : ∀ {α : Type} (p : SafeReader β α) (q : Q),
    ReadQueue.fetch p (f q) = (ReadQueue.fetch p q).map fun r => (r.1, f r.2)
  length : ∀ q : Q, ReadQueue.length (f q) = ReadQueue.length q
