import Urc.Library.Splice

/-! # The connections of the loopback proxy

`handleConnection` runs two threads between a loopback connection and a TLS connection to the agent.
Each pumps bytes one way, and behind its loop closes both sockets, its source first. The thread of
`handleConnection` waits for the first two and closes both sockets once more.
-/

namespace Urc

open Splice Relation

/-- The loop of `pump`, with a buffer of `8192` bytes. -/
def pumpLoop : Copier UInt8 UInt8 UInt8 := .plain UInt8 (8192 - 1)

/-- A thread of `pump`; `srcClosed` once the first `closeQuietly` has run. -/
structure Pump where
  half : Half UInt8 UInt8
  srcClosed : Bool

inductive ProxySocket
  | loopback
  | tls
  deriving DecidableEq

def ProxySocket.other : ProxySocket → ProxySocket
  | .loopback => .tls
  | .tls => .loopback

/-- Where `handleConnection` stands. -/
inductive ConnectionPc
  | joiningL2t
  | joiningT2l
  | closingTls
  | closingLocal
  | returned
  deriving DecidableEq

/-- The steps of `handleConnection` to its end, once both threads have ended. -/
def ConnectionPc.toReturn : ConnectionPc → ℕ
  | .joiningL2t => 4
  | .joiningT2l => 3
  | .closingTls => 2
  | .closingLocal => 1
  | .returned => 0

/-- `pumps socket` reads from `socket`: `l2t` from the loopback connection, `t2l` from the TLS
connection. -/
structure ProxyConnection where
  pumps : ProxySocket → Pump
  pc : ConnectionPc

/-- What can happen: the peer of a socket writes, ends its direction, reads or is lost; the thread
that reads from a socket runs on, with at most `n + 1` bytes; `handleConnection` does. -/
inductive ProxyEvent
  | writes (socket : ProxySocket) (bytes : List UInt8)
  | ends (socket : ProxySocket)
  | reads (socket : ProxySocket) (n : ℕ)
  | lost (socket : ProxySocket)
  | pump (src : ProxySocket) (n : ℕ)
  | handle

namespace ProxyConnection

def new : ProxyConnection := ⟨fun _ => ⟨.new, false⟩, .joiningL2t⟩

def setHalf (c : ProxyConnection) (s : ProxySocket) (h : Half UInt8 UInt8) : ProxyConnection :=
  { c with pumps := Function.update c.pumps s { c.pumps s with half := h } }

def lose (c : ProxyConnection) (s : ProxySocket) : ProxyConnection :=
  let c := c.setHalf s { (c.pumps s).half with src := (c.pumps s).half.src.cut }
  c.setHalf s.other { (c.pumps s.other).half with dst := (c.pumps s.other).half.dst.cut }

/-- A socket is closed: every call on it fails, and its peer is told. -/
def close (c : ProxyConnection) (s : ProxySocket) : ProxyConnection :=
  let c := c.lose s
  c.setHalf s.other { (c.pumps s.other).half with dst := (c.pumps s.other).half.dst.finish }

/-- The first `closeQuietly` of the thread that reads from `s` has run. -/
def markClosed (c : ProxyConnection) (s : ProxySocket) : ProxyConnection :=
  { c with pumps := Function.update c.pumps s { c.pumps s with srcClosed := true } }

/-- The thread that reads from `s` ends. -/
def endThread (c : ProxyConnection) (s : ProxySocket) (rest : List UInt8) : ProxyConnection :=
  c.setHalf s { (c.pumps s).half with pc := .done rest }

/-- The thread that reads from `s` runs on. -/
def goPump (c : ProxyConnection) (s : ProxySocket) (n : ℕ) : ProxyConnection :=
  match (c.pumps s).half.pc with
  | .left rest =>
    if (c.pumps s).srcClosed then
      (c.close s.other).endThread s rest
    else
      (c.close s).markClosed s
  | .reading | .writing _ _ | .done _ => c.setHalf s ((c.pumps s).half.go pumpLoop n)

def joined (c : ProxyConnection) (s : ProxySocket) : Bool :=
  match (c.pumps s).half.pc with
  | .done _ => true
  | .reading | .writing _ _ | .left _ => false

def handle (c : ProxyConnection) : ProxyConnection :=
  match c.pc with
  | .joiningL2t => if c.joined .loopback then { c with pc := .joiningT2l } else c
  | .joiningT2l => if c.joined .tls then { c with pc := .closingTls } else c
  | .closingTls => { c.close .tls with pc := .closingLocal }
  | .closingLocal => { c.close .loopback with pc := .returned }
  | .returned => c

def step (c : ProxyConnection) : ProxyEvent → ProxyConnection
  | .writes s bytes =>
    c.setHalf s { (c.pumps s).half with src := (c.pumps s).half.src.receive bytes }
  | .ends s => c.setHalf s { (c.pumps s).half with src := (c.pumps s).half.src.finish }
  | .reads s n =>
    c.setHalf s.other { (c.pumps s.other).half with dst := (c.pumps s.other).half.dst.take n }
  | .lost s => c.lose s
  | .pump s n => c.goPump s n
  | .handle => c.handle

/-! ### What a step does to each thread -/

variable {c c' : ProxyConnection} {s s' : ProxySocket} {e : ProxyEvent}

@[simp] theorem ne_other (s : ProxySocket) : s ≠ s.other := by cases s <;> decide

@[simp] theorem other_other (s : ProxySocket) : s.other.other = s := by cases s <;> rfl

theorem eq_or_other (s s' : ProxySocket) : s' = s ∨ s' = s.other := by
  cases s <;> cases s' <;> simp [ProxySocket.other]

@[simp] theorem half_setHalf (c : ProxyConnection) (s : ProxySocket) (h : Half UInt8 UInt8) :
    ((c.setHalf s h).pumps s).half = h := by
  simp [setHalf]

theorem pumps_setHalf_ne (c : ProxyConnection) {h : Half UInt8 UInt8} (hs : s' ≠ s) :
    (c.setHalf s h).pumps s' = c.pumps s' := by
  simp [setHalf, Function.update_of_ne hs]

@[simp] theorem srcClosed_setHalf (c : ProxyConnection) (s s' : ProxySocket)
    (h : Half UInt8 UInt8) : ((c.setHalf s h).pumps s').srcClosed = (c.pumps s').srcClosed := by
  by_cases he : s' = s
  · subst he
    simp [setHalf]
  · rw [pumps_setHalf_ne c he]

def Moves (c c' : ProxyConnection) : Prop :=
  ∀ s, ReflTransGen (Half.Step pumpLoop) (c.pumps s).half (c'.pumps s).half

theorem Moves.refl (c : ProxyConnection) : Moves c c := fun _ => .refl

theorem Moves.trans {c'' : ProxyConnection} (h : Moves c c') (h' : Moves c' c'') : Moves c c'' :=
  fun s => (h s).trans (h' s)

theorem moves_setHalf {h : Half UInt8 UInt8} (hs : Half.Step pumpLoop (c.pumps s).half h) :
    Moves c (c.setHalf s h) := by
  intro s'
  by_cases he : s' = s
  · subst he
    rw [half_setHalf]
    exact .single hs
  · rw [pumps_setHalf_ne c he]

theorem moves_lose (c : ProxyConnection) (s : ProxySocket) : Moves c (c.lose s) :=
  (moves_setHalf .cutSrc).trans (moves_setHalf .cutDst)

theorem moves_close (c : ProxyConnection) (s : ProxySocket) : Moves c (c.close s) :=
  (moves_lose c s).trans (moves_setHalf .endDst)

theorem loopPc_setHalf (c : ProxyConnection) (s s' : ProxySocket) (h : Half UInt8 UInt8)
    (hpc : h.pc = (c.pumps s).half.pc) :
    ((c.setHalf s h).pumps s').half.pc = (c.pumps s').half.pc := by
  by_cases he : s' = s
  · subst he
    rw [half_setHalf, hpc]
  · rw [pumps_setHalf_ne c he]

@[simp] theorem loopPc_lose (c : ProxyConnection) (s s' : ProxySocket) :
    ((c.lose s).pumps s').half.pc = (c.pumps s').half.pc := by
  refine (loopPc_setHalf _ _ _ _ ?_).trans (loopPc_setHalf _ _ _ _ ?_) <;> rfl

@[simp] theorem loopPc_close (c : ProxyConnection) (s s' : ProxySocket) :
    ((c.close s).pumps s').half.pc = (c.pumps s').half.pc := by
  refine (loopPc_setHalf _ _ _ _ ?_).trans (loopPc_lose c s s')
  rfl

@[simp] theorem srcClosed_lose (c : ProxyConnection) (s s' : ProxySocket) :
    ((c.lose s).pumps s').srcClosed = (c.pumps s').srcClosed := by
  simp [lose]

@[simp] theorem srcClosed_close (c : ProxyConnection) (s s' : ProxySocket) :
    ((c.close s).pumps s').srcClosed = (c.pumps s').srcClosed := by
  simp [close]

@[simp] theorem half_markClosed (c : ProxyConnection) (s s' : ProxySocket) :
    ((c.markClosed s).pumps s').half = (c.pumps s').half := by
  by_cases he : s' = s
  · subst he
    simp [markClosed]
  · simp [markClosed, Function.update_of_ne he]

@[simp] theorem srcClosed_markClosed (c : ProxyConnection) (s : ProxySocket) :
    ((c.markClosed s).pumps s).srcClosed = true := by
  simp [markClosed]

theorem srcClosed_markClosed_ne (c : ProxyConnection) (hs : s' ≠ s) :
    ((c.markClosed s).pumps s').srcClosed = (c.pumps s').srcClosed := by
  simp [markClosed, Function.update_of_ne hs]

theorem moves_markClosed (c : ProxyConnection) (s : ProxySocket) : Moves c (c.markClosed s) := by
  intro s'
  rw [half_markClosed]

theorem moves_endThread {rest : List UInt8} (hpc : (c.pumps s).half.pc = .left rest) :
    Moves c (c.endThread s rest) := by
  have hreturned : Half.Step pumpLoop (c.pumps s).half
      { (c.pumps s).half with pc := .done (c.pumps s).half.pc.rest } :=
    .returned (by simp [hpc, HalfPc.isOver])
  rw [hpc] at hreturned
  exact moves_setHalf hreturned

theorem moves_goPump (c : ProxyConnection) (s : ProxySocket) (n : ℕ) : Moves c (c.goPump s n) := by
  unfold goPump
  split
  · next rest hpc =>
    split
    · exact (moves_close c s.other).trans (moves_endThread ((loopPc_close c s.other s).trans hpc))
    · exact (moves_close c s).trans (moves_markClosed _ s)
  all_goals exact moves_setHalf (.go n)

theorem moves_step (c : ProxyConnection) (e : ProxyEvent) : Moves c (c.step e) := by
  cases e with
  | writes s bytes =>
    intro s'
    by_cases he : s' = s
    · subst he
      rw [step, half_setHalf]
      exact Half.steps_receive pumpLoop _ bytes
    · rw [step, pumps_setHalf_ne c he]
  | ends s => exact moves_setHalf .finish
  | reads s n => exact moves_setHalf (.collect n)
  | lost s => exact moves_lose c s
  | pump s n => exact moves_goPump c s n
  | handle =>
    simp only [step, handle]
    split
    · split <;> exact .refl c
    · split <;> exact .refl c
    · exact moves_close c .tls
    · exact moves_close c .loopback
    · exact .refl c

/-! ### What holds in every run -/

/-- A socket is closed for the thread that reads from it and for the one that writes to it, and its
peer is told. -/
structure Closed (c : ProxyConnection) (s : ProxySocket) : Prop where
  src : (c.pumps s).half.src.broken = true
  dst : (c.pumps s.other).half.dst.broken = true
  told : (c.pumps s.other).half.dst.ended = true

theorem closed_close (c : ProxyConnection) (s : ProxySocket) : Closed (c.close s) s := by
  have hsrc : ((c.lose s).pumps s).half.src.broken = true := by
    simp [lose, pumps_setHalf_ne, Pipe.cut]
  have hdst : ((c.lose s).pumps s.other).half.dst.broken = true := by
    simp [lose, Pipe.cut]
  refine ⟨?_, ?_, ?_⟩
  · rw [close, pumps_setHalf_ne _ (ne_other s), hsrc]
  · rw [close, half_setHalf]
    exact hdst
  · rw [close, half_setHalf]
    rfl

theorem Closed.moves (h : Closed c s) (hm : Moves c c') : Closed c' s :=
  ⟨(Half.lasts_steps (hm s)).broken h.src, (Half.lasts_steps (hm s.other)).broken' h.dst,
    (Half.lasts_steps (hm s.other)).ended' h.told⟩

/-- The threads behind their loops: a thread that has closed its source has left its loop, and one
that has ended has closed both sockets. -/
structure Closing (c : ProxyConnection) : Prop where
  left : ∀ s, (c.pumps s).srcClosed = true → (c.pumps s).half.pc.isOver = true ∧ Closed c s
  done : ∀ s, c.joined s = true → (c.pumps s).srcClosed = true ∧ ∀ s', Closed c s'

theorem closing_new : Closing new := ⟨nofun, nofun⟩

theorem joined_iff : c.joined s = true ↔ ∃ rest, (c.pumps s).half.pc = .done rest := by
  unfold joined
  split
  · next rest hpc => exact ⟨fun _ => ⟨rest, hpc⟩, fun _ => rfl⟩
  all_goals
    next hpc =>
      refine ⟨fun hf => Bool.noConfusion hf, fun ⟨rest, hdone⟩ => ?_⟩
      cases hpc.symm.trans hdone

theorem joined_congr (h : (c'.pumps s).half.pc = (c.pumps s).half.pc) :
    c'.joined s = c.joined s := by
  unfold joined
  rw [h]

theorem joined_moves (hm : Moves c c') (hj : c.joined s = true) : c'.joined s = true := by
  obtain ⟨rest, hdone⟩ := joined_iff.mp hj
  exact joined_iff.mpr ⟨rest, Half.done_steps hdone (hm s)⟩

theorem Closing.pump (h : Closing c) (hm : Moves c c') (s : ProxySocket)
    (hother : ∀ s', s' ≠ s → (c'.pumps s').half.pc = (c.pumps s').half.pc ∧
      (c'.pumps s').srcClosed = (c.pumps s').srcClosed)
    (hleft : (c'.pumps s).srcClosed = true →
      (c'.pumps s).half.pc.isOver = true ∧ Closed c' s)
    (hdone : c'.joined s = true → (c'.pumps s).srcClosed = true ∧ ∀ s', Closed c' s') :
    Closing c' where
  left s' hs := by
    by_cases he : s' = s
    · subst he
      exact hleft hs
    · obtain ⟨hpc, hclosed⟩ := hother s' he
      obtain ⟨hover, hc⟩ := h.left s' (hclosed ▸ hs)
      exact ⟨hpc ▸ hover, hc.moves hm⟩
  done s' hs := by
    by_cases he : s' = s
    · subst he
      exact hdone hs
    · obtain ⟨hpc, hclosed⟩ := hother s' he
      obtain ⟨hc, hall⟩ := h.done s' (joined_congr hpc ▸ hs)
      exact ⟨hclosed.trans hc, fun s'' => (hall s'').moves hm⟩

theorem Closing.congr (h : Closing c) (hm : Moves c c')
    (hloop : ∀ s, (c'.pumps s).half.pc = (c.pumps s).half.pc)
    (hclosed : ∀ s, (c'.pumps s).srcClosed = (c.pumps s).srcClosed) : Closing c' := by
  refine h.pump hm .loopback (fun s _ => ⟨hloop s, hclosed s⟩) (fun hs => ?_) fun hs => ?_
  · obtain ⟨hover, hc⟩ := h.left _ (hclosed _ ▸ hs)
    exact ⟨hloop _ ▸ hover, hc.moves hm⟩
  · obtain ⟨hc, hall⟩ := h.done _ (joined_congr (hloop _) ▸ hs)
    exact ⟨(hclosed _).trans hc, fun s' => (hall s').moves hm⟩

theorem Closing.goPump (h : Closing c) (s : ProxySocket) (n : ℕ) : Closing (c.goPump s n) := by
  unfold ProxyConnection.goPump
  split
  · next rest hpc =>
    have hpc' (s' : ProxySocket) : ((c.close s').pumps s).half.pc = .left rest :=
      (loopPc_close c s' s).trans hpc
    split
    · next hs =>
      -- the second `closeQuietly`: both sockets are closed, and the thread ends
      have hends := moves_endThread (hpc' s.other)
      have hm := (moves_close c s.other).trans hends
      have hsrc := (h.left s hs).2.moves hm
      have hdst := (closed_close c s.other).moves hends
      have hall : ∀ s', Closed ((c.close s.other).endThread s rest) s' := by
        intro s'
        rcases eq_or_other s s' with rfl | rfl
        · exact hsrc
        · exact hdst
      refine h.pump hm s (fun s' hne => ?_) (fun _ => ⟨?_, hsrc⟩) fun _ => ⟨?_, hall⟩
      · rw [endThread, pumps_setHalf_ne _ hne, loopPc_close, srcClosed_close]
        exact ⟨rfl, rfl⟩
      · rw [endThread, half_setHalf]
        rfl
      · rw [endThread, srcClosed_setHalf, srcClosed_close, hs]
    · next hs =>
      -- the first `closeQuietly`
      have hm := (moves_close c s).trans (moves_markClosed _ s)
      have hclosed := (closed_close c s).moves (moves_markClosed _ s)
      have hleft : (((c.close s).markClosed s).pumps s).half.pc = .left rest :=
        (congrArg Half.pc (half_markClosed _ s s)).trans (hpc' s)
      refine h.pump hm s (fun s' hne => ?_) (fun _ => ⟨?_, hclosed⟩) fun hj => ?_
      · rw [half_markClosed, srcClosed_markClosed_ne _ hne, loopPc_close, srcClosed_close]
        exact ⟨rfl, rfl⟩
      · rw [hleft]
        rfl
      · obtain ⟨rest', hdone⟩ := joined_iff.mp hj
        cases hleft.symm.trans hdone
  all_goals
    have hm := moves_setHalf (c := c) (s := s) (.go n)
    have hk := Half.kept_go pumpLoop n (c.pumps s).half
    refine h.pump hm s (fun s' hne => ?_) (fun hs => ?_) fun hj => ?_
    · rw [pumps_setHalf_ne _ hne]
      exact ⟨rfl, rfl⟩
    · obtain ⟨hover, hc⟩ := h.left s ((srcClosed_setHalf ..).symm.trans hs)
      refine ⟨?_, hc.moves hm⟩
      rw [half_setHalf, hk.left hover]
      exact hover
    · obtain ⟨rest, hdone⟩ := joined_iff.mp hj
      obtain ⟨hs, hall⟩ := h.done s (joined_iff.mpr ⟨rest, hk.done rest (by simpa using hdone)⟩)
      exact ⟨(srcClosed_setHalf ..).trans hs, fun s' => (hall s').moves hm⟩

theorem loopPc_handle (c : ProxyConnection) (s : ProxySocket) :
    (c.handle.pumps s).half.pc = (c.pumps s).half.pc := by
  unfold handle
  split
  · split <;> rfl
  · split <;> rfl
  · exact loopPc_close c .tls s
  · exact loopPc_close c .loopback s
  · rfl

theorem srcClosed_handle (c : ProxyConnection) (s : ProxySocket) :
    (c.handle.pumps s).srcClosed = (c.pumps s).srcClosed := by
  unfold handle
  split
  · split <;> rfl
  · split <;> rfl
  · exact srcClosed_close c .tls s
  · exact srcClosed_close c .loopback s
  · rfl

theorem Closing.step (h : Closing c) (e : ProxyEvent) : Closing (c.step e) := by
  have hm := moves_step c e
  cases e with
  | writes s bytes =>
    exact h.congr hm (fun s' => loopPc_setHalf c s s' _ rfl) (srcClosed_setHalf c s · _)
  | ends s =>
    exact h.congr hm (fun s' => loopPc_setHalf c s s' _ rfl) (srcClosed_setHalf c s · _)
  | reads s n =>
    exact h.congr hm (fun s' => loopPc_setHalf c _ s' _ rfl) (srcClosed_setHalf c _ · _)
  | lost s => exact h.congr hm (loopPc_lose c s) (srcClosed_lose c s)
  | pump s n => exact h.goPump s n
  | handle => exact h.congr hm (loopPc_handle c) (srcClosed_handle c)

theorem closing_run (es : List ProxyEvent) : Closing (Transition.run step new es) :=
  Transition.run_invariant (fun _ e h => h.step e) closing_new es

theorem moves_run (c : ProxyConnection) (es : List ProxyEvent) :
    Moves c (Transition.run step c es) := by
  have hstep : ∀ c' e, Moves c c' → Moves c (step c' e) := fun c' e h => h.trans (moves_step c' e)
  exact Transition.run_invariant hstep (.refl c) es

/-! ### The end of a thread -/

def isPump (s : ProxySocket) : ProxyEvent → Bool
  | .pump s' _ => s' = s
  | _ => false

def isHandle : ProxyEvent → Bool
  | .handle => true
  | _ => false

/-- What is left to do for a thread whose source is over. -/
def left (c : ProxyConnection) (s : ProxySocket) : ℕ :=
  (c.pumps s).half.weight pumpLoop + if (c.pumps s).srcClosed then 0 else 1

theorem joined_of_left (h : c.left s = 0) : c.joined s = true :=
  joined_iff.mpr (Half.exists_done_of_weight (Nat.eq_zero_of_add_eq_zero_right h))

theorem srcClosed_step (hs : (c.pumps s).srcClosed = true) (e : ProxyEvent) :
    ((c.step e).pumps s).srcClosed = true := by
  cases e with
  | writes s' bytes => rw [step, srcClosed_setHalf, hs]
  | ends s' => rw [step, srcClosed_setHalf, hs]
  | reads s' n => rw [step, srcClosed_setHalf, hs]
  | lost s' => rw [step, srcClosed_lose, hs]
  | handle => rw [step, srcClosed_handle, hs]
  | pump s' n =>
    simp only [step, goPump]
    split
    · split
      · rw [endThread, srcClosed_setHalf, srcClosed_close, hs]
      · by_cases he : s = s'
        · subst he
          exact srcClosed_markClosed _ s
        · rw [srcClosed_markClosed_ne _ he, srcClosed_close, hs]
    all_goals rw [srcClosed_setHalf, hs]

/-- Nothing that happens takes a thread whose source is over further from its end. -/
theorem left_step (ho : (c.pumps s).half.src.isOver = true) (e : ProxyEvent) :
    (c.step e).left s ≤ c.left s := by
  have hw := (Half.weight_steps ho (moves_step c e s)).1
  have hs := srcClosed_step (c := c) (s := s) (e := e)
  unfold left
  cases hc : (c.pumps s).srcClosed with
  | true => simpa [hs hc] using hw
  | false =>
    refine Nat.add_le_add hw ?_
    split <;> simp

theorem left_goPump (h : Closing c) (ho : (c.pumps s).half.src.isOver = true) (hpos : c.left s ≠ 0)
    (n : ℕ) : (c.goPump s n).left s < c.left s := by
  unfold goPump
  split
  · next rest hpc =>
    split
    · next hs =>
      simp [left, endThread, Half.weight, hpc, hs]
    · next hs =>
      simp [left, Half.weight, hpc, hs]
  · next hpc =>
    have hless := Half.weight_goes ho (by simp [hpc, HalfPc.isOver])
      (Half.go_goes pumpLoop n (c.pumps s).half)
    rw [left, left, half_setHalf, srcClosed_setHalf]
    exact Nat.add_lt_add_right hless _
  · next hpc =>
    have hless := Half.weight_goes ho (by simp [hpc, HalfPc.isOver])
      (Half.go_goes pumpLoop n (c.pumps s).half)
    rw [left, left, half_setHalf, srcClosed_setHalf]
    exact Nat.add_lt_add_right hless _
  · next rest hpc =>
    have hs := (h.done s (joined_iff.mpr ⟨rest, hpc⟩)).1
    exact absurd (by simp [left, Half.weight, hpc, hs]) hpos

/-- A thread whose source is over ends after as many steps of its own as there is left to do. -/
theorem joined_run (h : Closing c) (ho : (c.pumps s).half.src.isOver = true)
    {es : List ProxyEvent} (hes : c.left s ≤ es.countP (isPump s)) :
    (Transition.run step c es).joined s = true := by
  refine joined_of_left (Transition.run_spends
    (fun c => Closing c ∧ (c.pumps s).half.src.isOver = true) (fun c => c.left s) (isPump s)
    (fun _ => false)
    (fun c e h => ⟨h.1.step e, (Half.weight_steps h.2 (moves_step c e s)).2⟩)
    (fun c e h hpos => ?_) (fun c e h hzero => Nat.le_zero.mp (hzero ▸ left_step h.2 e)) ⟨h, ho⟩
    (by simpa using hes))
  cases hown : isPump s e with
  | false => exact left_step h.2 e
  | true =>
    cases e with
    | pump s' n =>
      obtain rfl : s' = s := by simpa [isPump] using hown
      exact Nat.succ_le_of_lt (left_goPump h.1 h.2 hpos n)
    | _ => cases hown

/-- Where both sockets are closed, four steps are left at most. -/
theorem left_le_four (h : ∀ s', Closed c s') (s : ProxySocket) : c.left s ≤ 4 := by
  have hsrc : (c.pumps s).half.src.broken = true := (h s).src
  have hdst : (c.pumps s).half.dst.broken = true := by simpa using (h s.other).dst
  have hw : (c.pumps s).half.weight pumpLoop ≤ 3 := by
    unfold Half.weight
    split <;> simp [Pipe.weight, hsrc, hdst]
  unfold left
  split <;> omega

/-! ### The end of `handleConnection` -/

theorem pc_step {e : ProxyEvent} (he : isHandle e = false) : (c.step e).pc = c.pc := by
  cases e with
  | handle => cases he
  | pump s n =>
    simp only [step, goPump]
    split
    · split <;> rfl
    all_goals rfl
  | _ => rfl

theorem toReturn_handle (h : ∀ s, c.joined s = true) (hpos : c.pc.toReturn ≠ 0) :
    c.handle.pc.toReturn < c.pc.toReturn := by
  unfold handle
  split
  · next hpc => simp [h .loopback, hpc, ConnectionPc.toReturn]
  · next hpc => simp [h .tls, hpc, ConnectionPc.toReturn]
  · next hpc => simp [hpc, ConnectionPc.toReturn]
  · next hpc => simp [hpc, ConnectionPc.toReturn]
  · next hpc => exact absurd (by rw [hpc]; rfl) hpos

theorem returned_run (h : ∀ s, c.joined s = true) {es : List ProxyEvent}
    (hes : 4 ≤ es.countP isHandle) : (Transition.run step c es).pc = .returned := by
  have hzero : (Transition.run step c es).pc.toReturn = 0 := by
    refine Transition.run_spends (fun c : ProxyConnection => ∀ s, c.joined s = true)
      (fun c => c.pc.toReturn) isHandle (fun _ => false) (fun c e h s => ?_)
      (fun c e h hpos => ?_) (fun c e h hzero => ?_) h ?_
    · exact joined_moves (moves_step c e) (h s)
    · cases hown : isHandle e with
      | false => simp [pc_step hown]
      | true =>
        cases e with
        | handle => exact Nat.succ_le_of_lt (toReturn_handle h hpos)
        | _ => cases hown
    · cases hown : isHandle e with
      | false => rw [pc_step hown, hzero]
      | true =>
        cases e with
        | handle =>
          have hpc : c.pc = .returned := by
            cases hp : c.pc <;> simp [hp, ConnectionPc.toReturn] at hzero ⊢
          simp [step, handle, hpc, ConnectionPc.toReturn]
        | _ => cases hown
    · have hle : c.pc.toReturn ≤ 4 := by cases c.pc <;> decide
      simpa using hle.trans hes
  cases hp : (Transition.run step c es).pc <;> simp [hp, ConnectionPc.toReturn] at hzero ⊢

end ProxyConnection

open ProxyConnection

/-- What the far end of a socket gets through the proxy is what the far end of the other one wrote,
in order and without a gap, and all of it once the thread has left its loop on sockets that work.
Behind the end of a thread both sockets are closed, and nothing more is written to either. -/
theorem proxy_in_order (es : List ProxyEvent) (s : ProxySocket) :
    let c := Transition.run ProxyConnection.step new es
    let h := (c.pumps s).half
    h.dst.taken <+: h.src.sent ∧
    (h.pc.isOver = true → h.src.broken = false → h.dst.broken = false →
      h.src.ended = true ∧ h.dst.sent = h.src.sent) ∧
    (c.joined s = true → (∀ s', Closed c s') ∧ ∀ es' s',
      ((Transition.run ProxyConnection.step c es').pumps s').half.dst.sent =
        (c.pumps s').half.dst.sent) := by
  intro c h
  have hmoves := moves_run new es s
  have hexact : h.Exact pumpLoop := Half.exact_new.steps hmoves
  have hleft : h.Explained pumpLoop := Half.explained_new.steps hmoves
  refine ⟨?_, fun hover hsrc hdst => ?_, fun hj => ?_⟩
  · simpa [pumpLoop, Copier.plain] using hexact.prefix_taken
  · have hall := hleft.sentAll hexact (fun _ _ hstop => nomatch hstop) hover hsrc hdst
    simpa [pumpLoop, Copier.plain] using hall
  · have hall := ((closing_run es).done s hj).2
    refine ⟨hall, fun es' s' => ?_⟩
    have hdst : (c.pumps s').half.dst.broken = true := by simpa using (hall s'.other).dst
    exact (Half.lasts_steps (moves_run c es' s')).silent hdst

/-- Once nothing more comes from one socket, the teardown is symmetric: after as many steps as its
thread has left to do that thread has ended and both sockets are closed, the other thread ends
within four steps of its own, and `handleConnection` returns within four of its own behind them. -/
theorem proxy_tears_down (es : List ProxyEvent) (s : ProxySocket)
    (hover : ((Transition.run ProxyConnection.step new es).pumps s).half.src.isOver = true)
    {es₁ es₂ es₃ : List ProxyEvent}
    (hes₁ : (Transition.run ProxyConnection.step new es).left s ≤ es₁.countP (isPump s))
    (hes₂ : 4 ≤ es₂.countP (isPump s.other)) (hes₃ : 4 ≤ es₃.countP isHandle) :
    (∀ s', Closed (Transition.run ProxyConnection.step new (es ++ es₁)) s') ∧
    (∀ s', (Transition.run ProxyConnection.step new (es ++ es₁ ++ es₂)).joined s' = true) ∧
    (Transition.run ProxyConnection.step new (es ++ es₁ ++ es₂ ++ es₃)).pc = .returned := by
  have hfirst : (Transition.run ProxyConnection.step new (es ++ es₁)).joined s = true := by
    rw [Transition.run_append]
    exact joined_run (closing_run es) hover hes₁
  have hclosed := ((closing_run (es ++ es₁)).done s hfirst).2
  have hsecond :
      ∀ s', (Transition.run ProxyConnection.step new (es ++ es₁ ++ es₂)).joined s' = true := by
    intro s'
    rw [Transition.run_append]
    rcases eq_or_other s s' with rfl | rfl
    · exact joined_moves (moves_run _ es₂) hfirst
    · have hover' := Pipe.isOver_of_broken (hclosed s.other).src
      exact joined_run (closing_run (es ++ es₁)) hover' ((left_le_four hclosed _).trans hes₂)
  refine ⟨hclosed, hsecond, ?_⟩
  rw [Transition.run_append]
  exact returned_run hsecond hes₃

/-- The agent closes its side behind one byte. -/
theorem proxy_tears_down_after_byte :
    let es : List ProxyEvent := [.writes .tls [72], .ends .tls]
    let es₁ := List.replicate 5 (ProxyEvent.pump .tls 0)
    let es₂ := List.replicate 4 (ProxyEvent.pump .loopback 0)
    let es₃ := List.replicate 4 ProxyEvent.handle
    ((Transition.run ProxyConnection.step new es).pumps .tls).half.src.isOver = true ∧
    (Transition.run ProxyConnection.step new es).left .tls ≤ es₁.countP (isPump .tls) ∧
    (Transition.run ProxyConnection.step new (es ++ es₁ ++ es₂ ++ es₃)).pc = .returned :=
  ⟨by decide, by decide,
    (proxy_tears_down [.writes .tls [72], .ends .tls] .tls (by decide) (by decide) (by decide)
      (by decide)).2.2⟩

end Urc
