import Urc.Library.Run

/-! # The pipes of the VNC server

`X11Backend` and `WayvncBackend` spawn the VNC server with its output and its errors in pipes.
Nothing reads them while the server is up: its health is a connection to its port, which a frozen
server still takes. Only a start of `X11Backend` that fails reads what is in the error pipe.
-/

namespace Urc

inductive VncStream
  | stdout
  | stderr
  deriving DecidableEq

inductive PipedBackend
  | x11
  | wayvnc
  deriving DecidableEq

/-- The health checks of `start`. -/
def PipedBackend.polls : PipedBackend → ℕ
  | .x11 => 40
  | .wayvnc => 20

/-- A VNC server and its pipes: the bytes that it has tried to write since it was spawned, those in
the pipes, and the rest of a write that the pipe does not take. -/
structure VncServer where
  written : VncStream → ℕ
  unread : VncStream → ℕ
  waiting : Option (VncStream × ℕ)

/-- Where the backend stands with its server: without one, in the polls of `start`, up, reading the
errors of a start that failed, or about to stop it. -/
inductive PipePc
  | idle
  | starting (polls : ℕ)
  | up
  | reading
  | stopping
  deriving DecidableEq

structure VncHost where
  backend : PipedBackend
  pc : PipePc
  server : Option VncServer

inductive PipeEvent
  | spawn
  | write (s : VncStream) (bytes : ℕ)
  | health (ok : Bool)
  | read (bytes : ℕ)
  | exit
  | stop
  deriving DecidableEq

namespace VncServer

def spawned : VncServer := ⟨fun _ => 0, fun _ => 0, none⟩

/-- A blocking write to a pipe that holds `capacity` bytes. -/
def write (capacity : ℕ) (c : VncServer) (s : VncStream) (bytes : ℕ) : VncServer :=
  let room := capacity - c.unread s
  { written := fun t => if t = s then c.written t + bytes else c.written t
    unread := fun t => if t = s then c.unread t + min bytes room else c.unread t
    waiting := if bytes ≤ room then none else some (s, bytes - room) }

/-- The reader takes bytes from the error pipe, and a write that waits for room goes on. -/
def readStderr (capacity : ℕ) (c : VncServer) (bytes : ℕ) : VncServer :=
  let left := c.unread .stderr - bytes
  match c.waiting with
  | some (.stderr, rest) =>
    { c with
      unread := fun t => if t = .stderr then left + min rest (capacity - left) else c.unread t
      waiting := if rest ≤ capacity - left then none else some (.stderr, rest - (capacity - left)) }
  | _ => { c with unread := fun t => if t = .stderr then left else c.unread t }

def pending (c : VncServer) (s : VncStream) : ℕ :=
  match c.waiting with
  | some (t, rest) => if t = s then rest else 0
  | none => 0

end VncServer

namespace VncHost

def new (backend : PipedBackend) : VncHost := ⟨backend, .idle, none⟩

variable (capacity : ℕ)

def step (h : VncHost) : PipeEvent → VncHost
  | .spawn =>
    if h.pc = .idle then { h with pc := .starting 0, server := some .spawned } else h
  | .write s bytes =>
    match h.server with
    -- a server whose last write still waits does not get to another one
    | some c => if c.waiting = none then { h with server := some (c.write capacity s bytes) } else h
    | none => h
  | .health ok =>
    match h.pc with
    | .starting polls =>
      if ok then { h with pc := .up }
      else if polls + 1 < h.backend.polls then { h with pc := .starting (polls + 1) }
      else
        match h.backend with
        | .x11 => { h with pc := .reading }
        | .wayvnc => { h with pc := .stopping }
    | .up => { h with pc := if ok then .up else .stopping }
    | _ => h
  | .read bytes =>
    if h.pc = .reading then
      { h with server := h.server.map fun c => c.readStderr capacity bytes }
    else h
  | .exit => { h with server := none }
  -- the server is killed, at a shutdown also while it is up; a failed start reads to the end of
  -- the error pipe first, which only the exit of the server brings
  | .stop =>
    if h.pc = .up ∨ h.pc = .stopping ∨ h.pc = .reading ∧ h.server.isNone then
      { h with pc := .idle, server := none }
    else h

/-- The server waits for room in a pipe that the agent does not read. -/
def Blocked (h : VncHost) : Prop :=
  ∃ c s rest, h.server = some c ∧ c.waiting = some (s, rest) ∧ ¬ (s = .stderr ∧ h.pc = .reading)

/-- What the server has written since it was spawned fits the pipes; errors count until the agent
reads them. -/
def WithinPipes (h : VncHost) : Prop :=
  ∀ c, h.server = some c → c.written .stdout ≤ capacity ∧
    (h.pc ≠ .reading → c.written .stderr ≤ capacity)

end VncHost

namespace VncServer

variable {capacity bytes : ℕ} {c : VncServer} {s t : VncStream}

/-- Nothing is lost, and a write waits only for a pipe that is full. -/
structure Sound (capacity : ℕ) (c : VncServer) : Prop where
  fits : ∀ s, c.unread s ≤ capacity
  full : ∀ s rest, c.waiting = some (s, rest) → 0 < rest ∧ c.unread s = capacity

def Undrained (c : VncServer) (s : VncStream) : Prop := c.written s = c.unread s + c.pending s

theorem sound_spawned : spawned.Sound capacity :=
  ⟨fun _ => Nat.zero_le _, fun _ _ h => by cases h⟩

theorem undrained_spawned (s : VncStream) : spawned.Undrained s := rfl

theorem Sound.write (hc : c.Sound capacity) : (c.write capacity s bytes).Sound capacity := by
  have hs := hc.fits s
  constructor
  · intro t
    have ht := hc.fits t
    simp only [VncServer.write]
    split_ifs with h
    · subst h
      omega
    · exact ht
  · intro t rest h
    simp only [VncServer.write] at h ⊢
    split_ifs at h with hroom
    simp only [Option.some.injEq, Prod.mk.injEq] at h
    obtain ⟨rfl, rfl⟩ := h
    rw [if_pos rfl]
    omega

theorem Undrained.write (hc : c.Undrained t) (hw : c.waiting = none) :
    (c.write capacity s bytes).Undrained t := by
  have hpend : c.pending t = 0 := by rw [pending, hw]
  rw [Undrained, hpend] at hc
  unfold Undrained pending VncServer.write
  by_cases hroom : bytes ≤ capacity - c.unread s
  · simp only [if_pos hroom]
    split_ifs <;> omega
  · simp only [if_neg hroom, eq_comm (a := s)]
    split_ifs <;> omega

theorem Sound.readStderr (hc : c.Sound capacity) :
    (c.readStderr capacity bytes).Sound capacity := by
  have herr := hc.fits .stderr
  unfold VncServer.readStderr
  split
  · rename_i rest hw
    obtain ⟨hrest, hfull⟩ := hc.full _ _ hw
    constructor
    · intro t
      have ht := hc.fits t
      dsimp only
      split_ifs <;> omega
    · intro t r h
      dsimp only at h ⊢
      split_ifs at h with hroom
      simp only [Option.some.injEq, Prod.mk.injEq] at h
      obtain ⟨rfl, rfl⟩ := h
      rw [if_pos rfl]
      omega
  · rename_i hw
    constructor
    · intro t
      have ht := hc.fits t
      dsimp only
      split_ifs <;> omega
    · intro t r h
      have hne : t ≠ .stderr := fun ht => hw r (ht ▸ h)
      dsimp only at h ⊢
      rw [if_neg hne]
      exact hc.full t r h

theorem Undrained.readStderr (hc : c.Undrained .stdout) :
    (c.readStderr capacity bytes).Undrained .stdout := by
  unfold Undrained pending at hc ⊢
  unfold VncServer.readStderr
  split at hc
  · rename_i t rest hw
    cases t with
    | stdout => simpa [hw] using hc
    | stderr =>
      by_cases hroom : rest ≤ capacity - (c.unread .stderr - bytes)
      · simpa [hw, hroom] using hc
      · simpa [hw, hroom] using hc
  · rename_i hw
    simpa [hw] using hc

/-- As long as nothing is read from a pipe, a write waits for it exactly when more was written than
it holds. -/
theorem Sound.waits_iff (hc : c.Sound capacity) (hs : c.Undrained s) :
    (∃ rest, c.waiting = some (s, rest)) ↔ capacity < c.written s := by
  rw [Undrained, pending] at hs
  constructor
  · rintro ⟨rest, hw⟩
    obtain ⟨hrest, hfull⟩ := hc.full s rest hw
    rw [hw] at hs
    simp only [if_true] at hs
    omega
  · intro hlt
    have hfit := hc.fits s
    split at hs
    · rename_i t rest hw
      split_ifs at hs with ht
      · subst ht
        exact ⟨rest, hw⟩
      · omega
    · omega

end VncServer

namespace VncHost

variable {capacity : ℕ} {h : VncHost} {e : PipeEvent} {c : VncServer}

/-- The pipes of the server, and what has been read from them. -/
structure Piped (capacity : ℕ) (h : VncHost) : Prop where
  sound : ∀ c, h.server = some c → c.Sound capacity
  stdout : ∀ c, h.server = some c → c.Undrained .stdout
  stderr : ∀ c, h.server = some c → h.pc ≠ .reading → c.Undrained .stderr

theorem Piped.keep {pc : PipePc} (hh : h.Piped capacity) (hpc : h.pc ≠ .reading) :
    Piped capacity { h with pc := pc } :=
  ⟨hh.sound, hh.stdout, fun c hc _ => hh.stderr c hc hpc⟩

theorem piped_none (backend : PipedBackend) (pc : PipePc) :
    Piped capacity ⟨backend, pc, none⟩ := by
  constructor <;> rintro c ⟨⟩

theorem Piped.spawn (hh : h.Piped capacity) : (h.step capacity .spawn).Piped capacity := by
  unfold VncHost.step
  dsimp only
  split_ifs
  · constructor
    · rintro _ ⟨⟩
      exact VncServer.sound_spawned
    · rintro _ ⟨⟩
      exact VncServer.undrained_spawned _
    · rintro _ ⟨⟩ _
      exact VncServer.undrained_spawned _
  · exact hh

theorem Piped.write (hh : h.Piped capacity) (s : VncStream) (bytes : ℕ) :
    (h.step capacity (.write s bytes)).Piped capacity := by
  unfold VncHost.step
  dsimp only
  split
  · rename_i c hc
    split_ifs with hw
    · constructor
      · rintro _ ⟨⟩
        exact (hh.sound c hc).write
      · rintro _ ⟨⟩
        exact (hh.stdout c hc).write hw
      · rintro _ ⟨⟩ hpc
        exact (hh.stderr c hc hpc).write hw
    · exact hh
  · exact hh

theorem Piped.health (hh : h.Piped capacity) (ok : Bool) :
    (h.step capacity (.health ok)).Piped capacity := by
  unfold VncHost.step
  dsimp only
  split
  · rename_i polls hpc
    have hne : h.pc ≠ .reading := by simp [hpc]
    split_ifs
    · exact hh.keep hne
    · exact hh.keep hne
    · split
      · exact hh.keep hne
      · exact hh.keep hne
  · rename_i hpc
    exact hh.keep (by simp [hpc])
  · exact hh

theorem Piped.read (hh : h.Piped capacity) (bytes : ℕ) :
    (h.step capacity (.read bytes)).Piped capacity := by
  unfold VncHost.step
  dsimp only
  split_ifs with hpc
  · constructor
    · intro c' hc'
      obtain ⟨c, hc, rfl⟩ := Option.map_eq_some_iff.mp hc'
      exact (hh.sound c hc).readStderr
    · intro c' hc'
      obtain ⟨c, hc, rfl⟩ := Option.map_eq_some_iff.mp hc'
      exact (hh.stdout c hc).readStderr
    · exact fun _ _ hne => absurd hpc hne
  · exact hh

theorem Piped.step (hh : h.Piped capacity) : (h.step capacity e).Piped capacity := by
  cases e with
  | spawn => exact hh.spawn
  | write s bytes => exact hh.write s bytes
  | health ok => exact hh.health ok
  | read bytes => exact hh.read bytes
  | exit => exact piped_none _ _
  | stop =>
    unfold VncHost.step
    dsimp only
    split_ifs
    · exact piped_none _ _
    · exact hh

theorem Piped.blocked_iff (hh : h.Piped capacity) : ¬ h.Blocked ↔ h.WithinPipes capacity := by
  constructor
  · intro hfree c hc
    have hout := (hh.sound c hc).waits_iff (hh.stdout c hc)
    refine ⟨?_, fun hpc => ?_⟩
    · by_contra hlt
      obtain ⟨rest, hw⟩ := hout.mpr (Nat.lt_of_not_le hlt)
      exact hfree ⟨c, _, rest, hc, hw, by simp⟩
    · by_contra hlt
      obtain ⟨rest, hw⟩ :=
        ((hh.sound c hc).waits_iff (hh.stderr c hc hpc)).mpr (Nat.lt_of_not_le hlt)
      exact hfree ⟨c, _, rest, hc, hw, fun hread => hpc hread.2⟩
  · rintro hfit ⟨c, s, rest, hc, hw, hread⟩
    obtain ⟨hout, herr⟩ := hfit c hc
    cases s with
    | stdout =>
      have hlt := ((hh.sound c hc).waits_iff (hh.stdout c hc)).mp ⟨rest, hw⟩
      omega
    | stderr =>
      have hpc : h.pc ≠ .reading := fun hpc => hread ⟨rfl, hpc⟩
      have hlt := ((hh.sound c hc).waits_iff (hh.stderr c hc hpc)).mp ⟨rest, hw⟩
      have hle := herr hpc
      omega

/-- In every run, the server is never blocked on its output exactly as long as what it writes fits
the pipes. -/
theorem never_blocked_iff (capacity : ℕ) (backend : PipedBackend) (es : List PipeEvent) :
    Transition.Always (step capacity) (fun h => ¬ h.Blocked) (new backend) es ↔
      Transition.Always (step capacity) (WithinPipes capacity) (new backend) es := by
  have hinv : ∀ pre, (Transition.run (step capacity) (new backend) pre).Piped capacity := fun pre =>
    Transition.run_invariant (fun _ _ hh => hh.step) (piped_none _ _) pre
  exact forall_congr' fun pre => imp_congr_right fun _ => (hinv pre).blocked_iff

/-- A server that has written one byte too many stays blocked, and stays healthy. -/
theorem blocked_while_healthy : ¬ ∀ (capacity : ℕ) (backend : PipedBackend) (es : List PipeEvent),
    Transition.Always (step capacity) (fun h => ¬ h.Blocked) (new backend) es := by
  intro h
  refine h 65536 .x11 [.spawn, .health true, .write .stderr 65537, .health true] _
    List.prefix_rfl ?_
  refine ⟨_, .stderr, 1, rfl, rfl, ?_⟩
  rintro ⟨-, hpc⟩
  cases hpc

end VncHost

end Urc
