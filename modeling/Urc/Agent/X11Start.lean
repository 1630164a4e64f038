import Urc.Common.Text
import Urc.Library.Run

/-! # The start of the X11 backend

`X11Backend::start` runs a few commands, spawns the VNC server, and polls its port forty times.
When no poll succeeds it asks for the reason: it reads the errors of the server to their end, and
only then kills it. The end of the errors comes with the exit of the server.
-/

namespace Urc

/-- The await at which `start` stands. `left` counts the polls behind the present one. -/
inductive StartPc
  | stoppingStale
  | settling
  | probingDisplay
  | testingPassword
  | askingUid
  | askingGid
  | startingGuard
  | sleeping (left : ℕ)
  | polling (left : ℕ)
  | readingStderr
  | killing
  | waiting
  | askingHostname
  | readingLog
  | returned (result : Except String Unit)
  deriving DecidableEq

/-- `running` and `listening` are the state of the VNC server, `stderr` what it has written and
nobody has read. -/
structure X11Start where
  display : String
  username : String
  serverKeyRepeat : Bool
  pc : StartPc
  polls : ℕ
  running : Bool
  listening : Bool
  stderr : List Char
  reason : String

/-- `done` ends the await of `start`: whether the awaited action succeeded, and the text that it
gives. The others are the doings of the VNC server. -/
inductive StartEvent
  | done (ok : Bool) (text : String)
  | listens
  | writes (text : String)
  | exits

/-- `lines().last().unwrap_or("")`. -/
def lastLine (s : String) : String :=
  if s.toList.getLast? = some '\n' then
    let line := s.toList.dropLast.rtakeWhile (· ≠ '\n')
    .ofList (if line.getLast? = some '\r' then line.dropLast else line)
  else .ofList (s.toList.rtakeWhile (· ≠ '\n'))

namespace X11Start

/-- `start` at its first await, if the VNC server is installed. -/
def new (display username : String) (serverKeyRepeat : Bool) (vncBin : Option String) : X11Start :=
  { display, username, serverKeyRepeat
    pc := match vncBin with
      | some _ => .stoppingStale
      | none => .returned (.error ("screen VNC server not found (need x0tigervncserver).\n" ++
          "On Ubuntu: sudo apt install tigervnc-scraping-server tigervnc-common\n" ++
          "Or re-run: curl -fsSL …/install | sudo bash -s -- --role agent"))
    polls := 0, running := false, listening := false, stderr := [], reason := "" }

def fail (s : X11Start) (error : String) : X11Start := { s with pc := .returned (.error error) }

def spawn (s : X11Start) : X11Start :=
  { s with pc := .sleeping 39, running := true, listening := false, stderr := [] }

/-- `bail!` behind the polls. -/
def bail (s : X11Start) (reason : String) : X11Start :=
  let detail := if reason = "" then "no stderr from VNC process" else reason
  s.fail ("screen VNC failed on port 5900 (user=" ++ s.username ++ ", display=" ++ s.display ++
    "): " ++ detail)

/-- `start_repeat_guard`, which does not wait when the server may repeat keys. -/
def startRepeatGuard (s : X11Start) : X11Start :=
  if s.serverKeyRepeat then s.spawn else { s with pc := .startingGuard }

/-- The error of `display_accessible`. -/
def displayError (s : X11Start) (stderr : String) : String :=
  if "Maximum number of clients reached".toList <:+: stderr.toList then
    "X display " ++ s.display ++ " is saturated. Stop urc-agent, wait 60s, then start again."
  else "cannot access X display " ++ s.display ++ " for user " ++ s.username ++ ": " ++ trim stderr

/-- `start` behind its await. -/
def done (s : X11Start) (ok : Bool) (text : String) : X11Start :=
  match s.pc with
  | .stoppingStale => { s with pc := .settling }
  | .settling => { s with pc := .probingDisplay }
  | .probingDisplay =>
    if ok then { s with pc := .testingPassword } else s.fail (s.displayError text)
  | .testingPassword => if ok then s.startRepeatGuard else { s with pc := .askingUid }
  | .askingUid => if ok then { s with pc := .askingGid } else s.fail text
  | .askingGid => if ok then s.startRepeatGuard else s.fail text
  | .startingGuard => if ok then s.spawn else s.fail text
  | .sleeping left => { s with pc := .polling left }
  | .polling left =>
    let s := { s with polls := s.polls + 1 }
    -- `ok` is the guard, which must not have exited
    if ok && s.listening then { s with pc := .returned (.ok ()) }
    else
      match left with
      | left + 1 => { s with pc := .sleeping left }
      | 0 => { s with pc := .readingStderr }
  -- the pipe ends when the server has exited
  | .readingStderr =>
    if s.running then s
    else { s with pc := .killing, reason := trim (.ofList s.stderr), stderr := [] }
  | .killing => { s with pc := .waiting, running := false, listening := false }
  | .waiting => if s.reason = "" then { s with pc := .askingHostname } else s.bail s.reason
  | .askingHostname => { s with pc := .readingLog }
  | .readingLog => s.bail (if ok then lastLine text else "")
  | .returned _ => s

def step (s : X11Start) : StartEvent → X11Start
  | .done ok text => s.done ok text
  | .listens => if s.running then { s with listening := true } else s
  | .writes text => if s.running then { s with stderr := s.stderr ++ text.toList } else s
  | .exits => { s with running := false, listening := false }

/-- The await ends with the exit of a server that is not killed yet. -/
def AwaitsExit (s : X11Start) : Prop := s.pc = .readingStderr ∧ s.running = true

instance (s : X11Start) : Decidable s.AwaitsExit :=
  inferInstanceAs (Decidable (s.pc = .readingStderr ∧ s.running = true))

def Returned (s : X11Start) : Prop := ∃ result, s.pc = .returned result

def ExitsFirst (s : X11Start) : StartEvent → Prop
  | .done ok _ => s.pc = .polling 0 → (ok && s.listening) = false → s.running = false
  | _ => True

end X11Start

namespace StartPc

def rank : StartPc → ℕ
  | .stoppingStale => 93
  | .settling => 92
  | .probingDisplay => 91
  | .testingPassword => 90
  | .askingUid => 89
  | .askingGid => 88
  | .startingGuard => 87
  | .sleeping left => 7 + 2 * left
  | .polling left => 6 + 2 * left
  | .readingStderr => 5
  | .killing => 4
  | .waiting => 3
  | .askingHostname => 2
  | .readingLog => 1
  | .returned _ => 0

def pollsLeft : StartPc → ℕ
  | .sleeping left | .polling left => left + 1
  | .readingStderr | .killing | .waiting | .askingHostname | .readingLog | .returned _ => 0
  | _ => 40

end StartPc

def StartEvent.isDone : StartEvent → Bool
  | .done _ _ => true
  | _ => false

namespace X11Start

/-- In every state of the run `start` awaits something else than the exit of the server, has made
at most forty polls, and has returned if ninety-three awaits have ended. -/
def ReturnsBy (s : X11Start) (es : List StartEvent) : Prop :=
  ∀ pre, pre <+: es → ¬ (Transition.run step s pre).AwaitsExit ∧
    (Transition.run step s pre).polls ≤ 40 ∧
    (93 ≤ pre.countP StartEvent.isDone → (Transition.run step s pre).Returned)

variable {s s' : X11Start} {e : StartEvent} {es : List StartEvent} {ok : Bool} {text : String}

/-- What the end of an await brings: `start` returns or gets to another await, and counts its
polls. -/
structure Progress (s s' : X11Start) : Prop where
  rank : s'.pc.rank + 1 ≤ s.pc.rank ∨ s.Returned ∧ s'.Returned
  polls : s'.polls + s'.pc.pollsLeft ≤ s.polls + s.pc.pollsLeft

theorem progress_of {pc : StartPc} (pc' : StartPc) (hpc : s.pc = pc) (hpc' : s'.pc = pc')
    (hpolls : s'.polls = s.polls) (hrank : pc'.rank < pc.rank)
    (hleft : pc'.pollsLeft ≤ pc.pollsLeft) : s.Progress s' := by
  constructor
  · rw [hpc, hpc']
    exact .inl hrank
  · rw [hpc, hpc', hpolls]
    exact Nat.add_le_add_left hleft _

theorem poll_progress {left : ℕ} (pc' : StartPc) (hpc : s.pc = .polling left) (hpc' : s'.pc = pc')
    (hpolls : s'.polls = s.polls + 1) (hrank : pc'.rank ≤ 5 + 2 * left)
    (hleft : pc'.pollsLeft ≤ left) : s.Progress s' := by
  have hrank₀ : s.pc.rank = 6 + 2 * left := by rw [hpc]; rfl
  have hleft₀ : s.pc.pollsLeft = left + 1 := by rw [hpc]; rfl
  constructor
  · rw [hpc', hrank₀]
    omega
  · rw [hpc', hpolls, hleft₀]
    omega

theorem fail_progress {pc : StartPc} {error : String} (hpc : s.pc = pc) (hrank : 0 < pc.rank) :
    s.Progress (s.fail error) :=
  progress_of (.returned (.error error)) hpc rfl rfl hrank (Nat.zero_le _)

theorem startRepeatGuard_progress {pc : StartPc} (hpc : s.pc = pc) (hrank : 87 < pc.rank)
    (hleft : pc.pollsLeft = 40) : s.Progress s.startRepeatGuard := by
  unfold startRepeatGuard
  split_ifs
  · exact progress_of (.sleeping 39) hpc rfl rfl (Nat.lt_trans (by decide) hrank) hleft.ge
  · exact progress_of .startingGuard hpc rfl rfl hrank hleft.ge

theorem done_progress (hs : ¬ s.AwaitsExit) : s.Progress (s.done ok text) := by
  unfold done
  cases hpc : s.pc with
  | stoppingStale => exact progress_of .settling hpc rfl rfl (by decide) (by decide)
  | settling => exact progress_of .probingDisplay hpc rfl rfl (by decide) (by decide)
  | probingDisplay =>
    dsimp only
    split_ifs
    · exact progress_of .testingPassword hpc rfl rfl (by decide) (by decide)
    · exact fail_progress hpc (by decide)
  | testingPassword =>
    dsimp only
    split_ifs
    · exact startRepeatGuard_progress hpc (by decide) rfl
    · exact progress_of .askingUid hpc rfl rfl (by decide) (by decide)
  | askingUid =>
    dsimp only
    split_ifs
    · exact progress_of .askingGid hpc rfl rfl (by decide) (by decide)
    · exact fail_progress hpc (by decide)
  | askingGid =>
    dsimp only
    split_ifs
    · exact startRepeatGuard_progress hpc (by decide) rfl
    · exact fail_progress hpc (by decide)
  | startingGuard =>
    dsimp only
    split_ifs
    · exact progress_of (.sleeping 39) hpc rfl rfl (by decide) (by decide)
    · exact fail_progress hpc (by decide)
  | sleeping left =>
    refine progress_of (.polling left) hpc rfl rfl ?_ (le_refl _)
    simp only [StartPc.rank]
    omega
  | polling left =>
    dsimp only
    split_ifs
    · exact poll_progress (.returned (.ok ())) hpc rfl rfl (Nat.zero_le _) (Nat.zero_le _)
    · cases left with
      | zero => exact poll_progress .readingStderr hpc rfl rfl (by decide) (by decide)
      | succ left =>
        refine poll_progress (.sleeping left) hpc rfl rfl ?_ (le_refl _)
        simp only [StartPc.rank]
        omega
  | readingStderr =>
    have hexit : ¬ s.running = true := fun hr => hs ⟨hpc, hr⟩
    dsimp only
    rw [if_neg hexit]
    exact progress_of .killing hpc rfl rfl (by decide) (by decide)
  | killing => exact progress_of .waiting hpc rfl rfl (by decide) (by decide)
  | waiting =>
    dsimp only
    split_ifs
    · exact progress_of .askingHostname hpc rfl rfl (by decide) (by decide)
    · exact fail_progress hpc (by decide)
  | askingHostname => exact progress_of .readingLog hpc rfl rfl (by decide) (by decide)
  | readingLog => exact fail_progress hpc (by decide)
  | returned result => exact ⟨.inr ⟨⟨result, hpc⟩, result, hpc⟩, le_refl _⟩

theorem step_server (he : e.isDone = false) :
    (s.step e).pc = s.pc ∧ (s.step e).polls = s.polls := by
  cases e with
  | done ok text => cases he
  | listens =>
    simp only [step]
    split_ifs <;> exact ⟨rfl, rfl⟩
  | writes text =>
    simp only [step]
    split_ifs <;> exact ⟨rfl, rfl⟩
  | exits => exact ⟨rfl, rfl⟩

theorem returned_of_rank (h : s.pc.rank = 0) : s.Returned := by
  cases hpc : s.pc with
  | returned result => exact ⟨result, hpc⟩
  | sleeping left =>
    rw [hpc, StartPc.rank] at h
    omega
  | polling left =>
    rw [hpc, StartPc.rank] at h
    omega
  | _ =>
    rw [hpc] at h
    cases h

/-- A run in which `start` never awaits the exit of the server. -/
theorem progress_run (s : X11Start) (es : List StartEvent)
    (hs : Transition.Always step (fun s => ¬ s.AwaitsExit) s es) :
    ((Transition.run step s es).pc.rank + es.countP StartEvent.isDone ≤ s.pc.rank ∨
        (Transition.run step s es).Returned) ∧
      (Transition.run step s es).polls + (Transition.run step s es).pc.pollsLeft ≤
        s.polls + s.pc.pollsLeft := by
  induction es generalizing s with
  | nil => exact ⟨.inl (le_refl _), le_refl _⟩
  | cons e es ih =>
    rw [Transition.always_cons] at hs
    obtain ⟨hrank, hpolls⟩ := ih _ hs.2
    rw [Transition.run_cons, List.countP_cons]
    cases he : e.isDone with
    | true =>
      obtain ⟨ok, text, rfl⟩ : ∃ ok text, e = .done ok text := by
        cases e <;> first | exact ⟨_, _, rfl⟩ | cases he
      have hstep : s.Progress (step s (.done ok text)) := done_progress hs.1
      refine ⟨?_, hpolls.trans hstep.polls⟩
      rcases hrank with hrank | hret
      · rcases hstep.rank with hlt | ⟨-, result, hpc⟩
        · left
          simp only [if_true]
          omega
        · right
          rw [hpc, StartPc.rank] at hrank
          exact returned_of_rank (by omega)
      · exact .inr hret
    | false =>
      obtain ⟨hpc, hp⟩ := step_server (s := s) he
      rw [hpc] at hrank
      rw [hpc, hp] at hpolls
      exact ⟨by simpa using hrank, hpolls⟩

/-! ### The failure of the last poll -/

theorem startRepeatGuard_pc : s.startRepeatGuard.pc ≠ .readingStderr := by
  unfold startRepeatGuard
  split_ifs <;> simp [spawn]

theorem done_awaitsExit (hs : ¬ s.AwaitsExit) : (s.done ok text).AwaitsExit ↔
    s.pc = .polling 0 ∧ (ok && s.listening) = false ∧ s.running = true := by
  have hguard : ¬ s.startRepeatGuard.AwaitsExit := fun h => startRepeatGuard_pc h.1
  cases hpc : s.pc with
  | polling left =>
    simp only [done, hpc]
    cases hup : ok && s.listening with
    | true => simp [AwaitsExit]
    | false => cases left <;> simp [AwaitsExit]
  | readingStderr =>
    have hexit : ¬ s.running = true := fun hr => hs ⟨hpc, hr⟩
    simp [done, hpc, hexit, AwaitsExit]
  | returned result => simp [done, hpc, AwaitsExit]
  | testingPassword => cases ok <;> simp_all [done, AwaitsExit]
  | askingGid => cases ok <;> simp_all [done, fail, AwaitsExit]
  | waiting =>
    simp only [done, hpc]
    split_ifs <;> simp [AwaitsExit, bail, fail]
  | _ => cases ok <;> simp [done, hpc, AwaitsExit, fail, bail, spawn]

/-- `start` gets to the errors of a running server only by the failure of the last poll. -/
theorem step_awaitsExit (hs : ¬ s.AwaitsExit) : (s.step e).AwaitsExit ↔ ¬ s.ExitsFirst e := by
  cases e with
  | done ok text =>
    rw [step, done_awaitsExit hs, ExitsFirst]
    simp
  | listens =>
    simp only [step, ExitsFirst, not_true, iff_false]
    split_ifs <;> exact hs
  | writes text =>
    simp only [step, ExitsFirst, not_true, iff_false]
    split_ifs <;> exact hs
  | exits => simp [step, ExitsFirst, AwaitsExit]

theorem new_bounds (display username : String) (serverKeyRepeat : Bool) (vncBin : Option String) :
    ¬ (new display username serverKeyRepeat vncBin).AwaitsExit ∧
      (new display username serverKeyRepeat vncBin).pc.rank ≤ 93 ∧
      (new display username serverKeyRepeat vncBin).polls +
        (new display username serverKeyRepeat vncBin).pc.pollsLeft ≤ 40 := by
  cases vncBin with
  | none => exact ⟨fun h => (nomatch h.2), Nat.zero_le _, Nat.zero_le _⟩
  | some bin => exact ⟨fun h => (nomatch h.2), le_refl _, le_refl _⟩

/-- `start` returns in time, whatever the server does, exactly if the server has exited whenever
the last poll fails. -/
theorem start_returns_iff (display username : String) (serverKeyRepeat : Bool)
    (vncBin : Option String) (es : List StartEvent) :
    ReturnsBy (new display username serverKeyRepeat vncBin) es ↔
      Transition.Steps step ExitsFirst (new display username serverKeyRepeat vncBin) es := by
  obtain ⟨hfree, hrank, hpolls⟩ := new_bounds display username serverKeyRepeat vncBin
  generalize new display username serverKeyRepeat vncBin = s at hfree hrank hpolls
  have hiff : Transition.Always step (fun s => ¬ s.AwaitsExit) s es ↔
      Transition.Steps step ExitsFirst s es :=
    Transition.always_iff_steps_of_all
      (fun _ _ hs hgood => fun h => (step_awaitsExit hs).mp h hgood) (fun _ hs => hs)
      (fun _ _ hs hnot => not_not.mp fun hgood => hnot ((step_awaitsExit hs).mpr hgood)) hfree
  refine ⟨fun h => hiff.mp fun pre hp => (h pre hp).1, fun h pre hp => ?_⟩
  have hrun := hiff.mpr h
  obtain ⟨hend, hcount⟩ := progress_run s pre fun pre' hp' => hrun pre' (hp'.trans hp)
  refine ⟨hrun pre hp, by omega, fun hdone => ?_⟩
  rcases hend with hend | hret
  · exact returned_of_rank (by omega)
  · exact hret

/-- A server that listens at the third poll. -/
example : (Transition.run step (new ":0" "desk" true (some "x0tigervncserver"))
    (List.replicate 8 (.done true "") ++ [.listens, .done true "", .done true ""])).pc =
      .returned (.ok ()) := by
  rfl

/-- A server that runs without ever listening: `start` reads its errors, and neither kills it nor
returns. -/
theorem start_hangs : ¬ ∀ es : List StartEvent,
    ReturnsBy (new ":0" "desk" true (some "x0tigervncserver")) es := by
  intro h
  exact (h (List.replicate 84 (.done true "")) _ List.prefix_rfl).1 (by decide +kernel)

end X11Start

end Urc
